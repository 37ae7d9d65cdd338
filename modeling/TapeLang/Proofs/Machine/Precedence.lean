import TapeLang.Program

/-! Which rule serves a symbol. Of the keys in a table that match the symbol and the state, the one of the
least rank is found, `resolve_most_specific`. Two keys that match the same symbol and state differ in
rank, so no other one could be meant; the ranks are those of the candidates in the order in which they are
looked up, `pairwise_rank_candidates`. -/

namespace TapeLang

namespace Key

def Matches (k : Key) (symbol : Symbol) (state : State) : Prop :=
  k.symbol.accepts symbol = true ∧ k.state.accepts state = true

/-- How far a key stands behind an exact one. A key for a state by name comes before one for a symbol by
name. -/
def rank : Key → Nat
  | ⟨.literal _, .literal _⟩ => 0
  | ⟨.any, .literal _⟩ => 1
  | ⟨.literal _, .any⟩ => 2
  | ⟨.any, .any⟩ => 3

theorem pairwise_rank_candidates (symbol : Symbol) (state : State) :
    (candidates symbol state).Pairwise fun k k' => k.rank < k'.rank := by
  simp [candidates, rank]

end Key

namespace Program

variable {p : Program} {symbol : Symbol} {k : Key} {r : Rule}

theorem mem_rules (h : p.rules[k]? = some r) : k ∈ p.rules := by
  rw [Std.ExtTreeMap.mem_iff_isSome_getElem?, h]
  rfl

/-- A key that matches as well and was not found stands behind the one that was. -/
theorem rank_lt_of_resolve (h : p.resolve symbol = some (k, r)) {k' : Key} (hk' : k' ∈ p.rules)
    (hm : k'.Matches symbol p.state) (hne : k' ≠ k) : k.rank < k'.rank := by
  obtain ⟨before, c, behind, hsplit, hc, hbefore⟩ := List.findSome?_eq_some_iff.1 h
  obtain ⟨s, _, heq⟩ := Option.map_eq_some_iff.1 hc
  cases heq
  have hsorted := Key.pairwise_rank_candidates symbol p.state
  have hmem := Key.mem_candidates.2 hm
  rw [hsplit] at hsorted hmem
  -- in front of the key that was found there are only candidates that the table lacks
  have hafter : k' ∈ behind := by
    rcases List.mem_append.1 hmem with hb | hb
    · have hnone := Option.map_eq_none_iff.1 (hbefore k' hb)
      rw [Std.ExtTreeMap.mem_iff_isSome_getElem?, hnone] at hk'
      cases hk'
    · exact (List.mem_cons.1 hb).resolve_left hne
  exact List.rel_of_pairwise_cons (List.pairwise_append.1 hsorted).2.1 hafter

/-- No rule is found exactly if no key of the table matches. Otherwise it is the rule of the matching key that
every other one comes behind, in the order exact, any symbol in a given state, a given symbol in any
state, anything. -/
theorem resolve_most_specific (p : Program) (symbol : Symbol) :
    (p.resolve symbol = none ↔ ∀ k ∈ p.rules, ¬ k.Matches symbol p.state) ∧
      ∀ k r, p.resolve symbol = some (k, r) ↔
        p.rules[k]? = some r ∧ k.Matches symbol p.state ∧
          ∀ k' ∈ p.rules, k'.Matches symbol p.state → k' ≠ k → k.rank < k'.rank := by
  refine ⟨resolve_eq_none_iff, fun k r => ⟨?_, ?_⟩⟩
  · intro h
    obtain ⟨hc, hr⟩ := rules_of_resolve h
    exact ⟨hr, Key.mem_candidates.1 hc, fun k' => rank_lt_of_resolve h⟩
  · rintro ⟨hr, hm, hleast⟩
    have hk : k ∈ p.rules := mem_rules hr
    cases h : p.resolve symbol with
    | none => exact absurd hm (resolve_eq_none_iff.1 h k hk)
    | some found =>
      obtain ⟨k', r'⟩ := found
      obtain ⟨hc, hr'⟩ := rules_of_resolve h
      by_cases he : k' = k
      · subst he
        obtain rfl : r' = r := Option.some.inj (hr'.symm.trans hr)
        rfl
      · have hlt := hleast k' (mem_rules hr') (Key.mem_candidates.1 hc) he
        exact absurd (rank_lt_of_resolve h hk hm (Ne.symm he)) (Nat.lt_asymm hlt)

/-- A program with a literal star for a symbol, which is not the pattern for any symbol. -/
def starred : Program where
  state := "S"
  rules := RuleTable.ofRules
    [(⟨.literal "*", .literal "S"⟩, .halt), (⟨.literal "a", .any⟩, .halt), (⟨.any, .any⟩, .halt)]

theorem resolve_most_specific_starred :
    starred.resolve "a" = some (⟨.literal "a", .any⟩, .halt) ∧
      (∀ k ∈ starred.rules, k.Matches "a" "S" → k ≠ ⟨.literal "a", .any⟩ →
        Key.rank ⟨.literal "a", .any⟩ < k.rank) ∧
      starred.resolve "*" = some (⟨.literal "*", .literal "S"⟩, .halt) := by
  have h : starred.resolve "a" = some (⟨.literal "a", .any⟩, .halt) := by decide
  obtain ⟨_, _, hleast⟩ := ((resolve_most_specific starred "a").2 _ _).1 h
  exact ⟨h, hleast, by decide⟩

end Program

end TapeLang
