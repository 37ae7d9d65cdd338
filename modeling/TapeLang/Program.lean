import TapeLang.Rule.Table

/-! Programs: a tape, a state, a head position and a rule table. Running a program changes the first
three. Main statements: the key that serves a symbol is a candidate which the table has,
`rules_of_resolve`, and no key serves it exactly if no key of the table accepts both the symbol and the
state, `resolve_eq_none_iff`. -/

namespace TapeLang

structure Program where
  tape : List Symbol := []
  state : State := ""
  head : Int := 0
  rules : RuleTable := ∅
  deriving DecidableEq, Inhabited

namespace Program

def resolve (p : Program) (symbol : Symbol) : Option (Key × Rule) :=
  (Key.candidates symbol p.state).findSome? fun k => p.rules[k]?.map fun r => (k, r)

def hasHaltRule (p : Program) : Bool :=
  p.rules.toList.any fun r => r.2.isHalt

theorem rules_of_resolve {p : Program} {symbol : Symbol} {k : Key} {r : Rule}
    (h : p.resolve symbol = some (k, r)) :
    k ∈ Key.candidates symbol p.state ∧ p.rules[k]? = some r := by
  obtain ⟨c, hc, he⟩ := List.exists_of_findSome?_eq_some h
  obtain ⟨s, hs, heq⟩ := Option.map_eq_some_iff.1 he
  cases heq
  exact ⟨hc, hs⟩

theorem accepts_of_resolve {p : Program} {symbol : Symbol} {k : Key} {r : Rule}
    (h : p.resolve symbol = some (k, r)) : k.state.accepts p.state = true :=
  (Key.mem_candidates.1 (rules_of_resolve h).1).2

theorem resolve_eq_none_iff {p : Program} {symbol : Symbol} :
    p.resolve symbol = none ↔
      ∀ k ∈ p.rules, ¬ (k.symbol.accepts symbol = true ∧ k.state.accepts p.state = true) := by
  have hc : p.resolve symbol = none ↔ ∀ k ∈ Key.candidates symbol p.state, k ∉ p.rules := by
    simp [resolve, List.findSome?_eq_none_iff]
  rw [hc]
  constructor
  · exact fun h k hk ha => h k (Key.mem_candidates.2 ha) hk
  · exact fun h k hk hm => h k hm (Key.mem_candidates.1 hk)

theorem hasHaltRule_iff {p : Program} :
    p.hasHaltRule = true ↔ ∃ k : Key, p.rules[k]? = some .halt := by
  simp only [hasHaltRule, List.any_eq_true, Prod.exists, Std.ExtTreeMap.mem_toList_iff_getElem?_eq_some]
  constructor
  · rintro ⟨k, _ | t, hr, hh⟩
    · exact ⟨k, hr⟩
    · cases hh
  · rintro ⟨k, hr⟩
    exact ⟨k, .halt, hr, rfl⟩

end Program

end TapeLang
