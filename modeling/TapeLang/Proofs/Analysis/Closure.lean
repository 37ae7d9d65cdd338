import Mathlib.Data.Finset.Card
import Mathlib.Order.Bounds.Basic
import TapeLang.Analysis.Warning
import TapeLang.Proofs.Analysis.Search
import TapeLang.Proofs.Source.Listing

/-! Which states are reported as unreachable. The states that rules lead to are the least set that has the
current state and is closed under the rules, `isLeast_reaches`. A depth-first search that keeps a stack
and the states seen ends with the same set in whatever order the rules are listed, `exists_toEnd`: a turn
sees a state that was left to see, or takes one from the stack and puts none on it. -/

namespace TapeLang

/-- A depth-first search under way: the states to look at, the next one first, and those looked at. -/
structure DepthFirst where
  stack : List State
  seen : Std.ExtTreeSet State

namespace DepthFirst

def start (s : State) : DepthFirst := ⟨[s], ∅⟩

/-- Takes the next state from the stack. One that is new puts those on it that it leads to and that are not
seen yet, so that the last of them comes next. -/
def turn (next : State → List State) (d : DepthFirst) : Option DepthFirst :=
  match d.stack with
  | [] => none
  | s :: rest =>
    if s ∈ d.seen then some { d with stack := rest }
    else
      let seen := d.seen.insert s
      some ⟨((next s).filter fun t => t ∉ seen).reverse ++ rest, seen⟩

/-- The states seen once the stack is empty. A search that goes on for ever has no result. -/
def toEnd (next : State → List State) (d : DepthFirst) : Option (Std.ExtTreeSet State) :=
  match d.turn next with
  | some e => e |>.toEnd next
  | none => some d.seen
partial_fixpoint

def Met (d : DepthFirst) (s : State) : Prop :=
  s ∈ d.seen ∨ s ∈ d.stack

/-- The states on the stack or among the named ones that are not seen yet. -/
def left (named : List State) (d : DepthFirst) : Finset State :=
  (d.stack ++ named).toFinset.filter (· ∉ d.seen)

variable {next : State → List State} {named : List State} {d e : DepthFirst} {s t : State}

theorem mem_left : s ∈ d.left named ↔ (s ∈ d.stack ∨ s ∈ named) ∧ s ∉ d.seen := by
  simp [left]

theorem mem_insert {seen : Std.ExtTreeSet State} : t ∈ seen.insert s ↔ t = s ∨ t ∈ seen := by
  rw [Std.ExtTreeSet.mem_insert, Std.LawfulEqCmp.compare_eq_iff_eq, eq_comm]

/-- A turn either drops a state that is seen already, or sees it and comes upon those that it leads to. -/
theorem turn_cases (h : d.turn next = some e) :
    ∃ s rest, d.stack = s :: rest ∧
      ((s ∈ d.seen ∧ e = ⟨rest, d.seen⟩) ∨
        (s ∉ d.seen ∧ e.seen = d.seen.insert s ∧
          ∀ t, t ∈ e.stack ↔ (t ∈ next s ∧ t ∉ e.seen) ∨ t ∈ rest)) := by
  unfold turn at h
  split at h
  · cases h
  · next s rest hd =>
    refine ⟨s, rest, hd, ?_⟩
    split at h
    · next hs =>
      cases h
      exact .inl ⟨hs, rfl⟩
    · next hs =>
      cases h
      exact .inr ⟨hs, rfl, fun t => by simp⟩

theorem stack_of_turn_eq_none (h : d.turn next = none) : d.stack = [] := by
  unfold turn at h
  split at h
  · next hd => exact hd
  · split at h
    · cases h
    · cases h

theorem left_subset_of_turn (hn : ∀ s, ∀ t ∈ next s, t ∈ named) (h : d.turn next = some e) :
    e.left named ⊆ d.left named := by
  intro t ht
  rw [mem_left] at ht ⊢
  obtain ⟨ht, hunseen⟩ := ht
  obtain ⟨s, rest, hd, ⟨_, rfl⟩ | ⟨_, hseen, hstack⟩⟩ := turn_cases h
  · rw [hd, List.mem_cons]
    exact ⟨ht.imp_left .inr, hunseen⟩
  · rw [hd, List.mem_cons]
    refine ⟨?_, fun hm => hunseen (by rw [hseen]; exact mem_insert.2 (.inr hm))⟩
    rcases ht with ht | ht
    · rcases (hstack t).1 ht with ⟨hnext, _⟩ | hrest
      · exact .inr (hn s t hnext)
      · exact .inl (.inr hrest)
    · exact .inr ht

/-- A turn lowers the number of states that are left to see, or leaves that and takes one from the stack. -/
theorem lex_turn (hn : ∀ s, ∀ t ∈ next s, t ∈ named) (h : d.turn next = some e) :
    Prod.Lex (· < ·) (· < ·) ((e.left named).card, e.stack.length)
      ((d.left named).card, d.stack.length) := by
  have hsub := left_subset_of_turn hn h
  obtain ⟨s, rest, hd, ⟨hs, rfl⟩ | ⟨hs, hseen, _⟩⟩ := turn_cases h
  · apply Prod.Lex.right' _ (Finset.card_le_card hsub)
    rw [hd]
    exact Nat.lt_succ_self _
  · have hmem : s ∈ d.left named := mem_left.2 ⟨.inl (by simp [hd]), hs⟩
    have hgone : s ∉ e.left named := fun hm =>
      (mem_left.1 hm).2 (by rw [hseen]; exact mem_insert.2 (.inl rfl))
    exact Prod.Lex.left _ _ (Finset.card_lt_card ⟨hsub, fun hle => hgone (hle hmem)⟩)

end DepthFirst

namespace Program

variable {p : Program} {next : State → List State} {d e : DepthFirst} {s t : State}

/-- The set has the current state and, with each state, the next states of the rules that are for it. -/
structure Closed (p : Program) (R : Set State) : Prop where
  current : p.state ∈ R
  next : ∀ s ∈ R, ∀ (k : Key) (r : Rule) (t : State),
    p.rules[k]? = some r → k.state.accepts s = true → r.next? = some t → t ∈ R

theorem isLeast_reaches (p : Program) : IsLeast {R | p.Closed R} {s | p.Reaches s} := by
  refine ⟨⟨.current, fun s hs k r t hr hk ht => .next hs hr hk ht⟩, ?_⟩
  intro R hR s hs
  induction hs with
  | current => exact hR.current
  | next _ hr hk ht ih => exact hR.next _ ih _ _ _ hr hk ht

/-- What a search for the states of a program keeps: it comes upon no state that rules do not lead to, and
misses none behind the states that it has seen. -/
structure Searches (p : Program) (d : DepthFirst) : Prop where
  reaches : ∀ s, d.Met s → p.Reaches s
  current : d.Met p.state
  next : ∀ s ∈ d.seen, ∀ t ∈ p.successors s, d.Met t

theorem searches_start (p : Program) : p.Searches (.start p.state) where
  reaches s hs := by
    rcases hs with hs | hs
    · exact absurd hs Std.ExtTreeSet.not_mem_empty
    · rw [List.mem_singleton.1 hs]
      exact .current
  current := .inr (List.mem_singleton.2 rfl)
  next s hs := absurd hs Std.ExtTreeSet.not_mem_empty

theorem Searches.mem_seen_iff (h : p.Searches d) (hd : d.stack = []) : s ∈ d.seen ↔ p.Reaches s := by
  have hmet (t : State) : d.Met t ↔ t ∈ d.seen := by simp [DepthFirst.Met, hd]
  constructor
  · exact fun hs => h.reaches s ((hmet s).2 hs)
  · intro hs
    induction hs with
    | current => exact (hmet _).1 h.current
    | next _ hr hk ht ih => exact (hmet _).1 (h.next _ ih _ (mem_successors.2 ⟨_, _, hr, hk, ht⟩))

section Next

variable (hn : ∀ s t, t ∈ next s ↔ t ∈ p.successors s)

include hn

theorem Searches.turn (h : p.Searches d) (ht : d.turn next = some e) : p.Searches e := by
  obtain ⟨s, rest, hd, ⟨hs, rfl⟩ | ⟨hs, hseen, hstack⟩⟩ := DepthFirst.turn_cases ht
  · have hmet (t : State) : d.Met t ↔ DepthFirst.Met ⟨rest, d.seen⟩ t := by
      simp only [DepthFirst.Met, hd, List.mem_cons]
      constructor
      · rintro (h | rfl | h)
        · exact .inl h
        · exact .inl hs
        · exact .inr h
      · exact Or.imp_right .inr
    exact ⟨fun t ht => h.reaches t ((hmet t).2 ht), (hmet _).1 h.current,
      fun u hu t ht => (hmet t).1 (h.next u hu t ht)⟩
  · have hmet (t : State) : e.Met t ↔ d.Met t ∨ t ∈ next s := by
      simp only [DepthFirst.Met, hd, hstack, hseen, DepthFirst.mem_insert, List.mem_cons]
      tauto
    have hreach : p.Reaches s := h.reaches s (.inr (by simp [hd]))
    refine ⟨?_, (hmet _).2 (.inl h.current), ?_⟩
    · intro t ht
      rcases (hmet t).1 ht with ht | ht
      · exact h.reaches t ht
      · exact hreach.successor ((hn s t).1 ht)
    · intro u hu t ht
      rw [hseen] at hu
      rcases DepthFirst.mem_insert.1 hu with rfl | hu
      · exact (hmet t).2 (.inr ((hn u t).2 ht))
      · exact (hmet t).2 (.inl (h.next u hu t ht))

/-- The search ends, and it has then seen exactly the states that rules lead to. -/
theorem Searches.exists_toEnd {d : DepthFirst} (h : p.Searches d) :
    ∃ found, d.toEnd next = some found ∧ ∀ s, s ∈ found ↔ p.Reaches s := by
  rw [DepthFirst.toEnd]
  cases ht : d.turn next with
  | none => exact ⟨d.seen, rfl, fun s => h.mem_seen_iff (DepthFirst.stack_of_turn_eq_none ht)⟩
  | some e => exact (h.turn hn ht).exists_toEnd
termination_by ((d.left p.namedStates).card, d.stack.length)
decreasing_by
  exact DepthFirst.lex_turn (fun s t ht => mem_namedStates_of_mem_successors ((hn s t).1 ht)) ht

end Next

end Program

namespace Listing

variable {t : RuleTable}

def successors (l : Listing t) (s : State) : List State :=
  l.rules.filterMap fun r => if r.1.state.accepts s then r.2.next? else none

def keyedStates (l : Listing t) : List State :=
  l.rules.filterMap fun r => r.1.state.literal?

/-- The states that the listed rules are for by name and that a depth-first search does not see. -/
def unreachable (l : Listing t) (state : State) : Option (List State) :=
  ((DepthFirst.start state).toEnd l.successors).map fun seen =>
    ascending (l.keyedStates.filter fun s => s ∉ seen)

variable {p : Program} (l : Listing p.rules)

theorem mem_successors (s s' : State) : s' ∈ l.successors s ↔ s' ∈ p.successors s :=
  (l.perm_toList.filterMap _).mem_iff

theorem mem_keyedStates (s : State) : s ∈ l.keyedStates ↔ s ∈ p.keyedStates :=
  (l.perm_toList.filterMap _).mem_iff

/-- The order of the listing has no part in what is reported. -/
theorem unreachable_eq : l.unreachable p.state = some p.unreachable := by
  obtain ⟨found, hend, hfound⟩ := p.searches_start.exists_toEnd l.mem_successors
  rw [unreachable, hend, Option.map_some, Program.unreachable]
  refine congrArg some (ascending_congr fun s => ?_)
  simp [l.mem_keyedStates, hfound, Program.mem_reachable_iff]

end Listing

namespace Program

theorem unreachable_congr {p q : Program} (hs : q.state = p.state) (hr : q.rules = p.rules) :
    q.unreachable = p.unreachable := by
  cases p
  cases q
  cases hs
  cases hr
  rfl

/-- Whatever the order of the rules, the search for the states that they lead to ends with the least closed
set. The states reported as unreachable are in strictly ascending order and are those that some rule is
for by name and that are not in this set; there is no report if there are none. Of a program, its state
and its rules alone count. -/
theorem unreachableStates_exact (p : Program) :
    ∃ R : Set State, IsLeast {R | p.Closed R} R ∧
      (∀ l : Listing p.rules,
        (∃ found, (DepthFirst.start p.state).toEnd l.successors = some found ∧
          ∀ s, s ∈ found ↔ s ∈ R) ∧
        l.unreachable p.state = some p.unreachable) ∧
      p.unreachable.Pairwise (· < ·) ∧
      (∀ s, s ∈ p.unreachable ↔ (∃ k ∈ p.rules, k.state = .literal s) ∧ s ∉ R) ∧
      (∀ states, .unreachableStates states ∈ p.warnings ↔
        p.unreachable ≠ [] ∧ states = p.unreachable) ∧
      ((∀ states, .unreachableStates states ∉ p.warnings) ↔
        ∀ k ∈ p.rules, ∀ s, k.state = .literal s → s ∈ R) ∧
      ∀ q : Program, q.state = p.state → (∀ k : Key, q.rules[k]? = p.rules[k]?) →
        q.unreachable = p.unreachable := by
  have hmem (s : State) :
      s ∈ p.unreachable ↔ (∃ k ∈ p.rules, k.state = .literal s) ∧ s ∉ {s | p.Reaches s} := by
    rw [mem_unreachable, mem_keyedStates, mem_reachable_iff]
    rfl
  refine ⟨{s | p.Reaches s}, p.isLeast_reaches, ?_, ?_, hmem,
    fun _ => unreachableStates_mem_warnings, ?_, ?_⟩
  · exact fun l => ⟨p.searches_start.exists_toEnd l.mem_successors, l.unreachable_eq⟩
  · exact (pairwise_ascending _).imp compareOfLessAndEq_eq_lt.1
  · constructor
    · intro h k hk s hs
      by_contra hn
      have hu := (hmem s).2 ⟨⟨k, hk, hs⟩, hn⟩
      exact h _ (unreachableStates_mem_warnings.2 ⟨List.ne_nil_of_mem hu, rfl⟩)
    · intro h states hw
      obtain ⟨hne, rfl⟩ := unreachableStates_mem_warnings.1 hw
      obtain ⟨s, hs⟩ := List.exists_mem_of_ne_nil _ hne
      obtain ⟨⟨k, hk, hks⟩, hn⟩ := (hmem s).1 hs
      exact hn (h k hk s hks)
  · intro q hstate hrules
    exact unreachable_congr hstate (Std.ExtTreeMap.ext_getElem? fun {k} => hrules k)

/-- A rule for any state leads to `B`, from where it goes back to `A`; nothing leads to `C`. -/
def roundTrip : List (Key × Rule) :=
  [(⟨.any, .literal "C"⟩, .transition ⟨.keep, .literal "A", .stay⟩),
    (⟨.literal "1", .any⟩, .transition ⟨.keep, .literal "B", .right⟩),
    (⟨.any, .literal "B"⟩, .transition ⟨.keep, .literal "A", .left⟩)]

theorem unreachableStates_exact_roundTrip :
    let p : Program := { state := "A", rules := RuleTable.ofRules roundTrip }
    let l : Listing p.rules := .ofRules roundTrip (by decide)
    ∃ R : Set State, IsLeast {R | p.Closed R} R ∧ "C" ∉ R ∧ l.unreachable "A" = some ["C"] ∧
      .unreachableStates ["C"] ∈ p.warnings := by
  intro p l
  have hu : p.unreachable = ["C"] := by decide +kernel
  obtain ⟨R, hR, hl, _, hmem, hwarn, _⟩ := p.unreachableStates_exact
  rw [hu] at hl hmem hwarn
  exact ⟨R, hR, ((hmem "C").1 List.mem_cons_self).2, (hl l).2,
    (hwarn ["C"]).2 ⟨List.cons_ne_nil _ _, rfl⟩⟩

end Program

end TapeLang
