import TapeLang.Analysis.Reachable

/-! The search for the states that can be entered. The states that the rules lead to are the least set that
has the current one and, with each state, the next states of the rules that are for it; the search finds
exactly those, `mem_reachable_iff`, and each of them is the current one or named by a rule. -/

namespace TapeLang

variable {next : State → List State} {frontier fresh : List State} {s t : State}

theorem mem_explore_of_mem_frontier (h : s ∈ frontier) : s ∈ explore next frontier fresh := by
  fun_induction explore next frontier fresh with
  | case1 => cases h
  | case2 fresh u rest parts ih =>
    rcases List.mem_cons.1 h with rfl | h
    · exact List.mem_cons_self
    · exact List.mem_cons_of_mem _ (ih (List.mem_append_left _ h))

/-- What is found is closed under the fresh next states: one that is fresh when its predecessor is taken up
goes to the frontier then, unless it has gone there before. -/
theorem mem_explore_of_mem_next (hs : s ∈ explore next frontier fresh) (ht : t ∈ next s)
    (hf : t ∈ fresh) : t ∈ explore next frontier fresh := by
  fun_induction explore next frontier fresh with
  | case1 => cases hs
  | case2 fresh u rest parts ih =>
    have found (hm : t ∈ next u) : t ∈ explore next (rest ++ parts.1) parts.2 :=
      mem_explore_of_mem_frontier (List.mem_append_right _ (mem_separate.1.2 ⟨hf, hm⟩))
    apply List.mem_cons_of_mem
    rcases List.mem_cons.1 hs with rfl | hs
    · exact found ht
    · -- `t` is fresh for the rest of the search, unless `u` leads to it as well
      by_cases hm : t ∈ next u
      · exact found hm
      · exact ih hs (mem_separate.2.2 ⟨hf, hm⟩)

/-- Nothing is found outside of a set that has the frontier and is closed under the next states. -/
theorem of_mem_explore {R : State → Prop} (hR : ∀ s ∈ frontier, R s)
    (hn : ∀ s, R s → ∀ t ∈ next s, R t) (hs : s ∈ explore next frontier fresh) : R s := by
  fun_induction explore next frontier fresh with
  | case1 => cases hs
  | case2 fresh u rest parts ih =>
    rcases List.mem_cons.1 hs with rfl | hs
    · exact hR s List.mem_cons_self
    · refine ih ?_ hs
      intro t ht
      rcases List.mem_append.1 ht with ht | ht
      · exact hR t (List.mem_cons_of_mem _ ht)
      · exact hn u (hR u List.mem_cons_self) t (mem_separate.1.1 ht).2

namespace Program

inductive Reaches (p : Program) : State → Prop
  | current : p.Reaches p.state
  | next {s t : State} {k : Key} {r : Rule} (hs : p.Reaches s) (hr : p.rules[k]? = some r)
      (hk : k.state.accepts s = true) (ht : r.next? = some t) : p.Reaches t

variable {p : Program}

theorem state_mem_reachable : p.state ∈ p.reachable :=
  mem_explore_of_mem_frontier List.mem_cons_self

theorem mem_namedStates_of_mem_successors (ht : t ∈ p.successors s) : t ∈ p.namedStates := by
  obtain ⟨k, r, hr, _, hn⟩ := mem_successors.1 ht
  exact mem_namedStates.2 ⟨k, r, hr, hn⟩

theorem mem_reachable_of_mem_successors (hs : s ∈ p.reachable) (ht : t ∈ p.successors s) :
    t ∈ p.reachable := by
  by_cases hp : t = p.state
  · rw [hp]
    exact state_mem_reachable
  · apply mem_explore_of_mem_next hs ht
    simpa [hp] using mem_namedStates_of_mem_successors ht

theorem Reaches.mem_reachable (h : p.Reaches s) : s ∈ p.reachable := by
  induction h with
  | current => exact state_mem_reachable
  | next _ hr hk ht ih => exact mem_reachable_of_mem_successors ih (mem_successors.2 ⟨_, _, hr, hk, ht⟩)

theorem Reaches.successor (hs : p.Reaches s) (ht : t ∈ p.successors s) : p.Reaches t := by
  obtain ⟨k, r, hr, hk, hn⟩ := mem_successors.1 ht
  exact .next hs hr hk hn

theorem mem_reachable_iff : s ∈ p.reachable ↔ p.Reaches s := by
  constructor
  · refine of_mem_explore ?_ fun s hs t ht => hs.successor ht
    intro s hs
    rw [List.mem_singleton.1 hs]
    exact .current
  · exact Reaches.mem_reachable

theorem Reaches.eq_or_mem_namedStates (h : p.Reaches s) : s = p.state ∨ s ∈ p.namedStates := by
  cases h with
  | current => exact .inl rfl
  | next _ hr _ ht => exact .inr (mem_namedStates.2 ⟨_, _, hr, ht⟩)

end Program

end TapeLang
