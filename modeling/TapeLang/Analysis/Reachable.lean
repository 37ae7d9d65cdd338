import TapeLang.Program

/-! The states that a program can enter. A rule whose state pattern accepts a state leads from it to the
state that the rule names as its next; which symbols stand on the tape is left out of account. The
search moves each state once from the fresh ones to the frontier and from there to the result, so
the two lists shrink together. -/

namespace TapeLang

/-- The fresh states that are among the given ones, and those that are not. -/
def separate (among fresh : List State) : List State × List State :=
  (fresh.filter fun s => among.contains s, fresh.filter fun s => !among.contains s)

theorem length_separate (among fresh : List State) :
    (separate among fresh).1.length + (separate among fresh).2.length = fresh.length := by
  induction fresh with
  | nil => rfl
  | cons s rest ih =>
    simp only [separate, List.contains_eq_mem] at ih ⊢
    by_cases h : s ∈ among <;> simp [h] <;> omega

theorem mem_separate {among fresh : List State} {s : State} :
    (s ∈ (separate among fresh).1 ↔ s ∈ fresh ∧ s ∈ among) ∧
      (s ∈ (separate among fresh).2 ↔ s ∈ fresh ∧ s ∉ among) := by
  simp [separate]

/-- The states met from the frontier on, when only fresh states may be entered. -/
def explore (next : State → List State) (frontier fresh : List State) : List State :=
  match frontier with
  | [] => []
  | s :: rest =>
    let parts := separate (next s) fresh
    s :: explore next (rest ++ parts.1) parts.2
termination_by frontier.length + fresh.length
decreasing_by
  have h := length_separate (next s) fresh
  simp only [List.length_append, List.length_cons]
  omega

namespace Program

/-- The states that some rule names as its next. -/
def namedStates (p : Program) : List State :=
  p.rules.toList.filterMap fun r => r.2.next?

def successors (p : Program) (s : State) : List State :=
  p.rules.toList.filterMap fun r => if r.1.state.accepts s then r.2.next? else none

/-- The states that rules lead to from the current state, which is one of them. -/
def reachable (p : Program) : List State :=
  explore p.successors [p.state] (p.namedStates.eraseDups.filter fun s => s ≠ p.state)

def handles (p : Program) (s : State) : Bool :=
  p.rules.toList.any fun r => r.1.state.accepts s

/-- The states that rules are for by name. -/
def keyedStates (p : Program) : List State :=
  p.rules.toList.filterMap fun r => r.1.state.literal?

variable {p : Program} {s t : State}

theorem mem_namedStates :
    t ∈ p.namedStates ↔ ∃ (k : Key) (r : Rule), p.rules[k]? = some r ∧ r.next? = some t := by
  simp only [namedStates, List.mem_filterMap, Prod.exists,
    Std.ExtTreeMap.mem_toList_iff_getElem?_eq_some]

theorem mem_successors :
    t ∈ p.successors s ↔
      ∃ (k : Key) (r : Rule),
        p.rules[k]? = some r ∧ k.state.accepts s = true ∧ r.next? = some t := by
  simp only [successors, List.mem_filterMap, Prod.exists,
    Std.ExtTreeMap.mem_toList_iff_getElem?_eq_some, Option.ite_none_right_eq_some]

theorem handles_iff :
    p.handles s = true ↔ ∃ k ∈ p.rules, k.state.accepts s = true := by
  simp only [handles, List.any_eq_true, Prod.exists,
    Std.ExtTreeMap.mem_toList_iff_getElem?_eq_some, Std.ExtTreeMap.mem_iff_isSome_getElem?,
    Option.isSome_iff_exists]
  constructor
  · rintro ⟨k, r, hr, hk⟩
    exact ⟨k, ⟨r, hr⟩, hk⟩
  · rintro ⟨k, ⟨r, hr⟩, hk⟩
    exact ⟨k, r, hr, hk⟩

theorem mem_keyedStates : s ∈ p.keyedStates ↔ ∃ k ∈ p.rules, k.state = .literal s := by
  simp only [keyedStates, List.mem_filterMap, Prod.exists,
    Std.ExtTreeMap.mem_toList_iff_getElem?_eq_some, Std.ExtTreeMap.mem_iff_isSome_getElem?,
    Option.isSome_iff_exists, Pattern.literal?_eq_some_iff]
  constructor
  · rintro ⟨k, r, hr, hk⟩
    exact ⟨k, ⟨r, hr⟩, hk⟩
  · rintro ⟨k, ⟨r, hr⟩, hk⟩
    exact ⟨k, r, hr, hk⟩

end Program

end TapeLang
