import TapeLang.Proofs.Analysis.Closure
import TapeLang.Proofs.Analysis.Warned
import TapeLang.Proofs.Command.Played

/-! What the warnings at the start of a run are worth. They are about the program that was loaded, while the
run may start in a state that was given. Rules lead from there to no other states, unless they are for the
given state by name, `Program.reaches_or`; so the warnings fail a run only if the state that it starts in
is itself one that they report as unreachable, `Session.avoidsReported_iff`, or one without rules that they
do not name, `Session.reportsStart_iff`. -/

namespace TapeLang

def Warning.states : Warning → List State
  | unhandledInitialState state => [state]
  | undefinedNextStates states => states
  | unreachableStates states => states
  | _ => []

namespace Program

variable {p q : Program} {s t : State}

/-- Where the same rules lead from another state. A rule for that state by name may lead anywhere; any other
rule that is for it is for all states. -/
theorem reaches_or (hr : q.rules = p.rules) (hk : q.state ∈ p.keyedStates → p.Reaches q.state)
    (h : q.Reaches t) : t = q.state ∨ p.Reaches t := by
  induction h with
  | current => exact .inl rfl
  | @next s t k r _ hrule ha ht ih =>
    rw [hr] at hrule
    right
    rcases ih with rfl | hs
    · cases hks : k.state with
      | any =>
        have hp : k.state.accepts p.state = true := by rw [hks]; rfl
        exact .next .current hrule hp ht
      | literal name =>
        have hname : k.state = .literal q.state := by
          rw [hks, Pattern.accepts_literal] at ha
          rw [hks, ha]
        have hm : k ∈ p.rules := Std.ExtTreeMap.mem_iff_isSome_getElem?.2 (by rw [hrule]; rfl)
        exact .next (hk (mem_keyedStates.2 ⟨k, hm, hname⟩)) hrule ha ht
    · exact .next hs hrule ha ht

theorem notMem_unreachable_iff : t ∉ p.unreachable ↔ (t ∈ p.keyedStates → p.Reaches t) := by
  rw [mem_unreachable, mem_reachable_iff, not_and, not_not]

theorem handles_of_mem_keyedStates (h : t ∈ p.keyedStates) : p.handles t = true := by
  obtain ⟨k, hk, hs⟩ := mem_keyedStates.1 h
  exact handles_iff.2 ⟨k, hk, by rw [hs]; exact (Pattern.accepts_literal t t).2 rfl⟩

theorem handles_eq_false_iff_forall : p.handles t = false ↔ ∀ k ∈ p.rules, k.state.accepts t = false := by
  rw [← Bool.not_eq_true, handles_iff]
  simp

/-- A state without rules is named in a warning if it is the current one or a rule leads to it. -/
theorem exists_warning_iff (hn : p.handles t = false) :
    (∃ w ∈ p.warnings, t ∈ w.states) ↔ t = p.state ∨ t ∈ p.namedStates := by
  constructor
  · rintro ⟨w, hw, ht⟩
    rcases mem_warnings.1 hw with ⟨_, rfl⟩ | ⟨_, rfl⟩ | ⟨_, rfl⟩ | ⟨_, rfl⟩ | ⟨_, rfl⟩
    · cases ht
    · cases ht
    · exact .inl (List.mem_singleton.1 ht)
    · exact .inr (mem_undefinedStates.1 ht).1
    · have hk := handles_of_mem_keyedStates (mem_unreachable.1 ht).1
      rw [hn] at hk
      cases hk
  · rintro (rfl | ht)
    · exact ⟨_, unhandledInitialState_mem_warnings.2 ⟨rfl, hn⟩, List.mem_singleton.2 rfl⟩
    · have hu := mem_undefinedStates.2 ⟨ht, hn⟩
      exact ⟨_, undefinedNextStates_mem_warnings.2 ⟨List.ne_nil_of_mem hu, rfl⟩, hu⟩

end Program

theorem Machine.reaches_after (m : Machine) (k : Nat) :
    m.program.Reaches (m.after k).program.state := by
  induction k with
  | zero => exact .current
  | succ k ih => exact reaches_step (m.rules_after k) ih

namespace Session

def Enters (s : Session) (state : State) : Prop :=
  ∃ k, s.Passes k ∧ (s.after k).machine.program.state = state

/-- No state that is reported as unreachable is ever entered. -/
def AvoidsReported (s : Session) (warnings : List Warning) : Prop :=
  ∀ states, .unreachableStates states ∈ warnings → ∀ state ∈ states, ¬ s.Enters state

/-- If no key is for the state that the machine starts in, a warning names it. -/
def ReportsStart (s : Session) (warnings : List Warning) : Prop :=
  let q := s.machine.program
  (∀ k ∈ q.rules, k.state.accepts q.state = false) → ∃ w ∈ warnings, q.state ∈ w.states

variable {s : Session} {p : Program} {state : State}

theorem enters_start (s : Session) : s.Enters s.machine.program.state :=
  ⟨0, fun i hi => absurd hi (Nat.not_lt_zero i), rfl⟩

theorem Enters.reaches (h : s.Enters state) : s.machine.program.Reaches state := by
  obtain ⟨k, _, rfl⟩ := h
  rw [machine_after]
  exact s.machine.reaches_after k

/-- Only the state that the session starts in can belie the report. -/
theorem avoidsReported_iff (hr : s.machine.program.rules = p.rules) :
    s.AvoidsReported p.warnings ↔ s.machine.program.state ∉ p.unreachable := by
  constructor
  · intro h hu
    have hw := Program.unreachableStates_mem_warnings.2 ⟨List.ne_nil_of_mem hu, rfl⟩
    exact h _ hw _ hu s.enters_start
  · intro hu states hw state hs he
    obtain ⟨_, rfl⟩ := Program.unreachableStates_mem_warnings.1 hw
    have hreached := Program.reaches_or hr (Program.notMem_unreachable_iff.1 hu) he.reaches
    rcases hreached with rfl | hreached
    · exact hu hs
    · exact Program.notMem_unreachable_iff.2 (fun _ => hreached) hs

theorem reportsStart_iff (hr : s.machine.program.rules = p.rules) :
    s.ReportsStart p.warnings ↔
      p.handles s.machine.program.state = true ∨ s.machine.program.state = p.state ∨
        s.machine.program.state ∈ p.namedStates := by
  simp only [ReportsStart, hr]
  rw [← Program.handles_eq_false_iff_forall]
  cases hn : p.handles s.machine.program.state with
  | true => simp
  | false =>
    rw [Program.exists_warning_iff hn]
    simp

/-- The warnings about the program that the machine starts with hold. -/
theorem holds_of_own_warnings (s : Session) :
    s.AvoidsReported s.machine.program.warnings ∧ s.ReportsStart s.machine.program.warnings :=
  ⟨(avoidsReported_iff rfl).2 (Program.notMem_unreachable_iff.2 fun _ => .current),
    (reportsStart_iff rfl).2 (.inr (.inl rfl))⟩

end Session

section Run

variable {o : RunOptions} {w : Surroundings} {p : Program}

/-- Warnings are shown at every verbosity. -/
theorem Output.err_ofNotices_warnings (v : Nat) (warnings : List Warning) :
    (ofNotices v (warnings.map .warning)).err = warnings.map fun warning => (Notice.warning warning).line := by
  have hshown (warning : Warning) : (Notice.warning warning).shown v = true :=
    decide_eq_true (Nat.zero_le v)
  simp [ofNotices, List.filter_map, Function.comp_def, hshown]

theorem err_start_run (hp : (o.origin.load w).2 = .ok p) (v : Nat) :
    ∃ first, Invocation.start ⟨v, .run o⟩ w = .more first (o.session v p) ∧
      first.err = (Output.ofNotices v (o.origin.load w).1).err ++
        p.warnings.map fun warning => (Notice.warning warning).line := by
  refine ⟨_, start_run hp, ?_⟩
  change _ ++ ((Output.ofNotices v (p.warnings.map .warning)).err ++ []) = _
  rw [List.append_nil, Output.err_ofNotices_warnings]

/-- A run begins with the warnings about the program that was loaded. They hold for it if it starts in the
program's own state. From a state that was given, one of those reported as unreachable is entered exactly if
this state is one of them, and it may be a state without rules that no warning names; the warnings about the
program in the given state would hold for any. -/
theorem forewarned_run (hp : (o.origin.load w).2 = .ok p) (v : Nat) :
    let s := o.session v p
    let start := o.state.getD p.state
    (∃ first, Invocation.start ⟨v, .run o⟩ w = .more first s ∧
        first.err = (Output.ofNotices v (o.origin.load w).1).err ++
          p.warnings.map fun warning => (Notice.warning warning).line) ∧
      s.machine.program = ⟨o.tape.getD p.tape, start, 0, p.rules⟩ ∧
      (s.AvoidsReported p.warnings ↔ start ∉ p.unreachable) ∧
      (s.ReportsStart p.warnings ↔
        p.handles start = true ∨ start = p.state ∨ start ∈ p.namedStates) ∧
      (o.state = none → s.AvoidsReported p.warnings ∧ s.ReportsStart p.warnings) ∧
      s.AvoidsReported s.machine.program.warnings ∧ s.ReportsStart s.machine.program.warnings := by
  intro s start
  have hm : s.machine.program = ⟨o.tape.getD p.tape, start, 0, p.rules⟩ :=
    RunOptions.program_machine_of_load hp
  have hr : s.machine.program.rules = p.rules := by rw [hm]
  have hs : s.machine.program.state = start := by rw [hm]
  have havoids := Session.avoidsReported_iff hr
  have hreports := Session.reportsStart_iff hr
  rw [hs] at havoids hreports
  refine ⟨err_start_run hp v, hm, havoids, hreports, fun hnone => ?_, s.holds_of_own_warnings⟩
  have hown : start = p.state := by
    change o.state.getD p.state = _
    rw [hnone, Option.getD_none]
  rw [havoids, hreports, hown]
  exact ⟨Program.notMem_unreachable_iff.2 fun _ => .current, .inr (.inl rfl)⟩

end Run

def RunOptions.startingIn (state : State) : RunOptions where
  origin := .input
  tape := none
  state := some state
  trace := false
  format := .text
  limit := none

/-- A state that a rule leads to and no rule is for. -/
theorem forewarned_run_astray :
    let w : Surroundings :=
      ⟨fun _ => .error .notFound, some "*,A=>+,LOST,>\n*,C=>*,A,\n1,2,3,4\nA\n".toUTF8⟩
    let s := (RunOptions.startingIn "LOST").session 0 .astray
    (Origin.input.load w).2 = .ok .astray ∧ s.machine.program.state = "LOST" ∧
      .unreachableStates ["C"] ∈ Program.astray.warnings ∧ ¬ s.Enters "C" ∧
      ∃ warning ∈ Program.astray.warnings, "LOST" ∈ warning.states := by
  intro w s
  have hparse : Program.parseFile "*,A=>+,LOST,>\n*,C=>*,A,\n1,2,3,4\nA\n" = .ok .astray := by decide
  have hload : (Origin.input.load w).2 = .ok .astray := by
    have hgives : Origin.input.Gives w "*,A=>+,LOST,>\n*,C=>*,A,\n1,2,3,4\nA\n" := rfl
    rw [Origin.load_of_gives hgives, hparse]
    rfl
  have hw : .unreachableStates ["C"] ∈ Program.astray.warnings := by decide +kernel
  have hkeys : ∀ k ∈ Program.astray.rules, k.state.accepts "LOST" = false :=
    Program.handles_eq_false_iff_forall.1 (by decide)
  obtain ⟨_, _, havoids, hreports, _⟩ := forewarned_run (o := .startingIn "LOST") hload 0
  exact ⟨hload, rfl, hw, havoids.2 (by decide +kernel) _ hw _ List.mem_cons_self,
    hreports.2 (.inr (.inr (by decide))) hkeys⟩

/-- A program that halts in `S`, and that has a rule from `T` which nothing leads to. -/
def Program.twoDoors : Program where
  tape := ["1", "2", "3", "4"]
  state := "S"
  rules := RuleTable.ofRules
    [(⟨.any, .literal "S"⟩, .halt),
      (⟨.any, .literal "T"⟩, .transition ⟨.keep, .literal "S", .right⟩)]

/-- A run that starts in a state which it reports as unreachable, and one that starts in a state without rules
and says nothing of it. -/
theorem twoDoors_not_forewarned :
    let w : Surroundings :=
      ⟨fun _ => .error .notFound, some "*,S=>,,\n*,T=>*,S,>\n1,2,3,4\nS\n".toUTF8⟩
    let p := Program.twoDoors
    (Origin.input.load w).2 = .ok p ∧ p.warnings = [.unreachableStates ["T"]] ∧
      (∃ first, Invocation.start ⟨0, .run (.startingIn "T")⟩ w =
          .more first ((RunOptions.startingIn "T").session 0 p) ∧
        " WARN Unreachable states detected: [\"T\"]" ∈ first.err) ∧
      ((RunOptions.startingIn "T").session 0 p).Enters "T" ∧
      ¬ ((RunOptions.startingIn "T").session 0 p).AvoidsReported p.warnings ∧
      ¬ ((RunOptions.startingIn "U").session 0 p).ReportsStart p.warnings := by
  intro w p
  have hparse : Program.parseFile "*,S=>,,\n*,T=>*,S,>\n1,2,3,4\nS\n" = .ok p := by decide
  have hload : (Origin.input.load w).2 = .ok p := by
    have hgives : Origin.input.Gives w "*,S=>,,\n*,T=>*,S,>\n1,2,3,4\nS\n" := rfl
    rw [Origin.load_of_gives hgives, hparse]
    rfl
  have hw : p.warnings = [.unreachableStates ["T"]] := by decide +kernel
  obtain ⟨first, hstart, herr⟩ := err_start_run (o := .startingIn "T") hload 0
  have hline : " WARN Unreachable states detected: [\"T\"]" ∈ first.err := by
    rw [herr, hw]
    exact List.mem_append_right _ (by decide +kernel)
  have henters := ((RunOptions.startingIn "T").session 0 p).enters_start
  refine ⟨hload, hw, ⟨first, hstart, hline⟩, henters, fun h => ?_, fun h => ?_⟩
  · rw [hw] at h
    exact h _ List.mem_cons_self _ List.mem_cons_self henters
  · have hkeys : ∀ k ∈ p.rules, k.state.accepts "U" = false :=
      Program.handles_eq_false_iff_forall.1 (by decide)
    obtain ⟨warning, hm, hu⟩ := h hkeys
    rw [hw, List.mem_singleton] at hm
    subst hm
    exact absurd hu (by decide)

end TapeLang
