import TapeLang.Proofs.Command.ExitCode
import TapeLang.Proofs.Command.Trace
import TapeLang.Proofs.Machine.Interrupted

/-! The limit of a run that a command carries out. Only an applied rule can put the session's flag up, so the
session does what a run does whose limit is at least one, `Session.exists_done_of_limit`. It keeps to its
limit unless that is zero; then it does only if the first step applies no rule and, if it halts, finds a
tape that is not empty, `keepsTo_iff`. -/

namespace TapeLang

section Result

variable {σ : Type}

def Outcome.exitCode : Outcome → Nat
  | halted _ => 0
  | failed _ => 1
  | cancelled _ => 3

/-- What is printed of a run in the end, which is nothing of one that failed. -/
def Run.resultLines (format : Format) (r : Run σ) : List String :=
  match r.outcome with
  | .failed _ => []
  | _ => [Session.resultLine format r.machine]

theorem Run.eq_of_mem_resultLines {format : Format} {r : Run σ} {line : String}
    (h : line ∈ r.resultLines format) : line = Session.resultLine format r.machine := by
  unfold resultLines at h
  split at h
  · cases h
  · exact List.mem_singleton.1 h

end Result

namespace Machine

def counting (applied : Nat) (_ : Program) : Nat :=
  applied + 1

/-- At most `n` rules were applied, and what was printed is what a run with this limit leaves, its flag up
from the start if `n` is zero. -/
structure KeepsTo (format : Format) (m : Machine) (n applied : Nat) (lines : List String) : Prop where
  applied_le : applied ≤ n
  lines_eq : ∃ r, m.runLimited counting 0 n = some r ∧
    ∀ line ∈ lines, line = Session.resultLine format r.machine

variable {m : Machine} {n j : Nat} {format : Format}

theorem foldl_counting (applied : Nat) (ps : List Program) :
    ps.foldl counting applied = applied + ps.length := by
  induction ps generalizing applied with
  | nil => rfl
  | cons p ps ih => rw [List.foldl_cons, ih, counting, List.length_cons, Nat.add_right_comm, Nat.add_assoc]

theorem foldl_counting_trail (m : Machine) (n : Nat) : (m.trail n).foldl counting 0 = n := by
  rw [foldl_counting, length_trail, Nat.zero_add]

theorem run_counting_of_applies (h : m.Applies n) :
    m.run counting 0 n = ⟨n, .cancelled (m.count + n), m.after n⟩ := by
  rw [run_of_applies _ _ h, foldl_counting_trail]

theorem run_counting_of_ends (h : m.Ends j) (hj : j < n) :
    m.run counting 0 n = ⟨j, (m.after j).step.1.outcome (m.after (j + 1)), m.after (j + 1)⟩ := by
  rw [run_of_ends _ _ h hj, runEnding, foldl_counting_trail]

theorem observed_run_counting_le (m : Machine) (n : Nat) : (m.run counting 0 n).observed ≤ n := by
  rcases m.applies_or_ends n with h | ⟨j, hj, h⟩
  · rw [run_counting_of_applies h]
  · rw [run_counting_of_ends h hj]
    exact Nat.le_of_lt hj

/-- The blank that a halting step puts on an empty tape shows. -/
theorem resultLine_extend_ne (hc : m.count = 0) (hh : m.program.head = 0) (ht : m.program.tape = []) :
    Session.resultLine format m.extend ≠ Session.resultLine format m := by
  have hx : m.program.extend = { m.program with tape := [blank] } := by
    simp [Program.extend, Program.leftGap, Program.rightGap, pad, hh, ht]
  intro h
  cases format with
  | text =>
    change ",".intercalate m.program.extend.tape = ",".intercalate m.program.tape at h
    rw [hx, ht] at h
    change "." = "" at h
    exact absurd h (by decide)
  | json =>
    have fits (p : Program) (hp : p.head = 0) : (Snapshot.ofProgram 0 p).Fits :=
      ⟨by change 0 < _; decide, by change _ ≤ p.head; omega, by change p.head < _; omega⟩
    change (Snapshot.ofProgram m.count m.program.extend).json =
      (Snapshot.ofProgram m.count m.program).json at h
    rw [hx, hc] at h
    have hread := Snapshot.decode?_json (fits { m.program with tape := [blank] } hh)
    rw [h, Snapshot.decode?_json (fits m.program hh)] at hread
    have htape : m.program.tape = [blank] := congrArg Snapshot.tape (Option.some.inj hread)
    rw [ht] at htape
    cases htape

theorem keepsTo_of_ne_zero (hn : n ≠ 0) :
    let r := m.run counting 0 (max n 1)
    m.KeepsTo format n r.observed (r.resultLines format) := by
  have hmax : max n 1 = n := by omega
  rw [hmax]
  exact ⟨m.observed_run_counting_le n, _, runLimited_eq .., fun _ => Run.eq_of_mem_resultLines⟩

theorem keepsTo_zero_iff (hc : m.count = 0) (hh : m.program.head = 0) :
    let r := m.run counting 0 1
    m.KeepsTo format 0 r.observed (r.resultLines format) ↔
      m.step.1 ≠ .applied ∧ (m.step.1 = .halted → m.program.tape ≠ []) := by
  intro r
  have hzero : m.runLimited counting 0 0 = some ⟨0, .cancelled m.count, m⟩ := runLimited_eq ..
  by_cases ha : m.step.1 = .applied
  · have hr : r.observed = 1 := by
      change (m.run counting 0 1).observed = 1
      rw [run_counting_of_applies (applies_succ_iff_right.2 ⟨m.applies_zero, ha⟩)]
    refine iff_of_false (fun h => ?_) fun h => h.1 ha
    have hle := h.applied_le
    omega
  · have hr : r = ⟨0, m.step.1.outcome m.extend, m.extend⟩ := by
      rw [← step_of_ne_applied ha]
      exact run_succ_of_ne_applied counting 0 ha 0
    rw [hr]
    constructor
    · rintro ⟨_, _, hr', hlines⟩
      rw [hzero] at hr'
      cases hr'
      refine ⟨ha, fun hs ht => resultLine_extend_ne hc hh ht (hlines _ ?_)⟩
      rw [hs]
      exact List.mem_singleton.2 rfl
    · rintro ⟨_, htape⟩
      refine ⟨Nat.le_refl 0, _, hzero, fun line hline => ?_⟩
      cases hs : m.step.1 with
      | applied => exact absurd hs ha
      | failed e =>
        rw [hs] at hline
        cases hline
      | halted =>
        have hlength := List.length_pos_iff.2 (htape hs)
        have hm : m.extend = m := by
          rw [extend, Program.extend_of_onTape ⟨by omega, by omega⟩]
        rw [hm] at hline
        change line = Session.resultLine format m
        exact Run.eq_of_mem_resultLines hline

/-- A run whose limit is one instead of zero keeps to zero only by chance. -/
theorem keepsTo_iff (hc : m.count = 0) (hh : m.program.head = 0) :
    let r := m.run counting 0 (max n 1)
    m.KeepsTo format n r.observed (r.resultLines format) ↔
      n ≠ 0 ∨ (m.step.1 ≠ .applied ∧ (m.step.1 = .halted → m.program.tape ≠ [])) := by
  cases n with
  | zero =>
    rw [or_iff_right (not_not_intro rfl)]
    exact keepsTo_zero_iff hc hh
  | succ n => exact iff_of_true (keepsTo_of_ne_zero n.succ_ne_zero) (.inl n.succ_ne_zero)

end Machine

namespace Session

variable {s : Session} {n : Nat}

theorem turn_of_flag (hf : s.flag = true) :
    ∃ o, s.turn = .done o 3 ∧ o.out = [resultLine s.format s.machine] := by
  rw [turn, if_pos hf]
  exact ⟨_, rfl, rfl⟩

/-- A turn whose step applies no rule ends the session like a run. -/
theorem turn_of_ne_applied {σ : Type} (hf : s.flag = false) (ha : s.machine.step.1 ≠ .applied)
    (seen : σ) :
    let r : Run σ := ⟨seen, s.machine.step.1.outcome s.machine.step.2, s.machine.step.2⟩
    ∃ o, s.turn = .done o r.outcome.exitCode ∧ o.out = r.resultLines s.format := by
  have ht := s.turned
  generalize s.turn = t at ht
  cases ht with
  | stopped hup _ =>
    rw [hf] at hup
    cases hup
  | applied _ hs _ => exact absurd hs ha
  | halted _ hs ho =>
    rw [hs]
    exact ⟨_, rfl, ho⟩
  | failed _ hs ho =>
    rw [hs]
    exact ⟨_, rfl, ho⟩

/-- Before it has applied as many rules as its limit, and at least one, the session's flag is down. -/
theorem flag_eq_false_of_lt (hf : s.flag = false) (hs : s.steps = 0) (hn : s.limit = some n) {i : Nat}
    (hi : i < max n 1) : (s.after i).flag = false := by
  rw [← Bool.not_eq_true, flag_after hf hs, hn]
  rintro ⟨h0, _, he, hle⟩
  cases he
  omega

theorem passes_of_applies (hf : s.flag = false) (hs : s.steps = 0) (hn : s.limit = some n) {k : Nat}
    (hk : k ≤ max n 1) (ha : s.machine.Applies k) : s.Passes k :=
  passes_iff.2 fun i hi =>
    ⟨flag_eq_false_of_lt hf hs hn (by omega), by rw [machine_after]; exact ha i hi⟩

/-- Where a session with a limit ends: behind the rules of a run whose limit is the same, or one instead of
zero, with what is left of that run. -/
theorem exists_done_of_limit (hf : s.flag = false) (hs : s.steps = 0) (hn : s.limit = some n) :
    let r := s.machine.run Machine.counting 0 (max n 1)
    s.Passes r.observed ∧
      ∃ last, (s.after r.observed).turn = .done last r.outcome.exitCode ∧
        last.out = r.resultLines s.format := by
  intro r
  have hmachine := s.machine_after
  have hformat (k : Nat) : (s.after k).format = s.format := by rw [after_eq]
  rcases s.machine.applies_or_ends (max n 1) with ha | ⟨j, hj, he⟩
  · -- the limit is reached, and the flag is up
    have hr : r = ⟨max n 1, .cancelled _, s.machine.after (max n 1)⟩ :=
      Machine.run_counting_of_applies ha
    have hup : (s.after (max n 1)).flag = true :=
      (flag_after hf hs _).2 ⟨by omega, n, hn, by omega⟩
    obtain ⟨last, hturn, hlast⟩ := turn_of_flag hup
    rw [hmachine, hformat] at hlast
    rw [hr]
    exact ⟨passes_of_applies hf hs hn (Nat.le_refl _) ha, last, hturn, hlast⟩
  · -- a step ends the run before
    have hr : r = ⟨j, (s.machine.after j).step.1.outcome (s.machine.after (j + 1)),
        s.machine.after (j + 1)⟩ := Machine.run_counting_of_ends he hj
    have hdown := flag_eq_false_of_lt hf hs hn hj
    have hne : (s.after j).machine.step.1 ≠ .applied := by
      rw [hmachine]
      exact he.2
    obtain ⟨last, hturn, hlast⟩ := turn_of_ne_applied hdown hne j
    rw [hmachine] at hturn hlast
    rw [hformat] at hlast
    rw [hr]
    exact ⟨passes_of_applies hf hs hn (Nat.le_of_lt hj) he.1, last, hturn, hlast⟩

/-- With what it has traced, a session with a limit prints what is left of that run. -/
theorem exists_play?_of_limit (hf : s.flag = false) (hs : s.steps = 0) (hn : s.limit = some n) :
    let r := s.machine.run Machine.counting 0 (max n 1)
    s.Passes r.observed ∧
      ∃ o, (∀ turns, s.play? turns =
          if r.observed < turns then some (o, r.outcome.exitCode) else none) ∧
        s.traceOutput.out ++ o.out =
          (if s.trace then (s.machine.snapshots r.observed).map (snapshotLine s.format) else []) ++
            r.resultLines s.format := by
  intro r
  obtain ⟨hpass, last, hturn, hlast⟩ := exists_done_of_limit hf hs hn
  obtain ⟨o, hplay, ho⟩ := exists_play?_of_passes hpass hturn
  refine ⟨hpass, o, hplay, ?_⟩
  rw [ho, ← List.append_assoc, traceOutputs hs, hlast]

end Session

section Run

variable {o : RunOptions} {w : Surroundings} {p : Program} {n : Nat}

/-- A command that runs a program under a limit always ends, and what it does is told by the run of its
machine, with the tape and the state that were given, whose limit is the same, or one instead of zero. So
it keeps to every limit but zero, and to zero only if the first step applies no rule and, if it halts,
finds a tape that is not empty. -/
theorem limited_session (hp : (o.origin.load w).2 = .ok p) (hn : o.limit = some n) :
    let m := o.machine p
    m.program = ⟨o.tape.getD p.tape, o.state.getD p.state, 0, p.rules⟩ ∧ m.count = 0 ∧
      ∃ r, m.runLimited Machine.counting 0 (max n 1) = some r ∧ r.observed ≤ max n 1 ∧
        (∀ v, (o.session v p).Passes r.observed ∧
          ∃ out, (∀ turns, Invocation.play? ⟨v, .run o⟩ w turns =
              if r.observed < turns then some (out, r.outcome.exitCode) else none) ∧
            out.out =
              (if o.trace then (m.snapshots r.observed).map (Session.snapshotLine o.format) else []) ++
                r.resultLines o.format) ∧
        (m.KeepsTo o.format n r.observed (r.resultLines o.format) ↔
          n ≠ 0 ∨ (m.step.1 ≠ .applied ∧ (m.step.1 = .halted → m.program.tape ≠ []))) := by
  intro m
  have hm : m.program = ⟨o.tape.getD p.tape, o.state.getD p.state, 0, p.rules⟩ :=
    RunOptions.program_machine_of_load hp
  have hc : m.count = 0 := RunOptions.count_machine
  refine ⟨hm, hc, m.run Machine.counting 0 (max n 1), Machine.runLimited_eq ..,
    m.observed_run_counting_le _, fun v => ?_, Machine.keepsTo_iff hc (by rw [hm])⟩
  obtain ⟨hpass, rest, hplay, hrest⟩ := Session.exists_play?_of_limit (s := o.session v p) rfl rfl hn
  obtain ⟨first, hfirst, hrun⟩ := exists_play?_run (v := v) hp
  refine ⟨hpass, first ++ rest, fun turns => ?_, ?_⟩
  · rw [hrun, hplay, apply_ite (Option.map _)]
    rfl
  · rw [Output.out_append, hfirst, hrest]
    rfl

end Run

/-- A limit that comes before a halt, and a halt on a cell that was there under a limit of zero. -/
theorem limited_session_countdown :
    let w : Surroundings := ⟨fun _ => .error .notFound, some "0,S=>,,\n*,S=>-,*,\n".toUTF8⟩
    let o := RunOptions.fromTwo
    let ended : RunOptions := { o with tape := some ["0"], limit := some 0 }
    (o.origin.load w).2 = .ok .countdown ∧
      (∃ out, Invocation.play? ⟨0, .run o⟩ w 3 = some (out, 3) ∧ out.out = ["0"] ∧
        (o.machine .countdown).KeepsTo .text 2 2 ["0"]) ∧
      ∃ out, Invocation.play? ⟨0, .run ended⟩ w 1 = some (out, 0) ∧ out.out = ["0"] ∧
        (ended.machine .countdown).KeepsTo .text 0 0 ["0"] := by
  intro w o ended
  have hparse : Program.parseFile "0,S=>,,\n*,S=>-,*,\n" = .ok .countdown := by decide
  have hload : (o.origin.load w).2 = .ok .countdown := by
    have hgives : o.origin.Gives w "0,S=>,,\n*,S=>-,*,\n" := rfl
    rw [Origin.load_of_gives hgives, hparse]
    rfl
  refine ⟨hload, ?_, ?_⟩
  · obtain ⟨_, _, r, hr, _, hends, hkeeps⟩ := limited_session hload (n := 2) rfl
    obtain ⟨hobserved, houtcome, hlines⟩ :
        r.observed = 2 ∧ r.outcome = .cancelled 2 ∧ r.resultLines .text = ["0"] := by
      rw [Machine.runLimited_eq] at hr
      obtain rfl := Option.some.inj hr
      decide
    obtain ⟨_, out, hplay, hout⟩ := hends 0
    have hplay := hplay 3
    rw [hobserved, houtcome] at hplay
    change (o.machine .countdown).KeepsTo .text 2 r.observed (r.resultLines .text) ↔ _ at hkeeps
    rw [hobserved, hlines] at hkeeps
    exact ⟨out, hplay, hout.trans hlines, hkeeps.2 (.inl (by decide))⟩
  · obtain ⟨_, _, r, hr, _, hends, hkeeps⟩ := limited_session (o := ended) hload rfl
    obtain ⟨hobserved, houtcome, hlines⟩ :
        r.observed = 0 ∧ r.outcome = .halted ["0"] ∧ r.resultLines .text = ["0"] := by
      rw [Machine.runLimited_eq] at hr
      obtain rfl := Option.some.inj hr
      decide
    obtain ⟨_, out, hplay, hout⟩ := hends 0
    have hplay := hplay 1
    rw [hobserved, houtcome] at hplay
    change (ended.machine .countdown).KeepsTo .text 0 r.observed (r.resultLines .text) ↔ _ at hkeeps
    rw [hobserved, hlines] at hkeeps
    exact ⟨out, hplay, hout.trans hlines, hkeeps.2 (.inr (by decide))⟩

/-- A program that adds one to each cell up to the first blank. -/
def Program.raise : Program where
  tape := ["1", "2", "3", "4"]
  state := "S"
  rules := RuleTable.ofRules
    [(⟨.any, .literal "S"⟩, .transition ⟨.increment, .keep, .right⟩),
      (⟨.literal ".", .literal "S"⟩, .halt)]

def RunOptions.limitedToZero : RunOptions where
  origin := .input
  tape := none
  state := none
  trace := false
  format := .text
  limit := some 0

/-- A limit of zero lets one rule through. -/
theorem limitedToZero_not_keepsTo :
    let w : Surroundings :=
      ⟨fun _ => .error .notFound, some "*,S=>+,*,>\n.,S=>,,\n1,2,3,4\nS\n".toUTF8⟩
    let o := RunOptions.limitedToZero
    (o.origin.load w).2 = .ok .raise ∧ (o.session 0 .raise).Passes 1 ∧
      (∃ out, Invocation.play? ⟨0, .run o⟩ w 2 = some (out, 3) ∧ out.out = ["2,2,3,4"]) ∧
      (∃ r, (o.machine .raise).runLimited Machine.counting 0 0 = some r ∧
        Session.resultLine .text r.machine = "1,2,3,4") ∧
      ¬ (o.machine .raise).KeepsTo .text 0 1 ["2,2,3,4"] := by
  intro w o
  have hparse : Program.parseFile "*,S=>+,*,>\n.,S=>,,\n1,2,3,4\nS\n" = .ok .raise := by decide
  have hload : (o.origin.load w).2 = .ok .raise := by
    have hgives : o.origin.Gives w "*,S=>+,*,>\n.,S=>,,\n1,2,3,4\nS\n" := rfl
    rw [Origin.load_of_gives hgives, hparse]
    rfl
  have hplay : (o.session 0 .raise).play? 2 =
      some (⟨["2,2,3,4"], ["Stopped after 1 steps"]⟩, 3) := by decide
  obtain ⟨first, hfirst, hrun⟩ := exists_play?_run (v := 0) hload
  have hout : (first ++ ⟨["2,2,3,4"], ["Stopped after 1 steps"]⟩ : Output).out = ["2,2,3,4"] := by
    rw [Output.out_append, hfirst]
    rfl
  refine ⟨hload, Session.passes_iff.2 (by decide), ⟨_, ?_, hout⟩,
    ⟨_, Machine.runLimited_eq .., by decide⟩, fun h => absurd h.applied_le (by decide)⟩
  rw [hrun, hplay]
  rfl

end TapeLang
