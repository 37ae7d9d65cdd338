import TapeLang.Proofs.Command.CanonicalForm
import TapeLang.Proofs.Command.Played
import TapeLang.Proofs.Machine.Final
import TapeLang.Proofs.Source.Accepted

/-! Exit codes. A command that reads its program from the standard input tells by its exit code where it
stopped: at bytes that are no text or at a malformed line, `Command.play?_of_load_error`; at the warnings
about the program, `Command.exists_play?_check`; or at the end of its run, `Session.ending_of_play?`. That
the formatter never fails on a program is `Program.exists_source_iff`. -/

namespace TapeLang

namespace Source

def Malformed (raw : List Char) : Prop :=
  ∃ fault, classify (Text.squeeze raw) = .error fault

theorem malformed_iff {raw : List Char} : Malformed raw ↔ ∃ fault, Line.read raw = .error fault := by
  rw [Malformed, Line.read, ofSqueezed_eq_classify]

/-- The lines of a text, one final line end apart. -/
def textLines (text : String) : List (List Char) :=
  lines (withoutFinalNewline text)

end Source

namespace Program

theorem exists_addLines_eq_error_iff {p : Program} {number : Nat} {lines : List (List Char)} :
    (∃ e, p.addLines number lines = .error e) ↔ ∃ raw ∈ lines, Source.Malformed raw := by
  have hread (raw : List Char) :
      Source.Malformed raw ↔ ¬ ∃ line, Source.Line.read raw = .ok line := by
    rw [Source.malformed_iff]
    cases Source.Line.read raw <;> simp
  have hlines : (∃ e, p.addLines number lines = .error e) ↔
      ¬ ∃ q, p.addLines number lines = .ok q := by
    cases p.addLines number lines <;> simp
  rw [hlines, exists_addLines_eq_ok_iff]
  simp [hread]

/-- A text is refused exactly for one of its lines. -/
theorem exists_parseFile_eq_error_iff {text : String} :
    (∃ e, parseFile text = .error e) ↔ ∃ raw ∈ Source.textLines text, Source.Malformed raw :=
  exists_addLines_eq_error_iff

end Program

section Load

variable {w : Surroundings} {bytes : ByteArray} {text : String}

theorem Origin.load_input_of_none (hw : w.input = some bytes) (ht : String.fromUTF8? bytes = none) :
    (input.load w).2 = .error (.unreadableInput .notText) := by
  rw [load_input hw, loadInput, inputText, decodeText, ht]
  rfl

theorem Origin.load_input_of_some (hw : w.input = some bytes)
    (ht : String.fromUTF8? bytes = some text) :
    (input.load w).2 = (Program.parseFile text).mapError .source := by
  rw [load_input hw, loadInput, inputText, decodeText, ht]
  rfl

end Load

namespace Command

def origin? : Command → Option Origin
  | run o => some o.origin
  | check origin => some origin
  | fmt origin => some origin
  | list => none

variable {c : Command} {origin : Origin} {w : Surroundings} {p : Program}

/-- Without a program a command prints nothing but the error. -/
theorem play?_of_load_error (hc : c.origin? = some origin) {e : Error}
    (hl : (origin.load w).2 = .error e) (v turns : Nat) :
    ∃ out, Invocation.play? ⟨v, c⟩ w turns = some (out, e.exitCode) ∧ out.out = [] := by
  have h (go : Program → Turn) : ∃ out, withProgram origin v w go = .done out e.exitCode ∧
      out.out = [] := by
    simp only [withProgram, hl]
    exact ⟨_, rfl, rfl⟩
  cases c with
  | list => cases hc
  | run o =>
    cases hc
    obtain ⟨out, hgo, hout⟩ := h (startRun o v)
    exact ⟨out, by simp only [Invocation.play?, Invocation.start, hgo], hout⟩
  | check o =>
    cases hc
    obtain ⟨out, hgo, hout⟩ := h checkTurn
    exact ⟨out, by simp only [Invocation.play?, Invocation.start, hgo], hout⟩
  | fmt o =>
    cases hc
    obtain ⟨out, hgo, hout⟩ := h fmtTurn
    exact ⟨out, by simp only [Invocation.play?, Invocation.start, hgo], hout⟩

theorem exists_play?_check (hp : (origin.load w).2 = .ok p) (v turns : Nat) :
    ∃ out, Invocation.play? ⟨v, .check origin⟩ w turns =
      some (out, if p.warnings = [] then 0 else 1) := by
  by_cases hw : p.warnings = []
  · simp only [Invocation.play?, Invocation.start, withProgram_of_load hp, checkTurn, if_pos hw,
      Turn.after]
    exact ⟨_, rfl⟩
  · simp only [Invocation.play?, Invocation.start, withProgram_of_load hp, checkTurn, if_neg hw,
      Turn.after]
    exact ⟨_, rfl⟩

end Command

namespace Session

/-- How a run ends behind `k` applied rules, and what the exit code tells of it. -/
inductive Ending (limit : Option Nat) (m : Machine) (k : Nat) : Nat → Prop
  | stopped (hl : StopsAt limit k) : Ending limit m k 3
  | halted (hl : ¬ StopsAt limit k) (hs : (m.after k).step.1 = .halted) : Ending limit m k 0
  | failed {e : RunError} (hl : ¬ StopsAt limit k) (hs : (m.after k).step.1 = .failed e) :
      Ending limit m k 1

theorem ending_of_play? {s : Session} (hf : s.flag = false) (hs : s.steps = 0) {turns code : Nat}
    {out : Output} (h : s.play? turns = some (out, code)) :
    ∃ k, s.machine.Applies k ∧ (∀ n, s.limit = some n → k ≤ max n 1) ∧
      Ending s.limit s.machine k code := by
  obtain ⟨k, last, hbefore, hlast, _⟩ := play?_cases h
  have hk : ∀ i < k, (s.after i).flag = false := fun i hi => (hbefore i hi).1
  have hflag := flag_iff_stopsAt hf hs hk
  refine ⟨k, ?_, fun n hn => le_limit hf hs hk hn, ?_⟩
  · intro i hi
    rw [← machine_after]
    exact (hbefore i hi).2
  · have hstep := s.machine_after k
    cases hlast with
    | stopped hup _ => exact .stopped (hflag.1 hup)
    | halted hdown hh _ =>
      exact .halted (fun hl => by rw [hflag.2 hl] at hdown; cases hdown) (hstep ▸ hh)
    | failed hdown he _ =>
      exact .failed (fun hl => by rw [hflag.2 hl] at hdown; cases hdown) (hstep ▸ he)

variable {limit : Option Nat} {m : Machine} {k code : Nat}

theorem Ending.code_eq_zero_iff (h : Ending limit m k code) :
    code = 0 ↔ ¬ StopsAt limit k ∧ (m.after k).step.1 = .halted := by
  cases h with
  | stopped hl => exact iff_of_false (by decide) fun h => h.1 hl
  | halted hl hs => exact iff_of_true rfl ⟨hl, hs⟩
  | failed hl hs => exact iff_of_false (by decide) fun ⟨_, hh⟩ => by rw [hs] at hh; cases hh

theorem Ending.code_eq_three_iff (h : Ending limit m k code) : code = 3 ↔ StopsAt limit k := by
  cases h with
  | stopped hl => exact iff_of_true rfl hl
  | halted hl hs => exact iff_of_false (by decide) hl
  | failed hl hs => exact iff_of_false (by decide) hl

theorem Ending.code_eq_one_iff (h : Ending limit m k code) :
    code = 1 ↔ ¬ StopsAt limit k ∧ ∃ e, (m.after k).step.1 = .failed e := by
  cases h with
  | stopped hl => exact iff_of_false (by decide) fun h => h.1 hl
  | halted hl hs => exact iff_of_false (by decide) fun ⟨_, e, he⟩ => by rw [hs] at he; cases he
  | failed hl hs => exact iff_of_true rfl ⟨hl, _, hs⟩

theorem Ending.code_cases (h : Ending limit m k code) : code = 0 ∨ code = 1 ∨ code = 3 := by
  cases h with
  | stopped _ => exact .inr (.inr rfl)
  | halted _ _ => exact .inl rfl
  | failed _ _ => exact .inr (.inl rfl)

end Session

section Exit

variable {v turns code : Nat} {origin : Origin} {o : RunOptions} {w : Surroundings} {p : Program}
  {out : Output}

theorem exitCode_fmt (hp : (origin.load w).2 = .ok p)
    (h : Invocation.play? ⟨v, .fmt origin⟩ w turns = some (out, code)) : code = 0 := by
  obtain ⟨text, ht⟩ := Origin.exists_parse_of_load hp
  obtain ⟨source, hs⟩ := Program.exists_source_iff.2 (Program.expressible_of_parse ht)
  obtain ⟨_, hplay, _⟩ : ∃ out, Invocation.play? ⟨v, .fmt origin⟩ w turns = some (out, 0) ∧
      out.out = [source] := exists_play?_fmt hp hs
  rw [hplay] at h
  cases h
  rfl

theorem exitCode_check (hp : (origin.load w).2 = .ok p)
    (h : Invocation.play? ⟨v, .check origin⟩ w turns = some (out, code)) :
    code = if p.warnings = [] then 0 else 1 := by
  obtain ⟨_, hplay⟩ := Command.exists_play?_check hp v turns
  rw [hplay] at h
  cases h
  rfl

theorem ending_of_run (hp : (o.origin.load w).2 = .ok p)
    (h : Invocation.play? ⟨v, .run o⟩ w turns = some (out, code)) :
    ∃ k, (o.machine p).Applies k ∧ (∀ n, o.limit = some n → k ≤ max n 1) ∧
      Session.Ending o.limit (o.machine p) k code := by
  obtain ⟨_, hrest, _⟩ := exists_play?_of_run hp h
  have hf : (o.session v p).flag = false := rfl
  have hs : (o.session v p).steps = 0 := rfl
  exact Session.ending_of_play? hf hs hrest

/-- What the exit code of a command says, once it has its program. A run stops behind its last applied rule:
for its limit, for a halt, or because it is stuck there. -/
def Command.Tells (p : Program) (code : Nat) : Command → Prop
  | run o => ∃ k,
      let m := o.machine p
      let q := (m.after k).program
      m.Applies k ∧ (∀ n, o.limit = some n → k ≤ max n 1) ∧ (code = 0 ∨ code = 1 ∨ code = 3) ∧
        (code = 0 ↔ ¬ Session.StopsAt o.limit k ∧
          ∃ key, q.resolve q.scanned = some (key, .halt)) ∧
        (code = 3 ↔ Session.StopsAt o.limit k) ∧
        (code = 1 ↔ ¬ Session.StopsAt o.limit k ∧ q.Stuck)
  | check _ => code = if p.warnings = [] then 0 else 1
  | fmt _ => code = 0
  | list => code = 0

theorem tells_of_load {c : Command} (hc : c.origin? = some origin) (hp : (origin.load w).2 = .ok p)
    (h : Invocation.play? ⟨v, c⟩ w turns = some (out, code)) : c.Tells p code := by
  cases c with
  | list => cases hc
  | check o =>
    cases hc
    exact exitCode_check hp h
  | fmt o =>
    cases hc
    exact exitCode_fmt hp h
  | run o =>
    cases hc
    obtain ⟨k, ha, hk, hend⟩ := ending_of_run hp h
    refine ⟨k, ha, hk, hend.code_cases, ?_, hend.code_eq_three_iff, ?_⟩
    · rw [hend.code_eq_zero_iff, Machine.step_eq_halted_iff]
    · rw [hend.code_eq_one_iff, Machine.exists_step_eq_failed_iff]

/-- Once there is a program, the source is not at fault. -/
theorem Command.Tells.ne_two {c : Command} (h : c.Tells p code) : code ≠ 2 := by
  cases c with
  | run o =>
    obtain ⟨_, _, _, hcode, _⟩ := h
    omega
  | check o =>
    change code = _ at h
    rw [h]
    split <;> decide
  | fmt o | list =>
    change code = 0 at h
    omega

end Exit

/-- A command whose program comes from the standard input tells by its exit code where it stopped: at a line
of the text, at bytes that are no text, or, with a program, at what it has found out about it. -/
theorem exitCode_of_input {i : Invocation} (hi : i.command.origin? = some .input) {w : Surroundings}
    {bytes : ByteArray} (hw : w.input = some bytes) {turns : Nat} {out : Output} {code : Nat}
    (h : i.play? w turns = some (out, code)) :
    (code = 2 ↔ ∃ text, String.fromUTF8? bytes = some text ∧
        ∃ raw ∈ Source.textLines text, Source.Malformed raw) ∧
      (code = 2 → out.out = []) ∧
      (String.fromUTF8? bytes = none → code = 1 ∧ out.out = []) ∧
      ∀ text, String.fromUTF8? bytes = some text →
        (∀ raw ∈ Source.textLines text, ¬ Source.Malformed raw) →
          ∃ p, Program.parseFile text = .ok p ∧ i.command.Tells p code := by
  obtain ⟨v, c⟩ := i
  cases ht : String.fromUTF8? bytes with
  | none =>
    have hl := Origin.load_input_of_none hw ht
    obtain ⟨_, hplay, hout⟩ := Command.play?_of_load_error hi hl v turns
    rw [hplay] at h
    cases h
    exact ⟨iff_of_false (by decide) nofun, nofun, fun _ => ⟨rfl, hout⟩, nofun⟩
  | some text =>
    have hl := Origin.load_input_of_some hw ht
    -- the only text to speak of
    simp only [Option.some.injEq, exists_eq_left', forall_eq', reduceCtorEq, false_implies, true_and]
    cases hp : Program.parseFile text with
    | error e =>
      rw [hp] at hl
      have hbad := Program.exists_parseFile_eq_error_iff.1 ⟨e, hp⟩
      obtain ⟨_, hplay, hout⟩ := Command.play?_of_load_error hi hl v turns
      rw [hplay] at h
      cases h
      refine ⟨iff_of_true rfl hbad, fun _ => hout, fun hgood => ?_⟩
      obtain ⟨raw, hraw, hm⟩ := hbad
      exact absurd hm (hgood raw hraw)
    | ok p =>
      rw [hp] at hl
      have htells := tells_of_load hi hl h
      have hgood : ¬ ∃ raw ∈ Source.textLines text, Source.Malformed raw := by
        rw [← Program.exists_parseFile_eq_error_iff, hp]
        rintro ⟨e, he⟩
        cases he
      exact ⟨iff_of_false htells.ne_two hgood, fun h2 => absurd h2 htells.ne_two,
        fun _ => ⟨p, rfl, htells⟩⟩

/-- A program that counts a cell down to nothing and halts there. -/
def Program.countdown : Program where
  rules := RuleTable.ofRules
    [(⟨.literal "0", .literal "S"⟩, .halt),
      (⟨.any, .literal "S"⟩, .transition ⟨.decrement, .keep, .stay⟩)]

def RunOptions.fromTwo : RunOptions where
  origin := .input
  tape := some ["2"]
  state := some "S"
  trace := false
  format := .text
  limit := some 2

/-- The limit comes before a halt that is due, and one bad line spoils a text of good rules. -/
theorem exitCode_of_input_countdown :
    let good := "0,S=>,,\n*,S=>-,*,\n"
    let bad := good ++ "a,b\n"
    let w (text : String) : Surroundings := ⟨fun _ => .error .notFound, some text.toUTF8⟩
    (∃ out, Invocation.play? ⟨0, .run .fromTwo⟩ (w good) 3 = some (out, 3) ∧
        ∃ p, Program.parseFile good = .ok p ∧ (Command.run .fromTwo).Tells p 3) ∧
      ∃ out, Invocation.play? ⟨0, .check .input⟩ (w bad) 1 = some (out, 2) ∧ out.out = [] ∧
        ∃ raw ∈ Source.textLines bad, Source.Malformed raw := by
  intro good bad w
  have hgood : Program.parseFile good = .ok .countdown := by decide
  have hbad : Program.parseFile bad = .error ⟨3, .ambiguous "a,b"⟩ := by decide
  constructor
  · have hload : (Origin.input.load (w good)).2 = .ok .countdown := by
      rw [Origin.load_input_of_some rfl (fromUTF8?_toUTF8 good), hgood]
      rfl
    have hplay : (RunOptions.fromTwo.session 0 .countdown).play? 3 =
        some (⟨["0"], ["Stopped after 2 steps"]⟩, 3) := by decide
    obtain ⟨first, hstart, _⟩ := exists_start_run (v := 0) (o := .fromTwo) hload
    have hrun : Invocation.play? ⟨0, .run .fromTwo⟩ (w good) 3 =
        some (first ++ ⟨["0"], ["Stopped after 2 steps"]⟩, 3) := by
      rw [Invocation.play?, hstart]
      change ((RunOptions.fromTwo.session 0 .countdown).play? 3).map _ = _
      rw [hplay]
      rfl
    obtain ⟨_, _, _, htells⟩ := exitCode_of_input rfl rfl hrun
    have hlines : ∀ raw ∈ Source.textLines good, ¬ Source.Malformed raw := by
      intro raw hraw hm
      obtain ⟨e, he⟩ := Program.exists_parseFile_eq_error_iff.2 ⟨raw, hraw, hm⟩
      rw [hgood] at he
      cases he
    exact ⟨_, hrun, htells good (fromUTF8?_toUTF8 good) hlines⟩
  · have hload : (Origin.input.load (w bad)).2 = .error (.source ⟨3, .ambiguous "a,b"⟩) := by
      rw [Origin.load_input_of_some rfl (fromUTF8?_toUTF8 bad), hbad]
      rfl
    obtain ⟨out, hplay, _⟩ := Command.play?_of_load_error (c := .check .input) rfl hload 0 1
    obtain ⟨htwo, hout, _⟩ := exitCode_of_input rfl rfl hplay
    obtain ⟨text, htext, hraw⟩ := htwo.1 rfl
    rw [fromUTF8?_toUTF8] at htext
    cases htext
    exact ⟨out, hplay, hout rfl, hraw⟩

end TapeLang
