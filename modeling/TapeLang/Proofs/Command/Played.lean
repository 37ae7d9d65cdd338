import TapeLang.Proofs.Command.Loaded
import TapeLang.Proofs.Machine.Applied

/-! Sessions that are played to their end. A turn comes out in one of four ways, `Session.turned`; so a session
that ends has applied a rule in each turn but the last, `Session.play?_cases`, and one whose turns come
to an end has the same result in all longer plays, `Session.exists_play?_of_passes`. A limit puts the flag up
behind the rule that reached it, `Session.flag_iff_stopsAt`. -/

namespace TapeLang

namespace Session

variable {s : Session}

/-- The ways in which a turn comes out, each with what it prints. -/
inductive Turned (s : Session) : Turn → Prop
  | stopped {o : Output} (hf : s.flag = true) (ho : o.out = [resultLine s.format s.machine]) :
      Turned s (.done o 3)
  | applied {o : Output} (hf : s.flag = false) (hs : s.machine.step.1 = .applied)
      (ho : o.out = (s.note s.machine.step.2).traceOutput.out) :
      Turned s (.more o (s.note s.machine.step.2))
  | halted {o : Output} (hf : s.flag = false) (hs : s.machine.step.1 = .halted)
      (ho : o.out = [resultLine s.format s.machine.step.2]) : Turned s (.done o 0)
  | failed {o : Output} {e : RunError} (hf : s.flag = false) (hs : s.machine.step.1 = .failed e)
      (ho : o.out = []) : Turned s (.done o 1)

theorem turned (s : Session) : s.Turned s.turn := by
  unfold turn
  split
  · next hf => exact .stopped hf rfl
  · next hf =>
    rw [Bool.not_eq_true] at hf
    rcases hs : s.machine.step with ⟨_ | _ | e, m⟩
    · have hm : m = s.machine.step.2 := by rw [hs]
      subst hm
      exact .applied hf (by rw [hs]) rfl
    · exact .halted hf (by rw [hs]) (by rw [hs]; rfl)
    · exact .failed hf (by rw [hs]) rfl

def after (s : Session) : Nat → Session
  | 0 => s
  | k + 1 => (s.after k).note (s.after k).machine.step.2

theorem after_succ_left (s : Session) (k : Nat) :
    s.after (k + 1) = (s.note s.machine.step.2).after k := by
  induction k with
  | zero => rfl
  | succ k ih => rw [after, ih, after]

/-- All but the machine, the count and the flag stays as it is. -/
theorem after_eq (s : Session) (k : Nat) :
    s.after k =
      { s with machine := s.machine.after k, steps := s.steps + k, flag := (s.after k).flag } := by
  induction k with
  | zero => rfl
  | succ k ih =>
    rw [after, ih]
    rfl

theorem machine_after (s : Session) (k : Nat) : (s.after k).machine = s.machine.after k := by
  rw [after_eq]

/-- Once the limit is reached the flag stays up. -/
theorem flag_after (hf : s.flag = false) (hs : s.steps = 0) (k : Nat) :
    (s.after k).flag = true ↔ 0 < k ∧ ∃ n, s.limit = some n ∧ n ≤ k := by
  induction k with
  | zero => simp [after, hf]
  | succ k ih =>
    have hflag : (s.after (k + 1)).flag =
        ((s.after k).flag || s.limit.any fun n => decide (n ≤ k + 1)) := by
      rw [after, note, after_eq, hs, Nat.zero_add]
    rw [hflag, Bool.or_eq_true, ih, Option.any_eq_true]
    simp only [decide_eq_true_eq]
    constructor
    · rintro (⟨_, n, hl, hn⟩ | ⟨n, hl, hn⟩)
      · exact ⟨Nat.succ_pos k, n, hl, Nat.le_succ_of_le hn⟩
      · exact ⟨Nat.succ_pos k, n, hl, hn⟩
    · exact fun h => .inr h.2

/-- A limit stops a run behind so many applied rules; a limit of none lets one rule through. -/
def StopsAt (limit : Option Nat) (k : Nat) : Prop :=
  ∃ n, limit = some n ∧ k = max n 1

/-- The flag is looked at before the limit can be passed. -/
theorem le_limit (hf : s.flag = false) (hs : s.steps = 0) {k : Nat}
    (hk : ∀ i < k, (s.after i).flag = false) {n : Nat} (hn : s.limit = some n) : k ≤ max n 1 := by
  by_contra hlt
  have hup := (flag_after hf hs (max n 1)).2 ⟨by omega, n, hn, by omega⟩
  rw [hk _ (Nat.lt_of_not_le hlt)] at hup
  cases hup

theorem flag_iff_stopsAt (hf : s.flag = false) (hs : s.steps = 0) {k : Nat}
    (hk : ∀ i < k, (s.after i).flag = false) : (s.after k).flag = true ↔ StopsAt s.limit k := by
  rw [flag_after hf hs]
  constructor
  · rintro ⟨h0, n, hn, hnk⟩
    have hle := le_limit hf hs hk hn
    exact ⟨n, hn, by omega⟩
  · rintro ⟨n, hn, rfl⟩
    exact ⟨by omega, n, hn, by omega⟩

/-- A session that ends has applied a rule in each of its turns but the last. -/
theorem play?_cases {turns : Nat} {o : Output} {code : Nat} (h : s.play? turns = some (o, code)) :
    ∃ k last, (∀ i < k, (s.after i).flag = false ∧ (s.after i).machine.step.1 = .applied) ∧
      (s.after k).Turned (.done last code) ∧
      o.out = ((List.range k).flatMap fun i => (s.after (i + 1)).traceOutput.out) ++ last.out := by
  induction turns generalizing s o with
  | zero => cases h
  | succ turns ih =>
    have ht := s.turned
    rw [play?] at h
    split at h
    · next last _ hturn =>
      cases h
      exact ⟨0, o, fun i hi => absurd hi (Nat.not_lt_zero i), hturn ▸ ht, rfl⟩
    · next first next hturn =>
      obtain ⟨⟨rest, _⟩, hrest, hor⟩ := Option.map_eq_some_iff.1 h
      cases hor
      obtain ⟨k, last, hbefore, hlast, hout⟩ := ih hrest
      rw [hturn] at ht
      cases ht with
      | applied hf hs ho =>
        simp only [← after_succ_left] at hbefore hlast hout
        refine ⟨k + 1, last, ?_, hlast, ?_⟩
        · rintro (_ | i) hi
          · exact ⟨hf, hs⟩
          · exact hbefore i (Nat.lt_of_succ_lt_succ hi)
        · rw [Output.out_append, ho, hout, List.range_succ_eq_map, List.flatMap_cons,
            List.flatMap_map, List.append_assoc]
          rfl

/-- The next `k` turns apply a rule each, and the session goes on behind them. -/
def Passes (s : Session) (k : Nat) : Prop :=
  ∀ i < k, ∃ o, (s.after i).turn = .more o (s.after (i + 1))

theorem turn_of_applied (hf : s.flag = false) (ha : s.machine.step.1 = .applied) :
    ∃ o, s.turn = .more o (s.note s.machine.step.2) ∧
      o.out = (s.note s.machine.step.2).traceOutput.out := by
  have ht := s.turned
  generalize s.turn = t at ht
  cases ht with
  | stopped hup _ =>
    rw [hf] at hup
    cases hup
  | applied _ _ ho => exact ⟨_, rfl, ho⟩
  | halted _ hh _ =>
    rw [ha] at hh
    cases hh
  | failed _ he _ =>
    rw [ha] at he
    cases he

theorem passes_iff {k : Nat} :
    s.Passes k ↔ ∀ i < k, (s.after i).flag = false ∧ (s.after i).machine.step.1 = .applied := by
  constructor
  · intro h i hi
    obtain ⟨o, ho⟩ := h i hi
    have ht := (s.after i).turned
    rw [ho] at ht
    cases ht with
    | applied hf hs _ => exact ⟨hf, hs⟩
  · intro h i hi
    obtain ⟨o, ho, _⟩ := turn_of_applied (h i hi).1 (h i hi).2
    exact ⟨o, ho⟩

/-- Where the turns that go on come to an end, so does the session. -/
theorem exists_play?_of_passes {k code : Nat} {last : Output} (h : s.Passes k)
    (hd : (s.after k).turn = .done last code) :
    ∃ o, (∀ turns, s.play? turns = if k < turns then some (o, code) else none) ∧
      o.out = ((List.range k).flatMap fun i => (s.after (i + 1)).traceOutput.out) ++ last.out := by
  induction k generalizing s with
  | zero =>
    have hturn : s.turn = .done last code := hd
    refine ⟨last, ?_, rfl⟩
    rintro (_ | turns)
    · rfl
    · rw [play?, hturn, if_pos turns.succ_pos]
  | succ k ih =>
    obtain ⟨hf, ha⟩ := passes_iff.1 h 0 k.succ_pos
    obtain ⟨first, hturn, hfirst⟩ := turn_of_applied (s := s) hf ha
    have hrest : (s.note s.machine.step.2).Passes k := fun i hi => by
      simp only [← after_succ_left]
      exact h (i + 1) (Nat.succ_lt_succ hi)
    obtain ⟨o, hplay, ho⟩ := ih hrest (by rw [← after_succ_left]; exact hd)
    refine ⟨first ++ o, ?_, ?_⟩
    · rintro (_ | turns)
      · rfl
      · simp only [play?, hturn, hplay, Nat.succ_lt_succ_iff]
        split
        · rfl
        · rfl
    · rw [Output.out_append, hfirst, ho, List.range_succ_eq_map, List.flatMap_cons,
        List.flatMap_map, List.append_assoc]
      simp only [after_succ_left]
      rfl

end Session

section Run

variable {v turns : Nat} {o : RunOptions} {w : Surroundings} {p : Program} {out : Output} {code : Nat}

theorem RunOptions.program_machine (hp : p.head = 0) :
    (o.machine p).program =
      { p with tape := o.tape.getD p.tape, state := o.state.getD p.state } := by
  obtain ⟨tape, state, head, rules⟩ := p
  obtain rfl : head = 0 := hp
  unfold machine
  cases o.tape <;> cases o.state <;> rfl

theorem RunOptions.program_machine_of_load (hp : (o.origin.load w).2 = .ok p) :
    (o.machine p).program = ⟨o.tape.getD p.tape, o.state.getD p.state, 0, p.rules⟩ := by
  obtain ⟨source, hsource⟩ := Origin.exists_parse_of_load hp
  have hhead : p.head = 0 := Program.head_of_addLines hsource
  rw [program_machine hhead, hhead]

theorem RunOptions.count_machine : (o.machine p).count = 0 := by
  unfold machine
  cases o.tape <;> cases o.state <;> rfl

theorem start_run (hp : (o.origin.load w).2 = .ok p) :
    Invocation.start ⟨v, .run o⟩ w =
      .more (Output.ofNotices v (o.origin.load w).1 ++
        (Output.ofNotices v (p.warnings.map .warning) ++ (o.session v p).traceOutput))
        (o.session v p) := by
  simp only [Invocation.start, Command.withProgram_of_load hp, Command.startRun, Turn.after]

theorem exists_start_run (hp : (o.origin.load w).2 = .ok p) :
    ∃ first, Invocation.start ⟨v, .run o⟩ w = .more first (o.session v p) ∧
      first.out = (o.session v p).traceOutput.out :=
  ⟨_, start_run hp, rfl⟩

/-- A run prints what its session prints, behind a line for the start if it is traced. -/
theorem exists_play?_run (hp : (o.origin.load w).2 = .ok p) :
    ∃ first, first.out = (o.session v p).traceOutput.out ∧
      ∀ turns, Invocation.play? ⟨v, .run o⟩ w turns =
        ((o.session v p).play? turns).map fun r => (first ++ r.1, r.2) := by
  obtain ⟨first, hfirst, hout⟩ := exists_start_run (v := v) hp
  refine ⟨first, hout, fun turns => ?_⟩
  rw [Invocation.play?, hfirst]

theorem exists_play?_of_run (hp : (o.origin.load w).2 = .ok p)
    (h : Invocation.play? ⟨v, .run o⟩ w turns = some (out, code)) :
    ∃ rest, (o.session v p).play? turns = some (rest, code) ∧
      out.out = (o.session v p).traceOutput.out ++ rest.out := by
  obtain ⟨first, hout, hplay⟩ := exists_play?_run hp
  rw [hplay] at h
  obtain ⟨⟨rest, _⟩, hrest, he⟩ := Option.map_eq_some_iff.1 h
  cases he
  exact ⟨rest, hrest, by rw [Output.out_append, hout]⟩

end Run

end TapeLang
