import Mathlib.Algebra.Group.Nat.Defs
import TapeLang.Proofs.Command.Played
import TapeLang.Proofs.Json.Lossless
import TapeLang.Proofs.Json.OneLine

/-! Traces of a run. A session that traces prints the snapshots of its run and what closes it,
`Session.Tracing.play?`; they fit in JSON as long as the steps can be counted, `Machine.fits_snapshots`,
and each of them is on a line of its own, `splitOn_joined`. -/

namespace TapeLang

section Lines

theorem splitOn_joined {lines : List String} (h : ∀ l ∈ lines, '\n' ∉ l.toList) :
    (Output.joined lines).toList.splitOn '\n' = lines.map String.toList ++ [[]] := by
  induction lines with
  | nil => rfl
  | cons l lines ih =>
    obtain ⟨hl, hlines⟩ := List.forall_mem_cons.1 h
    have hjoined : (Output.joined (l :: lines)).toList =
        l.toList ++ '\n' :: (Output.joined lines).toList := by
      simp [Output.joined]
    rw [hjoined, List.splitOn_append_cons_self_of_not_mem hl, ih hlines]
    rfl

theorem mapM_map_eq_some {α β : Type} {write : α → β} {read : β → Option α} {xs : List α}
    (h : ∀ x ∈ xs, read (write x) = some x) : (xs.map write).mapM read = some xs := by
  induction xs with
  | nil => rfl
  | cons x xs ih =>
    obtain ⟨hx, hxs⟩ := List.forall_mem_cons.1 h
    rw [List.map_cons, List.mapM_cons, hx, ih hxs]
    rfl

end Lines

namespace Machine

def snapshots (m : Machine) (k : Nat) : List Snapshot :=
  (List.range (k + 1)).map fun i => .ofProgram i (m.after i).program

/-- How a run comes to its end behind `k` applied rules: the last snapshot, if there is one, and the
exit code. -/
inductive Closes (limit : Option Nat) (m : Machine) (k : Nat) : List Snapshot → Nat → Prop
  | stopped (hl : limit = some k) : Closes limit m k [.ofProgram k (m.after k).program] 3
  | halted (hl : limit ≠ some k) (hs : (m.after k).step.1 = .halted) :
      Closes limit m k [.ofProgram k (m.after (k + 1)).program] 0
  | failed {e : RunError} (hl : limit ≠ some k) (hs : (m.after k).step.1 = .failed e) :
      Closes limit m k [] 1

/-- A step that applies no rule puts blanks around the tape, and the head moves along with the cells. -/
theorem exists_blanks_step {m : Machine} (h : m.step.1 ≠ .applied) :
    ∃ left right, m.step.2.program =
      { m.program with
        tape := List.replicate left blank ++ m.program.tape ++ List.replicate right blank
        head := m.program.head + left } := by
  refine ⟨m.program.leftGap, m.program.rightGap, ?_⟩
  have hhead : m.program.extend.head = m.program.head + m.program.leftGap := by
    rw [Program.head_extend, Program.leftGap]
    omega
  rw [step_of_ne_applied h, extend, ← hhead, ← Program.tape_extend]
  rfl

theorem head_after_bounds {m : Machine} (h : m.program.head = 0) (n : Nat) :
    -1 ≤ (m.after n).program.head ∧ (m.after n).program.head ≤ n := by
  induction n with
  | zero =>
    change -1 ≤ m.program.head ∧ m.program.head ≤ 0
    omega
  | succ n ih =>
    obtain ⟨hl, hu⟩ := (m.after n).head_step
    rw [Program.head_extend] at hl hu
    rw [after, Int.natCast_add]
    omega

end Machine

namespace Session

variable {s : Session} {k turns : Nat} {o : Output} {code : Nat}

structure Tracing (s : Session) : Prop where
  trace : s.trace = true
  format : s.format = .json
  limit : s.limit ≠ some 0
  flag : s.flag = false
  steps : s.steps = 0
  count : s.machine.count = 0

/-- What a session that starts traces of its first `k` rules are the snapshots of the run. -/
theorem traceOutputs (hs : s.steps = 0) (k : Nat) :
    s.traceOutput.out ++ ((List.range k).flatMap fun i => (s.after (i + 1)).traceOutput.out) =
      if s.trace then (s.machine.snapshots k).map (snapshotLine s.format) else [] := by
  have line (i : Nat) : (s.after i).traceOutput.out =
      if s.trace then [snapshotLine s.format (.ofProgram i (s.machine.after i).program)] else [] := by
    rw [traceOutput, after_eq, hs, Nat.zero_add]
  have h0 : s.traceOutput.out = (s.after 0).traceOutput.out := rfl
  rw [h0, Machine.snapshots, List.range_succ_eq_map]
  simp only [line]
  split
  · simp only [List.map_cons, List.map_map, List.singleton_append]
    exact congrArg _ List.map_eq_flatMap.symm
  · simp

theorem Tracing.traceOutputs (hs : s.Tracing) (k : Nat) :
    s.traceOutput.out ++ ((List.range k).flatMap fun i => (s.after (i + 1)).traceOutput.out) =
      (s.machine.snapshots k).map Snapshot.json := by
  rw [Session.traceOutputs hs.steps, if_pos hs.trace, hs.format]
  rfl

theorem Tracing.le_limit (hs : s.Tracing) (hk : ∀ i < k, (s.after i).flag = false) {n : Nat}
    (hn : s.limit = some n) : k ≤ n := by
  have hle := Session.le_limit hs.flag hs.steps hk hn
  have h0 : n ≠ 0 := fun h0 => hs.limit (h0 ▸ hn)
  omega

theorem Tracing.flag_iff (hs : s.Tracing) (hk : ∀ i < k, (s.after i).flag = false) :
    (s.after k).flag = true ↔ s.limit = some k := by
  rw [flag_iff_stopsAt hs.flag hs.steps hk]
  constructor
  · rintro ⟨n, hn, rfl⟩
    have h0 : n ≠ 0 := fun h0 => hs.limit (h0 ▸ hn)
    have hmax : max n 1 = n := by omega
    rw [hn, hmax]
  · intro hn
    have h0 : k ≠ 0 := fun h0 => hs.limit (h0 ▸ hn)
    exact ⟨k, hn, by omega⟩

theorem Tracing.closes (hs : s.Tracing) (hk : ∀ i < k, (s.after i).flag = false)
    (ha : s.machine.Applies k) (h : (s.after k).Turned (.done o code)) :
    ∃ last, s.machine.Closes s.limit k last code ∧ o.out = last.map Snapshot.json := by
  have hflag := hs.flag_iff hk
  have hcount : (s.machine.after k).count = k := by
    rw [Machine.count_after ha, hs.count, Nat.zero_add]
  have result (m : Machine) (hm : m.count = k) :
      resultLine (s.after k).format m = (Snapshot.ofProgram k m.program).json := by
    rw [after_eq, hs.format, resultLine, hm]
  cases h with
  | stopped hf ho =>
    rw [machine_after, result _ hcount] at ho
    exact ⟨_, .stopped (hflag.1 hf), ho⟩
  | halted hf hh ho =>
    rw [machine_after] at hh ho
    have hend : (s.machine.after k).step.2.count = k := by
      rw [Machine.step_of_ne_applied (by rw [hh]; exact Step.noConfusion)]
      exact hcount
    rw [result _ hend] at ho
    exact ⟨_, .halted (fun hl => by rw [hflag.2 hl] at hf; cases hf) hh, ho⟩
  | failed hf hh ho =>
    rw [machine_after] at hh
    exact ⟨_, .failed (fun hl => by rw [hflag.2 hl] at hf; cases hf) hh, ho⟩

/-- A session that traces its run prints the snapshots of the run and what closes it. -/
theorem Tracing.play? (hs : s.Tracing) (h : s.play? turns = some (o, code)) :
    ∃ k last, s.machine.Applies k ∧ s.machine.Closes s.limit k last code ∧
      (∀ n, s.limit = some n → k ≤ n) ∧
      s.traceOutput.out ++ o.out = (s.machine.snapshots k ++ last).map Snapshot.json := by
  obtain ⟨k, ended, hbefore, hturned, hout⟩ := play?_cases h
  have hk (i : Nat) (hi : i < k) : (s.after i).flag = false := (hbefore i hi).1
  have ha : s.machine.Applies k := fun i hi => by
    rw [← machine_after]
    exact (hbefore i hi).2
  obtain ⟨last, hcloses, hlast⟩ := hs.closes hk ha hturned
  refine ⟨k, last, ha, hcloses, fun n hn => hs.le_limit hk hn, ?_⟩
  rw [hout, ← List.append_assoc, hs.traceOutputs, hlast, List.map_append]

end Session

section Record

variable {v turns k : Nat} {o : RunOptions} {w : Surroundings} {p : Program} {out : Output}
  {code : Nat} {m : Machine} {last : List Snapshot} {limit : Option Nat}

theorem Machine.fits_snapshot (hm : m.program.head = 0) (hk : k < 2 ^ 63) :
    (Snapshot.ofProgram k (m.after k).program).Fits := by
  obtain ⟨hl, hu⟩ := m.head_after_bounds hm k
  exact ⟨by change k < _; omega, by change _ ≤ (m.after k).program.head; omega,
    by change (m.after k).program.head < _; omega⟩

theorem Machine.fits_snapshot_extend (hm : m.program.head = 0) (hk : k < 2 ^ 63) :
    (Snapshot.ofProgram k (m.after k).program.extend).Fits := by
  obtain ⟨_, hl, hu⟩ := fits_snapshot hm hk
  have hx : (m.after k).program.extend.head = max 0 (m.after k).program.head := rfl
  change (m.after k).program.head < _ at hu
  exact ⟨by change k < _; omega, by change _ ≤ (m.after k).program.extend.head; omega,
    by change (m.after k).program.extend.head < _; omega⟩

theorem Machine.fits_snapshots (hm : m.program.head = 0) (hk : k < 2 ^ 63) :
    ∀ s ∈ m.snapshots k, s.Fits := by
  intro s hs
  obtain ⟨i, hi, rfl⟩ := List.mem_map.1 hs
  have hik := List.mem_range.1 hi
  exact fits_snapshot hm (by omega)

theorem Machine.Closes.fits (h : m.Closes limit k last code) (hm : m.program.head = 0)
    (hk : k < 2 ^ 63) : ∀ s ∈ last, s.Fits := by
  cases h with
  | stopped _ => exact List.forall_mem_singleton.2 (fits_snapshot hm hk)
  | halted _ hs =>
    have hend : (m.after (k + 1)).program = (m.after k).program.extend := by
      rw [after, step_of_ne_applied (by rw [hs]; exact Step.noConfusion)]
      rfl
    rw [hend]
    exact List.forall_mem_singleton.2 (fits_snapshot_extend hm hk)
  | failed _ _ => exact List.forall_mem_nil _

theorem Machine.Closes.code_eq_iff (h : m.Closes limit k last code) :
    code = 3 ↔ limit = some k := by
  cases h with
  | stopped hl => exact iff_of_true rfl hl
  | halted hl _ => exact iff_of_false (by decide) hl
  | failed hl _ => exact iff_of_false (by decide) hl

/-- A trace in JSON is the record of the run, one snapshot a line, whatever its cells and its states are:
the start, what each applied rule has left, and, unless the run failed, its end. Read line by line, it
comes back as long as its numbers fit in 64 bits, which those of the first `2 ^ 63` steps do. -/
theorem json_trace (hp : (o.origin.load w).2 = .ok p) (ht : o.trace = true) (hj : o.format = .json)
    (hl : o.limit ≠ some 0) (h : Invocation.play? ⟨v, .run o⟩ w turns = some (out, code)) :
    let m := o.machine p
    m.program = ⟨o.tape.getD p.tape, o.state.getD p.state, 0, p.rules⟩ ∧
      ∃ k last, m.Applies k ∧ m.Closes o.limit k last code ∧
        (∀ n, o.limit = some n → k ≤ n ∧ (code = 3 ↔ k = n)) ∧
        ((m.after k).step.1 ≠ .applied → ∃ left right,
          (m.after (k + 1)).program =
            { (m.after k).program with
              tape := List.replicate left blank ++ (m.after k).program.tape ++
                List.replicate right blank
              head := (m.after k).program.head + left }) ∧
        let record := m.snapshots k ++ last
        let lines := (Output.joined out.out).toList.splitOn '\n'
        lines = record.map (fun s => s.json.toList) ++ [[]] ∧
          ((∀ s ∈ record, s.Fits) →
            lines.dropLast.mapM (fun l => Json.decode? Snapshot.ofJson? (String.ofList l)) =
              some record) ∧
          (k < 2 ^ 63 → ∀ s ∈ record, s.Fits) := by
  intro m
  have hm : m.program = ⟨o.tape.getD p.tape, o.state.getD p.state, 0, p.rules⟩ := by
    obtain ⟨source, hsource⟩ := Origin.exists_parse_of_load hp
    have hhead : p.head = 0 := Program.head_of_addLines hsource
    rw [RunOptions.program_machine hhead, hhead]
  have hs : (o.session v p).Tracing := ⟨ht, hj, hl, rfl, rfl, RunOptions.count_machine⟩
  obtain ⟨rest, hrest, hout⟩ := exists_play?_of_run hp h
  obtain ⟨k, last, ha, hcloses, hle, hrecord⟩ := hs.play? hrest
  refine ⟨hm, k, last, ha, hcloses, ?_, Machine.exists_blanks_step, ?_⟩
  · intro n hn
    refine ⟨hle n hn, hcloses.code_eq_iff.trans ?_⟩
    change o.limit = some k ↔ k = n
    rw [hn, Option.some.injEq, eq_comm]
  · intro record lines
    have hlines : lines = record.map (fun s => s.json.toList) ++ [[]] := by
      change (Output.joined out.out).toList.splitOn '\n' = _
      rw [hout, hrecord, splitOn_joined, List.map_map]
      · rfl
      · intro l hl
        obtain ⟨s, _, rfl⟩ := List.mem_map.1 hl
        exact s.toJson.not_mem_write
    refine ⟨hlines, ?_, ?_⟩
    · intro hfits
      rw [hlines, List.dropLast_concat]
      apply mapM_map_eq_some
      intro s hs
      rw [String.ofList_toList, Snapshot.decode?_json (hfits s hs)]
    · intro hk
      have hhead : m.program.head = 0 := by rw [hm]
      exact List.forall_mem_append.2
        ⟨Machine.fits_snapshots hhead hk, hcloses.fits hhead hk⟩

end Record

/-- A program that writes a backslash, goes to the left and halts on the blank there. -/
def Program.leftwards : Program where
  rules := RuleTable.ofRules
    [(⟨.literal ".", .any⟩, .halt), (⟨.any, .any⟩, .transition ⟨.literal "\\", .keep, .left⟩)]

def RunOptions.onLineEnd : RunOptions where
  origin := .input
  tape := some ["\n"]
  state := some "\"a b\""
  trace := true
  format := .json
  limit := some 2

/-- The blank that the halting step has put in front moves the head of the last snapshot. -/
theorem json_trace_leftwards :
    let w : Surroundings := ⟨fun _ => .error .notFound, some ".,*=>,,\n*,*=>\\,*,<".toUTF8⟩
    let o := RunOptions.onLineEnd
    let lines := [
      "\x7b\"step\":0,\"state\":\"\\\"a b\\\"\",\"head\":0,\"tape\":[\"\\n\"]\x7d",
      "\x7b\"step\":1,\"state\":\"\\\"a b\\\"\",\"head\":-1,\"tape\":[\"\\\\\"]\x7d",
      "\x7b\"step\":1,\"state\":\"\\\"a b\\\"\",\"head\":0,\"tape\":[\".\",\"\\\\\"]\x7d"]
    (o.origin.load w).2 = .ok .leftwards ∧
      ∃ out, Invocation.play? ⟨0, .run o⟩ w 3 = some (out, 0) ∧ out.out = lines ∧
        ∃ k last, k ≤ 2 ∧ (o.machine .leftwards).Closes (some 2) k last 0 ∧
          ((Output.joined lines).toList.splitOn '\n').dropLast.mapM
              (fun l => Json.decode? Snapshot.ofJson? (String.ofList l)) =
            some ((o.machine .leftwards).snapshots k ++ last) := by
  intro w o lines
  have hparse : Program.parseFile ".,*=>,,\n*,*=>\\,*,<" = .ok .leftwards := by decide +kernel
  have hload : (o.origin.load w).2 = .ok .leftwards := by
    have hgives : o.origin.Gives w ".,*=>,,\n*,*=>\\,*,<" := rfl
    rw [Origin.load_of_gives hgives, hparse]
    rfl
  have hplay : (o.session 0 .leftwards).play? 3 = some (⟨lines.tail, []⟩, 0) := by decide +kernel
  have hfirst : (o.session 0 .leftwards).traceOutput.out = [lines.head (List.cons_ne_nil _ _)] := by
    decide +kernel
  obtain ⟨first, hstart, hout⟩ := exists_start_run (v := 0) hload
  have hrun : Invocation.play? ⟨0, .run o⟩ w 3 = some (first ++ ⟨lines.tail, []⟩, 0) := by
    rw [Invocation.play?, hstart]
    change ((o.session 0 .leftwards).play? 3).map _ = _
    rw [hplay]
    rfl
  have hlines : (first ++ ⟨lines.tail, []⟩ : Output).out = lines := by
    rw [Output.out_append, hout, hfirst]
    rfl
  obtain ⟨_, k, last, _, hcloses, hlimit, _, _, hrecord, hfits⟩ :=
    json_trace hload rfl rfl (by decide) hrun
  obtain ⟨hk, _⟩ := hlimit 2 rfl
  rw [hlines] at hrecord
  exact ⟨hload, _, hrun, hlines, k, last, hk, hcloses, hrecord (hfits (by omega))⟩

end TapeLang
