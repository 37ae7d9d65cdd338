import TapeLang.Machine.Run
import TapeLang.Proofs.Source.Accepted

/-! The source of a running program. Every symbol that can come onto the tape is plain, be it a blank, a literal
of a rule or a number, and so is every state; the tape never gets shorter. Nothing but a tape of one to
three cells can therefore keep a program that was read from a text from being written again. -/

namespace TapeLang

theorem isPlain_blank : IsPlain blank := by decide

theorem isPlain_write (v : Int) : IsPlain (Decimal.write v) := by
  refine ⟨?_, ?_, ?_⟩
  · intro h
    exact absurd (Decimal.isDigit_of_mem_write h) (by decide)
  · intro h
    exact absurd (Decimal.isDigit_of_mem_write (h.subset List.mem_cons_self)) (by decide)
  · intro c hc
    rcases Decimal.isDigit_of_mem_write hc with rfl | hd
    · decide
    · exact Text.not_isSpace_of_isDigit hd

theorem isPlain_of_apply {w : Write} {symbol written : Symbol} {key : Key} {index : Nat}
    (hw : w.Expressible) (h : w.apply symbol key index = .ok (some written)) : IsPlain written := by
  rcases Write.eq_of_apply_eq_ok h with rfl | ⟨v, rfl⟩
  · exact hw.2
  · exact isPlain_write v

theorem NextState.Expressible.isPlain_after {n : NextState} {s : State} (hn : n.Expressible)
    (hs : IsPlain s) : IsPlain (n.after s) := by
  cases n with
  | literal t => exact hn.2
  | keep => exact hs

namespace Program

/-- Every token of the program could be written; only its tape may be too short for a line. -/
structure Legible (p : Program) : Prop where
  cells : ∀ s ∈ p.tape, IsPlain s
  state : IsPlain p.state
  rules : ∀ (k : Key) (r : Rule), p.rules[k]? = some r → k.Expressible ∧ r.Expressible

variable {p : Program}

theorem Expressible.legible (h : p.Expressible) : p.Legible :=
  ⟨h.cells, h.state, h.rules⟩

theorem Legible.expressible_iff (h : p.Legible) : p.Expressible ↔ p.tape.length ∉ [1, 2, 3] := by
  have hlen : p.tape.length ∉ [1, 2, 3] ↔ p.tape.length = 0 ∨ 4 ≤ p.tape.length := by
    simp only [List.mem_cons, List.not_mem_nil, or_false]
    omega
  rw [hlen]
  exact ⟨fun he => he.tape_length, fun hl => ⟨hl, h.cells, h.state, h.rules⟩⟩

theorem Legible.extend (h : p.Legible) : p.extend.Legible where
  cells := by
    intro s hs
    rw [tape_extend, List.mem_append, List.mem_append] at hs
    rcases hs with (hs | hs) | hs
    · rw [List.eq_of_mem_replicate hs]
      exact isPlain_blank
    · exact h.cells s hs
    · rw [List.eq_of_mem_replicate hs]
      exact isPlain_blank
  state := h.state
  rules := h.rules

theorem Legible.apply {t : Transition} {written : Option Symbol} (h : p.Legible)
    (ht : (Rule.transition t).Expressible) (hw : ∀ s, written = some s → IsPlain s) :
    (p.apply t written).Legible where
  cells := by
    intro s hs
    cases written with
    | none => exact h.cells s hs
    | some symbol =>
      rcases List.mem_or_eq_of_mem_set hs with hs | rfl
      · exact h.cells s hs
      · exact hw s rfl
  state := ht.2.1.isPlain_after h.state
  rules := h.rules

end Program

namespace Machine

theorem legible_step {m : Machine} (h : m.program.Legible) : m.step.2.program.Legible := by
  have hs := m.stepped
  generalize m.step = r at hs
  cases hs with
  | missing hr => exact h.extend
  | halted hr => exact h.extend
  | faulty hr hw => exact h.extend
  | applied hr hw =>
    have ht := (h.rules _ _ (Program.rules_of_resolve hr).2).2
    apply h.extend.apply ht
    rintro s rfl
    exact isPlain_of_apply ht.1 hw

theorem legible_after {m : Machine} (h : m.program.Legible) (n : Nat) :
    (m.after n).program.Legible := by
  induction n with
  | zero => exact h
  | succ n ih => exact legible_step ih

theorem length_tape_le_step (m : Machine) :
    m.program.tape.length ≤ m.step.2.program.tape.length := by
  rw [length_tape_step, Program.length_tape_extend]
  omega

theorem length_tape_le_after (m : Machine) (n : Nat) :
    m.program.tape.length ≤ (m.after n).program.tape.length := by
  induction n with
  | zero => exact Nat.le_refl _
  | succ n ih => exact ih.trans (m.after n).length_tape_le_step

end Machine

namespace Program

theorem length_tape_addLine {p : Program} {raw : List Char} {line : Source.Line}
    (hl : Source.Line.read raw = .ok line)
    (h : 4 ≤ p.tape.length ∨ ∃ cells, Source.Line.read raw = .ok (.tape cells)) :
    4 ≤ (p.addLine line).tape.length := by
  rw [hl] at h
  cases line with
  | tape cells => exact (Source.expressible_of_read hl).1
  | rule key body =>
    rcases h with h | ⟨cells, hc⟩
    · exact h
    · cases hc
  | state name =>
    rcases h with h | ⟨cells, hc⟩
    · exact h
    · cases hc

/-- Once a tape line is read, the tape has four cells or more. -/
theorem length_tape_addLines {p q : Program} {number : Nat} {lines : List (List Char)}
    (hq : p.addLines number lines = .ok q)
    (h : 4 ≤ p.tape.length ∨ ∃ raw ∈ lines, ∃ cells, Source.Line.read raw = .ok (.tape cells)) :
    4 ≤ q.tape.length := by
  induction lines generalizing p number with
  | nil =>
    cases hq
    rcases h with h | ⟨raw, hm, _⟩
    · exact h
    · cases hm
  | cons raw rest ih =>
    rw [addLines] at hq
    split at hq
    · cases hq
    · next line hl =>
      apply ih hq
      rcases h with h | ⟨raw', hm, hc⟩
      · exact .inl (length_tape_addLine hl (.inl h))
      · rcases List.mem_cons.1 hm with rfl | hm
        · exact .inl (length_tape_addLine hl (.inr hc))
        · exact .inr ⟨raw', hm, hc⟩

/-- A program that counts down on its way to the left, to a blank. -/
def backwards : Program where
  tape := ["0", "1", "2", "3"]
  state := "S"
  rules := RuleTable.ofRules
    [(⟨.any, .literal "S"⟩, .transition ⟨.decrement, .keep, .left⟩),
      (⟨.literal ".", .literal "S"⟩, .transition ⟨.literal "x", .literal "T", .stay⟩)]

/-- After any number of steps, a program that was read from a text has a source exactly if its tape does not
have one to three cells. If the text has a tape line it always has one, which describes it. -/
theorem toSource_after {text : String} {p : Program} (h : parse text = .ok p) (n : Nat) :
    let q := ((Machine.ofProgram p).after n).program
    ((∃ source, q.toSource = .ok source) ↔ q.tape.length ∉ [1, 2, 3]) ∧
      ((∃ raw ∈ Source.lines text, ∃ cells, Source.Line.read raw = .ok (.tape cells)) →
        ∃ source, q.toSource = .ok source ∧ parse source = .ok { q with head := 0 }) := by
  intro q
  have hq : q.Legible := Machine.legible_after (expressible_of_parse h).legible n
  refine ⟨exists_source_iff.trans hq.expressible_iff, ?_⟩
  intro hline
  have hp : 4 ≤ p.tape.length := length_tape_addLines h (.inr hline)
  have hle : p.tape.length ≤ q.tape.length := (Machine.ofProgram p).length_tape_le_after n
  have he : q.Expressible := by
    rw [hq.expressible_iff]
    simp only [List.mem_cons, List.not_mem_nil, or_false]
    omega
  exact ⟨_, toSource_eq_ok_iff.2 ⟨he, rfl⟩, parse_lines he⟩

/-- The third step fails for want of a rule. -/
theorem toSource_after_backwards :
    parse "*,S=>-,*,<\n.,S=>x,T,\n0,1,2,3\nS" = .ok backwards ∧
      ((Machine.ofProgram backwards).after 3).program.tape = ["x", "-1", "1", "2", "3"] ∧
      (∃ raw ∈ Source.lines "*,S=>-,*,<\n.,S=>x,T,\n0,1,2,3\nS",
        ∃ cells, Source.Line.read raw = .ok (.tape cells)) ∧
      ∃ source, ((Machine.ofProgram backwards).after 3).program.toSource = .ok source ∧
        parse source = .ok { ((Machine.ofProgram backwards).after 3).program with head := 0 } := by
  have h : parse "*,S=>-,*,<\n.,S=>x,T,\n0,1,2,3\nS" = .ok backwards := by decide +kernel
  have ht : ((Machine.ofProgram backwards).after 3).program.tape = ["x", "-1", "1", "2", "3"] := by
    decide +kernel
  have hl : ∃ raw ∈ Source.lines "*,S=>-,*,<\n.,S=>x,T,\n0,1,2,3\nS",
      ∃ cells, Source.Line.read raw = .ok (.tape cells) := by
    refine ⟨"0,1,2,3".toList, ?_, ["0", "1", "2", "3"], ?_⟩
    · decide +kernel
    · decide +kernel
  exact ⟨h, ht, hl, (toSource_after h 3).2 hl⟩

end Program

end TapeLang
