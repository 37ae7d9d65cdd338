import Mathlib.Data.List.Infix
import TapeLang.Proofs.Source.RoundTrip

/-! What reading can give. Every accepted line is expressible, so is every program made of such lines, and
therefore writing refuses a program only if no text describes it. -/

namespace TapeLang

def Source.Line.Expressible : Source.Line → Prop
  | .rule k r => k.Expressible ∧ r.Expressible
  | .tape cells => 4 ≤ cells.length ∧ ∀ s ∈ cells, IsPlain s
  | .state s => IsPlain s

section Decode

variable {field : String} (h : IsPlain field)

include h

theorem Pattern.expressible_ofField : (ofField field).Expressible := by
  unfold ofField
  split
  · trivial
  · next hne => exact ⟨hne, h⟩

theorem Write.expressible_ofField : (ofField field).Expressible := by
  unfold ofField
  split
  · trivial
  · next hplus =>
    split
    · trivial
    · next hminus =>
      split
      · trivial
      · next hstar => exact ⟨by simp [hplus, hminus, hstar], h⟩

theorem NextState.expressible_ofField : (ofField field).Expressible := by
  unfold ofField
  split
  · trivial
  · next hne => exact ⟨hne, h⟩

end Decode

namespace Source

theorem expressible_transition {write next : String} (hw : IsPlain write) (hn : IsPlain next)
    {d : Direction} (h : ¬ (write = "" ∧ next = "" ∧ d.text = "")) :
    (Rule.transition ⟨Write.ofField write, NextState.ofField next, d⟩).Expressible := by
  refine ⟨Write.expressible_ofField hw, NextState.expressible_ofField hn, ?_⟩
  intro he
  obtain ⟨hw', hn', rfl⟩ := Transition.mk.inj he
  have hw0 := Write.text_ofField write
  have hn0 := NextState.text_ofField next
  rw [hw'] at hw0
  rw [hn'] at hn0
  exact h ⟨hw0.symm, hn0.symm, rfl⟩

theorem expressible_of_ruleOfFields {symbol state write next direction : String} {line : Line}
    (hs : IsPlain symbol) (ht : IsPlain state) (hw : IsPlain write) (hn : IsPlain next)
    (h : ruleOfFields symbol state write next direction = .ok line) : line.Expressible := by
  have hk : (Key.ofFields symbol state).Expressible :=
    ⟨Pattern.expressible_ofField hs, Pattern.expressible_ofField ht⟩
  unfold ruleOfFields at h
  by_cases hh : write = "" ∧ next = "" ∧ direction = ""
  · rw [if_pos hh] at h
    cases h
    exact ⟨hk, trivial⟩
  · rw [if_neg hh] at h
    split at h
    · next hd =>
      cases h
      exact ⟨hk, expressible_transition hw hn fun he => hh ⟨he.1, he.2.1, hd⟩⟩
    · split at h
      · cases h
        exact ⟨hk, expressible_transition hw hn fun he => absurd he.2.2 (by decide)⟩
      · split at h
        · cases h
          exact ⟨hk, expressible_transition hw hn fun he => absurd he.2.2 (by decide)⟩
        · cases h

theorem expressible_of_ruleOfPieces {seps : List Separator} {ps : List (List Char)} {line : Line}
    (hp : ∀ t ∈ ps.map String.ofList, IsPlain t) (h : ruleOfPieces seps ps = .ok line) :
    line.Expressible := by
  unfold ruleOfPieces at h
  split at h
  · next symbol state write next direction heq =>
    rw [heq] at hp
    exact expressible_of_ruleOfFields (hp _ (by simp)) (hp _ (by simp)) (hp _ (by simp))
      (hp _ (by simp)) h
  · cases h

/-- The pieces of a text without white space are plain. -/
theorem isPlain_of_mem_pieces {s : List Char} (hs : ∀ c ∈ s, Text.isSpace c = false) :
    ∀ t ∈ (pieces s).map String.ofList, IsPlain t := by
  have hcut := cut_separators s
  intro t ht
  obtain ⟨p, hp, rfl⟩ := List.mem_map.1 ht
  rw [isPlain_iff, String.toList_ofList]
  exact ⟨hcut.isField p hp, fun c hc => hs c (hcut.subset p hp hc)⟩

theorem expressible_of_classify {s : List Char} {line : Line} (hs : ∀ c ∈ s, Text.isSpace c = false)
    (h : classify s = .ok line) : line.Expressible := by
  have hcut := cut_separators s
  have hp := isPlain_of_mem_pieces hs
  unfold classify at h
  simp only at h
  split at h
  · cases h
  · next h12 =>
    split at h
    · exact expressible_of_ruleOfPieces hp h
    · next ha =>
      split at h
      · next h0 =>
        cases h
        change IsPlain (String.ofList s)
        rw [IsPlain, String.toList_ofList]
        exact ⟨List.count_eq_zero.1 h0, ha, hs⟩
      · next h0 =>
        cases h
        have hcount := hcut.count_comma
        have hle : (separators s).count .comma ≤ (separators s).length := List.count_le_length
        have hlen := hcut.length
        refine ⟨?_, hp⟩
        rw [List.length_map]
        omega

theorem expressible_of_read {raw : List Char} {line : Line} (h : Line.read raw = .ok line) :
    line.Expressible := by
  rw [Line.read, ofSqueezed_eq_classify] at h
  exact expressible_of_classify (fun c => Text.not_isSpace_of_mem_squeeze) h

end Source

namespace Program

theorem expressible_empty : ({} : Program).Expressible where
  tape_length := .inl rfl
  cells := by simp
  state := by decide
  rules := by simp

theorem Expressible.addLine {p : Program} {line : Source.Line} (h : p.Expressible)
    (hl : line.Expressible) : (p.addLine line).Expressible := by
  cases line with
  | rule key body =>
    refine ⟨h.tape_length, h.cells, h.state, ?_⟩
    intro k r hkr
    by_cases he : key = k
    · subst he
      obtain rfl : body = r := by simpa [Program.addLine] using hkr
      exact hl
    · have hkr : p.rules[k]? = some r := by
        simpa [Program.addLine, Std.ExtTreeMap.getElem?_insert, he] using hkr
      exact h.rules k r hkr
  | tape cells => exact ⟨.inr hl.1, hl.2, h.state, h.rules⟩
  | state name => exact ⟨h.tape_length, h.cells, hl, h.rules⟩

theorem Expressible.addLines {p q : Program} {number : Nat} {lines : List (List Char)}
    (h : p.Expressible) (hq : p.addLines number lines = .ok q) : q.Expressible := by
  induction lines generalizing p number with
  | nil =>
    cases hq
    exact h
  | cons raw rest ih =>
    rw [Program.addLines] at hq
    split at hq
    · cases hq
    · next line hline => exact ih (h.addLine (Source.expressible_of_read hline)) hq

theorem expressible_of_parse {text : String} {p : Program} (h : parse text = .ok p) : p.Expressible :=
  expressible_empty.addLines h

theorem exists_source_iff {p : Program} : (∃ source, p.toSource = .ok source) ↔ p.Expressible := by
  simp [toSource_eq_ok_iff]

theorem exists_refusal_iff {p : Program} : (∃ e, p.toSource = .error e) ↔ ¬ p.Expressible := by
  rw [← exists_source_iff]
  cases p.toSource with
  | error e => simp
  | ok source => simp

/-- What a text describes has a source. A program with its head at the start of the tape is refused exactly
if no text describes it, for one of the reasons that make it inexpressible. -/
theorem refused_iff_no_text (p : Program) :
    (∀ text, parse text = .ok p → ∃ source, p.toSource = .ok source) ∧
      (p.head = 0 → ((∃ e, p.toSource = .error e) ↔ ∀ text, parse text ≠ .ok p)) ∧
      ((∃ e, p.toSource = .error e) ↔ ¬ p.Expressible) := by
  refine ⟨fun text h => exists_source_iff.2 (expressible_of_parse h), ?_, exists_refusal_iff⟩
  intro h0
  rw [exists_refusal_iff]
  constructor
  · exact fun hn text h => hn (expressible_of_parse h)
  · intro hn he
    apply hn ("\n".intercalate (p.bodyLines ++ [p.state]))
    rw [parse_lines he, ← h0]

/-- One text that describes a program, and one program that no text describes. -/
theorem refused_iff_no_text_tight :
    (parse " a,b==> >,*,\n" = .ok { tight with head := 0 } ∧
        ∃ source, ({ tight with head := 0 } : Program).toSource = .ok source) ∧
      (({ tape := ["1"] } : Program).head = 0 ∧
        ({ tape := ["1"] } : Program).toSource = .error (.shortTape 1) ∧
        ∀ text, parse text ≠ .ok { tape := ["1"] }) := by
  have h : parse " a,b==> >,*,\n" = .ok { tight with head := 0 } := by decide +kernel
  have he : ({ tape := ["1"] } : Program).toSource = .error (.shortTape 1) := by decide +kernel
  exact ⟨⟨h, (refused_iff_no_text _).1 _ h⟩, rfl, he, ((refused_iff_no_text _).2.1 rfl).1 ⟨_, he⟩⟩

end Program

end TapeLang
