import Mathlib.Data.List.Infix
import TapeLang.Proofs.Source.Separator
import TapeLang.Source.Parse

/-! The grammar of a line. A line without white space is classified by its commas and its arrows alone, and a
rule by the sequence of its separators: reading it field by field, from the left and without going
back, comes to the same, `ofSqueezed_eq_classify`. -/

namespace TapeLang.Source

def ruleSeparators : List Separator := [.comma, .arrow, .comma, .comma]

def ruleOfFields (symbol state write next direction : String) : Except LineFault Line :=
  let key := Key.ofFields symbol state
  let transition (d : Direction) : Line :=
    .rule key (.transition ⟨Write.ofField write, NextState.ofField next, d⟩)
  if write = "" ∧ next = "" ∧ direction = "" then .ok (.rule key .halt)
  else if direction = "" then .ok (transition .stay)
  else if direction = "<" then .ok (transition .left)
  else if direction = ">" then .ok (transition .right)
  else .error (.direction direction)

/-- The rule of a line with an arrow, by its separators and the pieces between them. -/
def ruleOfPieces (seps : List Separator) (ps : List (List Char)) : Except LineFault Line :=
  match seps, ps.map String.ofList with
  | [.comma, .arrow, .comma, .comma], [symbol, state, write, next, direction] =>
    ruleOfFields symbol state write next direction
  | seps, _ => .error (if ruleSeparators <+: seps then .surplus else .shape)

def classify (s : List Char) : Except LineFault Line :=
  let commas := s.count ','
  if commas = 1 ∨ commas = 2 then .error (.ambiguous (String.ofList s))
  else if ['=', '>'] <:+: s then ruleOfPieces (separators s) (pieces s)
  else if commas = 0 then .ok (.state (String.ofList s))
  else .ok (.tape ((pieces s).map String.ofList))

theorem toLine_eq_ruleOfFields (f : Fields) :
    f.toLine = ruleOfFields f.symbol f.state f.write f.next f.direction := by
  unfold Fields.toLine Rule.ofFields? ruleOfFields
  by_cases hh : f.write = "" ∧ f.next = "" ∧ f.direction = ""
  · rw [if_pos hh, if_pos hh]
  · rw [if_neg hh, if_neg hh]
    by_cases h0 : f.direction = ""
    · rw [if_pos h0, h0]
      rfl
    · rw [if_neg h0]
      by_cases hl : f.direction = "<"
      · rw [if_pos hl, hl]
        rfl
      · rw [if_neg hl]
        by_cases hr : f.direction = ">"
        · rw [if_pos hr, hr]
          rfl
        · rw [if_neg hr]
          simp [Direction.ofField?, h0, hl, hr]

variable {cs : List Char} {seps : List Separator} {ps : List (List Char)}

@[simp] theorem afterComma?_nil : afterComma? [] = none := rfl

@[simp] theorem afterArrow?_nil : afterArrow? [] = none := rfl

@[simp] theorem afterComma?_comma (r : List Char) : afterComma? (Separator.comma.chars ++ r) = some r := rfl

@[simp] theorem afterComma?_arrow (r : List Char) : afterComma? (Separator.arrow.chars ++ r) = none := rfl

@[simp] theorem afterArrow?_arrow (r : List Char) : afterArrow? (Separator.arrow.chars ++ r) = some r := rfl

@[simp] theorem afterArrow?_comma (r : List Char) : afterArrow? (Separator.comma.chars ++ r) = none := rfl

theorem readRule_of_cut (h : Cut cs seps ps) : readRule cs = ruleOfPieces seps ps := by
  unfold readRule readFields?
  -- one case for each separator that may come next; the first wrong one ends the reading
  cases h with
  | last hp => simp [(read_field hp).2.2, ruleOfPieces, ruleSeparators]
  | @cons a cs sep _ _ ha h =>
  rw [(read_field_append ha sep cs).2.2]
  cases sep with
  | arrow => simp [ruleOfPieces, ruleSeparators]
  | comma =>
  cases h with
  | last hp => simp [(read_field hp).2.2, ruleOfPieces, ruleSeparators]
  | @cons b cs sep _ _ hb h =>
  simp only [afterComma?_comma, Option.bind_eq_bind, Option.bind_some, (read_field_append hb sep cs).2.2]
  cases sep with
  | comma => simp [ruleOfPieces, ruleSeparators]
  | arrow =>
  cases h with
  | last hp => simp [(read_field hp).2.2, ruleOfPieces, ruleSeparators]
  | @cons w cs sep _ _ hw h =>
  simp only [afterArrow?_arrow, Option.bind_some, (read_field_append hw sep cs).2.2]
  cases sep with
  | arrow => simp [ruleOfPieces, ruleSeparators]
  | comma =>
  cases h with
  | last hp => simp [(read_field hp).2.2, ruleOfPieces, ruleSeparators]
  | @cons n cs sep _ _ hn h =>
  simp only [afterComma?_comma, Option.bind_some, (read_field_append hn sep cs).2.2]
  cases sep with
  | arrow => simp [ruleOfPieces, ruleSeparators]
  | comma =>
  cases h with
  | last hd => simp [(read_field hd).2.2, ruleOfPieces, toLine_eq_ruleOfFields]
  | @cons d cs sep _ _ hd h =>
    simp only [afterComma?_comma, Option.bind_some, (read_field_append hd sep cs).2.2]
    cases sep <;> simp [Separator.chars, ruleOfPieces, ruleSeparators]

theorem ofSqueezed_eq_classify (s : List Char) : Line.ofSqueezed s = classify s := by
  have hcut := cut_separators s
  unfold Line.ofSqueezed classify
  by_cases hc : s.count ',' = 1 ∨ s.count ',' = 2
  · simp only [if_pos hc]
  · by_cases ha : hasArrow s = true
    · have hi : ['=', '>'] <:+: s := (hasArrow_iff s).1 ha
      simp only [if_neg hc, if_pos ha, if_pos hi, readRule_of_cut hcut]
    · have hi : ¬ ['=', '>'] <:+: s := fun h => ha ((hasArrow_iff s).2 h)
      have hp : s.splitOn ',' = pieces s := hcut.splitOn_comma fun h => ha (hcut.hasArrow_iff.2 h)
      simp only [if_neg hc, if_neg ha, if_neg hi, hp]

/-- A line that is cut like a rule is one. -/
theorem classify_of_cut_rule {a b w n d : List Char} (h : Cut cs ruleSeparators [a, b, w, n, d]) :
    classify cs = ruleOfFields (String.ofList a) (String.ofList b) (String.ofList w) (String.ofList n)
      (String.ofList d) := by
  have hc : cs.count ',' = 3 := h.count_comma
  have hi : ['=', '>'] <:+: cs := (hasArrow_iff cs).1 (h.hasArrow_iff.2 (by decide))
  obtain ⟨hs, hp⟩ := cut_iff.1 h
  simp [classify, hc, hi, hs, hp, ruleOfPieces, ruleSeparators]

/-- Without arrows and with three commas or more, a line is the tape of its pieces. -/
theorem classify_of_cut_tape (h : Cut cs seps ps) (ha : .arrow ∉ seps) (hn : 3 ≤ seps.length) :
    classify cs = .ok (.tape (ps.map String.ofList)) := by
  have hc : cs.count ',' = seps.length := by
    rw [h.count_comma, List.count_eq_length]
    intro sep hsep
    cases sep with
    | comma => rfl
    | arrow => exact absurd hsep ha
  have hi : ¬ ['=', '>'] <:+: cs := fun hi => ha (h.hasArrow_iff.1 ((hasArrow_iff cs).2 hi))
  have h12 : ¬ (seps.length = 1 ∨ seps.length = 2) := by omega
  have h0 : ¬ seps.length = 0 := by omega
  simp only [classify, hc, if_neg hi, if_neg h12, if_neg h0, (cut_iff.1 h).2]

theorem classify_of_isField (h : IsField cs) : classify cs = .ok (.state (String.ofList cs)) := by
  have hc : cs.count ',' = 0 := List.count_eq_zero.2 h.1
  have hi : ¬ ['=', '>'] <:+: cs := by
    rw [← hasArrow_iff, h.2]
    exact Bool.false_ne_true
  simp [classify, hc, hi]

/-- A line is what its separators and the pieces between them make of it. There is one way to cut it into
those, and the two refusals that tell no more than where the cut goes wrong are worded apart. -/
theorem read_eq_classify (raw : List Char) :
    Line.read raw = classify (Text.squeeze raw) ∧
      (∀ seps ps, Cut (Text.squeeze raw) seps ps ↔
        separators (Text.squeeze raw) = seps ∧ pieces (Text.squeeze raw) = ps) ∧
      ∀ number : Nat,
        (SourceError.mk number .shape).message =
            s!"Invalid rule on line {number}: expected rule_line" ∧
          (SourceError.mk number .surplus).message =
            s!"Invalid rule on line {number}: expected EOI" :=
  ⟨ofSqueezed_eq_classify _, fun _ _ => cut_iff, fun _ => ⟨rfl, rfl⟩⟩

end TapeLang.Source
