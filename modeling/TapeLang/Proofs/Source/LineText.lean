import Mathlib.Data.List.Basic
import TapeLang.Source.Line

/-! The text of a line that has been read. Each field of a rule stands in its text as it was written, wildcards and
actions too, and a body of three empty fields as two commas; so putting the parts of a line together again
gives back all of it but the white space, `text_of_read`. -/

namespace TapeLang

theorem Key.text_ofFields (symbol state : String) :
    (Key.ofFields symbol state).text = symbol ++ "," ++ state := by
  simp only [Key.text, Key.ofFields, Pattern.text_ofField]

theorem Rule.text_of_ofFields? {write next direction : String} {body : Rule}
    (h : Rule.ofFields? write next direction = some body) :
    body.text = write ++ "," ++ next ++ "," ++ direction := by
  unfold Rule.ofFields? at h
  split at h
  · next he =>
    obtain ⟨rfl, rfl, rfl⟩ := he
    cases h
    rfl
  · obtain ⟨d, hd, rfl⟩ := Option.map_eq_some_iff.1 h
    simp only [Rule.text, Write.text_ofField, NextState.text_ofField, Direction.text_of_ofField? hd]

namespace Source

def Line.text : Line → String
  | .rule key body => key.text ++ "=>" ++ body.text
  | .tape cells => ",".intercalate cells
  | .state name => name

def Fields.text (f : Fields) : String :=
  f.symbol ++ "," ++ f.state ++ "=>" ++ (f.write ++ "," ++ f.next ++ "," ++ f.direction)

variable {cs rest : List Char} {f : Fields} {line : Line} {raw : List Char}

theorem Fields.text_of_toLine (h : f.toLine = .ok line) : line.text = f.text := by
  unfold Fields.toLine at h
  split at h
  · next body hb =>
    cases h
    rw [Line.text, Key.text_ofFields, Rule.text_of_ofFields? hb, Fields.text]
  · cases h

theorem append_of_afterComma? (h : afterComma? (takeField cs).2 = some rest) :
    (takeField cs).1 ++ ',' :: rest = cs := by
  have hsplit := takeField_append cs
  unfold afterComma? at h
  split at h
  · next r hr =>
    cases h
    rwa [hr] at hsplit
  · cases h

theorem append_of_afterArrow? (h : afterArrow? (takeField cs).2 = some rest) :
    (takeField cs).1 ++ '=' :: '>' :: rest = cs := by
  have hsplit := takeField_append cs
  unfold afterArrow? at h
  split at h
  · next r hr =>
    cases h
    rwa [hr] at hsplit
  · cases h

/-- Reading fields takes nothing from the text but what they hold and what stands between them. -/
theorem append_of_readFields? (h : readFields? cs = some (f, rest)) :
    f.text.toList ++ rest = cs := by
  simp only [readFields?, Option.bind_eq_bind, Option.bind_eq_some_iff, Option.pure_def,
    Option.some.injEq, Prod.mk.injEq] at h
  obtain ⟨afterSymbol, hsymbol, afterState, hstate, afterWrite, hwrite, afterNext, hnext, rfl, rfl⟩ := h
  have hcomma : ",".toList = [','] := rfl
  have harrow : "=>".toList = ['=', '>'] := rfl
  simp only [Fields.text, String.toList_append, String.toList_ofList, hcomma, harrow,
    List.append_assoc, List.cons_append, List.nil_append, takeField_append,
    append_of_afterComma? hnext, append_of_afterComma? hwrite, append_of_afterArrow? hstate,
    append_of_afterComma? hsymbol]

theorem text_of_readRule (h : readRule cs = .ok line) : line.text = String.ofList cs := by
  unfold readRule at h
  split at h
  · cases h
  · next f hf =>
    have happend := append_of_readFields? hf
    rw [List.append_nil] at happend
    rw [Fields.text_of_toLine h, ← happend, String.ofList_toList]
  · cases h

theorem text_of_ofSqueezed (h : Line.ofSqueezed cs = .ok line) : line.text = String.ofList cs := by
  unfold Line.ofSqueezed at h
  simp only at h
  split at h
  · cases h
  · split at h
    · exact text_of_readRule h
    · split at h
      · cases h
        rfl
      · cases h
        have hcells : ((cs.splitOn ',').map String.ofList).map String.toList = cs.splitOn ',' := by
          simp [Function.comp_def]
        have hjoin : (",".intercalate ((cs.splitOn ',').map String.ofList)).toList = cs := by
          rw [String.toList_intercalate, hcells]
          exact List.intercalate_splitOn ','
        rw [Line.text, ← String.ofList_toList (s := ",".intercalate _), hjoin]

theorem text_of_read (h : Line.read raw = .ok line) : line.text = String.ofList (Text.squeeze raw) :=
  text_of_ofSqueezed h

theorem read_text (h : Line.read raw = .ok line) : Line.read line.text.toList = .ok line := by
  rw [text_of_read h, String.toList_ofList, Line.read_squeeze, h]

/-- An accepted line is displayed as it was written, but for white space. It reads back as the same line, and no
other lines are read as the same but those that differ from it in white space only. -/
theorem read_loses_space_only (h : Line.read raw = .ok line) :
    line.text = String.ofList (Text.squeeze raw) ∧
      Line.read line.text.toList = .ok line ∧
      ∀ (other : List Char) (found : Line), Line.read other = .ok found →
        (found = line ↔ Text.squeeze other = Text.squeeze raw) := by
  refine ⟨text_of_read h, read_text h, fun other found ho => ⟨?_, ?_⟩⟩
  · rintro rfl
    have htext := (text_of_read ho).symm.trans (text_of_read h)
    exact String.ofList_injective htext
  · intro hs
    have hread : Line.read other = Line.read raw := by
      rw [← Line.read_squeeze, hs, Line.read_squeeze]
    rw [ho, h] at hread
    exact Except.ok.inj hread

/-- A state that ends in the first half of an arrow, and an empty symbol to write. -/
theorem read_loses_space_only_tight :
    let raw := " *, b= => ,*,\u00a0>\r".toList
    let line := Line.rule ⟨.any, .literal "b="⟩ (.transition ⟨.literal "", .keep, .right⟩)
    Line.read raw = .ok line ∧ line.text = "*,b==>,*,>" ∧
      String.ofList (Text.squeeze raw) = "*,b==>,*,>" ∧
      Line.read "*,b==>,*,>".toList = .ok line ∧
      ∀ other : List Char, Line.read other = .ok line → Text.squeeze other = Text.squeeze raw := by
  intro raw line
  have h : Line.read raw = .ok line := by decide
  have htext : line.text = "*,b==>,*,>" := by decide
  obtain ⟨hraw, hread, hsame⟩ := read_loses_space_only h
  refine ⟨h, htext, hraw.symm.trans htext, ?_, fun other ho => (hsame other line ho).1 rfl⟩
  rwa [htext] at hread

end Source

end TapeLang
