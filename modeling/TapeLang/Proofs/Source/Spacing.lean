import Mathlib.Data.List.Basic
import TapeLang.Proofs.Source.RoundTrip

/-! White space in a text. All that counts of a text is what is left when white space is taken out of its lines,
`parse_eq_of_squeezeLines`. A carriage return in front of a line feed is such white space, so it does no
harm that one is taken off with the last line feed of a file, `parseFile_lf`. -/

namespace TapeLang

namespace Text

/-- The text without its white space, but with its line feeds. -/
def squeezeLines (cs : List Char) : List Char :=
  cs.filter fun c => c = '\n' || !isSpace c

variable {c : Char} {cs : List Char}

theorem squeezeLines_append (a b : List Char) :
    squeezeLines (a ++ b) = squeezeLines a ++ squeezeLines b :=
  List.filter_append ..

theorem squeeze_cons_of_isSpace (h : isSpace c = true) (cs : List Char) :
    squeeze (c :: cs) = squeeze cs := by
  simp [squeeze, h]

theorem squeeze_cons_of_not_isSpace (h : isSpace c = false) (cs : List Char) :
    squeeze (c :: cs) = c :: squeeze cs := by
  simp [squeeze, h]

/-- The lines of a text lose their white space when the text does. -/
theorem splitOn_squeezeLines (cs : List Char) :
    (squeezeLines cs).splitOn '\n' = (cs.splitOn '\n').map squeeze := by
  induction cs with
  | nil => rfl
  | cons c cs ih =>
    obtain ⟨l, ls, hl⟩ := List.exists_cons_of_ne_nil (List.splitOn_ne_nil '\n' cs)
    rw [hl] at ih
    by_cases hn : c = '\n'
    · subst hn
      have hkept : squeezeLines ('\n' :: cs) = '\n' :: squeezeLines cs := by simp [squeezeLines]
      rw [hkept, List.splitOn_cons_eq_if_modifyHead, List.splitOn_cons_eq_if_modifyHead, ih, hl]
      rfl
    · have hsplit (ds : List Char) :
          (c :: ds).splitOn '\n' = (ds.splitOn '\n').modifyHead (c :: ·) := by
        rw [List.splitOn_cons_eq_if_modifyHead, if_neg (by simpa using hn)]
      rw [hsplit, hl, List.modifyHead_cons, List.map_cons]
      cases hs : isSpace c with
      | true =>
        have hdropped : squeezeLines (c :: cs) = squeezeLines cs := by simp [squeezeLines, hn, hs]
        rw [hdropped, ih, squeeze_cons_of_isSpace hs]
        rfl
      | false =>
        have hkept : squeezeLines (c :: cs) = c :: squeezeLines cs := by simp [squeezeLines, hs]
        rw [hkept, hsplit, ih, squeeze_cons_of_not_isSpace hs]
        rfl

end Text

namespace Source

open Text

/-- What is taken off in front of the line feed is a carriage return or nothing. -/
theorem squeezeLines_withoutFinalNewline_lf (text : String) :
    squeezeLines (withoutFinalNewline (text ++ "\n")).toList = squeezeLines text.toList := by
  have he : (text ++ "\n").toList.reverse = '\n' :: text.toList.reverse := by simp
  rw [withoutFinalNewline, he]
  split
  · next rest hr =>
    have ht : text.toList = rest.reverse ++ ['\r'] := by
      rw [← List.reverse_reverse text.toList, (List.cons.inj hr).2, List.reverse_cons]
    have hcr : squeezeLines ['\r'] = [] := by decide
    rw [ht, squeezeLines_append, hcr, List.append_nil, String.toList_ofList]
  · next rest hr =>
    rw [← (List.cons.inj hr).2, List.reverse_reverse, String.ofList_toList]
  · next hn => exact absurd rfl (hn _)

end Source

namespace Program

open Text

/-- Lines are read without their white space, also where they are refused. -/
theorem addLines_map_squeeze (p : Program) (number : Nat) (ls : List (List Char)) :
    p.addLines number (ls.map squeeze) = p.addLines number ls := by
  induction ls generalizing p number with
  | nil => rfl
  | cons raw rest ih =>
    rw [List.map_cons, addLines, addLines, Source.Line.read_squeeze]
    cases Source.Line.read raw with
    | error fault => rfl
    | ok line => exact ih _ _

theorem parse_eq_of_squeezeLines {a b : String}
    (h : squeezeLines a.toList = squeezeLines b.toList) : parse a = parse b := by
  have hlines : (Source.lines a).map squeeze = (Source.lines b).map squeeze := by
    rw [Source.lines, Source.lines, ← splitOn_squeezeLines, ← splitOn_squeezeLines, h]
  rw [parse, parse, ← addLines_map_squeeze _ _ (Source.lines a), hlines, addLines_map_squeeze]

theorem parseFile_lf (text : String) : parseFile (text ++ "\n") = parse text :=
  parse_eq_of_squeezeLines (Source.squeezeLines_withoutFinalNewline_lf text)

theorem parseFile_crlf (text : String) : parseFile (text ++ "\r\n") = parse text := by
  rw [parseFile, Source.withoutFinalNewline_crlf]

end Program

/-- Texts that differ in nothing but the white space of their lines come to the same, be it a program or an
error; and so does a text as the content of a file, whichever line end closes its last line. -/
theorem parse_spaced :
    (∀ a b : String, Text.squeezeLines a.toList = Text.squeezeLines b.toList →
      Program.parse a = Program.parse b) ∧
      ∀ text : String,
        loadInput (text ++ "\n").toUTF8 = (Program.parse text).mapError .source ∧
          loadInput (text ++ "\r\n").toUTF8 = (Program.parse text).mapError .source := by
  refine ⟨fun a b => Program.parse_eq_of_squeezeLines, fun text => ⟨?_, ?_⟩⟩
  · rw [loadInput_toUTF8, Program.parseFile_lf]
  · rw [loadInput_toUTF8, Program.parseFile_crlf]

/-- Spaces of several kinds, one of them within an arrow, and lines that end in either way. -/
theorem parse_spaced_widely :
    let text := "0,S =\u2003> +,*,>\r\n\u00a0\n4,5,\t6,7\r\na , b\r"
    let tight := "0,S=>+,*,>\n\n4,5,6,7\na,b"
    Text.squeezeLines text.toList = Text.squeezeLines tight.toList ∧
      Program.parse text = Program.parse tight ∧
      Program.parse tight = .error ⟨4, .ambiguous "a,b"⟩ ∧
      loadInput (text ++ "\n").toUTF8 = .error (.source ⟨4, .ambiguous "a,b"⟩) := by
  intro text tight
  have h : Text.squeezeLines text.toList = Text.squeezeLines tight.toList := by decide
  have hparse : Program.parse text = Program.parse tight := parse_spaced.1 _ _ h
  have hfault : Program.parse tight = .error ⟨4, .ambiguous "a,b"⟩ := by decide
  refine ⟨h, hparse, hfault, ?_⟩
  rw [(parse_spaced.2 text).1, hparse, hfault]
  rfl

end TapeLang
