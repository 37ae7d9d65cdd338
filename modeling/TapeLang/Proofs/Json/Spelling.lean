import Mathlib.Data.List.Basic
import TapeLang.Decimal
import TapeLang.Json.Token
import TapeLang.Json.Write

/-! How strings and numbers are spelled in JSON. Each character of a string is read back from its escape or
from itself, and a number is read up to a character that cannot go on with it. -/

namespace TapeLang.Json

section Strings

/-- The piece as which the spelling of a character is read: its number, if it is a control without a
letter of its own, else the character. -/
def pieceOf (c : Char) : Piece :=
  if c.toNat < 0x20 ∧ c ∉ ['\x08', '\t', '\n', '\x0c', '\r'] then .code c.toNat else .char c

theorem hexCode?_digitChar : ∀ n < 0x20,
    hexCode? '0' '0' (n / 16).digitChar (n % 16).digitChar = some n := by
  decide

theorem readPieces?_letter {c e : Char} (h : escaped? c = some e) (rest : List Char) :
    readPieces? ('\\' :: c :: rest) = (readPieces? rest).map fun p => (.char e :: p.1, p.2) := by
  have hu : c ≠ 'u' := by
    rintro rfl
    cases h
  rw [readPieces?]
  · rw [h]
    cases readPieces? rest <;> rfl
  · intro a b c' d cs hc
    exact absurd hc hu

theorem readPieces?_stringChar (c : Char) (rest : List Char) :
    readPieces? (stringChar c ++ rest) = (readPieces? rest).map fun p => (pieceOf c :: p.1, p.2) := by
  unfold stringChar
  split
  · exact readPieces?_letter rfl rest
  · exact readPieces?_letter rfl rest
  · exact readPieces?_letter rfl rest
  · exact readPieces?_letter rfl rest
  · exact readPieces?_letter rfl rest
  · exact readPieces?_letter rfl rest
  · exact readPieces?_letter rfl rest
  · next hquote hslash hb ht hn hf hr =>
    split
    · next hc =>
      have hp : pieceOf c = .code c.toNat := by simp_all [pieceOf]
      change readPieces? ('\\' :: 'u' :: '0' :: '0' :: (c.toNat / 16).digitChar ::
        (c.toNat % 16).digitChar :: rest) = _
      rw [readPieces?, hexCode?_digitChar c.toNat hc, hp]
      cases readPieces? rest <;> rfl
    · next hc =>
      have hp : pieceOf c = .char c := by simp_all [pieceOf]
      have hplain : ¬ (c = '\\' ∨ c.toNat < 0x20) := not_or.2 ⟨hslash, hc⟩
      change readPieces? (c :: rest) = _
      rw [readPieces?, if_neg hplain, hp]
      · cases readPieces? rest <;> rfl
      · exact hquote
      · exact fun _ _ _ _ _ he _ => hslash he
      · exact fun _ _ he _ => hslash he

theorem joinPieces?_code {n : Nat} (hn : n < 0x20) (pieces : List Piece) :
    joinPieces? (.code n :: pieces) = (joinPieces? pieces).map (Char.ofNat n :: ·) := by
  have hhigh : isHighHalf n = false := by simp [isHighHalf]; omega
  have hlow : isLowHalf n = false := by simp [isLowHalf]; omega
  cases pieces with
  | nil => simp [joinPieces?, hhigh, hlow]
  | cons piece pieces =>
    cases piece with
    | char c => simp [joinPieces?, hhigh, hlow, Function.comp_def]
    | code m => simp [joinPieces?, hhigh, hlow]

theorem joinPieces?_map_pieceOf (cs : List Char) : joinPieces? (cs.map pieceOf) = some cs := by
  induction cs with
  | nil => rfl
  | cons c cs ih =>
    rw [List.map_cons, pieceOf]
    split
    · next hc => rw [joinPieces?_code hc.1, ih, Option.map_some, Char.ofNat_toNat]
    · rw [joinPieces?, ih, Option.map_some]

theorem readPieces?_string (cs rest : List Char) :
    readPieces? (cs.flatMap stringChar ++ '"' :: rest) = some (cs.map pieceOf, rest) := by
  induction cs with
  | nil => rfl
  | cons c cs ih =>
    rw [List.flatMap_cons, List.append_assoc, readPieces?_stringChar, ih]
    rfl

theorem readToken?_string (s : String) (rest : List Char) :
    readToken? '"' (s.toList.flatMap stringChar ++ '"' :: rest) = some (.string (some s), rest) := by
  have hm : mark? '"' = none := rfl
  simp [readToken?, hm, readPieces?_string, joinPieces?_map_pieceOf]

end Strings

section Numbers

/-- No number goes on with the text. -/
def EndsNumber (rest : List Char) : Prop :=
  ∀ c ∈ rest.head?, c.isDigit = false ∧ c ∉ ['.', 'e', 'E']

theorem skipFraction?_of_endsNumber {rest : List Char} (h : EndsNumber rest) :
    skipFraction? rest = some rest := by
  cases rest with
  | nil => rfl
  | cons c rest =>
    obtain ⟨_, hc⟩ := h c rfl
    simp only [List.mem_cons, List.not_mem_nil, or_false, not_or] at hc
    simp [skipFraction?, skipExponent?, hc]

theorem readNumber?_toDigits (negative : Bool) (n : Nat) {rest : List Char} (h : EndsNumber rest) :
    readNumber? negative (Nat.toDigits 10 n ++ rest) = some (.integer negative n, rest) := by
  have hall : ∀ c ∈ Nat.toDigits 10 n, c.isDigit = true := fun c hc =>
    Nat.isDigit_of_mem_toDigits (by decide) (by decide) hc
  have hrest : rest.takeWhile Char.isDigit = [] ∧ rest.dropWhile Char.isDigit = rest := by
    cases rest with
    | nil => exact ⟨rfl, rfl⟩
    | cons c rest => simp [(h c rfl).1]
  have htake : (Nat.toDigits 10 n ++ rest).takeWhile Char.isDigit = Nat.toDigits 10 n := by
    rw [List.takeWhile_append_of_pos hall, hrest.1, List.append_nil]
  have hdrop : (Nat.toDigits 10 n ++ rest).dropWhile Char.isDigit = rest := by
    rw [List.dropWhile_append_of_pos hall, hrest.2]
  have hlead : ¬ (Nat.toDigits 10 n = [] ∨
      ((Nat.toDigits 10 n).head? = some '0' ∧ Nat.toDigits 10 n ≠ ['0'])) := by
    rw [not_or]
    refine ⟨Nat.toDigits_ne_nil, ?_⟩
    rintro ⟨hzero, hmore⟩
    by_cases hn : n = 0
    · subst hn
      exact hmore rfl
    · exact Decimal.head?_toDigits_ne_zero hn hzero
  simp only [readNumber?, htake, hdrop, if_neg hlead, skipFraction?_of_endsNumber h]
  simp [Nat.ofDigitChars_ten_toDigits]

theorem readToken?_of_isDigit {c : Char} (h : c.isDigit = true) (cs : List Char) :
    readToken? c cs = (readNumber? false (c :: cs)).map fun p => (.scalar p.1, p.2) := by
  obtain ⟨h0, h9⟩ : 48 ≤ c.toNat ∧ c.toNat ≤ 57 := Char.isDigit_iff_toNat.1 h
  have hne {d : Char} (hd : d.toNat < 48 ∨ 57 < d.toNat) : c ≠ d := by
    rintro rfl
    omega
  have hm : mark? c = none := by
    unfold mark?
    split <;> simp_all
  rw [readToken?, hm]
  simp only [if_neg (hne (d := '"') (by decide)), if_neg (hne (d := '-') (by decide)), if_pos h]
  cases readNumber? false (c :: cs) <;> rfl

end Numbers

end TapeLang.Json
