import TapeLang.Json.Value

/-! The tokens of a JSON text: the six marks, strings, and the values without parts. Main statement: a
token takes at least one character, `length_readToken`, which bounds the reading of all of them. -/

namespace TapeLang.Json

inductive Token
  | openArray
  | closeArray
  | openObject
  | closeObject
  | comma
  | colon
  | string (text : Option String)
  | scalar (v : Json)

def isBlank (c : Char) : Bool :=
  c = ' ' || c = '\t' || c = '\n' || c = '\r'

/-- One element of a string: a character, or the 16-bit number of an escape. -/
inductive Piece
  | char (c : Char)
  | code (n : Nat)

def hexDigit? (c : Char) : Option Nat :=
  if '0' ≤ c ∧ c ≤ '9' then some (c.toNat - '0'.toNat)
  else if 'a' ≤ c ∧ c ≤ 'f' then some (c.toNat - 'a'.toNat + 10)
  else if 'A' ≤ c ∧ c ≤ 'F' then some (c.toNat - 'A'.toNat + 10)
  else none

def hexCode? (a b c d : Char) : Option Nat :=
  return (((← hexDigit? a) * 16 + (← hexDigit? b)) * 16 + (← hexDigit? c)) * 16 + (← hexDigit? d)

def escaped? : Char → Option Char
  | '"' => some '"'
  | '\\' => some '\\'
  | '/' => some '/'
  | 'b' => some '\x08'
  | 'f' => some '\x0c'
  | 'n' => some '\n'
  | 'r' => some '\r'
  | 't' => some '\t'
  | _ => none

/-- The pieces of a string up to its closing quote, and what stands behind it. -/
def readPieces? : List Char → Option (List Piece × List Char)
  | '"' :: cs => some ([], cs)
  | '\\' :: 'u' :: a :: b :: c :: d :: cs => do
    let n ← hexCode? a b c d
    let (pieces, rest) ← readPieces? cs
    return (.code n :: pieces, rest)
  | '\\' :: c :: cs => do
    let e ← escaped? c
    let (pieces, rest) ← readPieces? cs
    return (.char e :: pieces, rest)
  | c :: cs =>
    if c = '\\' ∨ c.toNat < 0x20 then none
    else do
      let (pieces, rest) ← readPieces? cs
      return (.char c :: pieces, rest)
  | [] => none

def isHighHalf (n : Nat) : Bool :=
  0xd800 ≤ n && n < 0xdc00

def isLowHalf (n : Nat) : Bool :=
  0xdc00 ≤ n && n < 0xe000

/-- The text of the pieces, if each half of a surrogate pair stands with the other. -/
def joinPieces? : List Piece → Option (List Char)
  | [] => some []
  | .char c :: rest => (joinPieces? rest).map (c :: ·)
  | [.code n] => if isHighHalf n || isLowHalf n then none else some [Char.ofNat n]
  | .code n :: .code m :: rest =>
    if isHighHalf n && isLowHalf m then
      (joinPieces? rest).map (Char.ofNat (0x10000 + (n - 0xd800) * 0x400 + (m - 0xdc00)) :: ·)
    else if isHighHalf n || isLowHalf n then none
    else (joinPieces? (.code m :: rest)).map (Char.ofNat n :: ·)
  | .code n :: .char c :: rest =>
    if isHighHalf n || isLowHalf n then none
    else (joinPieces? rest).map fun cs => Char.ofNat n :: c :: cs

def skipDigits? (cs : List Char) : Option (List Char) :=
  if cs.takeWhile Char.isDigit = [] then none else some (cs.dropWhile Char.isDigit)

def skipSign : List Char → List Char
  | '+' :: cs => cs
  | '-' :: cs => cs
  | cs => cs

def skipExponent? : List Char → Option (List Char)
  | 'e' :: cs => skipDigits? (skipSign cs)
  | 'E' :: cs => skipDigits? (skipSign cs)
  | cs => some cs

/-- Passes over a fraction and an exponent, each if it is there. -/
def skipFraction? : List Char → Option (List Char)
  | '.' :: cs => (skipDigits? cs).bind skipExponent?
  | cs => skipExponent? cs

/-- Reads a number behind its sign. No zero stands in front of another digit. -/
def readNumber? (negative : Bool) (cs : List Char) : Option (Json × List Char) :=
  let digits := cs.takeWhile Char.isDigit
  let behind := cs.dropWhile Char.isDigit
  if digits = [] ∨ (digits.head? = some '0' ∧ digits ≠ ['0']) then none
  else do
    let rest ← skipFraction? behind
    if rest.length = behind.length then
      return (.integer negative (Nat.ofDigitChars 10 digits 0), rest)
    return (.fractional, rest)

def readWord? : List Char → Option (Json × List Char)
  | 'n' :: 'u' :: 'l' :: 'l' :: cs => some (.null, cs)
  | 't' :: 'r' :: 'u' :: 'e' :: cs => some (.bool true, cs)
  | 'f' :: 'a' :: 'l' :: 's' :: 'e' :: cs => some (.bool false, cs)
  | _ => none

def mark? : Char → Option Token
  | '[' => some .openArray
  | ']' => some .closeArray
  | '\x7b' => some .openObject
  | '\x7d' => some .closeObject
  | ',' => some .comma
  | ':' => some .colon
  | _ => none

def readToken? (c : Char) (cs : List Char) : Option (Token × List Char) :=
  match mark? c with
  | some t => some (t, cs)
  | none =>
    if c = '"' then do
      let (pieces, rest) ← readPieces? cs
      return (.string ((joinPieces? pieces).map String.ofList), rest)
    else if c = '-' then do
      let (v, rest) ← readNumber? true cs
      return (.scalar v, rest)
    else if c.isDigit then do
      let (v, rest) ← readNumber? false (c :: cs)
      return (.scalar v, rest)
    else do
      let (v, rest) ← readWord? (c :: cs)
      return (.scalar v, rest)

theorem length_dropWhile_le (p : Char → Bool) (cs : List Char) :
    (cs.dropWhile p).length ≤ cs.length :=
  (List.dropWhile_suffix p).length_le

theorem length_readPieces {cs rest : List Char} {pieces : List Piece}
    (h : readPieces? cs = some (pieces, rest)) : rest.length < cs.length := by
  fun_induction readPieces? cs generalizing pieces with
  | case1 cs =>
    cases h
    simp
  | case2 a b c d cs ih =>
    simp only [Option.bind_eq_bind, Option.bind_eq_some_iff, Option.pure_def, Option.some.injEq,
      Prod.mk.injEq] at h
    obtain ⟨n, _, ⟨ps, r⟩, hr, _, rfl⟩ := h
    have hlt : r.length < cs.length := ih hr
    simp only [List.length_cons]
    omega
  | case3 c cs _ ih =>
    simp only [Option.bind_eq_bind, Option.bind_eq_some_iff, Option.pure_def, Option.some.injEq,
      Prod.mk.injEq] at h
    obtain ⟨e, _, ⟨ps, r⟩, hr, _, rfl⟩ := h
    have hlt : r.length < cs.length := ih hr
    simp only [List.length_cons]
    omega
  | case4 => cases h
  | case5 c cs _ _ _ _ ih =>
    simp only [Option.bind_eq_bind, Option.bind_eq_some_iff, Option.pure_def, Option.some.injEq,
      Prod.mk.injEq] at h
    obtain ⟨⟨ps, r⟩, hr, _, rfl⟩ := h
    have hlt : r.length < cs.length := ih hr
    simp only [List.length_cons]
    omega
  | case6 => cases h

theorem length_skipDigits {cs rest : List Char} (h : skipDigits? cs = some rest) :
    rest.length ≤ cs.length := by
  unfold skipDigits? at h
  split at h
  · cases h
  · cases h
    exact length_dropWhile_le _ _

theorem length_skipSign_le (cs : List Char) : (skipSign cs).length ≤ cs.length := by
  unfold skipSign
  split <;> simp

theorem length_skipExponent {cs rest : List Char} (h : skipExponent? cs = some rest) :
    rest.length ≤ cs.length := by
  unfold skipExponent? at h
  split at h
  · next cs =>
    have h1 := length_skipDigits h
    have h2 := length_skipSign_le cs
    simp only [List.length_cons]
    omega
  · next cs =>
    have h1 := length_skipDigits h
    have h2 := length_skipSign_le cs
    simp only [List.length_cons]
    omega
  · cases h
    exact Nat.le_refl _

theorem length_skipFraction {cs rest : List Char} (h : skipFraction? cs = some rest) :
    rest.length ≤ cs.length := by
  unfold skipFraction? at h
  split at h
  · next cs =>
    obtain ⟨mid, hm, hr⟩ := Option.bind_eq_some_iff.1 h
    have h1 := length_skipDigits hm
    have h2 := length_skipExponent hr
    simp only [List.length_cons]
    omega
  · exact length_skipExponent h

theorem length_dropWhile_lt {p : Char → Bool} {cs : List Char} (h : cs.takeWhile p ≠ []) :
    (cs.dropWhile p).length < cs.length := by
  cases cs with
  | nil => exact absurd rfl h
  | cons c cs =>
    by_cases hc : p c = true
    · rw [List.dropWhile_cons_of_pos hc, List.length_cons]
      exact Nat.lt_succ_of_le (length_dropWhile_le _ _)
    · exact absurd (List.takeWhile_cons_of_neg hc) h

theorem length_readNumber {negative : Bool} {cs rest : List Char} {v : Json}
    (h : readNumber? negative cs = some (v, rest)) : rest.length < cs.length := by
  simp only [readNumber?] at h
  split at h
  · cases h
  · next hd =>
    rw [not_or] at hd
    have h0 := length_dropWhile_lt hd.1
    obtain ⟨r, hr, hv⟩ := Option.bind_eq_some_iff.1 h
    have h1 := length_skipFraction hr
    split at hv <;>
    · cases hv
      omega

theorem length_readWord {cs rest : List Char} {v : Json} (h : readWord? cs = some (v, rest)) :
    rest.length < cs.length := by
  unfold readWord? at h
  split at h
  · cases h
    simp only [List.length_cons]
    omega
  · cases h
    simp only [List.length_cons]
    omega
  · cases h
    simp only [List.length_cons]
    omega
  · cases h

theorem length_readToken {c : Char} {cs rest : List Char} {t : Token}
    (h : readToken? c cs = some (t, rest)) : rest.length ≤ cs.length := by
  unfold readToken? at h
  split at h
  · cases h
    exact Nat.le_refl _
  · split at h
    · obtain ⟨⟨ps, r⟩, hr, hv⟩ := Option.bind_eq_some_iff.1 h
      cases hv
      exact Nat.le_of_lt (length_readPieces hr)
    · split at h
      · obtain ⟨⟨v, r⟩, hr, hv⟩ := Option.bind_eq_some_iff.1 h
        cases hv
        exact Nat.le_of_lt (length_readNumber hr)
      · split at h
        · obtain ⟨⟨v, r⟩, hr, hv⟩ := Option.bind_eq_some_iff.1 h
          cases hv
          exact Nat.le_of_lt_succ (length_readNumber hr)
        · obtain ⟨⟨v, r⟩, hr, hv⟩ := Option.bind_eq_some_iff.1 h
          cases hv
          exact Nat.le_of_lt_succ (length_readWord hr)

def tokens? : List Char → Option (List Token)
  | [] => some []
  | c :: cs =>
    if isBlank c then tokens? cs
    else
      match h : readToken? c cs with
      | none => none
      | some (t, rest) =>
        have := length_readToken h
        (tokens? rest).map (t :: ·)
termination_by cs => cs.length

end TapeLang.Json
