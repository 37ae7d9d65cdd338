/-! Decimal numbers that fit a machine word. Reading takes one optional sign and any number of leading
zeros; writing gives the canonical form, with neither. Main statement: what is written in range is
read back, `read_write`, and two numbers are not written alike, `write_inj`. -/

namespace TapeLang.Decimal

def least : Int := -9223372036854775808

def greatest : Int := 9223372036854775807

def InRange (v : Int) : Prop :=
  least ≤ v ∧ v ≤ greatest

instance (v : Int) : Decidable (InRange v) :=
  inferInstanceAs (Decidable (_ ∧ _))

/-- The value of a nonempty run of ASCII digits. -/
def digits? (cs : List Char) : Option Nat :=
  if cs ≠ [] ∧ cs.all Char.isDigit then some (Nat.ofDigitChars 10 cs 0) else none

/-- The value of a signed run of digits, of any size. -/
def integer? : List Char → Option Int
  | '+' :: cs => (digits? cs).map Int.ofNat
  | '-' :: cs => (digits? cs).map fun n => -Int.ofNat n
  | cs => (digits? cs).map Int.ofNat

/-- Reads a signed 64-bit integer. -/
def read? (s : String) : Option Int :=
  (integer? s.toList).filter fun v => decide (InRange v)

/-- Reads an unsigned 64-bit integer, which may carry a plus sign. -/
def readUnsigned? (s : String) : Option Nat :=
  let value :=
    match s.toList with
    | '+' :: cs => digits? cs
    | cs => digits? cs
  value.filter fun n => decide (n < 18446744073709551616)

def write (v : Int) : String :=
  v.repr

theorem InRange.of_nonneg {v bound : Int} (h : InRange bound) (h0 : 0 ≤ v) (hle : v ≤ bound) :
    InRange v :=
  ⟨Int.le_trans (by decide) h0, Int.le_trans hle h.2⟩

theorem head?_toDigits_ne_zero {n : Nat} (hn : n ≠ 0) : (Nat.toDigits 10 n).head? ≠ some '0' := by
  induction n using Nat.strongRecOn with
  | ind n ih =>
    by_cases hlt : n < 10
    · rw [Nat.toDigits_of_lt_base hlt, List.head?_cons]
      have hdigit : ∀ d < 10, d ≠ 0 → some d.digitChar ≠ some '0' := by decide
      exact hdigit n hlt hn
    · have hfirst := ih (n / 10) (by omega) (by omega)
      rw [Nat.toDigits_of_base_le (by decide) (Nat.not_lt.1 hlt)]
      obtain ⟨d, ds, hd⟩ := List.exists_cons_of_ne_nil (Nat.toDigits_ne_nil (n := n / 10) (b := 10))
      rw [hd] at hfirst ⊢
      exact hfirst

theorem toList_write_ofNat (n : Nat) : (write (Int.ofNat n)).toList = Nat.toDigits 10 n := by
  rw [write, Int.repr, Nat.toList_repr]

theorem toList_write_negSucc (n : Nat) :
    (write (Int.negSucc n)).toList = '-' :: Nat.toDigits 10 (n + 1) := by
  rw [write, Int.repr, String.toList_append, Nat.toList_repr]
  rfl

theorem digits?_toDigits (n : Nat) : digits? (Nat.toDigits 10 n) = some n := by
  have h : (Nat.toDigits 10 n).all Char.isDigit = true :=
    List.all_eq_true.2 fun c hc => Nat.isDigit_of_mem_toDigits (by decide) (by decide) hc
  simp [digits?, h, Nat.toDigits_ne_nil, Nat.ofDigitChars_ten_toDigits]

theorem integer?_toDigits (n : Nat) : integer? (Nat.toDigits 10 n) = some (Int.ofNat n) := by
  have hd := digits?_toDigits n
  unfold integer?
  split
  · next cs heq => simp [heq, digits?] at hd
  · next cs heq => simp [heq, digits?] at hd
  · next cs _ _ => simp [hd]

theorem isDigit_of_mem_write {v : Int} {c : Char} (h : c ∈ (write v).toList) :
    c = '-' ∨ c.isDigit = true := by
  have digit {n : Nat} (h : c ∈ Nat.toDigits 10 n) : c.isDigit = true :=
    Nat.isDigit_of_mem_toDigits (by decide) (by decide) h
  cases v with
  | ofNat n =>
    rw [toList_write_ofNat] at h
    exact .inr (digit h)
  | negSucc n =>
    rw [toList_write_negSucc] at h
    rcases List.mem_cons.1 h with h | h
    · exact .inl h
    · exact .inr (digit h)

theorem integer?_write (v : Int) : integer? (write v).toList = some v := by
  cases v with
  | ofNat n => rw [toList_write_ofNat, integer?_toDigits]
  | negSucc n =>
    rw [toList_write_negSucc]
    simp [integer?, digits?_toDigits, Int.negSucc_eq]

theorem write_inj {v v' : Int} : write v = write v' ↔ v = v' := by
  constructor
  · intro h
    have hi := integer?_write v
    rw [h, integer?_write] at hi
    exact (Option.some.inj hi).symm
  · exact congrArg write

theorem write_ne_zero {v : Int} (h : v ≠ 0) : write v ≠ "0" := fun he =>
  h (write_inj.1 (he.trans rfl))

theorem read_write {v : Int} (h : InRange v) : read? (write v) = some v := by
  simp [read?, integer?_write, h]

end TapeLang.Decimal
