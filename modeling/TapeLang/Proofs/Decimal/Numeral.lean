import Mathlib.Data.List.Induction
import Mathlib.Data.Nat.Digits.Defs
import TapeLang.Decimal

/-! Numerals. A text is numeric if it is one or more ASCII digits, with a sign in front or none, and its value
fits; those are the texts that are read, `read?_eq_some_iff`. Of the texts for one number, what is written
is the only one that has no plus sign, no leading zero and is not a negative zero, `canonical_iff`. -/

namespace TapeLang.Decimal

def digitOf (c : Char) : Nat :=
  c.toNat - '0'.toNat

def valueOf (ds : List Char) : Nat :=
  Nat.ofDigits 10 (ds.reverse.map digitOf)

def IsDigits (ds : List Char) : Prop :=
  ds ≠ [] ∧ ∀ c ∈ ds, c.isDigit = true

/-- The text is a run of digits, with a sign in front or none, for the number. -/
inductive Spells : List Char → Int → Prop
  | bare {ds : List Char} (h : IsDigits ds) : Spells ds (valueOf ds)
  | plus {ds : List Char} (h : IsDigits ds) : Spells ('+' :: ds) (valueOf ds)
  | minus {ds : List Char} (h : IsDigits ds) : Spells ('-' :: ds) (-valueOf ds)

/-- The text spells the number, which fits into 64 bits. -/
def Numeric (x : String) (v : Int) : Prop :=
  Spells x.toList v ∧ -2 ^ 63 ≤ v ∧ v ≤ 2 ^ 63 - 1

/-- No plus sign, no zero in front of further digits, and not the negative zero. -/
def Canonical (x : String) : Prop :=
  x.toList.head? ≠ some '+' ∧ x.toList ≠ "-0".toList ∧
    ∀ ds, x.toList = '0' :: ds ∨ x.toList = '-' :: '0' :: ds → ds = []

variable {cs ds : List Char} {c : Char} {n : Nat} {v : Int} {x : String}

theorem valueOf_concat (ds : List Char) (c : Char) :
    valueOf (ds ++ [c]) = 10 * valueOf ds + digitOf c := by
  rw [valueOf, List.reverse_append, List.reverse_singleton, List.singleton_append, List.map_cons,
    Nat.ofDigits_cons, Nat.add_comm]
  rfl

theorem ofDigitChars_eq_valueOf (ds : List Char) : Nat.ofDigitChars 10 ds 0 = valueOf ds := by
  induction ds using List.reverseRecOn with
  | nil => rfl
  | append_singleton ds c ih =>
    rw [Nat.ofDigitChars_append, ih, valueOf_concat]
    rfl

theorem digits?_eq_some_iff : digits? cs = some n ↔ IsDigits cs ∧ valueOf cs = n := by
  rw [digits?, ofDigitChars_eq_valueOf, Option.ite_none_right_eq_some, List.all_eq_true,
    Option.some.injEq, IsDigits]

theorem not_isDigits_cons (h : c.isDigit = false) : ¬ IsDigits (c :: cs) := fun hd => by
  rw [hd.2 c List.mem_cons_self] at h
  cases h

theorem integer?_eq_some_iff : integer? cs = some v ↔ Spells cs v := by
  constructor
  · intro h
    unfold integer? at h
    split at h
    · obtain ⟨n, hn, rfl⟩ := Option.map_eq_some_iff.1 h
      obtain ⟨hd, rfl⟩ := digits?_eq_some_iff.1 hn
      exact .plus hd
    · obtain ⟨n, hn, rfl⟩ := Option.map_eq_some_iff.1 h
      obtain ⟨hd, rfl⟩ := digits?_eq_some_iff.1 hn
      exact .minus hd
    · obtain ⟨n, hn, rfl⟩ := Option.map_eq_some_iff.1 h
      obtain ⟨hd, rfl⟩ := digits?_eq_some_iff.1 hn
      exact .bare hd
  · intro h
    cases h with
    | plus hd => simp [integer?, digits?_eq_some_iff.2 ⟨hd, rfl⟩]
    | minus hd => simp [integer?, digits?_eq_some_iff.2 ⟨hd, rfl⟩]
    | bare hd =>
      unfold integer?
      split
      · exact absurd hd (not_isDigits_cons (by decide))
      · exact absurd hd (not_isDigits_cons (by decide))
      · simp [digits?_eq_some_iff.2 ⟨hd, rfl⟩]

theorem inRange_iff : InRange v ↔ -2 ^ 63 ≤ v ∧ v ≤ 2 ^ 63 - 1 := by
  simp [InRange, least, greatest]

theorem read?_eq_some_iff : read? x = some v ↔ Numeric x v := by
  rw [read?, Option.filter_eq_some_iff, integer?_eq_some_iff, decide_eq_true_eq, inRange_iff, Numeric]

theorem Numeric.inRange (h : Numeric x v) : InRange v :=
  inRange_iff.2 h.2

theorem Numeric.unique {w : Int} (hv : Numeric x v) (hw : Numeric x w) : v = w :=
  Option.some.inj ((read?_eq_some_iff.2 hv).symm.trans (read?_eq_some_iff.2 hw))

theorem numeric_write (h : InRange v) : Numeric (write v) v :=
  read?_eq_some_iff.1 (read_write h)

section Digits

theorem digitOf_lt (h : c.isDigit = true) : digitOf c < 10 := by
  obtain ⟨_, h9⟩ : 48 ≤ c.toNat ∧ c.toNat ≤ 57 := Char.isDigit_iff_toNat.1 h
  change c.toNat - 48 < 10
  omega

theorem digitChar_digitOf (h : c.isDigit = true) : (digitOf c).digitChar = c := by
  obtain ⟨h0, h9⟩ : 48 ≤ c.toNat ∧ c.toNat ≤ 57 := Char.isDigit_iff_toNat.1 h
  obtain ⟨d, hd⟩ := Nat.exists_eq_add_of_le h0
  have hdigit : ∀ d < 10, (digitOf (Char.ofNat (48 + d))).digitChar = Char.ofNat (48 + d) := by decide
  have hc := hdigit d (by omega)
  rwa [← hd, Char.ofNat_toNat] at hc

/-- A run of digits without a leading zero is the one that is written for its value. -/
theorem toDigits_valueOf (h : IsDigits ds) (hz : ∀ tail, ds = '0' :: tail → tail = []) :
    Nat.toDigits 10 (valueOf ds) = ds := by
  induction ds using List.reverseRecOn with
  | nil => exact absurd rfl h.1
  | append_singleton ds c ih =>
    have hc : c.isDigit = true := h.2 c (by simp)
    have hone : Nat.toDigits 10 (digitOf c) = [c] := by
      rw [Nat.toDigits_of_lt_base (digitOf_lt hc), digitChar_digitOf hc]
    rw [valueOf_concat]
    by_cases hne : ds = []
    · subst hne
      simpa [valueOf] using hone
    · have hds : IsDigits ds := ⟨hne, fun d hd => h.2 d (List.mem_append_left _ hd)⟩
      have hfirst (tail : List Char) : ds ≠ '0' :: tail := by
        rintro rfl
        exact absurd (hz (tail ++ [c]) rfl) (by simp)
      have hdigits := ih hds fun tail ht => absurd ht (hfirst tail)
      have hpos : 0 < valueOf ds := by
        apply Nat.pos_of_ne_zero
        intro h0
        rw [h0] at hdigits
        exact hfirst [] hdigits.symm
      rw [← Nat.toDigits_append_toDigits (by decide) hpos (digitOf_lt hc), hdigits, hone]

end Digits

/-- A number above zero starts with another digit than zero. -/
theorem eq_nil_of_toDigits (h : Nat.toDigits 10 n = '0' :: ds) : ds = [] := by
  by_cases hn : n = 0
  · subst hn
    exact (List.cons.inj h).2.symm
  · exact absurd (by rw [h]; rfl) (head?_toDigits_ne_zero hn)

theorem canonical_write (v : Int) : Canonical (write v) := by
  have digit {n : Nat} {c : Char} (h : c ∈ Nat.toDigits 10 n) : c.isDigit = true :=
    Nat.isDigit_of_mem_toDigits (by decide) (by decide) h
  cases v with
  | ofNat n =>
    rw [Canonical, toList_write_ofNat]
    refine ⟨?_, ?_, ?_⟩
    · intro h
      exact absurd (digit (List.mem_of_head? h)) (by decide)
    · intro h
      have hmem : '-' ∈ Nat.toDigits 10 n := by rw [h]; decide
      exact absurd (digit hmem) (by decide)
    · rintro ds (h | h)
      · exact eq_nil_of_toDigits h
      · have hmem : '-' ∈ Nat.toDigits 10 n := by rw [h]; exact List.mem_cons_self
        exact absurd (digit hmem) (by decide)
  | negSucc n =>
    have hfirst {ds : List Char} (h : Nat.toDigits 10 (n + 1) = '0' :: ds) : False :=
      head?_toDigits_ne_zero (Nat.succ_ne_zero n) (by rw [h]; rfl)
    rw [Canonical, toList_write_negSucc]
    refine ⟨by simp, ?_, ?_⟩
    · intro h
      exact (hfirst (List.cons.inj h).2).elim
    · rintro ds (h | h)
      · exact absurd (List.cons.inj h).1 (by decide)
      · exact (hfirst (List.cons.inj h).2).elim

theorem Numeric.eq_write_of_canonical (h : Numeric x v) (hc : Canonical x) : x = write v := by
  obtain ⟨hplus, hnegative, hzero⟩ := hc
  obtain ⟨h, _, _⟩ := h
  rw [← String.toList_inj]
  generalize x.toList = cs at h hplus hnegative hzero ⊢
  cases h with
  | plus hd => exact absurd rfl hplus
  | @bare ds hd =>
    have hdigits := toDigits_valueOf hd fun tail ht => hzero tail (.inl ht)
    exact hdigits.symm.trans (toList_write_ofNat _).symm
  | @minus ds hd =>
    have hdigits := toDigits_valueOf hd fun tail ht => hzero tail (.inr (by rw [ht]))
    cases hn : valueOf ds with
    | zero =>
      rw [hn] at hdigits
      exact absurd (congrArg ('-' :: ·) hdigits.symm) hnegative
    | succ n =>
      rw [hn] at hdigits
      exact (congrArg ('-' :: ·) hdigits.symm).trans (toList_write_negSucc n).symm

/-- What is written for a number is the one canonical text for it. -/
theorem canonical_iff (h : Numeric x v) : Canonical x ↔ write v = x := by
  constructor
  · exact fun hc => (h.eq_write_of_canonical hc).symm
  · rintro rfl
    exact canonical_write v

end TapeLang.Decimal
