import TapeLang.Proofs.Machine.Course
import TapeLang.Proofs.Source.Spacing

/-! What the bundled programs have in common. Their texts are read line by line, `Bundled.program?_eq`; they
count a number down to zero and another one along with it, `leads_count`, which the subtractor and the
comparator do by the same three rules, `Subtracts.leads`; and two of them work on pairs of numbers. -/

namespace TapeLang.Bundled

section Source

theorem text_eq {b : Bundled} (h : b.lines ≠ []) :
    b.text = "\n".intercalate b.lines ++ "\n" := by
  rw [text]
  generalize b.lines = lines at h
  induction lines with
  | nil => exact absurd rfl h
  | cons l lines ih =>
    by_cases hl : lines = []
    · simp [hl]
    · rw [List.map_cons, String.join_cons, ih hl, String.intercalate_cons_of_ne_nil hl]
      simp only [String.append_assoc]

theorem program?_eq {b : Bundled} (hne : b.lines ≠ []) (h : ∀ l ∈ b.lines, '\n' ∉ l.toList) :
    b.program? = ({} : Program).addLines 1 (b.lines.map String.toList) := by
  rw [program?, text_eq hne, Program.parseFile_lf, Program.parse, Source.lines_intercalate hne h]

theorem loadBundled_eq {name : String} {b : Bundled} {p : Program} (hb : find? name = some b)
    (hp : b.program? = .ok p) : loadBundled name = .ok p := by
  rw [loadBundled, hb]
  simp only [hp]
  rfl

end Source

/-- A loop that takes one from a number and adds to another comes down to zero with as many times the
amount, if the second number fits at both ends of the count. -/
theorem leads_count (loop : Int → Int → Program) {amount : Int}
    (turn : ∀ a v, 0 < a → Decimal.InRange a → Decimal.InRange v → Decimal.InRange (v + amount) →
      (loop a v).Leads 2 (loop (a - 1) (v + amount)))
    {n : Nat} {v : Int} (hn : Decimal.InRange n) (hv : Decimal.InRange v)
    (hend : Decimal.InRange (v + n * amount)) :
    (loop n v).Leads (2 * n) (loop 0 (v + n * amount)) := by
  induction n generalizing v with
  | zero => simpa using Program.Leads.refl (loop 0 v)
  | succ n ih =>
    have hmul : ((n + 1 : Nat) : Int) * amount = n * amount + amount := by
      rw [Int.natCast_add, Int.add_mul, Int.natCast_one, Int.one_mul]
    -- the next value lies between the first and the last one, so it fits as they do
    have hnext : Decimal.InRange (v + amount) := by
      obtain ⟨hl, hu⟩ := hv
      obtain ⟨hl', hu'⟩ := hend
      rw [hmul] at hl' hu'
      rcases Int.le_total 0 amount with h | h
      · have h0 : 0 ≤ (n : Int) * amount := Int.mul_nonneg (Int.natCast_nonneg n) h
        exact ⟨by omega, by omega⟩
      · have h0 : (n : Int) * amount ≤ 0 :=
          Int.mul_nonpos_of_nonneg_of_nonpos (Int.natCast_nonneg n) h
        exact ⟨by omega, by omega⟩
    have hfirst := turn (n + 1 : Nat) v (by omega) hn hv hnext
    have hsub : ((n + 1 : Nat) : Int) - 1 = n := by omega
    have hadd : v + ((n + 1 : Nat) : Int) * amount = v + amount + n * amount := by omega
    rw [hsub] at hfirst
    rw [hadd] at hend ⊢
    have hrest := ih (hn.of_nonneg (by omega) (by omega)) hnext hend
    have hlen : 2 * (n + 1) = 2 + 2 * n := by omega
    rw [hlen]
    exact hfirst.trans hrest

/-- The table goes on to the second of two cells and takes one from it, unless it is zero or blank, and one
from the first, in turn. -/
structure Subtracts (rules : RuleTable) : Prop where
  start : ∀ s, rules.rule? "START" s = some (.transition ⟨.keep, .literal "DEC", .right⟩)
  dec : ∀ s, s ≠ "0" → s ≠ blank →
    rules.rule? "DEC" s = some (.transition ⟨.decrement, .literal "SUB", .left⟩)
  sub : ∀ s, rules.rule? "SUB" s = some (.transition ⟨.decrement, .literal "DEC", .right⟩)

/-- The second number can be counted down, and the difference fits. -/
def Subtractable (q : Int × Int) : Prop :=
  Decimal.InRange q.1 ∧ Decimal.InRange q.2 ∧ 0 ≤ q.2 ∧ Decimal.least ≤ q.1 - q.2

instance (q : Int × Int) : Decidable (Subtractable q) :=
  inferInstanceAs (Decidable (_ ∧ _))

namespace Subtracts

variable {rules : RuleTable} (h : Subtracts rules) (left right : List Symbol)

include h

theorem leads_loop {n : Nat} {v : Int} (hn : Decimal.InRange n) (hv : Decimal.InRange v)
    (hend : Decimal.InRange (v - n)) :
    (rules.placed "DEC" (left ++ [Decimal.write v]) (Decimal.write n :: right)).Leads (2 * n)
      (rules.placed "DEC" (left ++ [Decimal.write (v - n)]) ("0" :: right)) := by
  let loop (a v : Int) := rules.placed "DEC" (left ++ [Decimal.write v]) (Decimal.write a :: right)
  have hmul : v + n * (-1 : Int) = v - n := by omega
  rw [← hmul] at hend ⊢
  refine leads_count loop ?_ hn hv hend
  intro a v ha hra hrv hnext
  have hdown : Decimal.InRange (a - 1) := hra.of_nonneg (by omega) (by omega)
  have hdec := h.dec (Decimal.write a) (Decimal.write_ne_zero (by omega)) (Decimal.write_ne_blank a)
  have hfirst := Program.leads_left left (Decimal.write a :: right) (Decimal.write v) hdec
    (Write.puts_decrement hra hdown)
  have hsecond := Program.leads_right left (Decimal.write v :: Decimal.write (a - 1) :: right)
    (h.sub _) (Write.puts_decrement hrv hnext)
  exact hfirst.trans hsecond

theorem leads {q : Int × Int} (hq : Subtractable q) :
    (rules.placed "START" left (Decimal.write q.1 :: Decimal.write q.2 :: right)).Leads
      (1 + 2 * q.2.toNat)
      (rules.placed "DEC" (left ++ [Decimal.write (q.1 - q.2)]) ("0" :: right)) := by
  obtain ⟨ha, hb, h0, hle⟩ := hq
  have hn : (q.2.toNat : Int) = q.2 := Int.toNat_of_nonneg h0
  have hdiff : Decimal.InRange (q.1 - q.2) := by
    have hu := ha.2
    exact ⟨hle, by omega⟩
  have hstart := Program.leads_right left (Decimal.write q.1 :: Decimal.write q.2 :: right)
    (h.start _) (Write.puts_keep _)
  have hloop := h.leads_loop left right (n := q.2.toNat) (by rwa [hn]) ha (by rwa [hn])
  rw [hn] at hloop
  exact hstart.trans hloop

end Subtracts

/-- The step from one pair to the next, over the blank between them, be it a new one. -/
theorem leads_over_blank {rules : RuleTable} {state next : State}
    (hr : rules.rule? state blank = some (.transition ⟨.keep, .literal next, .right⟩))
    (left : List Symbol) {rest : List Symbol} (hrest : rest.headD blank = blank) :
    (rules.placed state left rest).Leads 1 (rules.placed next (left ++ [blank]) rest.tail) := by
  have hput : Write.keep.Puts (rest.headD blank) blank := by
    rw [hrest]
    exact Write.puts_keep blank
  rw [← hrest] at hr
  exact Program.leads_right left rest hr hput

/-- The cells of pairs of numbers, with a blank between each two pairs. -/
def pairCells (pairs : List (Int × Int)) : List Symbol :=
  [blank].intercalate (pairs.map fun q => [Decimal.write q.1, Decimal.write q.2])

/-- Behind each pair there is a blank, be it a new one, and then the other pairs. -/
theorem exists_pairCells_cons (q : Int × Int) (pairs : List (Int × Int)) :
    ∃ rest, pairCells (q :: pairs) = Decimal.write q.1 :: Decimal.write q.2 :: rest ∧
      rest.headD blank = blank ∧ rest.tail = pairCells pairs := by
  cases pairs with
  | nil => exact ⟨[], rfl, rfl, rfl⟩
  | cons q' pairs =>
    refine ⟨blank :: pairCells (q' :: pairs), ?_, rfl, rfl⟩
    simp [pairCells, List.intercalate]

end TapeLang.Bundled
