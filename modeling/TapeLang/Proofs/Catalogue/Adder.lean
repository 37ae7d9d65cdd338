import Mathlib.Algebra.GroupWithZero.Nat
import TapeLang.Proofs.Catalogue.Counting

/-! The adder. In each pair it takes ones from the first number and adds them to the second, until the first
is zero, `leads_adder_pair`; then it goes on behind the next blank, and halts where a pair would start and
there is a blank instead. -/

namespace TapeLang

namespace Bundled

def adderTable : RuleTable := .ofRules [
  (⟨.literal "0", .literal "DEC"⟩, .transition ⟨.keep, .literal "SKIP", .right⟩),
  (⟨.any, .literal "DEC"⟩, .transition ⟨.decrement, .literal "ADD", .right⟩),
  (⟨.any, .literal "ADD"⟩, .transition ⟨.increment, .literal "DEC", .left⟩),
  (⟨.any, .literal "SKIP"⟩, .transition ⟨.keep, .literal "SKIP", .right⟩),
  (⟨.literal blank, .literal "SKIP"⟩, .transition ⟨.keep, .literal "DEC", .right⟩),
  (⟨.literal blank, .literal "DEC"⟩, .halt)]

theorem program?_adder :
    adder.program? =
      .ok ⟨["2", "2", ".", "5", "6", ".", "93", "6", ".", "26", "34"], "DEC", 0, adderTable⟩ := by
  rw [program?_eq (by decide) (by decide)]
  decide

theorem loadBundled_adder : ∃ p, loadBundled "adder" = .ok p ∧ p.rules = adderTable :=
  ⟨_, loadBundled_eq (by decide) program?_adder, rfl⟩

section Rule

variable {s : Symbol}

theorem adder_rule?_zero :
    adderTable.rule? "DEC" "0" = some (.transition ⟨.keep, .literal "SKIP", .right⟩) := by
  decide

theorem adder_rule?_dec (h0 : s ≠ "0") (hb : s ≠ blank) :
    adderTable.rule? "DEC" s = some (.transition ⟨.decrement, .literal "ADD", .right⟩) := by
  simp [adderTable, Key.candidates, h0, hb]

theorem adder_rule?_add :
    adderTable.rule? "ADD" s = some (.transition ⟨.increment, .literal "DEC", .left⟩) := by
  simp [adderTable, Key.candidates]

theorem adder_rule?_skip (hb : s ≠ blank) :
    adderTable.rule? "SKIP" s = some (.transition ⟨.keep, .literal "SKIP", .right⟩) := by
  simp [adderTable, Key.candidates, hb]

theorem adder_rule?_next :
    adderTable.rule? "SKIP" blank = some (.transition ⟨.keep, .literal "DEC", .right⟩) := by
  decide

theorem adder_rule?_end : adderTable.rule? "DEC" blank = some .halt := by
  decide

end Rule

/-- The first number can be counted down, and the sum fits. -/
def Addable (q : Int × Int) : Prop :=
  0 ≤ q.1 ∧ Decimal.InRange q.1 ∧ Decimal.InRange q.2 ∧ q.1 + q.2 ≤ Decimal.greatest

instance (q : Int × Int) : Decidable (Addable q) :=
  inferInstanceAs (Decidable (_ ∧ _))

/-- The cells of a pair that the adder is done with, and the blank behind it. -/
def summed (q : Int × Int) : List Symbol :=
  ["0", Decimal.write (q.1 + q.2), blank]

theorem leads_adder_loop (left right : List Symbol) {n : Nat} {v : Int} (hn : Decimal.InRange n)
    (hv : Decimal.InRange v) (hend : Decimal.InRange (v + n)) :
    (adderTable.placed "DEC" left (Decimal.write n :: Decimal.write v :: right)).Leads (2 * n)
      (adderTable.placed "DEC" left ("0" :: Decimal.write (v + n) :: right)) := by
  let loop (a v : Int) :=
    adderTable.placed "DEC" left (Decimal.write a :: Decimal.write v :: right)
  have hmul : v + n * (1 : Int) = v + n := by omega
  rw [← hmul] at hend ⊢
  refine leads_count loop ?_ hn hv hend
  intro a v ha hra hrv hnext
  have hdown : Decimal.InRange (a - 1) := hra.of_nonneg (by omega) (by omega)
  have hdec : adderTable.rule? "DEC" (Decimal.write a) = _ :=
    adder_rule?_dec (Decimal.write_ne_zero (by omega)) (Decimal.write_ne_blank a)
  have hfirst := Program.leads_right left (Decimal.write a :: Decimal.write v :: right) hdec
    (Write.puts_decrement hra hdown)
  have hsecond := Program.leads_left left (Decimal.write v :: right) (Decimal.write (a - 1))
    adder_rule?_add (Write.puts_increment hrv hnext)
  exact hfirst.trans hsecond

theorem leads_adder_pair (left rest : List Symbol) {q : Int × Int} (hq : Addable q)
    (hrest : rest.headD blank = blank) :
    (adderTable.placed "DEC" left (Decimal.write q.1 :: Decimal.write q.2 :: rest)).Leads
      (2 * q.1.toNat + 3) (adderTable.placed "DEC" (left ++ summed q) rest.tail) := by
  obtain ⟨h0, ha, hb, hle⟩ := hq
  have hn : (q.1.toNat : Int) = q.1 := Int.toNat_of_nonneg h0
  have hsum : Decimal.InRange (q.2 + q.1) := by
    have hl := hb.1
    exact ⟨by omega, by omega⟩
  have hloop := leads_adder_loop left rest (n := q.1.toNat) (by rwa [hn]) hb (by rwa [hn])
  rw [hn, Int.add_comm] at hloop
  have hzero := Program.leads_right left ("0" :: Decimal.write (q.1 + q.2) :: rest) adder_rule?_zero
    (Write.puts_keep "0")
  have hskip := Program.leads_right (left ++ ["0"]) (Decimal.write (q.1 + q.2) :: rest)
    (adder_rule?_skip (Decimal.write_ne_blank _)) (Write.puts_keep _)
  have hnext := leads_over_blank adder_rule?_next (left ++ ["0"] ++ [Decimal.write (q.1 + q.2)]) hrest
  have h := hloop.trans (hzero.trans (hskip.trans hnext))
  simpa [summed] using h

theorem leads_adder (left : List Symbol) {pairs : List (Int × Int)} (h : ∀ q ∈ pairs, Addable q) :
    (adderTable.placed "DEC" left (pairCells pairs)).Leads (pairs.map fun q => 2 * q.1.toNat + 3).sum
      (adderTable.placed "DEC" (left ++ pairs.flatMap summed) []) := by
  induction pairs generalizing left with
  | nil => simpa [pairCells] using Program.Leads.refl _
  | cons q pairs ih =>
    obtain ⟨hq, hpairs⟩ := List.forall_mem_cons.1 h
    obtain ⟨rest, hcells, hrest, htail⟩ := exists_pairCells_cons q pairs
    have hpair := leads_adder_pair left rest hq hrest
    rw [htail] at hpair
    have hall := hpair.trans (ih (left ++ summed q) hpairs)
    rw [hcells]
    simpa using hall

end Bundled

/-- The adder halts on every list of pairs that it can add, and leaves zero and the sum of each, with a blank
behind each pair and one more behind them all. -/
theorem adder_adds {pairs : List (Int × Int)} (h : ∀ q ∈ pairs, Bundled.Addable q) :
    ∃ p, loadBundled "adder" = .ok p ∧
      let cells := pairs.flatMap Bundled.summed ++ [blank]
      (Machine.ofProgram { p with tape := Bundled.pairCells pairs, state := "DEC", head := 0 }).Finishes
        (pairs.map fun q => 2 * q.1.toNat + 3).sum (.halted cells)
        { p with tape := cells, state := "DEC", head := 3 * pairs.length } := by
  obtain ⟨p, hp, hrules⟩ := Bundled.loadBundled_adder
  refine ⟨p, hp, ?_⟩
  intro cells
  have hstart : { p with tape := Bundled.pairCells pairs, state := "DEC", head := 0 } =
      Bundled.adderTable.placed "DEC" [] (Bundled.pairCells pairs) := by
    rw [hrules]
    rfl
  have hlast : Bundled.adderTable.placed "DEC" (pairs.flatMap Bundled.summed) [blank] =
      { p with tape := cells, state := "DEC", head := 3 * pairs.length } := by
    have hlen : (pairs.flatMap Bundled.summed).length = 3 * pairs.length := by
      simp [List.length_flatMap, Bundled.summed, Nat.mul_comm]
    rw [RuleTable.placed, hlen, hrules]
    rfl
  have hrun := (Bundled.leads_adder [] h).halts_placed (m := .ofProgram _) Bundled.adder_rule?_end hstart
  exact hlast ▸ hrun

/-- Sums of either sign and at the end of the range. -/
theorem adder_adds_greatest :
    let pairs : List (Int × Int) := [(2, -9), (0, 0), (1, 9223372036854775806)]
    let cells := ["0", "-7", ".", "0", "0", ".", "0", "9223372036854775807", ".", "."]
    (∀ q ∈ pairs, Bundled.Addable q) ∧
      ∃ p, loadBundled "adder" = .ok p ∧
        (Machine.ofProgram
          { p with
            tape := ["2", "-9", ".", "0", "0", ".", "1", "9223372036854775806"]
            state := "DEC"
            head := 0 }).Finishes 15 (.halted cells) { p with tape := cells, state := "DEC", head := 9 } := by
  intro pairs cells
  have h : ∀ q ∈ pairs, Bundled.Addable q := by decide
  have htape : Bundled.pairCells pairs = ["2", "-9", ".", "0", "0", ".", "1", "9223372036854775806"] := by
    decide
  have hcells : pairs.flatMap Bundled.summed ++ [blank] = cells := by decide
  obtain ⟨p, hp, hrun⟩ := adder_adds h
  rw [htape, hcells] at hrun
  exact ⟨h, p, hp, hrun⟩

end TapeLang
