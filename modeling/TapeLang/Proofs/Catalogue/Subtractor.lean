import Mathlib.Algebra.GroupWithZero.Nat
import TapeLang.Proofs.Catalogue.Counting

/-! The subtractor. In each pair it takes ones from the second number and from the first, until the second is
zero, and goes on behind the next blank, `leads_subtractor_pair`. It looks for the second number of a pair
before it can see that there is none, so it halts one cell further on than the adder. -/

namespace TapeLang

namespace Bundled

def subtractorTable : RuleTable := .ofRules [
  (⟨.any, .literal "START"⟩, .transition ⟨.keep, .literal "DEC", .right⟩),
  (⟨.literal "0", .literal "DEC"⟩, .transition ⟨.keep, .literal "SKIP", .right⟩),
  (⟨.any, .literal "DEC"⟩, .transition ⟨.decrement, .literal "SUB", .left⟩),
  (⟨.any, .literal "SUB"⟩, .transition ⟨.decrement, .literal "DEC", .right⟩),
  (⟨.any, .literal "SKIP"⟩, .transition ⟨.keep, .literal "SKIP", .right⟩),
  (⟨.literal blank, .literal "SKIP"⟩, .transition ⟨.keep, .literal "START", .right⟩),
  (⟨.literal blank, .literal "DEC"⟩, .halt)]

theorem program?_subtractor :
    subtractor.program? =
      .ok ⟨["2", "2", ".", "5", "6", ".", "93", "6", ".", "26", "34"], "START", 0, subtractorTable⟩ := by
  rw [program?_eq (by decide) (by decide)]
  decide

theorem loadBundled_subtractor : ∃ p, loadBundled "subtractor" = .ok p ∧ p.rules = subtractorTable :=
  ⟨_, loadBundled_eq (by decide) program?_subtractor, rfl⟩

theorem subtracts_subtractor : Subtracts subtractorTable where
  start s := by
    simp [subtractorTable, Key.candidates]
  dec s h0 hb := by
    simp [subtractorTable, Key.candidates, h0, hb]
  sub s := by
    simp [subtractorTable, Key.candidates]

theorem subtractor_rule?_zero :
    subtractorTable.rule? "DEC" "0" = some (.transition ⟨.keep, .literal "SKIP", .right⟩) := by
  decide

theorem subtractor_rule?_next :
    subtractorTable.rule? "SKIP" blank = some (.transition ⟨.keep, .literal "START", .right⟩) := by
  decide

theorem subtractor_rule?_end : subtractorTable.rule? "DEC" blank = some .halt := by
  decide

def subtracted (q : Int × Int) : List Symbol :=
  [Decimal.write (q.1 - q.2), "0", blank]

theorem leads_subtractor_pair (left rest : List Symbol) {q : Int × Int} (hq : Subtractable q)
    (hrest : rest.headD blank = blank) :
    (subtractorTable.placed "START" left (Decimal.write q.1 :: Decimal.write q.2 :: rest)).Leads
      (2 * q.2.toNat + 3) (subtractorTable.placed "START" (left ++ subtracted q) rest.tail) := by
  have hloop := subtracts_subtractor.leads left rest hq
  have hzero := Program.leads_right (left ++ [Decimal.write (q.1 - q.2)]) ("0" :: rest)
    subtractor_rule?_zero (Write.puts_keep "0")
  have hnext := leads_over_blank subtractor_rule?_next
    (left ++ [Decimal.write (q.1 - q.2)] ++ ["0"]) hrest
  have h := hloop.trans (hzero.trans hnext)
  have hlen : 1 + 2 * q.2.toNat + (1 + 1) = 2 * q.2.toNat + 3 := by omega
  rw [hlen] at h
  simpa [subtracted] using h

theorem leads_subtractor (left : List Symbol) {pairs : List (Int × Int)}
    (h : ∀ q ∈ pairs, Subtractable q) :
    (subtractorTable.placed "START" left (pairCells pairs)).Leads
      ((pairs.map fun q => 2 * q.2.toNat + 3).sum + 1)
      (subtractorTable.placed "DEC" (left ++ pairs.flatMap subtracted ++ [blank]) []) := by
  induction pairs generalizing left with
  | nil =>
    have hstart := Program.leads_right left [] (subtracts_subtractor.start blank)
      (Write.puts_keep blank)
    simpa [pairCells] using hstart
  | cons q pairs ih =>
    obtain ⟨hq, hpairs⟩ := List.forall_mem_cons.1 h
    obtain ⟨rest, hcells, hrest, htail⟩ := exists_pairCells_cons q pairs
    have hpair := leads_subtractor_pair left rest hq hrest
    rw [htail] at hpair
    have hall := hpair.trans (ih (left ++ subtracted q) hpairs)
    rw [hcells]
    simpa [Nat.add_assoc] using hall

end Bundled

/-- The subtractor halts on every list of pairs that it can subtract, and leaves the difference and zero of
each, with a blank behind each pair and two more behind them all. -/
theorem subtractor_subtracts {pairs : List (Int × Int)} (h : ∀ q ∈ pairs, Bundled.Subtractable q) :
    ∃ p, loadBundled "subtractor" = .ok p ∧
      let cells := pairs.flatMap Bundled.subtracted ++ [blank, blank]
      (Machine.ofProgram { p with tape := Bundled.pairCells pairs, state := "START", head := 0 }).Finishes
        ((pairs.map fun q => 2 * q.2.toNat + 3).sum + 1) (.halted cells)
        { p with tape := cells, state := "DEC", head := 3 * pairs.length + 1 } := by
  obtain ⟨p, hp, hrules⟩ := Bundled.loadBundled_subtractor
  refine ⟨p, hp, ?_⟩
  intro cells
  have hstart : { p with tape := Bundled.pairCells pairs, state := "START", head := 0 } =
      Bundled.subtractorTable.placed "START" [] (Bundled.pairCells pairs) := by
    rw [hrules]
    rfl
  have hlast : Bundled.subtractorTable.placed "DEC"
        (pairs.flatMap Bundled.subtracted ++ [blank]) [blank] =
      { p with tape := cells, state := "DEC", head := 3 * pairs.length + 1 } := by
    have hlen : (pairs.flatMap Bundled.subtracted).length = 3 * pairs.length := by
      simp [List.length_flatMap, Bundled.subtracted, Nat.mul_comm]
    rw [RuleTable.placed, List.length_append, hlen, hrules, List.append_assoc]
    rfl
  have hrun := (Bundled.leads_subtractor [] h).halts_placed (m := .ofProgram _)
    Bundled.subtractor_rule?_end hstart
  rw [List.nil_append] at hrun
  have hcells : pairs.flatMap Bundled.subtracted ++ [blank] ++ [blank] = cells :=
    List.append_assoc ..
  exact hlast ▸ hcells ▸ hrun

/-- Differences of either sign and at the end of the range. -/
theorem subtractor_subtracts_least :
    let pairs : List (Int × Int) := [(5, 6), (0, 0), (-9223372036854775807, 1)]
    let cells := ["-1", "0", ".", "0", "0", ".", "-9223372036854775808", "0", ".", ".", "."]
    (∀ q ∈ pairs, Bundled.Subtractable q) ∧
      ∃ p, loadBundled "subtractor" = .ok p ∧
        (Machine.ofProgram
          { p with
            tape := ["5", "6", ".", "0", "0", ".", "-9223372036854775807", "1"]
            state := "START"
            head := 0 }).Finishes 24 (.halted cells)
          { p with tape := cells, state := "DEC", head := 10 } := by
  intro pairs cells
  have h : ∀ q ∈ pairs, Bundled.Subtractable q := by decide
  have htape : Bundled.pairCells pairs = ["5", "6", ".", "0", "0", ".", "-9223372036854775807", "1"] := by
    decide
  have hcells : pairs.flatMap Bundled.subtracted ++ [blank, blank] = cells := by decide
  obtain ⟨p, hp, hrun⟩ := subtractor_subtracts h
  rw [htape, hcells] at hrun
  exact ⟨h, p, hp, hrun⟩

end TapeLang
