import TapeLang.Proofs.Catalogue.Counting

/-! The comparator. It subtracts the second number from the first and looks for a rule for the difference,
of which there is one for zero only, `comparator_rule?_check`; with that it goes on to the first blank,
`leads_accept`, and halts. -/

namespace TapeLang

namespace Bundled

def comparatorTable : RuleTable := .ofRules [
  (⟨.any, .literal "START"⟩, .transition ⟨.keep, .literal "DEC", .right⟩),
  (⟨.literal "0", .literal "DEC"⟩, .transition ⟨.keep, .literal "CHECK", .left⟩),
  (⟨.any, .literal "DEC"⟩, .transition ⟨.decrement, .literal "SUB", .left⟩),
  (⟨.any, .literal "SUB"⟩, .transition ⟨.decrement, .literal "DEC", .right⟩),
  (⟨.literal "0", .literal "CHECK"⟩, .transition ⟨.keep, .literal "ACCEPT", .right⟩),
  (⟨.literal blank, .literal "ACCEPT"⟩, .halt),
  (⟨.any, .literal "ACCEPT"⟩, .transition ⟨.keep, .keep, .right⟩),
  (⟨.literal blank, .literal "CHECK"⟩, .transition ⟨.keep, .literal "FAIL", .stay⟩)]

theorem program?_comparator :
    comparator.program? = .ok ⟨["5", "5", ".", "."], "START", 0, comparatorTable⟩ := by
  rw [program?_eq (by decide) (by decide)]
  decide

theorem loadBundled_comparator : ∃ p, loadBundled "comparator" = .ok p ∧ p.rules = comparatorTable :=
  ⟨_, loadBundled_eq (by decide) program?_comparator, rfl⟩

theorem subtracts_comparator : Subtracts comparatorTable where
  start s := by
    simp [comparatorTable, Key.candidates]
  dec s h0 _ := by
    simp [comparatorTable, Key.candidates, h0]
  sub s := by
    simp [comparatorTable, Key.candidates]

theorem comparator_rule?_zero :
    comparatorTable.rule? "DEC" "0" = some (.transition ⟨.keep, .literal "CHECK", .left⟩) := by
  decide

theorem comparator_rule?_equal :
    comparatorTable.rule? "CHECK" "0" = some (.transition ⟨.keep, .literal "ACCEPT", .right⟩) := by
  decide

theorem comparator_rule?_end : comparatorTable.rule? "ACCEPT" blank = some .halt := by
  decide

variable {s : Symbol}

theorem comparator_rule?_check (h0 : s ≠ "0") (hb : s ≠ blank) :
    comparatorTable.rule? "CHECK" s = none := by
  simp [comparatorTable, Key.candidates, h0, hb]

theorem comparator_rule?_accept (hb : s ≠ blank) :
    comparatorTable.rule? "ACCEPT" s = some (.transition ⟨.keep, .keep, .right⟩) := by
  simp [comparatorTable, Key.candidates, hb]

theorem leads_check (rest : List Symbol) {q : Int × Int} (hq : Subtractable q) :
    (comparatorTable.placed "START" [] (Decimal.write q.1 :: Decimal.write q.2 :: rest)).Leads
      (2 * q.2.toNat + 2)
      (comparatorTable.placed "CHECK" [] (Decimal.write (q.1 - q.2) :: "0" :: rest)) := by
  have hloop := subtracts_comparator.leads [] rest hq
  have hzero := Program.leads_left [] ("0" :: rest) (Decimal.write (q.1 - q.2)) comparator_rule?_zero
    (Write.puts_keep "0")
  have hlen : 2 * q.2.toNat + 2 = 1 + 2 * q.2.toNat + 1 := by omega
  rw [hlen]
  exact hloop.trans hzero

/-- The way to the first blank, be it a new one. -/
theorem leads_accept (left rest : List Symbol) :
    (comparatorTable.placed "ACCEPT" left rest).Leads (rest.idxOf blank)
      (comparatorTable.placed "ACCEPT" (left ++ rest.take (rest.idxOf blank))
        (rest.drop (rest.idxOf blank))) := by
  induction rest generalizing left with
  | nil => simpa using Program.Leads.refl _
  | cons s rest ih =>
    by_cases hs : s = blank
    · subst hs
      simpa using Program.Leads.refl _
    · have hfirst := Program.leads_right left (s :: rest) (comparator_rule?_accept hs)
        (Write.puts_keep s)
      have h := hfirst.trans (ih (left ++ [s]))
      rw [Nat.add_comm] at h
      rw [List.idxOf_cons_ne _ hs]
      simpa using h

/-- The cells up to a blank at least. -/
def untilBlank (rest : List Symbol) : List Symbol :=
  if blank ∈ rest then rest else rest ++ [blank]

theorem drop_idxOf_blank (rest : List Symbol) :
    (rest.drop (rest.idxOf blank)).headD blank = blank ∧
      rest.take (rest.idxOf blank) ++ blank :: (rest.drop (rest.idxOf blank)).tail =
        untilBlank rest := by
  by_cases hm : blank ∈ rest
  · have hlt : rest.idxOf blank < rest.length := List.idxOf_lt_length_of_mem hm
    have hdrop : rest.drop (rest.idxOf blank) = blank :: rest.drop (rest.idxOf blank + 1) := by
      rw [List.drop_eq_getElem_cons hlt, List.getElem_idxOf hlt]
    rw [untilBlank, if_pos hm, hdrop]
    refine ⟨rfl, ?_⟩
    rw [List.tail_cons, ← hdrop, List.take_append_drop]
  · rw [untilBlank, if_neg hm, List.idxOf_eq_length hm, List.drop_length, List.take_length]
    exact ⟨rfl, rfl⟩

theorem placed_untilBlank (rest : List Symbol) :
    comparatorTable.placed "ACCEPT" (["0", "0"] ++ rest.take (rest.idxOf blank))
        (blank :: (rest.drop (rest.idxOf blank)).tail) =
      ⟨"0" :: "0" :: untilBlank rest, "ACCEPT", 2 + rest.idxOf blank, comparatorTable⟩ := by
  have hlen : (["0", "0"] ++ rest.take (rest.idxOf blank)).length = 2 + rest.idxOf blank := by
    rw [List.length_append, List.length_take_of_le List.idxOf_le_length]
    rfl
  rw [RuleTable.placed, hlen, List.append_assoc, (drop_idxOf_blank rest).2]
  rfl

end Bundled

/-- The comparator halts at the first blank behind two equal numbers, which it has counted down to zero; on
two that differ it fails for want of a rule for their difference. -/
theorem comparator_decides {a b : Int} (h : Bundled.Subtractable (a, b)) (rest : List Symbol) :
    ∃ p, loadBundled "comparator" = .ok p ∧
      let m := Machine.ofProgram
        { p with tape := Decimal.write a :: Decimal.write b :: rest, state := "START", head := 0 }
      let cells := "0" :: "0" :: Bundled.untilBlank rest
      (a = b → m.Finishes (2 * b.toNat + 4 + rest.idxOf blank) (.halted cells)
        { p with tape := cells, state := "ACCEPT", head := 2 + rest.idxOf blank }) ∧
      (a ≠ b → m.Finishes (2 * b.toNat + 2) (.failed (.missingRule (Decimal.write (a - b)) "CHECK" 0))
        { p with tape := Decimal.write (a - b) :: "0" :: rest, state := "CHECK", head := 0 }) := by
  obtain ⟨p, hp, hrules⟩ := Bundled.loadBundled_comparator
  refine ⟨p, hp, ?_⟩
  intro m cells
  have hstart : m.program = Bundled.comparatorTable.placed "START" []
      (Decimal.write a :: Decimal.write b :: rest) := by
    change { p with tape := _, state := _, head := _ } = _
    rw [hrules]
    rfl
  have hcheck := Bundled.leads_check rest h
  constructor
  · rintro rfl
    have hzero : Decimal.write (a - a) = "0" := by
      rw [Int.sub_self]
      rfl
    rw [hzero] at hcheck
    have hequal := Program.leads_right [] ("0" :: "0" :: rest) Bundled.comparator_rule?_equal
      (Write.puts_keep "0")
    have hsecond := Program.leads_right ["0"] ("0" :: rest)
      (Bundled.comparator_rule?_accept (show "0" ≠ blank by decide)) (Write.puts_keep "0")
    have hall := hcheck.trans (hequal.trans (hsecond.trans (Bundled.leads_accept ["0", "0"] rest)))
    obtain ⟨hhead, htape⟩ := Bundled.drop_idxOf_blank rest
    have hend : Bundled.comparatorTable.rule? "ACCEPT" ((rest.drop (rest.idxOf blank)).headD blank) =
        some .halt := by
      rw [hhead]
      exact Bundled.comparator_rule?_end
    have hrun := hall.halts_placed hend hstart
    have hlen : 2 * a.toNat + 2 + (1 + (1 + rest.idxOf blank)) =
        2 * a.toNat + 4 + rest.idxOf blank := by omega
    rw [hhead, Bundled.placed_untilBlank, List.append_assoc, htape, ← hrules, hlen] at hrun
    exact hrun
  · intro hne
    have hdiff : Decimal.write (a - b) ≠ "0" := Decimal.write_ne_zero (by omega)
    have hnone := Bundled.comparator_rule?_check hdiff (Decimal.write_ne_blank (a - b))
    have hrun := hcheck.fails_placed hnone hstart
    rw [← hrules] at hrun
    exact hrun

/-- Two numbers that are alike, on a tape without a blank, and two that differ. -/
theorem comparator_decides_twice :
    Bundled.Subtractable (3, 3) ∧ Bundled.Subtractable (65, 234) ∧
      ∃ p, loadBundled "comparator" = .ok p ∧
        (Machine.ofProgram
          { p with tape := ["3", "3", "x", "y"], state := "START", head := 0 }).Finishes 12
            (.halted ["0", "0", "x", "y", "."])
            { p with tape := ["0", "0", "x", "y", "."], state := "ACCEPT", head := 4 } ∧
        (Machine.ofProgram
          { p with tape := ["65", "234", "."], state := "START", head := 0 }).Finishes 470
            (.failed (.missingRule "-169" "CHECK" 0))
            { p with tape := ["-169", "0", "."], state := "CHECK", head := 0 } := by
  have h3 : Bundled.Subtractable (3, 3) := by decide
  have h65 : Bundled.Subtractable (65, 234) := by decide
  obtain ⟨p, hp, halike, _⟩ := comparator_decides h3 ["x", "y"]
  obtain ⟨q, hq, _, hdiffer⟩ := comparator_decides h65 ["."]
  obtain rfl : p = q := Except.ok.inj (hp.symm.trans hq)
  exact ⟨h3, h65, p, hp, halike rfl, hdiffer (by decide)⟩

end TapeLang
