import TapeLang.Machine.Step
import TapeLang.Proofs.Decimal.Numeral

/-! Counting in a cell. A rule that counts a cell up or down takes every numeric text as its number, writes the
canonical text of the next one, and fails on any other text and at the end of the range, `apply_eq`. So a
row of such rules gets exactly as far as the range goes, `exists_writeAll_iff`, and counting there and back
leaves the canonical text of the number that was there. -/

namespace TapeLang

def Write.writeAll (key : Key) (index : Nat) (ws : List Write) (symbol : Symbol) :
    Except RunError Symbol :=
  ws.foldlM (fun s w => (w.apply s key index).map fun written => written.getD s) symbol

inductive Count
  | up
  | down

namespace Count

def write : Count → Write
  | up => .increment
  | down => .decrement

def amount : Count → Int
  | up => 1
  | down => -1

/-- The number from which it does not go on. -/
def last : Count → Int
  | up => 2 ^ 63 - 1
  | down => -2 ^ 63

def fault : Count → Symbol → Key → Nat → RunError
  | up => .nonNumericIncrement
  | down => .nonNumericDecrement

def back : Count → Count
  | up => down
  | down => up

/-- Counting as many times from the number stays in the range. -/
def Room : Count → Int → Nat → Prop
  | up, v, k => v + k ≤ 2 ^ 63 - 1
  | down, v, k => -2 ^ 63 ≤ v - k

open Decimal

variable {c : Count} {x : Symbol} {v : Int} {key : Key} {index k : Nat}

theorem inRange_add_amount_iff (h : InRange v) : InRange (v + c.amount) ↔ v ≠ c.last := by
  rw [inRange_iff] at h ⊢
  cases c with
  | up => simp only [amount, last]; omega
  | down => simp only [amount, last]; omega

theorem room_zero (h : InRange v) : c.Room v 0 := by
  rw [inRange_iff] at h
  cases c with
  | up => simp only [Room]; omega
  | down => simp only [Room]; omega

theorem room_succ_iff : c.Room v (k + 1) ↔ v ≠ c.last ∧ c.Room (v + c.amount) k := by
  cases c with
  | up => simp only [Room, amount, last]; omega
  | down => simp only [Room, amount, last]; omega

theorem add_amount_ne_last_back (h : InRange v) : v + c.amount ≠ c.back.last := by
  rw [inRange_iff] at h
  cases c with
  | up => simp only [amount, last, back]; omega
  | down => simp only [amount, last, back]; omega

theorem add_amount_add_amount_back : v + c.amount + c.back.amount = v := by
  cases c with
  | up => simp only [amount, back]; omega
  | down => simp only [amount, back]; omega

theorem fault_ne_overflow : c.fault x key index ≠ .overflow x key index := by
  cases c <;> simp [fault]

theorem apply_eq :
    c.write.apply x key index =
      match read? x with
      | none => .error (c.fault x key index)
      | some v => (newNumber (v + c.amount) x key index).map some := by
  cases c <;> rfl

section Apply

theorem apply_of_not_numeric (h : ¬ ∃ v, Numeric x v) :
    c.write.apply x key index = .error (c.fault x key index) := by
  have hr : read? x = none := by
    rw [Option.eq_none_iff_forall_ne_some]
    exact fun v hv => h ⟨v, read?_eq_some_iff.1 hv⟩
  rw [apply_eq, hr]

theorem apply_of_last (h : Numeric x c.last) :
    c.write.apply x key index = .error (.overflow x key index) := by
  have hn : ¬ InRange (c.last + c.amount) := fun hr => (inRange_add_amount_iff h.inRange).1 hr rfl
  rw [apply_eq, read?_eq_some_iff.2 h]
  simp only [newNumber, if_neg hn]
  rfl

theorem apply_of_ne_last (h : Numeric x v) (hl : v ≠ c.last) :
    c.write.apply x key index = .ok (some (Decimal.write (v + c.amount))) := by
  rw [apply_eq, read?_eq_some_iff.2 h]
  simp only [newNumber_of_inRange ((inRange_add_amount_iff h.inRange).2 hl)]
  rfl

theorem numeric_add_amount (h : Numeric x v) (hl : v ≠ c.last) :
    Numeric (Decimal.write (v + c.amount)) (v + c.amount) :=
  numeric_write ((inRange_add_amount_iff h.inRange).2 hl)

/-- Each of the three ways in which a write comes out has its own cause. -/
theorem apply_cases (c : Count) (x : Symbol) :
    (¬ ∃ v, Numeric x v) ∨ Numeric x c.last ∨ ∃ v, Numeric x v ∧ v ≠ c.last := by
  by_cases h : ∃ v, Numeric x v
  · obtain ⟨v, hv⟩ := h
    by_cases hl : v = c.last
    · exact .inr (.inl (hl ▸ hv))
    · exact .inr (.inr ⟨v, hv, hl⟩)
  · exact .inl h

theorem apply_eq_fault_iff :
    c.write.apply x key index = .error (c.fault x key index) ↔ ¬ ∃ v, Numeric x v := by
  constructor
  · intro h hn
    rcases c.apply_cases x with hn' | hl | ⟨v, hv, hl⟩
    · exact hn' hn
    · rw [apply_of_last hl] at h
      exact fault_ne_overflow (Except.error.inj h).symm
    · rw [apply_of_ne_last hv hl] at h
      cases h
  · exact apply_of_not_numeric

theorem apply_eq_overflow_iff :
    c.write.apply x key index = .error (.overflow x key index) ↔ Numeric x c.last := by
  constructor
  · intro h
    rcases c.apply_cases x with hn | hl | ⟨v, hv, hl⟩
    · rw [apply_of_not_numeric hn] at h
      exact absurd (Except.error.inj h) fault_ne_overflow
    · exact hl
    · rw [apply_of_ne_last hv hl] at h
      cases h
  · exact apply_of_last

end Apply

section Row

theorem writeAll_cons_of_ne_last (h : Numeric x v) (hl : v ≠ c.last) (ws : List Write) :
    Write.writeAll key index (c.write :: ws) x =
      Write.writeAll key index ws (Decimal.write (v + c.amount)) := by
  rw [Write.writeAll, List.foldlM_cons, apply_of_ne_last h hl]
  rfl

theorem writeAll_cons_of_last (h : Numeric x c.last) (ws : List Write) :
    Write.writeAll key index (c.write :: ws) x = .error (.overflow x key index) := by
  rw [Write.writeAll, List.foldlM_cons, apply_of_last h]
  rfl

theorem exists_writeAll_iff (h : Numeric x v) :
    (∃ y, Write.writeAll key index (List.replicate k c.write) x = .ok y) ↔ c.Room v k := by
  induction k generalizing x v with
  | zero => exact ⟨fun _ => room_zero h.inRange, fun _ => ⟨x, rfl⟩⟩
  | succ k ih =>
    rw [List.replicate_succ, room_succ_iff]
    by_cases hl : v = c.last
    · subst hl
      simp [writeAll_cons_of_last h]
    · rw [writeAll_cons_of_ne_last h hl, ih (numeric_add_amount h hl)]
      exact ⟨fun hr => ⟨hl, hr⟩, fun hr => hr.2⟩

theorem writeAll_replicate_succ (h : Numeric x v) (hr : c.Room v (k + 1)) :
    Write.writeAll key index (List.replicate (k + 1) c.write) x =
      .ok (Decimal.write (v + (k + 1 : Int) * c.amount)) := by
  induction k generalizing x v with
  | zero =>
    obtain ⟨hl, _⟩ := room_succ_iff.1 hr
    have hsum : v + ((0 : Nat) + 1 : Int) * c.amount = v + c.amount := by simp
    rw [List.replicate_succ, writeAll_cons_of_ne_last h hl, hsum]
    rfl
  | succ k ih =>
    obtain ⟨hl, hr⟩ := room_succ_iff.1 hr
    have hsum : v + c.amount + (k + 1 : Int) * c.amount = v + ((k + 1 : Nat) + 1 : Int) * c.amount := by
      push_cast
      ring
    rw [List.replicate_succ, writeAll_cons_of_ne_last h hl, ih (numeric_add_amount h hl) hr, hsum]

theorem writeAll_back (h : Numeric x v) (hl : v ≠ c.last) :
    Write.writeAll key index [c.write, c.back.write] x = .ok (Decimal.write v) := by
  have hn := numeric_add_amount h hl
  rw [writeAll_cons_of_ne_last h hl, writeAll_cons_of_ne_last hn (add_amount_ne_last_back h.inRange),
    add_amount_add_amount_back]
  rfl

end Row

/-- Counting a cell fails for want of a number exactly if it is not numeric and with an overflow exactly if
its number is the last one; otherwise the canonical text of the next number is written. From a number,
as many counts in a row can be made as the range has room for, and one there and one back leave the
canonical text of the number, which is the one that was there exactly if that was canonical. -/
theorem counts_exactly (c : Count) (x : Symbol) (key : Key) (index : Nat) :
    (c.write.apply x key index = .error (c.fault x key index) ↔ ¬ ∃ v, Numeric x v) ∧
      (c.write.apply x key index = .error (.overflow x key index) ↔ Numeric x c.last) ∧
      ∀ v, Numeric x v →
        (∀ w, Numeric x w → w = v) ∧
        (v ≠ c.last →
          c.write.apply x key index = .ok (some (Decimal.write (v + c.amount))) ∧
          Numeric (Decimal.write (v + c.amount)) (v + c.amount) ∧
          Canonical (Decimal.write (v + c.amount))) ∧
        (∀ k, (∃ y, Write.writeAll key index (List.replicate k c.write) x = .ok y) ↔ c.Room v k) ∧
        (∀ k, c.Room v (k + 1) →
          Write.writeAll key index (List.replicate (k + 1) c.write) x =
            .ok (Decimal.write (v + (k + 1 : Int) * c.amount))) ∧
        (v ≠ c.last → Write.writeAll key index [c.write, c.back.write] x = .ok (Decimal.write v)) ∧
        (Decimal.write v = x ↔ Canonical x) := by
  refine ⟨apply_eq_fault_iff, apply_eq_overflow_iff, fun v hv => ⟨?_, ?_, ?_, ?_, ?_, ?_⟩⟩
  · exact fun w hw => hw.unique hv
  · exact fun hl => ⟨apply_of_ne_last hv hl, numeric_add_amount hv hl, canonical_write _⟩
  · exact fun k => exists_writeAll_iff hv
  · exact fun k => writeAll_replicate_succ hv
  · exact writeAll_back hv
  · exact (canonical_iff hv).symm

/-- One below the end of the range, spelled with a sign and a zero in front. -/
theorem counts_exactly_near_end :
    let x := "+09223372036854775806"
    let key : Key := ⟨.any, .any⟩
    Numeric x 9223372036854775806 ∧
      (up.write.apply x key 0 = .ok (some "9223372036854775807") ∧
        Numeric "9223372036854775807" 9223372036854775807) ∧
      (∃ y, Write.writeAll key 0 (List.replicate 1 .increment) x = .ok y) ∧
      (¬ ∃ y, Write.writeAll key 0 (List.replicate 2 .increment) x = .ok y) ∧
      Write.writeAll key 0 [.increment, .decrement] x = .ok "9223372036854775806" ∧
      ¬ Canonical x := by
  intro x key
  have hx : Numeric x 9223372036854775806 := read?_eq_some_iff.1 (by decide)
  have hl : 9223372036854775806 ≠ up.last := by decide
  obtain ⟨_, _, h⟩ := counts_exactly up x key 0
  obtain ⟨_, hnext, hrow, _, hback, hcanonical⟩ := h _ hx
  have hw : Decimal.write 9223372036854775806 = "9223372036854775806" := by decide
  have hs : Decimal.write (9223372036854775806 + up.amount) = "9223372036854775807" := by decide
  obtain ⟨happly, hnumeric, _⟩ := hnext hl
  rw [hs] at happly hnumeric
  refine ⟨hx, ⟨happly, hnumeric⟩, (hrow 1).2 (by simp [Room]), ?_, ?_, ?_⟩
  · exact fun hy => absurd ((hrow 2).1 hy) (by simp [Room])
  · rw [← hw]
    exact hback hl
  · rw [← hcanonical, hw]
    decide

end Count

end TapeLang
