import TapeLang.Proofs.Machine.Final
import TapeLang.Proofs.Machine.Interrupted
import TapeLang.Proofs.Source.Listing

/-! The course of a program, told rule by rule. A program leads to another one in a number of applied rules,
and such stretches join, `Leads.trans`; where a stretch ends at a symbol whose rule halts, or that has
no rule, so does the run, `Leads.halts` and `Leads.fails`. On a tape that is cut at the head, a rule
moves a cell from one side to the other, `leads_right` and `leads_left`, and the run ends at the cell
behind the cut, `Leads.halts_placed` and `Leads.fails_placed`. -/

namespace TapeLang

section Rule

def RuleTable.rule? (rules : RuleTable) (state : State) (symbol : Symbol) : Option Rule :=
  (({ state, rules } : Program).resolve symbol).map Prod.snd

@[simp] theorem RuleTable.rule?_ofRules (rules : List (Key × Rule)) (state : State) (symbol : Symbol) :
    (ofRules rules).rule? state symbol =
      (Key.candidates symbol state).findSome? fun k => rules.reverse.lookup k := by
  simp [rule?, Program.resolve, List.map_findSome?, getElem?_ofRules, Function.comp_def]

/-- The rule's write makes the second symbol of the first, whatever its key and wherever the cell is. -/
def Write.Puts (w : Write) (symbol symbol' : Symbol) : Prop :=
  ∀ key index, ∃ written, w.apply symbol key index = .ok written ∧ written.getD symbol = symbol'

theorem Write.puts_keep (symbol : Symbol) : keep.Puts symbol symbol :=
  fun _ _ => ⟨none, rfl, rfl⟩

theorem Decimal.write_ne_blank (v : Int) : write v ≠ blank := by
  intro h
  have hm : '.' ∈ (write v).toList := by rw [h]; decide
  exact absurd (isDigit_of_mem_write hm) (by decide)

variable {v : Int}

theorem Write.puts_increment (hv : Decimal.InRange v) (hs : Decimal.InRange (v + 1)) :
    increment.Puts (Decimal.write v) (Decimal.write (v + 1)) := by
  intro key index
  refine ⟨some (Decimal.write (v + 1)), ?_, rfl⟩
  simp only [apply, Decimal.read_write hv, newNumber_of_inRange hs]
  rfl

theorem Write.puts_decrement (hv : Decimal.InRange v) (hs : Decimal.InRange (v - 1)) :
    decrement.Puts (Decimal.write v) (Decimal.write (v - 1)) := by
  intro key index
  refine ⟨some (Decimal.write (v - 1)), ?_, rfl⟩
  simp only [apply, Decimal.read_write hv, newNumber_of_inRange hs]
  rfl

end Rule

namespace Program

/-- The program comes to the second one by `n` applied rules, in whichever machine it is. -/
def Leads (p : Program) (n : Nat) (q : Program) : Prop :=
  ∀ m : Machine, m.program = p → m.Applies n ∧ (m.after n).program = q

variable {p q r : Program} {a b : Nat}

theorem Leads.refl (p : Program) : p.Leads 0 p :=
  fun m hm => ⟨m.applies_zero, hm⟩

theorem Leads.trans (h : p.Leads a q) (h' : q.Leads b r) : p.Leads (a + b) r := by
  intro m hm
  obtain ⟨ha, hq⟩ := h m hm
  obtain ⟨hb, hr⟩ := h' (m.after a) hq
  exact ⟨Machine.applies_add_iff.2 ⟨ha, hb⟩, by rw [Machine.after_add, hr]⟩

theorem leads_one {key : Key} {t : Transition} {written : Option Symbol}
    (hr : p.resolve p.scanned = some (key, .transition t))
    (hw : t.write.apply p.scanned key p.extend.index = .ok written) :
    p.Leads 1 (p.extend.apply t written) := by
  rintro m rfl
  have hs : m.step =
      (.applied, { m with program := m.program.extend.apply t written, count := m.count + 1 }) := by
    rw [Machine.step_eq, Machine.stepOn, resolve_extend, hr]
    simp only [hw]
  have ha : m.step.1 = .applied := by rw [hs]
  refine ⟨Machine.applies_succ_iff_right.2 ⟨m.applies_zero, ha⟩, ?_⟩
  change m.step.2.program = _
  rw [hs]

end Program

section End

/-- The machine applies `k` rules and no more; its run comes out as given and leaves the program. -/
structure Machine.Finishes (m : Machine) (k : Nat) (o : Outcome) (q : Program) : Prop where
  ends : m.Ends k
  run : m.runAlone = some ⟨(), o, m.after (k + 1)⟩
  program : (m.after (k + 1)).program = q

variable {m : Machine} {p q : Program} {k : Nat}

theorem Machine.Ends.finishes (h : m.Ends k) :
    m.Finishes k ((m.after k).step.1.outcome (m.after (k + 1))) (m.after k).program.extend where
  ends := h
  run := runToEnd_of_ends h
  program := by
    rw [after, step_of_ne_applied h.2]
    rfl

theorem Program.Leads.halts (h : p.Leads k q) {key : Key}
    (hr : q.resolve q.scanned = some (key, .halt)) (hm : m.program = p) :
    m.Finishes k (.halted q.extend.tape) q.extend := by
  obtain ⟨ha, rfl⟩ := h m hm
  have hs : (m.after k).step.1 = .halted := Machine.step_of_resolve_eq_halt hr
  have hf : m.Ends k := ⟨ha, by rw [hs]; exact Step.noConfusion⟩
  have ho : (m.after k).step.1.outcome (m.after (k + 1)) =
      .halted (m.after k).program.extend.tape := by
    rw [hs, Step.outcome, hf.finishes.program]
  exact ho ▸ hf.finishes

theorem Program.Leads.fails (h : p.Leads k q) (hr : q.resolve q.scanned = none) (hm : m.program = p) :
    m.Finishes k (.failed (.missingRule q.scanned q.state q.extend.index)) q.extend := by
  obtain ⟨ha, rfl⟩ := h m hm
  have hs := Machine.step_of_resolve_eq_none hr
  have hf : m.Ends k := ⟨ha, by rw [hs]; exact Step.noConfusion⟩
  have ho := hf.finishes
  rw [hs] at ho
  exact ho

end End

/-- The program of a table, its head behind the cells of `left`. -/
def RuleTable.placed (rules : RuleTable) (state : State) (left right : List Symbol) : Program :=
  ⟨left ++ right, state, left.length, rules⟩

namespace Program

section Placed

variable (rules : RuleTable) (state : State) (left right : List Symbol)

/-- Behind the last cell there is a blank. -/
theorem extend_placed :
    (rules.placed state left right).extend =
      rules.placed state left (right.headD blank :: right.tail) := by
  cases right with
  | cons s right =>
    apply extend_of_onTape
    simp only [OnTape, RuleTable.placed, List.length_append, List.length_cons]
    omega
  | nil => simp [extend, RuleTable.placed, leftGap, rightGap, pad]

theorem index_extend_placed : (rules.placed state left right).extend.index = left.length := by
  rw [extend_placed]
  exact Int.toNat_natCast left.length

theorem scanned_placed : (rules.placed state left right).scanned = right.headD blank := by
  have h := (rules.placed state left right).getElem?_extend
  rw [index_extend_placed, extend_placed] at h
  simpa [RuleTable.placed, eq_comm] using h

end Placed

variable {rules : RuleTable} {state : State} {symbol : Symbol} {w : Write} {n : NextState}
  (left right : List Symbol)

theorem exists_resolve_placed {rule : Rule} (hr : rules.rule? state (right.headD blank) = some rule) :
    ∃ key, (rules.placed state left right).resolve (rules.placed state left right).scanned =
      some (key, rule) := by
  obtain ⟨⟨key, _⟩, hk, rfl⟩ := Option.map_eq_some_iff.1 hr
  rw [scanned_placed]
  exact ⟨key, hk⟩

theorem resolve_placed_eq_none (hr : rules.rule? state (right.headD blank) = none) :
    (rules.placed state left right).resolve (rules.placed state left right).scanned = none := by
  rw [scanned_placed]
  exact Option.map_eq_none_iff.1 hr

/-- A rule acts on the first cell on the right, be it a new one. -/
theorem leads_placed {t : Transition}
    (hr : rules.rule? state (right.headD blank) = some (.transition t))
    (hw : t.write.Puts (right.headD blank) symbol) :
    (rules.placed state left right).Leads 1
      { rules.placed (t.next.after state) left (symbol :: right.tail) with
        head := left.length + t.direction.offset } := by
  obtain ⟨key, hk⟩ := exists_resolve_placed left right hr
  obtain ⟨written, hwritten, hs⟩ := hw key left.length
  rw [← scanned_placed rules state left right, ← index_extend_placed rules state left right]
    at hwritten
  have happly : (rules.placed state left right).extend.apply t written =
      { rules.placed (t.next.after state) left (symbol :: right.tail) with
        head := left.length + t.direction.offset } := by
    rw [extend_placed]
    cases written with
    | none => rw [← hs]; rfl
    | some s => simp [← hs, Program.apply, RuleTable.placed, index]
  exact happly ▸ leads_one hk hwritten

theorem leads_right (hr : rules.rule? state (right.headD blank) = some (.transition ⟨w, n, .right⟩))
    (hw : w.Puts (right.headD blank) symbol) :
    (rules.placed state left right).Leads 1
      (rules.placed (n.after state) (left ++ [symbol]) right.tail) := by
  have h := leads_placed left right hr hw
  simpa [RuleTable.placed, Direction.offset] using h

theorem leads_left (c : Symbol)
    (hr : rules.rule? state (right.headD blank) = some (.transition ⟨w, n, .left⟩))
    (hw : w.Puts (right.headD blank) symbol) :
    (rules.placed state (left ++ [c]) right).Leads 1
      (rules.placed (n.after state) left (c :: symbol :: right.tail)) := by
  have h := leads_placed (left ++ [c]) right hr hw
  simpa [RuleTable.placed, Direction.offset, Int.add_neg_cancel_right] using h

variable {left right} {m : Machine} {k : Nat}

theorem Leads.halts_placed (h : p.Leads k (rules.placed state left right))
    (hr : rules.rule? state (right.headD blank) = some .halt) (hm : m.program = p) :
    m.Finishes k (.halted (left ++ right.headD blank :: right.tail))
      (rules.placed state left (right.headD blank :: right.tail)) := by
  obtain ⟨key, hk⟩ := exists_resolve_placed left right hr
  have hrun := h.halts hk hm
  rwa [extend_placed] at hrun

theorem Leads.fails_placed (h : p.Leads k (rules.placed state left right))
    (hr : rules.rule? state (right.headD blank) = none) (hm : m.program = p) :
    m.Finishes k (.failed (.missingRule (right.headD blank) state left.length))
      (rules.placed state left (right.headD blank :: right.tail)) := by
  have hrun := h.fails (resolve_placed_eq_none left right hr) hm
  rwa [scanned_placed, index_extend_placed, extend_placed] at hrun

end Program

end TapeLang
