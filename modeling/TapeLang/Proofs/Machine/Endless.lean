import Mathlib.Logic.Function.Basic
import TapeLang.Machine.Run

/-! A machine on a tape without ends, whose cells are numbered by all integers and never move. The machine
of a program with a growing tape does the same steps: its tape is the stretch between the outermost
cells read so far, and its head and the indices of its errors count from the start of that stretch. -/

namespace TapeLang

/-- Why a step cannot be made, wherever the head is. -/
inductive Fault
  | missingRule (symbol : Symbol) (state : State)
  | nonNumericIncrement (symbol : Symbol) (rule : Key)
  | nonNumericDecrement (symbol : Symbol) (rule : Key)
  | overflow (symbol : Symbol) (rule : Key)
  deriving DecidableEq, Repr

def Fault.at (index : Nat) : Fault → RunError
  | missingRule symbol state => .missingRule symbol state index
  | nonNumericIncrement symbol rule => .nonNumericIncrement symbol rule index
  | nonNumericDecrement symbol rule => .nonNumericDecrement symbol rule index
  | overflow symbol rule => .overflow symbol rule index

inductive Verdict
  | applied
  | halted
  | failed (f : Fault)
  deriving DecidableEq, Repr

def Verdict.at (index : Nat) : Verdict → Step
  | applied => .applied
  | halted => .halted
  | failed f => .failed (f.at index)

def rewritten (v : Int) (symbol : Symbol) (key : Key) : Except Fault Symbol :=
  if Decimal.InRange v then .ok (Decimal.write v) else .error (.overflow symbol key)

def Write.rewrite (w : Write) (symbol : Symbol) (key : Key) : Except Fault Symbol :=
  match w, Decimal.read? symbol with
  | .keep, _ => .ok symbol
  | .literal s, _ => .ok s
  | .increment, none => .error (.nonNumericIncrement symbol key)
  | .increment, some v => rewritten (v + 1) symbol key
  | .decrement, none => .error (.nonNumericDecrement symbol key)
  | .decrement, some v => rewritten (v - 1) symbol key

theorem apply_eq_rewrite (w : Write) (symbol : Symbol) (key : Key) (index : Nat) :
    (w.apply symbol key index).map (fun written => written.getD symbol) =
      (w.rewrite symbol key).mapError (Fault.at index) := by
  have number (v : Int) : ((newNumber v symbol key index).map some).map (fun n => n.getD symbol) =
      (rewritten v symbol key).mapError (Fault.at index) := by
    unfold newNumber rewritten
    split <;> rfl
  cases w with
  | keep => rfl
  | literal s => rfl
  | increment =>
    cases h : Decimal.read? symbol with
    | none => simp only [Write.apply, Write.rewrite, h]; rfl
    | some v => simpa only [Write.apply, Write.rewrite, h] using number (v + 1)
  | decrement =>
    cases h : Decimal.read? symbol with
    | none => simp only [Write.apply, Write.rewrite, h]; rfl
    | some v => simpa only [Write.apply, Write.rewrite, h] using number (v - 1)

section Written

variable {w : Write} {symbol : Symbol} {key : Key} {index : Nat}

theorem rewrite_of_apply_eq_error {e : RunError} (h : w.apply symbol key index = .error e) :
    ∃ f, w.rewrite symbol key = .error f ∧ e = f.at index := by
  have hw := apply_eq_rewrite w symbol key index
  rw [h] at hw
  cases hf : w.rewrite symbol key with
  | error f =>
    rw [hf] at hw
    cases hw
    exact ⟨f, rfl, rfl⟩
  | ok s =>
    rw [hf] at hw
    cases hw

theorem rewrite_of_apply_eq_ok {written : Option Symbol}
    (h : w.apply symbol key index = .ok written) :
    w.rewrite symbol key = .ok (written.getD symbol) := by
  have hw := apply_eq_rewrite w symbol key index
  rw [h] at hw
  cases hf : w.rewrite symbol key with
  | error f =>
    rw [hf] at hw
    cases hw
  | ok s =>
    rw [hf] at hw
    cases hw
    rfl

end Written

/-- A tape without ends, a head on it and a state; the rules stay. -/
structure Endless where
  cell : Int → Symbol
  position : Int
  state : State
  rules : RuleTable

namespace Endless

/-- The tape of a program with blanks on both sides. -/
def ofProgram (p : Program) : Endless where
  cell i := if 0 ≤ i then p.tape.getD i.toNat blank else blank
  position := p.head
  state := p.state
  rules := p.rules

def resolve (c : Endless) : Option (Key × Rule) :=
  ({ state := c.state, rules := c.rules } : Program).resolve (c.cell c.position)

def apply (c : Endless) (t : Transition) (written : Symbol) : Endless :=
  { c with
    cell := Function.update c.cell c.position written
    state := t.next.after c.state
    position := c.position + t.direction.offset }

/-- A step reads the cell under the head; there is nothing to extend. -/
def step (c : Endless) : Verdict × Endless :=
  match c.resolve with
  | none => (.failed (.missingRule (c.cell c.position) c.state), c)
  | some (_, .halt) => (.halted, c)
  | some (key, .transition t) =>
    match t.write.rewrite (c.cell c.position) key with
    | .error f => (.failed f, c)
    | .ok written => (.applied, c.apply t written)

def after (c : Endless) : Nat → Endless
  | 0 => c
  | n + 1 => (c.after n).step.2

/-- The positions that the first `n` steps read. -/
def reads (c : Endless) (n : Nat) : List Int :=
  (List.range n).map fun k => (c.after k).position

/-- The cells from `lo` to `hi`, both included. -/
def stretch (c : Endless) (lo hi : Int) : List Symbol :=
  (List.range (hi + 1 - lo).toNat).map fun k : Nat => c.cell (lo + k)

theorem length_stretch (c : Endless) (lo hi : Int) :
    (c.stretch lo hi).length = (hi + 1 - lo).toNat := by
  simp [stretch]

theorem getElem_stretch (c : Endless) (lo hi : Int) (k : Nat) (h : k < (c.stretch lo hi).length) :
    (c.stretch lo hi)[k] = c.cell (lo + k) := by
  simp [stretch]

theorem stretch_append (c : Endless) {lo mid hi : Int} (h1 : lo ≤ mid) (h2 : mid ≤ hi + 1) :
    c.stretch lo (mid - 1) ++ c.stretch mid hi = c.stretch lo hi := by
  have hlen : (hi + 1 - lo).toNat = (mid - 1 + 1 - lo).toNat + (hi + 1 - mid).toNat := by omega
  unfold stretch
  rw [hlen, List.range_add, List.map_append, List.map_map]
  congr 1
  apply List.map_congr_left
  intro k _
  simp only [Function.comp_apply]
  congr 1
  omega

theorem stretch_blank (c : Endless) {lo hi : Int} (h : ∀ i, lo ≤ i → i ≤ hi → c.cell i = blank) :
    c.stretch lo hi = List.replicate (hi + 1 - lo).toNat blank := by
  rw [List.eq_replicate_iff]
  refine ⟨length_stretch c lo hi, ?_⟩
  intro s hs
  obtain ⟨k, hk, rfl⟩ := List.mem_map.1 hs
  rw [List.mem_range] at hk
  exact h _ (by omega) (by omega)

/-- A program's tape shows the cells from `lo` to `hi` of an endless tape that is blank elsewhere. -/
structure Frames (lo hi : Int) (c : Endless) (p : Program) : Prop where
  tape : p.tape = c.stretch lo hi
  head : p.head = c.position - lo
  state : p.state = c.state
  rules : p.rules = c.rules
  span : lo ≤ hi + 1
  blank_below : ∀ i, i < lo → c.cell i = blank
  blank_above : ∀ i, hi < i → c.cell i = blank

theorem frames_ofProgram (p : Program) : Frames 0 (p.tape.length - 1) (ofProgram p) p where
  tape := by
    apply List.ext_getElem
    · rw [length_stretch]
      omega
    · intro k h1 h2
      rw [getElem_stretch]
      simp [ofProgram, List.getD_eq_getElem?_getD, h1]
  head := by simp [ofProgram]
  state := rfl
  rules := rfl
  span := by omega
  blank_below := by
    intro i hi
    simp [ofProgram, Int.not_le.2 hi]
  blank_above := by
    intro i hi
    have h0 : 0 ≤ i := by omega
    have hlen : p.tape.length ≤ i.toNat := by omega
    simp [ofProgram, h0, List.getD_eq_getElem?_getD, List.getElem?_eq_none hlen]

variable {lo hi : Int} {c : Endless} {p : Program}

theorem Frames.length (h : Frames lo hi c p) : (p.tape.length : Int) = hi + 1 - lo := by
  have hs := h.span
  rw [h.tape, length_stretch]
  omega

/-- Extending the tape moves the ends out to the head. -/
theorem Frames.extend (h : Frames lo hi c p) :
    Frames (min lo c.position) (max hi c.position) c p.extend where
  tape := by
    have hl := h.length
    have hs := h.span
    have h0 := h.head
    have hleft : List.replicate p.leftGap blank = c.stretch (min lo c.position) (lo - 1) := by
      rw [c.stretch_blank fun i _ hi => h.blank_below i (by omega)]
      congr 1
      simp only [Program.leftGap]
      omega
    have hright : List.replicate p.rightGap blank = c.stretch (hi + 1) (max hi c.position) := by
      rw [c.stretch_blank fun i hi _ => h.blank_above i (by omega)]
      congr 1
      simp only [Program.rightGap]
      omega
    have hmid : c.stretch lo (hi + 1 - 1) ++ c.stretch (hi + 1) (max hi c.position) =
        c.stretch lo (max hi c.position) := c.stretch_append hs (by omega)
    rw [Int.add_sub_cancel] at hmid
    rw [Program.tape_extend, hleft, hright, h.tape, List.append_assoc, hmid]
    exact c.stretch_append (by omega) (by omega)
  head := by
    rw [Program.head_extend, h.head]
    omega
  state := h.state
  rules := h.rules
  span := by
    have hs := h.span
    omega
  blank_below := fun i hi => h.blank_below i (by omega)
  blank_above := fun i hi => h.blank_above i (by omega)

/-- On a tape that shows the cell under the head, the index of the head is that of the cell. -/
theorem Frames.index (h : Frames lo hi c p) (hlo : lo ≤ c.position) :
    (p.index : Int) = c.position - lo := by
  have h0 := h.head
  simp only [Program.index]
  omega

theorem Frames.getElem_index (h : Frames lo hi c p) (hlo : lo ≤ c.position)
    (hlt : p.index < p.tape.length) : p.tape[p.index] = c.cell c.position := by
  have hi := h.index hlo
  simp only [h.tape, getElem_stretch]
  congr 1
  omega

theorem Frames.scanned (h : Frames lo hi c p) : p.scanned = c.cell c.position :=
  h.extend.getElem_index (by omega) p.index_extend_lt

theorem Frames.resolve (h : Frames lo hi c p) : p.resolve (c.cell c.position) = c.resolve := by
  simp only [Endless.resolve, Program.resolve, h.state, h.rules]

/-- Writing to the cell under the head and moving on shows the same stretch. -/
theorem Frames.apply (h : Frames lo hi c p) (hlo : lo ≤ c.position) (hhi : c.position ≤ hi)
    (t : Transition) (written : Option Symbol) :
    Frames lo hi (c.apply t (written.getD (c.cell c.position))) (p.apply t written) where
  tape := by
    have hx := h.index hlo
    have hlt : p.index < p.tape.length := by
      have hl := h.length
      omega
    have hset : (p.apply t written).tape =
        p.tape.set p.index (written.getD (c.cell c.position)) := by
      cases written with
      | none => simp [Program.apply, ← h.getElem_index hlo hlt]
      | some s => rfl
    rw [hset, h.tape]
    apply List.ext_getElem
    · simp [length_stretch]
    · intro k h1 h2
      rw [getElem_stretch, List.getElem_set, getElem_stretch]
      simp only [Endless.apply, Function.update_apply]
      split
      · rw [if_pos (by omega)]
      · rw [if_neg (by omega)]
  head := by
    simp only [Program.apply, Endless.apply, h.head]
    omega
  state := by simp only [Program.apply, Endless.apply, h.state]
  rules := h.rules
  span := h.span
  blank_below := by
    intro i hi
    simp only [Endless.apply, Function.update_apply, if_neg (show i ≠ c.position by omega)]
    exact h.blank_below i hi
  blank_above := by
    intro i hi
    simp only [Endless.apply, Function.update_apply, if_neg (show i ≠ c.position by omega)]
    exact h.blank_above i hi

/-- One step of both machines: the same verdict, and the stretch now takes in the cell read. -/
theorem Frames.step {m : Machine} (h : Frames lo hi c m.program) :
    ∃ index : Nat, (index : Int) = c.position - min lo c.position ∧
      m.step.1 = c.step.1.at index ∧
      Frames (min lo c.position) (max hi c.position) c.step.2 m.step.2.program := by
  have hx := h.extend
  have hlo : min lo c.position ≤ c.position := by omega
  have hsc : m.program.scanned = c.cell c.position := h.scanned
  have hres : c.resolve = m.program.resolve m.program.scanned := by rw [hsc, h.resolve]
  refine ⟨m.program.extend.index, hx.index hlo, ?_⟩
  have hs := m.stepped
  generalize m.step = r at hs
  rw [Endless.step, hres]
  cases hs with
  | missing hr =>
    rw [hr, ← hsc, ← h.state]
    exact ⟨rfl, hx⟩
  | halted hr =>
    rw [hr]
    exact ⟨rfl, hx⟩
  | faulty hr ha =>
    obtain ⟨f, hf, rfl⟩ := rewrite_of_apply_eq_error ha
    rw [hsc] at hf
    simp only [hr, hf]
    exact ⟨rfl, hx⟩
  | @applied k t written hr ha =>
    have hf := rewrite_of_apply_eq_ok ha
    rw [hsc] at hf
    simp only [hr, hf]
    exact ⟨rfl, hx.apply hlo (by omega) t written⟩

end Endless

namespace Program

/-- The first cell of the tape or the least position read in `n` steps, whichever is less. -/
def lowest (p : Program) (n : Nat) : Int :=
  ((Endless.ofProgram p).reads n).foldl min 0

/-- The last cell of the tape or the greatest position read in `n` steps, whichever is greater. -/
def highest (p : Program) (n : Nat) : Int :=
  ((Endless.ofProgram p).reads n).foldl max (p.tape.length - 1)

variable (p : Program)

theorem lowest_succ (n : Nat) :
    p.lowest (n + 1) = min (p.lowest n) ((Endless.ofProgram p).after n).position := by
  simp [lowest, Endless.reads, List.range_succ]

theorem highest_succ (n : Nat) :
    p.highest (n + 1) = max (p.highest n) ((Endless.ofProgram p).after n).position := by
  simp [highest, Endless.reads, List.range_succ]

theorem frames_after (n : Nat) :
    Endless.Frames (p.lowest n) (p.highest n) ((Endless.ofProgram p).after n)
      ((Machine.ofProgram p).after n).program := by
  induction n with
  | zero => exact Endless.frames_ofProgram p
  | succ n ih =>
    obtain ⟨_, _, _, h⟩ := ih.step
    rw [lowest_succ, highest_succ]
    exact h

end Program

namespace Machine

/-- After any number of steps, the tape is the stretch of the endless tape from the least to the greatest
position read, the state is the same, and the next step ends alike, at an index that counts from the
start of the stretch. -/
theorem after_eq_stretch (p : Program) (n : Nat) :
    let m := (ofProgram p).after n
    let c := (Endless.ofProgram p).after n
    m.program.tape = c.stretch (p.lowest n) (p.highest n) ∧
      m.program.state = c.state ∧
      m.program.head = c.position - p.lowest n ∧
      ∃ index : Nat, (index : Int) = c.position - p.lowest (n + 1) ∧
        m.step.1 = c.step.1.at index := by
  intro m c
  have h : Endless.Frames (p.lowest n) (p.highest n) c m.program := p.frames_after n
  obtain ⟨index, hindex, hstep, _⟩ := h.step
  refine ⟨h.tape, h.state, h.head, index, ?_, hstep⟩
  rw [p.lowest_succ, hindex]

end Machine

end TapeLang
