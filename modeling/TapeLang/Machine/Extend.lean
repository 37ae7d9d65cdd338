import TapeLang.Program

/-! The tape under the head. A tape grows by blanks at either end until the head stands on it, and a
blank put in front moves the head along with the cells. Main statement: afterwards the head is on
the tape, `index_extend_lt`, so that reading its cell cannot fail. -/

namespace TapeLang

/-- The symbol in a cell that the tape has not had before. -/
def blank : Symbol := "."

def pad (left right : Nat) (tape : List Symbol) : List Symbol :=
  match left, right with
  | 0, 0 => tape
  | 0, right => tape ++ List.replicate right blank
  | left, right => List.replicate left blank ++ tape ++ List.replicate right blank

theorem pad_eq (left right : Nat) (tape : List Symbol) :
    pad left right tape = List.replicate left blank ++ tape ++ List.replicate right blank := by
  unfold pad
  split <;> simp

namespace Program

/-- The head position on a tape that starts at or before the head. -/
def index (p : Program) : Nat :=
  p.head.toNat

def leftGap (p : Program) : Nat :=
  (-p.head).toNat

def rightGap (p : Program) : Nat :=
  (p.head + 1 - p.tape.length).toNat

/-- The program with the fewest blanks added that put the head on the tape. -/
def extend (p : Program) : Program :=
  { p with tape := pad p.leftGap p.rightGap p.tape, head := max 0 p.head }

theorem tape_extend (p : Program) :
    p.extend.tape =
      List.replicate p.leftGap blank ++ p.tape ++ List.replicate p.rightGap blank :=
  pad_eq ..

theorem length_tape_extend (p : Program) :
    p.extend.tape.length = p.leftGap + p.tape.length + p.rightGap := by
  simp [tape_extend, Nat.add_assoc]

theorem head_extend (p : Program) : p.extend.head = max 0 p.head := rfl

theorem index_extend_lt (p : Program) : p.extend.index < p.extend.tape.length := by
  rw [length_tape_extend]
  simp only [index, head_extend, leftGap, rightGap]
  omega

/-- The symbol under the head of the extended tape. -/
def scanned (p : Program) : Symbol :=
  p.extend.tape.get ⟨p.extend.index, p.index_extend_lt⟩

def OnTape (p : Program) : Prop :=
  0 ≤ p.head ∧ p.head < p.tape.length

theorem extend_onTape (p : Program) : p.extend.OnTape := by
  have h := p.index_extend_lt
  simp only [OnTape, head_extend]
  simp only [index, head_extend] at h
  omega

theorem extend_of_onTape {p : Program} (h : p.OnTape) : p.extend = p := by
  obtain ⟨h0, hlt⟩ := h
  have hl : p.leftGap = 0 := by simp only [leftGap]; omega
  have hr : p.rightGap = 0 := by simp only [rightGap]; omega
  simp [extend, pad, hl, hr, Int.max_eq_right h0]

theorem extend_extend (p : Program) : p.extend.extend = p.extend :=
  extend_of_onTape p.extend_onTape

@[simp] theorem rules_extend (p : Program) : p.extend.rules = p.rules := rfl

@[simp] theorem state_extend (p : Program) : p.extend.state = p.state := rfl

@[simp] theorem resolve_extend (p : Program) (symbol : Symbol) :
    p.extend.resolve symbol = p.resolve symbol := rfl

theorem getElem?_extend (p : Program) : p.extend.tape[p.extend.index]? = some p.scanned :=
  List.getElem?_eq_getElem p.index_extend_lt

end Program

end TapeLang
