import TapeLang.Program
import TapeLang.Source.Line

/-! Source text as a program. Lines end at line feeds and are read in order: a rule replaces an earlier one
of the same key, and the last tape line and the last state line count. The first line that is
refused ends the reading. -/

namespace TapeLang

namespace Source

def lines (source : String) : List (List Char) :=
  source.toList.splitOn '\n'

/-- The content without the line end that closes its last line, with or without a carriage return. -/
def withoutFinalNewline (content : String) : String :=
  match content.toList.reverse with
  | '\n' :: '\r' :: rest => String.ofList rest.reverse
  | '\n' :: rest => String.ofList rest.reverse
  | _ => content

end Source

structure SourceError where
  line : Nat
  fault : Source.LineFault
  deriving DecidableEq, Repr

namespace SourceError

def message (e : SourceError) : String :=
  match e.fault with
  | .ambiguous text => s!"Invalid code on line {e.line}: {text}"
  | .direction field => s!"Invalid rule direction '{field}' on line {e.line}"
  | .shape => s!"Invalid rule on line {e.line}: expected rule_line"
  | .surplus => s!"Invalid rule on line {e.line}: expected EOI"

end SourceError

namespace Program

def addLine (p : Program) : Source.Line → Program
  | .rule key body => { p with rules := p.rules.insert key body }
  | .tape cells => { p with tape := cells }
  | .state name => { p with state := name }

/-- Reads lines into a program; the first of them has the given number. -/
def addLines (p : Program) (number : Nat) : List (List Char) → Except SourceError Program
  | [] => .ok p
  | raw :: rest =>
    match Source.Line.read raw with
    | .error fault => .error ⟨number, fault⟩
    | .ok line => (p.addLine line).addLines (number + 1) rest

def parse (source : String) : Except SourceError Program :=
  ({} : Program).addLines 1 (Source.lines source)

/-- The program in a file, whose last line may end like the others. -/
def parseFile (content : String) : Except SourceError Program :=
  parse (Source.withoutFinalNewline content)

theorem addLines_append (p : Program) (number : Nat) (a b : List (List Char)) :
    p.addLines number (a ++ b) =
      (p.addLines number a).bind fun q => q.addLines (number + a.length) b := by
  induction a generalizing p number with
  | nil => rfl
  | cons raw rest ih =>
    simp only [List.cons_append, addLines]
    cases Source.Line.read raw with
    | error fault => rfl
    | ok line => simp [ih, Nat.add_assoc, Nat.add_comm 1]

/-- Lines are read exactly if each of them is accepted. -/
theorem exists_addLines_eq_ok_iff {p : Program} {number : Nat} {ls : List (List Char)} :
    (∃ q, p.addLines number ls = .ok q) ↔ ∀ raw ∈ ls, ∃ line, Source.Line.read raw = .ok line := by
  induction ls generalizing p number with
  | nil => simp [addLines]
  | cons raw rest ih =>
    rw [List.forall_mem_cons, addLines]
    cases h : Source.Line.read raw with
    | error fault => simp
    | ok line => simpa using ih

@[simp] theorem head_addLine (p : Program) (line : Source.Line) : (p.addLine line).head = p.head := by
  cases line <;> rfl

theorem head_of_addLines {p q : Program} {number : Nat} {lines : List (List Char)}
    (h : p.addLines number lines = .ok q) : q.head = p.head := by
  induction lines generalizing p number with
  | nil =>
    cases h
    rfl
  | cons raw rest ih =>
    simp only [addLines] at h
    split at h
    · cases h
    · rw [ih h, head_addLine]

end Program

end TapeLang
