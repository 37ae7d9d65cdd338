import Mathlib.Data.List.Basic
import TapeLang.Source.Parse

/-! The order of the lines. What a program has been given by its lines is, for each key, what the last line says
that sets the rule of that key, and likewise for the tape and the state, `addLines_eq_ok`. So lines that
set different things can change places, and reading gives the same program, `parse_rearranged`. -/

namespace TapeLang

namespace Source

inductive Slot
  | rule (key : Key)
  | tape
  | state
  deriving DecidableEq, Repr

namespace Line

def slot : Line → Slot
  | rule key _ => .rule key
  | tape _ => .tape
  | state _ => .state

def body? (k : Key) : Line → Option Rule
  | rule key body => if key = k then some body else none
  | _ => none

def cells? : Line → Option (List Symbol)
  | tape cells => some cells
  | _ => none

def name? : Line → Option State
  | state name => some name
  | _ => none

variable {line : Line}

theorem slot_of_body? {k : Key} {r : Rule} (h : line.body? k = some r) : line.slot = .rule k := by
  cases line with
  | rule key body =>
    obtain ⟨he, _⟩ := Option.ite_none_right_eq_some.1 h
    rw [slot, he]
  | tape cells => cases h
  | state name => cases h

theorem slot_of_cells? {cells : List Symbol} (h : line.cells? = some cells) : line.slot = .tape := by
  cases line with
  | rule key body => cases h
  | tape cells => rfl
  | state name => cases h

theorem slot_of_name? {name : State} (h : line.name? = some name) : line.slot = .state := by
  cases line with
  | rule key body => cases h
  | tape cells => cases h
  | state name => rfl

end Line

def line? (raw : List Char) : Option Line :=
  (Line.read raw).toOption

def slot? (raw : List Char) : Option Slot :=
  (line? raw).map Line.slot

/-- What the last of some lines gives that gives anything. -/
def last? {α : Type} (part : Line → Option α) (ls : List (List Char)) : Option α :=
  (ls.filterMap fun raw => (line? raw).bind part).getLast?

/-- The second list has the lines of the first one, of which those that set the same thing have kept their
order. -/
structure Rearranges (a b : List (List Char)) : Prop where
  perm : a.Perm b
  order : ∀ raw ∈ a, (b.filter fun l => slot? l = slot? raw) = a.filter fun l => slot? l = slot? raw

instance (a b : List (List Char)) : Decidable (Rearranges a b) :=
  decidable_of_iff (a.Perm b ∧ ∀ raw ∈ a,
    (b.filter fun l => slot? l = slot? raw) = a.filter fun l => slot? l = slot? raw)
    ⟨fun h => ⟨h.1, h.2⟩, fun h => ⟨h.perm, h.order⟩⟩

variable {α : Type} {part : Line → Option α} {a b ls : List (List Char)} {raw : List Char}

theorem line?_eq_some_iff {line : Line} : line? raw = some line ↔ Line.read raw = .ok line := by
  rw [line?]
  cases Line.read raw with
  | error fault => exact ⟨nofun, nofun⟩
  | ok found => exact ⟨fun h => congrArg _ (Option.some.inj h), fun h => congrArg _ (Except.ok.inj h)⟩

theorem last?_cons (part : Line → Option α) {line : Line} (h : Line.read raw = .ok line)
    (ls : List (List Char)) : last? part (raw :: ls) = (last? part ls).or (part line) := by
  have hl : line? raw = some line := line?_eq_some_iff.2 h
  rw [last?, List.filterMap_cons, hl, Option.bind_some]
  cases part line with
  | none => exact (Option.or_none).symm
  | some x =>
    rw [List.getLast?_cons, last?]
    cases (ls.filterMap fun raw => (line? raw).bind part).getLast? <;> rfl

theorem Rearranges.filter_eq (h : Rearranges a b) (s : Option Slot) :
    (b.filter fun l => slot? l = s) = a.filter fun l => slot? l = s := by
  by_cases hs : ∃ raw ∈ a, slot? raw = s
  · obtain ⟨raw, hraw, rfl⟩ := hs
    exact h.order raw hraw
  · have ha : (a.filter fun l => slot? l = s) = [] := by
      rw [List.filter_eq_nil_iff]
      exact fun l hl hd => hs ⟨l, hl, of_decide_eq_true hd⟩
    rw [ha, List.filter_eq_nil_iff]
    exact fun l hl hd => hs ⟨l, h.perm.mem_iff.2 hl, of_decide_eq_true hd⟩

/-- What is said about one slot depends on the lines of that slot alone. -/
theorem Rearranges.last?_eq (h : Rearranges a b) {s : Slot}
    (hs : ∀ line x, part line = some x → line.slot = s) : last? part b = last? part a := by
  have hslots (ls : List (List Char)) :
      (ls.filterMap fun raw => (line? raw).bind part) =
        (ls.filter fun l => slot? l = some s).filterMap fun raw => (line? raw).bind part := by
    rw [List.filterMap_filter]
    refine List.filterMap_congr fun raw _ => ?_
    by_cases hslot : slot? raw = some s
    · simp [hslot]
    · cases hb : (line? raw).bind part with
      | none => simp
      | some x =>
        obtain ⟨line, hl, hx⟩ := Option.bind_eq_some_iff.1 hb
        exact absurd (by rw [slot?, hl, Option.map_some, hs line x hx]) hslot
  rw [last?, last?, hslots b, hslots a, h.filter_eq]

end Source

namespace Program

open Source

variable {p q : Program} {line : Line} {number : Nat} {ls : List (List Char)}

theorem getElem?_rules_addLine (p : Program) (line : Line) (k : Key) :
    (p.addLine line).rules[k]? = (line.body? k).or p.rules[k]? := by
  cases line with
  | rule key body =>
    by_cases he : key = k
    · simp [addLine, Line.body?, he]
    · simp [addLine, Line.body?, he, Std.ExtTreeMap.getElem?_insert]
  | tape cells => rfl
  | state name => rfl

theorem tape_addLine (p : Program) (line : Line) :
    (p.addLine line).tape = line.cells?.getD p.tape := by
  cases line <;> rfl

theorem state_addLine (p : Program) (line : Line) :
    (p.addLine line).state = line.name?.getD p.state := by
  cases line <;> rfl

/-- What accepted lines add up to: the last one that says something about a part of the program counts. -/
theorem addLines_eq_ok (h : p.addLines number ls = .ok q) :
    (∀ k : Key, q.rules[k]? = (last? (Line.body? k) ls).or p.rules[k]?) ∧
      q.tape = (last? Line.cells? ls).getD p.tape ∧
      q.state = (last? Line.name? ls).getD p.state := by
  induction ls generalizing p number with
  | nil =>
    cases h
    exact ⟨fun k => rfl, rfl, rfl⟩
  | cons raw rest ih =>
    rw [addLines] at h
    split at h
    · cases h
    · next line hl =>
      obtain ⟨hrules, htape, hstate⟩ := ih h
      refine ⟨fun k => ?_, ?_, ?_⟩
      · rw [hrules, getElem?_rules_addLine, last?_cons _ hl, Option.or_assoc]
      · rw [htape, tape_addLine, last?_cons _ hl, Option.getD_or]
      · rw [hstate, state_addLine, last?_cons _ hl, Option.getD_or]

theorem eq_of_parts (hr : ∀ k : Key, p.rules[k]? = q.rules[k]?) (ht : p.tape = q.tape)
    (hs : p.state = q.state) (hh : p.head = q.head) : p = q := by
  obtain ⟨tape, state, head, rules⟩ := p
  obtain rfl : rules = q.rules := Std.ExtTreeMap.ext_getElem? fun {k} => hr k
  cases ht
  cases hs
  cases hh
  rfl

/-- A text whose lines change places, but for those that set the same thing, describes the same program. In
it each key has the body that the last rule line of the key gives to it, and the tape and the state are
those of the last lines that give one. -/
theorem parse_rearranged {text other : String} {p : Program} (h : parse text = .ok p)
    (hr : Rearranges (lines text) (lines other)) :
    parse other = .ok p ∧
      (∀ k : Key, p.rules[k]? = last? (Line.body? k) (lines text)) ∧
      p.tape = (last? Line.cells? (lines text)).getD [] ∧
      p.state = (last? Line.name? (lines text)).getD "" := by
  obtain ⟨hrules, htape, hstate⟩ := addLines_eq_ok h
  have haccepted : ∀ raw ∈ lines other, ∃ line, Line.read raw = .ok line := fun raw hraw =>
    exists_addLines_eq_ok_iff.1 ⟨p, h⟩ raw (hr.perm.mem_iff.2 hraw)
  obtain ⟨q, hq⟩ : ∃ q, parse other = .ok q := exists_addLines_eq_ok_iff.2 haccepted
  obtain ⟨hrules', htape', hstate'⟩ := addLines_eq_ok hq
  have hqp : q = p := by
    apply eq_of_parts
    · intro k
      rw [hrules, hrules', hr.last?_eq fun line x => Line.slot_of_body?]
    · rw [htape, htape', hr.last?_eq fun line x => Line.slot_of_cells?]
    · rw [hstate, hstate', hr.last?_eq fun line x => Line.slot_of_name?]
    · rw [head_of_addLines h, head_of_addLines hq]
  rw [hq, hqp]
  refine ⟨rfl, fun k => ?_, htape, hstate⟩
  rw [hrules, Std.ExtTreeMap.getElem?_empty, Option.or_none]

/-- Blank lines are state lines, and spaces do not make another key. -/
theorem parse_rearranged_shuffled :
    let text := "S\n*,S=>+,*,>\n1,2,3,4\n * , S => -,T,<\n.,S=>,,\n\n5,6,7,8\nT"
    let other := "*,S=>+,*,>\nS\n.,S=>,,\n\n * , S => -,T,<\n1,2,3,4\nT\n5,6,7,8"
    let p : Program :=
      { tape := ["5", "6", "7", "8"]
        state := "T"
        rules := RuleTable.ofRules
          [(⟨.any, .literal "S"⟩, .transition ⟨.decrement, .literal "T", .left⟩),
            (⟨.literal ".", .literal "S"⟩, .halt)] }
    parse text = .ok p ∧ Rearranges (lines text) (lines other) ∧ parse other = .ok p := by
  intro text other p
  have h : parse text = .ok p := by decide +kernel
  have hr : Rearranges (lines text) (lines other) := by decide +kernel
  exact ⟨h, hr, (parse_rearranged h hr).1⟩

end Program

end TapeLang
