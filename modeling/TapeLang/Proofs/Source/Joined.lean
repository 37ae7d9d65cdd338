import TapeLang.Proofs.Source.Accepted
import TapeLang.Proofs.Source.LineOrder

/-! A text that goes on with another one. The lines of the second text are read behind those of the first, into
the program that the first one describes, `lines_joined`. What they are refused for does not depend on that
program, `addLines_eq_error`, and what they set overrides it, `addLines_eq_continued`. -/

namespace TapeLang

namespace Source

variable {α : Type} {part : Line → Option α} {ls : List (List Char)}

theorem length_splitOn (c : Char) (cs : List Char) : (cs.splitOn c).length = cs.count c + 1 := by
  induction cs with
  | nil => rfl
  | cons d cs ih =>
    rw [List.splitOn_cons_eq_if_modifyHead, List.count_cons]
    split
    · rw [List.length_cons, ih]
    · rw [List.length_modifyHead, ih, Nat.add_zero]

theorem lines_joined (a b : String) : lines (a ++ "\n" ++ b) = lines a ++ lines b := by
  have h : (a ++ "\n" ++ b).toList = a.toList ++ '\n' :: b.toList := by simp
  rw [lines, h, List.splitOn_append_cons_self, lines, lines]

theorem length_lines (text : String) : (lines text).length = text.toList.count '\n' + 1 :=
  length_splitOn '\n' text.toList

theorem exists_line_of_last? {x : α} (h : last? part ls = some x) :
    ∃ raw ∈ ls, ∃ line, Line.read raw = .ok line ∧ part line = some x := by
  obtain ⟨raw, hraw, hx⟩ := List.mem_filterMap.1 (List.mem_of_getLast? h)
  obtain ⟨line, hline, hx⟩ := Option.bind_eq_some_iff.1 hx
  exact ⟨raw, hraw, line, line?_eq_some_iff.1 hline, hx⟩

/-- A tape line gives four cells or more. -/
theorem ne_nil_of_last?_cells {cells : List Symbol} (h : last? Line.cells? ls = some cells) :
    cells ≠ [] := by
  obtain ⟨raw, _, line, hread, hcells⟩ := exists_line_of_last? h
  have he := expressible_of_read hread
  cases line with
  | tape found =>
    cases hcells
    rintro rfl
    exact absurd he.1 (by decide)
  | rule key body => cases hcells
  | state name => cases hcells

end Source

namespace Program

open Source

/-- The program whose text goes on with the text of another one. That text gives a state or none. -/
def continued (p q : Program) (name : Option State) : Program where
  tape := if q.tape = [] then p.tape else q.tape
  state := name.getD p.state
  rules := p.rules ∪ q.rules

variable {p q r : Program} {number : Nat} {ls : List (List Char)}

/-- Lines are refused alike behind any others, but for their numbers. -/
theorem addLines_eq_error {e : SourceError} (h : p.addLines number ls = .error e) (q : Program)
    (n : Nat) : q.addLines (number + n) ls = .error { e with line := e.line + n } := by
  induction ls generalizing p q number with
  | nil => cases h
  | cons raw rest ih =>
    rw [addLines] at h ⊢
    cases hl : Line.read raw with
    | error fault =>
      rw [hl] at h
      cases h
      rfl
    | ok line =>
      rw [hl] at h
      have hrest := ih h (q.addLine line)
      rwa [Nat.add_right_comm] at hrest

/-- Lines that describe a program override another one by it. -/
theorem addLines_eq_continued (hq : ({} : Program).addLines 1 ls = .ok q) (hp : p.head = 0)
    (number : Nat) : p.addLines number ls = .ok (p.continued q (last? Line.name? ls)) := by
  obtain ⟨r, hr⟩ : ∃ r, p.addLines number ls = .ok r :=
    exists_addLines_eq_ok_iff.2 (exists_addLines_eq_ok_iff.1 ⟨q, hq⟩)
  obtain ⟨hrules, htape, hstate⟩ := addLines_eq_ok hr
  obtain ⟨hrules', htape', _⟩ := addLines_eq_ok hq
  rw [hr]
  congr 1
  apply eq_of_parts
  · intro k
    have hk : q.rules[k]? = last? (Line.body? k) ls := by
      rw [hrules', Std.ExtTreeMap.getElem?_empty, Option.or_none]
    change r.rules[k]? = (p.rules ∪ q.rules)[k]?
    rw [Std.ExtTreeMap.getElem?_union, hk, hrules]
  · change r.tape = if q.tape = [] then p.tape else q.tape
    rw [htape, htape']
    cases hc : last? Line.cells? ls with
    | none => rfl
    | some cells => exact (if_neg (ne_nil_of_last?_cells hc)).symm
  · exact hstate
  · rw [head_of_addLines hr, hp]
    rfl

/-- A text that goes on with another one is refused for its own first fault, else for that of the other one,
whose line is counted from the first line of all. If both are programs, the other one counts: key by key
in the rules, in the tape if it has one, and in the state if a line of it gives one, be it empty. -/
theorem parse_joined (a b : String) :
    (parse (a ++ "\n" ++ b) =
      match parse a, parse b with
      | .error e, _ => .error e
      | .ok _, .error e => .error { e with line := e.line + (a.toList.count '\n' + 1) }
      | .ok p, .ok q => .ok (p.continued q (last? Line.name? (lines b)))) ∧
      ∀ (p q : Program) (name : Option State) (k : Key),
        (p.continued q name).rules[k]? = q.rules[k]?.or p.rules[k]? := by
  refine ⟨?_, fun p q name k => Std.ExtTreeMap.getElem?_union⟩
  have hparse : parse (a ++ "\n" ++ b) =
      (parse a).bind fun p => p.addLines (1 + (a.toList.count '\n' + 1)) (lines b) := by
    rw [parse, lines_joined, addLines_append, length_lines]
    rfl
  rw [hparse]
  cases ha : parse a with
  | error e => rfl
  | ok p =>
    change p.addLines _ _ = _
    cases hb : parse b with
    | error e => exact addLines_eq_error hb p _
    | ok q => exact addLines_eq_continued hb (head_of_addLines ha) _

end Program

end TapeLang
