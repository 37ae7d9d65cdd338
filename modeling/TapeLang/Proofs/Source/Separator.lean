import Mathlib.Data.List.Infix
import TapeLang.Source.Line

/-! Cutting a line at its separators. Every text is cut in exactly one way into fields with separators between
them, `cut_iff`: an arrow shares no character with another separator. -/

namespace TapeLang.Source

inductive Separator
  | comma
  | arrow
  deriving DecidableEq, Repr

def Separator.chars : Separator → List Char
  | comma => [',']
  | arrow => ['=', '>']

def separators : List Char → List Separator
  | [] => []
  | ',' :: cs => .comma :: separators cs
  | '=' :: '>' :: cs => .arrow :: separators cs
  | _ :: cs => separators cs

/-- The texts before, between and behind the separators of a text. -/
def pieces : List Char → List (List Char)
  | [] => [[]]
  | ',' :: cs => [] :: pieces cs
  | '=' :: '>' :: cs => [] :: pieces cs
  | c :: cs => (pieces cs).modifyHead (c :: ·)

/-- The text is made of the fields with the separators between them. -/
inductive Cut : List Char → List Separator → List (List Char) → Prop
  | last {p : List Char} (hp : IsField p) : Cut p [] [p]
  | cons {p cs : List Char} {sep : Separator} {seps : List Separator} {ps : List (List Char)}
      (hp : IsField p) (h : Cut cs seps ps) : Cut (p ++ sep.chars ++ cs) (sep :: seps) (p :: ps)

def StartsArrow (c : Char) (cs : List Char) : Prop :=
  c = '=' ∧ cs.head? = some '>'

theorem startsArrow_cons (cs : List Char) : StartsArrow '=' ('>' :: cs) := ⟨rfl, rfl⟩

theorem StartsArrow.eq_cons {c : Char} {cs : List Char} (h : StartsArrow c cs) :
    c = '=' ∧ ∃ r, cs = '>' :: r := by
  obtain ⟨hc, hh⟩ := h
  exact ⟨hc, List.head?_eq_some_iff.1 hh⟩

theorem hasArrow_cons (c : Char) (cs : List Char) :
    hasArrow (c :: cs) = true ↔ StartsArrow c cs ∨ hasArrow cs = true := by
  by_cases h : StartsArrow c cs
  · obtain ⟨rfl, r, rfl⟩ := h.eq_cons
    simp [hasArrow, startsArrow_cons]
  · have he : hasArrow (c :: cs) = hasArrow cs := by
      rw [hasArrow]
      rintro r rfl rfl
      exact h (startsArrow_cons r)
    simp [he, h]

theorem hasArrow_iff (cs : List Char) : hasArrow cs = true ↔ ['=', '>'] <:+: cs := by
  induction cs with
  | nil => simp [hasArrow]
  | cons c cs ih =>
    rw [hasArrow_cons, ih, List.infix_cons_iff]
    have hp : ['=', '>'] <+: c :: cs ↔ StartsArrow c cs := by
      cases cs <;> simp [StartsArrow, List.cons_prefix_cons, eq_comm]
    rw [hp]

theorem isField_nil : IsField [] := by simp [IsField, hasArrow]

theorem isField_cons (c : Char) (cs : List Char) :
    IsField (c :: cs) ↔ c ≠ ',' ∧ ¬ StartsArrow c cs ∧ IsField cs := by
  have ha := hasArrow_cons c cs
  simp only [IsField, List.mem_cons, not_or, ← Bool.not_eq_true, ha]
  constructor
  · rintro ⟨⟨hc, hm⟩, hn, hr⟩
    exact ⟨Ne.symm hc, hn, hm, hr⟩
  · rintro ⟨hc, hn, hm, hr⟩
    exact ⟨⟨Ne.symm hc, hm⟩, hn, hr⟩

section Skip

/-! A character that starts no separator belongs to the piece before the next one. -/

variable {c : Char} {cs : List Char} (hc : c ≠ ',') (ha : ¬ StartsArrow c cs)

include hc ha

theorem separators_skip : separators (c :: cs) = separators cs := by
  rw [separators]
  · exact hc
  · rintro r rfl rfl
    exact ha (startsArrow_cons r)

theorem pieces_skip : pieces (c :: cs) = (pieces cs).modifyHead (c :: ·) := by
  rw [pieces]
  · exact hc
  · rintro r rfl rfl
    exact ha (startsArrow_cons r)

theorem takeField_skip : takeField (c :: cs) = (c :: (takeField cs).1, (takeField cs).2) := by
  rw [takeField]
  · exact hc
  · rintro r rfl rfl
    exact ha (startsArrow_cons r)

end Skip

variable {p : List Char}

/-- No separator starts with the second half of an arrow. -/
theorem startsArrow_append {c : Char} {sep : Separator} {cs : List Char} :
    StartsArrow c (p ++ sep.chars ++ cs) ↔ StartsArrow c p := by
  cases p with
  | nil => cases sep <;> simp [StartsArrow, Separator.chars]
  | cons d p => simp [StartsArrow]

/-- A field in front of a separator is read up to it. -/
theorem read_field_append (hp : IsField p) (sep : Separator) (cs : List Char) :
    separators (p ++ sep.chars ++ cs) = sep :: separators cs ∧
      pieces (p ++ sep.chars ++ cs) = p :: pieces cs ∧
      takeField (p ++ sep.chars ++ cs) = (p, sep.chars ++ cs) := by
  induction p with
  | nil => cases sep <;> exact ⟨rfl, rfl, rfl⟩
  | cons c p ih =>
    obtain ⟨hc, ha, hp⟩ := (isField_cons c p).1 hp
    obtain ⟨hs, hps, ht⟩ := ih hp
    have ha' : ¬ StartsArrow c (p ++ sep.chars ++ cs) := fun h => ha (startsArrow_append.1 h)
    simp only [List.cons_append]
    rw [separators_skip hc ha', pieces_skip hc ha', takeField_skip hc ha', hs, hps, ht]
    exact ⟨rfl, rfl, rfl⟩

theorem hasArrow_field_append (hp : IsField p) (sep : Separator) (cs : List Char) :
    hasArrow (p ++ sep.chars ++ cs) = true ↔ sep = .arrow ∨ hasArrow cs = true := by
  induction p with
  | nil => cases sep <;> simp [Separator.chars, hasArrow]
  | cons c p ih =>
    obtain ⟨_, ha, hp⟩ := (isField_cons c p).1 hp
    have ha' : ¬ StartsArrow c (p ++ sep.chars ++ cs) := fun h => ha (startsArrow_append.1 h)
    simp only [List.cons_append, hasArrow_cons, ha', ih hp, false_or]

/-- A field that nothing follows is read to its end. -/
theorem read_field (hp : IsField p) :
    separators p = [] ∧ pieces p = [p] ∧ takeField p = (p, []) := by
  induction p with
  | nil => exact ⟨rfl, rfl, rfl⟩
  | cons c p ih =>
    obtain ⟨hc, ha, hp⟩ := (isField_cons c p).1 hp
    obtain ⟨hs, hps, ht⟩ := ih hp
    rw [separators_skip hc ha, pieces_skip hc ha, takeField_skip hc ha, hs, hps, ht]
    exact ⟨rfl, rfl, rfl⟩

variable {cs : List Char} {seps : List Separator} {ps : List (List Char)}

/-- One more character in front, if it starts no separator, lengthens the first field. -/
theorem Cut.skip {c : Char} (hc : c ≠ ',') (ha : ¬ StartsArrow c cs)
    (h : Cut cs seps ps) : Cut (c :: cs) seps (ps.modifyHead (c :: ·)) := by
  cases h with
  | last hp => exact Cut.last ((isField_cons c cs).2 ⟨hc, ha, hp⟩)
  | @cons p cs sep seps ps hp h =>
    have ha' : ¬ StartsArrow c p := fun hp => ha (startsArrow_append.2 hp)
    exact Cut.cons (p := c :: p) ((isField_cons c p).2 ⟨hc, ha', hp⟩) h

theorem cut_separators (cs : List Char) : Cut cs (separators cs) (pieces cs) := by
  fun_induction separators cs with
  | case1 => exact Cut.last isField_nil
  | case2 cs ih =>
    change Cut ([] ++ Separator.comma.chars ++ cs) _ _
    exact Cut.cons isField_nil ih
  | case3 cs ih =>
    change Cut ([] ++ Separator.arrow.chars ++ cs) _ _
    exact Cut.cons isField_nil ih
  | case4 c cs hc ha ih =>
    have ha' : ¬ StartsArrow c cs := by
      intro h
      obtain ⟨rfl, r, rfl⟩ := h.eq_cons
      exact ha r rfl rfl
    rw [pieces_skip hc ha']
    exact ih.skip hc ha'

theorem cut_iff : Cut cs seps ps ↔ separators cs = seps ∧ pieces cs = ps := by
  constructor
  · intro h
    induction h with
    | last hp =>
      obtain ⟨hs, hps, _⟩ := read_field hp
      exact ⟨hs, hps⟩
    | cons hp h ih =>
      obtain ⟨hs, hps, _⟩ := read_field_append hp _ _
      rw [hs, hps, ih.1, ih.2]
      exact ⟨rfl, rfl⟩
  · rintro ⟨rfl, rfl⟩
    exact cut_separators cs

theorem Cut.isField (h : Cut cs seps ps) : ∀ p ∈ ps, IsField p := by
  induction h with
  | last hp => simpa using hp
  | cons hp _ ih => simpa using ⟨hp, ih⟩

theorem Cut.subset (h : Cut cs seps ps) : ∀ p ∈ ps, p ⊆ cs := by
  induction h with
  | last => simp
  | @cons p cs sep seps ps _ _ ih =>
    rw [List.forall_mem_cons]
    refine ⟨?_, fun q hq => ?_⟩
    · rw [List.append_assoc]
      exact List.subset_append_left _ _
    · exact List.Subset.trans (ih q hq) (List.subset_append_right _ _)

theorem Cut.length (h : Cut cs seps ps) : ps.length = seps.length + 1 := by
  induction h with
  | last => rfl
  | cons _ _ ih => simp only [List.length_cons, ih]

theorem Cut.count_comma (h : Cut cs seps ps) : cs.count ',' = seps.count .comma := by
  induction h with
  | last hp => simpa [List.count_eq_zero] using hp.1
  | @cons p cs sep seps ps hp _ ih =>
    rw [List.count_append, List.count_append, ih, List.count_eq_zero.2 hp.1]
    cases sep <;> simp [Separator.chars, Nat.add_comm]

theorem Cut.hasArrow_iff (h : Cut cs seps ps) : hasArrow cs = true ↔ .arrow ∈ seps := by
  induction h with
  | last hp => simp [hp.2]
  | @cons p cs sep seps ps hp _ ih =>
    rw [hasArrow_field_append hp, ih, List.mem_cons, eq_comm]

/-- Without arrows, the pieces are those between the commas. -/
theorem Cut.splitOn_comma (h : Cut cs seps ps) (ha : .arrow ∉ seps) : cs.splitOn ',' = ps := by
  induction h with
  | last hp => exact List.splitOn_eq_singleton hp.1
  | @cons p cs sep seps ps hp _ ih =>
    rw [List.mem_cons, not_or] at ha
    cases sep with
    | arrow => exact absurd rfl ha.1
    | comma =>
      rw [← ih ha.2]
      simpa [Separator.chars] using List.splitOn_append_cons_self_of_not_mem hp.1 cs

end TapeLang.Source
