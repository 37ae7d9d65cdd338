import Mathlib.Data.List.Infix
import TapeLang.Files.Load
import TapeLang.Proofs.Source.CanonicalLine

/-! Reading undoes writing. The lines of a canonical source read back together as the program, whose head goes
back to the start of the tape. A newline behind the text, as files have it, changes nothing, even if the
last line is empty. -/

namespace TapeLang

/-- A table is what its own listing makes. -/
theorem RuleTable.ofRules_toList (t : RuleTable) : ofRules t.toList = t := by
  rw [ofRules, ← Std.ExtTreeMap.insertMany_list_eq_foldl]
  apply Std.ExtTreeMap.ext_getElem?
  intro k
  cases h : t[k]? with
  | some r =>
    exact Std.ExtTreeMap.getElem?_insertMany_list_of_mem Std.ReflCmp.compare_self
      Std.ExtTreeMap.distinct_keys_toList (Std.ExtTreeMap.mem_toList_iff_getElem?_eq_some.2 h)
  | none =>
    have hk : (t.toList.map Prod.fst).contains k = false := by
      rw [Std.ExtTreeMap.map_fst_toList_eq_keys, ← Bool.not_eq_true, List.contains_iff_mem,
        Std.ExtTreeMap.mem_keys]
      simp [Std.ExtTreeMap.mem_iff_isSome_getElem?, h]
    rw [Std.ExtTreeMap.getElem?_insertMany_list_of_contains_eq_false hk]
    exact Std.ExtTreeMap.getElem?_empty

namespace Source

theorem lines_intercalate {ls : List String} (hne : ls ≠ []) (h : ∀ l ∈ ls, '\n' ∉ l.toList) :
    lines ("\n".intercalate ls) = ls.map String.toList := by
  rw [lines, String.toList_intercalate]
  change (['\n'].intercalate _).splitOn '\n' = _
  apply List.splitOn_intercalate
  · intro l hl
    obtain ⟨s, hs, rfl⟩ := List.mem_map.1 hl
    exact h s hs
  · exact fun he => hne (List.map_eq_nil_iff.1 he)

theorem withoutFinalNewline_crlf (s : String) : withoutFinalNewline (s ++ "\r\n") = s := by
  simp [withoutFinalNewline]

theorem withoutFinalNewline_lf {s : String} (h : '\r' ∉ s.toList) :
    withoutFinalNewline (s ++ "\n") = s := by
  have he : (s ++ "\n").toList.reverse = '\n' :: s.toList.reverse := by simp
  rw [withoutFinalNewline, he]
  split
  · next rest hr =>
    have hm : '\r' ∈ s.toList.reverse := by
      rw [(List.cons.inj hr).2]
      exact List.mem_cons_self
    exact absurd (List.mem_reverse.1 hm) h
  · next rest hr => rw [← (List.cons.inj hr).2, List.reverse_reverse, String.ofList_toList]
  · next hn => exact absurd rfl (hn _)

theorem withoutFinalNewline_of_getLast? {s : String} (h : s.toList.getLast? ≠ some '\n') :
    withoutFinalNewline s = s := by
  rw [List.getLast?_eq_head?_reverse] at h
  rw [withoutFinalNewline]
  split
  · next hr => exact absurd (by rw [hr]; rfl) h
  · next hr => exact absurd (by rw [hr]; rfl) h
  · rfl

end Source

namespace Program

variable {p : Program}

theorem tidy_bodyLines (h : p.Expressible) : ∀ l ∈ p.bodyLines, Source.Tidy l := by
  intro l hl
  rw [bodyLines, List.mem_append] at hl
  rcases hl with hl | hl
  · obtain ⟨⟨k, r⟩, hkr, rfl⟩ := List.mem_map.1 hl
    obtain ⟨hk, hr⟩ := h.rules k r (Std.ExtTreeMap.mem_toList_iff_getElem?_eq_some.1 hkr)
    exact Source.tidy_ruleLine hk hr
  · by_cases ht : p.tape = []
    · rw [if_pos ht] at hl
      exact absurd hl List.not_mem_nil
    · rw [if_neg ht] at hl
      rw [List.mem_singleton.1 hl]
      exact Source.tidy_of_isSpace_eq_false (Source.isSpace_of_mem_tapeLine h.cells)

theorem addLines_ruleLines (q : Program) (number : Nat) (rules : List (Key × Rule))
    (h : ∀ rule ∈ rules, rule.1.Expressible ∧ rule.2.Expressible) :
    q.addLines number (rules.map fun rule => (Source.ruleLine rule.1 rule.2).toList) =
      .ok { q with rules := rules.foldl (fun t rule => t.insert rule.1 rule.2) q.rules } := by
  induction rules generalizing q number with
  | nil => rfl
  | cons rule rules ih =>
    obtain ⟨⟨hk, hr⟩, hrules⟩ := List.forall_mem_cons.1 h
    rw [List.map_cons, addLines, Source.read_ruleLine hk hr]
    exact ih _ _ hrules

/-- The lines in front of the state give all but the state. -/
theorem addLines_bodyLines (h : p.Expressible) :
    ({} : Program).addLines 1 (p.bodyLines.map String.toList) =
      .ok { p with state := "", head := 0 } := by
  have hrules : ∀ rule ∈ p.rules.toList, rule.1.Expressible ∧ rule.2.Expressible := fun rule hm =>
    h.rules _ _ (Std.ExtTreeMap.mem_toList_iff_getElem?_eq_some.1 hm)
  have htable : p.rules.toList.foldl (fun t rule => t.insert rule.1 rule.2) ∅ = p.rules :=
    RuleTable.ofRules_toList p.rules
  rw [bodyLines, List.map_append, List.map_map, addLines_append]
  change Except.bind (addLines {} 1 (p.rules.toList.map fun rule =>
    (Source.ruleLine rule.1 rule.2).toList)) _ = _
  rw [addLines_ruleLines {} 1 _ hrules]
  change addLines { rules := p.rules.toList.foldl _ ∅ } _ _ = _
  rw [htable]
  by_cases ht : p.tape = []
  · rw [if_pos ht, List.map_nil, ht]
    rfl
  · have hlen : 4 ≤ p.tape.length := by
      rcases h.tape_length with h0 | h4
      · exact absurd (List.eq_nil_of_length_eq_zero h0) ht
      · exact h4
    rw [if_neg ht, List.map_singleton, addLines, Source.read_tapeLine hlen h.cells]
    rfl

/-- No line of a canonical source holds a line end. -/
theorem not_mem_of_mem_lines (h : p.Expressible) {c : Char} (hs : Text.isSpace c = true) (hc : c ≠ ' ') :
    ∀ l ∈ p.bodyLines ++ [p.state], c ∉ l.toList := by
  intro l hl
  rcases List.mem_append.1 hl with hl | hl
  · exact (tidy_bodyLines h l hl).not_mem hs hc
  · rw [List.mem_singleton.1 hl]
    exact (Source.tidy_of_isSpace_eq_false h.state.2.2).not_mem hs hc

theorem not_mem_intercalate {lines : List String} (h : ∀ l ∈ lines, '\r' ∉ l.toList) :
    '\r' ∉ ("\n".intercalate lines).toList := by
  intro hm
  rcases Source.mem_intercalate hm with hm | ⟨l, hl, hm⟩
  · exact absurd hm (by decide)
  · exact h l hl hm

theorem parse_bodyLines (h : p.Expressible) (hne : p.bodyLines ≠ []) :
    parse ("\n".intercalate p.bodyLines) = .ok { p with state := "", head := 0 } := by
  have hlines := Source.lines_intercalate hne fun l hl =>
    not_mem_of_mem_lines h (by decide) (by decide) l (List.mem_append_left _ hl)
  rw [parse, hlines, addLines_bodyLines h]

theorem parse_lines (h : p.Expressible) :
    parse ("\n".intercalate (p.bodyLines ++ [p.state])) = .ok { p with head := 0 } := by
  have hlines := Source.lines_intercalate (List.append_ne_nil_of_right_ne_nil _ (List.cons_ne_nil _ _))
    (not_mem_of_mem_lines h (by decide) (by decide))
  rw [parse, hlines, List.map_append, addLines_append, addLines_bodyLines h]
  change addLines _ _ [p.state.toList] = _
  rw [addLines, Source.read_stateLine h.state]
  rfl

/-- The state stands at the end of the text, behind a newline if there are other lines. -/
theorem intercalate_lines (p : Program) :
    "\n".intercalate (p.bodyLines ++ [p.state]) =
      (if p.bodyLines = [] then "" else "\n".intercalate p.bodyLines ++ "\n") ++ p.state := by
  split
  · next hb => rw [hb, List.nil_append, String.intercalate_singleton, String.empty_append]
  · next hb =>
    rw [String.intercalate_append_of_ne_nil hb (List.cons_ne_nil _ _), String.intercalate_singleton]

/-- If the last line is not empty it does not end in a newline, and if it is empty it can be left out. -/
theorem parseFile_lines (h : p.Expressible) :
    parseFile ("\n".intercalate (p.bodyLines ++ [p.state])) = .ok { p with head := 0 } := by
  by_cases hs : p.state = ""
  · by_cases hb : p.bodyLines = []
    · have hlines := parse_lines h
      rw [hb, hs] at hlines ⊢
      exact hlines
    · have hr : '\r' ∉ ("\n".intercalate p.bodyLines).toList := not_mem_intercalate fun l hl =>
        not_mem_of_mem_lines h (by decide) (by decide) l (List.mem_append_left _ hl)
      rw [intercalate_lines, if_neg hb, hs, String.append_empty, parseFile,
        Source.withoutFinalNewline_lf hr, parse_bodyLines h hb]
  · have hlast : ("\n".intercalate (p.bodyLines ++ [p.state])).toList.getLast? ≠ some '\n' := by
      have hne : p.state.toList ≠ [] := fun he => hs (String.toList_eq_nil_iff.1 he)
      rw [intercalate_lines, String.toList_append, List.getLast?_append_of_ne_nil _ hne]
      intro hl
      exact absurd (h.state.2.2 _ (List.mem_of_getLast? hl)) (by decide)
    rw [parseFile, Source.withoutFinalNewline_of_getLast? hlast, parse_lines h]

end Program

theorem fromUTF8?_toUTF8 (content : String) : String.fromUTF8? content.toUTF8 = some content := by
  rw [String.fromUTF8?, String.toUTF8_eq_toByteArray, dif_pos content.isValidUTF8]
  rfl

theorem decodeText_toUTF8 (content : String) : decodeText content.toUTF8 = .ok content := by
  rw [decodeText, fromUTF8?_toUTF8]

theorem loadInput_toUTF8 (content : String) :
    loadInput content.toUTF8 = (Program.parseFile content).mapError .source := by
  rw [loadInput, inputText, decodeText_toUTF8]
  rfl

/-- A program with a token on either side of the arrow that takes up part of it. -/
def Program.tight : Program where
  head := 7
  rules := RuleTable.ofRules
    [(⟨.literal "a", .literal "b="⟩, .transition ⟨.literal ">", .keep, .stay⟩)]

/-- The source of a program reads back as the program with its head at the start of the tape, and so it does
from a file, whether or not a line end follows it. -/
theorem parse_toSource {p : Program} {source : String} (h : p.toSource = .ok source) :
    Program.parse source = .ok { p with head := 0 } ∧
      loadInput source.toUTF8 = .ok { p with head := 0 } ∧
      loadInput (source ++ "\n").toUTF8 = .ok { p with head := 0 } ∧
      loadInput (source ++ "\r\n").toUTF8 = .ok { p with head := 0 } := by
  obtain ⟨he, rfl⟩ := Program.toSource_eq_ok_iff.1 h
  have hparse := Program.parse_lines he
  have hr : '\r' ∉ ("\n".intercalate (p.bodyLines ++ [p.state])).toList :=
    Program.not_mem_intercalate (Program.not_mem_of_mem_lines he (by decide) (by decide))
  simp only [loadInput_toUTF8]
  refine ⟨hparse, ?_, ?_, ?_⟩
  · rw [Program.parseFile_lines he]
    rfl
  · rw [Program.parseFile, Source.withoutFinalNewline_lf hr, hparse]
    rfl
  · rw [Program.parseFile, Source.withoutFinalNewline_crlf, hparse]
    rfl

theorem parse_toSource_tight :
    Program.tight.toSource = .ok "a, b= => >, *,\n" ∧
      Program.parse "a, b= => >, *,\n" = .ok { Program.tight with head := 0 } ∧
      loadInput "a, b= => >, *,\n".toUTF8 = .ok { Program.tight with head := 0 } ∧
      loadInput ("a, b= => >, *,\n" ++ "\n").toUTF8 = .ok { Program.tight with head := 0 } ∧
      loadInput ("a, b= => >, *,\n" ++ "\r\n").toUTF8 = .ok { Program.tight with head := 0 } :=
  have h : Program.tight.toSource = .ok "a, b= => >, *,\n" := by decide +kernel
  ⟨h, parse_toSource h⟩

end TapeLang
