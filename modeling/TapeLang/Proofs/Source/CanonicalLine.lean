import Mathlib.Data.List.Infix
import TapeLang.Proofs.Source.Expressible
import TapeLang.Proofs.Source.Grammar

/-! The lines of a canonical source. Each of them reads back as the rule, the tape or the state that it was
written for, and none holds any white space but spaces. -/

namespace TapeLang

section Decode

/-! Expressible parts are decoded from their text. -/

theorem Pattern.Expressible.isPlain {p : Pattern} (h : p.Expressible) : IsPlain p.text := by
  cases p with
  | any => exact isPlain_star
  | literal s => exact h.2

theorem Pattern.Expressible.ne_star {p : Pattern} (h : p.Expressible) : p ≠ .literal "*" := by
  rintro rfl
  exact h.1 rfl

theorem Write.Expressible.isPlain {w : Write} (h : w.Expressible) : IsPlain w.text :=
  (Source.checkWrite_eq_ok.2 h).2

theorem NextState.Expressible.isPlain {n : NextState} (h : n.Expressible) : IsPlain n.text :=
  (Source.checkNext_eq_ok.2 h).2

theorem Direction.isPlain_text (d : Direction) : IsPlain d.text := by
  cases d <;> decide

theorem Write.ofField_text {w : Write} (h : w.Expressible) : ofField w.text = w := by
  cases w with
  | literal s =>
    have hs := h.1
    simp only [List.mem_cons, List.not_mem_nil, or_false, not_or] at hs
    simp [text, ofField, hs]
  | increment => rfl
  | decrement => rfl
  | keep => rfl

theorem NextState.ofField_text {n : NextState} (h : n.Expressible) : ofField n.text = n := by
  cases n with
  | literal s => simp [text, ofField, h.1]
  | keep => rfl

theorem Source.ruleOfFields_halt {k : Key} (hk : k.Expressible) :
    ruleOfFields k.symbol.text k.state.text "" "" "" = .ok (.rule k .halt) := by
  simp [ruleOfFields, Key.ofFields_text hk.1.ne_star hk.2.ne_star]

theorem Source.ruleOfFields_transition {k : Key} {t : Transition} (hk : k.Expressible)
    (ht : (Rule.transition t).Expressible) :
    ruleOfFields k.symbol.text k.state.text t.write.text t.next.text t.direction.text =
      .ok (.rule k (.transition t)) := by
  obtain ⟨w, n, d⟩ := t
  obtain ⟨hw, hn, he⟩ : w.Expressible ∧ n.Expressible ∧ _ := ht
  have hne : ¬ (w.text = "" ∧ n.text = "" ∧ d.text = "") := by
    rintro ⟨hw0, hn0, hd0⟩
    apply he
    rw [← Write.ofField_text hw, ← NextState.ofField_text hn, hw0, hn0]
    cases d with
    | left => exact absurd hd0 (by decide)
    | right => exact absurd hd0 (by decide)
    | stay => rfl
  simp only [ruleOfFields, if_neg hne, Key.ofFields_text hk.1.ne_star hk.2.ne_star,
    Write.ofField_text hw, NextState.ofField_text hn]
  cases d <;> rfl

end Decode

theorem IsPlain.squeeze {s : String} (h : IsPlain s) : Text.squeeze s.toList = s.toList :=
  Text.squeeze_eq_self h.2.2

namespace Source

open Text

/-- Spaces left out, the line of a rule is cut at its own separators. -/
theorem cut_squeeze_ruleLine {k : Key} {r : Rule} {w n d : List Char} (hk : k.Expressible)
    (hw : IsField w) (hn : IsField n) (hd : IsField d)
    (hb : squeeze (bodyText r).toList =
      w ++ Separator.comma.chars ++ (n ++ Separator.comma.chars ++ d)) :
    Cut (squeeze (ruleLine k r).toList) ruleSeparators
      [k.symbol.text.toList, k.state.text.toList, w, n, d] := by
  have hs := hk.1.isPlain
  have ht := hk.2.isPlain
  have he : squeeze (ruleLine k r).toList =
      k.symbol.text.toList ++ Separator.comma.chars ++
        (k.state.text.toList ++ Separator.arrow.chars ++
          (w ++ Separator.comma.chars ++ (n ++ Separator.comma.chars ++ d))) := by
    have hcomma : squeeze ", ".toList = Separator.comma.chars := by decide
    have harrow : squeeze " => ".toList = Separator.arrow.chars := by decide
    simp only [ruleLine, String.toList_append, squeeze_append, hb, hs.squeeze, ht.squeeze, hcomma,
      harrow, List.append_assoc]
  rw [he]
  exact .cons hs.isField (.cons ht.isField (.cons hw (.cons hn (.last hd))))

theorem squeeze_bodyText {t : Transition} (h : (Rule.transition t).Expressible) :
    squeeze (bodyText (.transition t)).toList =
      t.write.text.toList ++ Separator.comma.chars ++
        (t.next.text.toList ++ Separator.comma.chars ++ t.direction.text.toList) := by
  have hcomma : squeeze ",".toList = Separator.comma.chars := by decide
  have hspace : squeeze ", ".toList = Separator.comma.chars := by decide
  have htail : squeeze (directionTail t.direction).toList = t.direction.text.toList := by
    cases t.direction <;> decide
  simp only [bodyText, String.toList_append, squeeze_append, h.1.isPlain.squeeze,
    h.2.1.isPlain.squeeze, hcomma, hspace, htail, List.append_assoc]

theorem read_ruleLine {k : Key} {r : Rule} (hk : k.Expressible) (hr : r.Expressible) :
    Line.read (ruleLine k r).toList = .ok (.rule k r) := by
  rw [Line.read, ofSqueezed_eq_classify]
  cases r with
  | halt =>
    have hbody : squeeze (bodyText .halt).toList =
        [] ++ Separator.comma.chars ++ ([] ++ Separator.comma.chars ++ []) := by decide
    have hcut := cut_squeeze_ruleLine hk isField_nil isField_nil isField_nil hbody
    rw [classify_of_cut_rule hcut]
    simpa only [String.ofList_toList, String.ofList_nil] using ruleOfFields_halt hk
  | transition t =>
    have hcut := cut_squeeze_ruleLine hk hr.1.isPlain.isField hr.2.1.isPlain.isField
      t.direction.isPlain_text.isField (squeeze_bodyText hr)
    rw [classify_of_cut_rule hcut]
    simpa only [String.ofList_toList] using ruleOfFields_transition hk hr

/-- Cells that are fields are the pieces of their line, which has commas only. -/
theorem cut_intercalate {cells : List (List Char)} (hne : cells ≠ []) (h : ∀ c ∈ cells, IsField c) :
    Cut ([','].intercalate cells) (List.replicate (cells.length - 1) .comma) cells := by
  induction cells with
  | nil => exact absurd rfl hne
  | cons c cells ih =>
    obtain ⟨hc, hcells⟩ := List.forall_mem_cons.1 h
    cases cells with
    | nil =>
      rw [List.intercalate_singleton]
      exact .last hc
    | cons d cells =>
      rw [List.intercalate_cons_cons]
      change Cut (c ++ Separator.comma.chars ++ _) (.comma :: List.replicate cells.length .comma) _
      exact .cons hc (ih (List.cons_ne_nil _ _) hcells)

theorem mem_intercalate {sep : String} {texts : List String} {c : Char}
    (h : c ∈ (sep.intercalate texts).toList) : c ∈ sep.toList ∨ ∃ t ∈ texts, c ∈ t.toList := by
  induction texts with
  | nil =>
    rw [String.intercalate_nil] at h
    exact absurd h List.not_mem_nil
  | cons t texts ih =>
    cases texts with
    | nil =>
      rw [String.intercalate_singleton] at h
      exact .inr ⟨t, List.mem_cons_self, h⟩
    | cons u texts =>
      rw [String.intercalate_cons_cons, String.toList_append, String.toList_append, List.mem_append,
        List.mem_append] at h
      rcases h with (h | h) | h
      · exact .inr ⟨t, List.mem_cons_self, h⟩
      · exact .inl h
      · rcases ih h with h | ⟨v, hv, h⟩
        · exact .inl h
        · exact .inr ⟨v, List.mem_cons_of_mem _ hv, h⟩

theorem isSpace_of_mem_tapeLine {tape : List Symbol} (h : ∀ s ∈ tape, IsPlain s) :
    ∀ c ∈ (",".intercalate tape).toList, isSpace c = false := by
  intro c hc
  rcases mem_intercalate hc with hc | ⟨s, hs, hc⟩
  · rw [List.mem_singleton.1 hc]
    decide
  · exact (h s hs).2.2 c hc

/-- The line of a tape is cut into its cells by commas. -/
theorem cut_squeeze_tapeLine {tape : List Symbol} (hne : tape ≠ []) (h : ∀ s ∈ tape, IsPlain s) :
    Cut (squeeze (",".intercalate tape).toList) (List.replicate (tape.length - 1) .comma)
      (tape.map String.toList) := by
  have hcells : ∀ c ∈ tape.map String.toList, IsField c := by
    intro c hc
    obtain ⟨s, hs, rfl⟩ := List.mem_map.1 hc
    exact (h s hs).isField
  have hcut := cut_intercalate (fun he => hne (List.map_eq_nil_iff.1 he)) hcells
  rw [List.length_map] at hcut
  rw [squeeze_eq_self (isSpace_of_mem_tapeLine h), String.toList_intercalate]
  exact hcut

theorem read_tapeLine {tape : List Symbol} (hlen : 4 ≤ tape.length) (h : ∀ s ∈ tape, IsPlain s) :
    Line.read (",".intercalate tape).toList = .ok (.tape tape) := by
  have hne : tape ≠ [] := by
    rintro rfl
    exact absurd hlen (by decide)
  have harrow : Separator.arrow ∉ List.replicate (tape.length - 1) .comma := by
    intro hm
    exact absurd (List.eq_of_mem_replicate hm) (by decide)
  have hseps : 3 ≤ (List.replicate (tape.length - 1) Separator.comma).length := by
    rw [List.length_replicate]
    omega
  rw [Line.read, ofSqueezed_eq_classify,
    classify_of_cut_tape (cut_squeeze_tapeLine hne h) harrow hseps, List.map_map]
  simp

/-- The only white space in the text is the space. -/
def Tidy (s : String) : Prop :=
  ∀ c ∈ s.toList, isSpace c = true → c = ' '

instance (s : String) : Decidable (Tidy s) :=
  decidable_of_iff (s.toList.all fun c => !isSpace c || c == ' ') (by
    simp [Tidy, ← Bool.not_eq_true, or_iff_not_imp_left])

theorem tidy_of_isSpace_eq_false {s : String} (h : ∀ c ∈ s.toList, isSpace c = false) : Tidy s :=
  fun c hc hs => absurd hs (by rw [h c hc]; exact Bool.false_ne_true)

theorem Tidy.append {a b : String} (ha : Tidy a) (hb : Tidy b) : Tidy (a ++ b) := by
  intro c hc
  rw [String.toList_append, List.mem_append] at hc
  rcases hc with hc | hc
  · exact ha c hc
  · exact hb c hc

theorem Tidy.not_mem {s : String} {c : Char} (h : Tidy s) (hs : isSpace c = true) (hc : c ≠ ' ') :
    c ∉ s.toList :=
  fun hm => hc (h c hm hs)

theorem tidy_ruleLine {k : Key} {r : Rule} (hk : k.Expressible) (hr : r.Expressible) :
    Tidy (ruleLine k r) := by
  have plain {s : String} (h : IsPlain s) : Tidy s := tidy_of_isSpace_eq_false h.2.2
  have hcomma : Tidy ", " := by decide
  have harrow : Tidy " => " := by decide
  have hbody : Tidy (bodyText r) := by
    cases r with
    | halt => decide
    | transition t =>
      have hsep : Tidy "," := by decide
      have htail : Tidy (directionTail t.direction) := by
        cases t.direction <;> decide
      exact (((plain hr.1.isPlain).append hcomma).append (plain hr.2.1.isPlain)).append hsep
        |>.append htail
  exact (((plain hk.1.isPlain).append hcomma).append (plain hk.2.isPlain)).append harrow
    |>.append hbody

theorem read_stateLine {s : String} (h : IsPlain s) : Line.read s.toList = .ok (.state s) := by
  rw [Line.read, ofSqueezed_eq_classify, h.squeeze, classify_of_isField h.isField, String.ofList_toList]

end Source

end TapeLang
