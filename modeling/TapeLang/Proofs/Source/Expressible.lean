import Mathlib.Data.List.Infix
import TapeLang.Proofs.Source.Separator
import TapeLang.Source.Canonical

/-! Programs that have a source. Whether one has is a matter of its tokens, its literals, the length of its
tape and its empty transitions, and of nothing else, `toSource_eq_ok_iff`. -/

namespace TapeLang

theorem bind_eq_ok {ε α β : Type} {x : Except ε α} {f : α → Except ε β} {b : β} :
    x >>= f = .ok b ↔ ∃ a, x = .ok a ∧ f a = .ok b := by
  cases x with
  | error e => simp [bind, Except.bind]
  | ok a => simp [bind, Except.bind]

theorem check_bind_eq_ok {ε β : Type} {x : Except ε Unit} {y : Except ε β} {b : β} :
    (x >>= fun _ => y) = .ok b ↔ x = .ok () ∧ y = .ok b := by
  rw [bind_eq_ok]
  exact ⟨fun ⟨(), hx, hy⟩ => ⟨hx, hy⟩, fun ⟨hx, hy⟩ => ⟨(), hx, hy⟩⟩

/-- A list of checks that each compute a value goes through if each of them does. -/
theorem mapM_eq_ok {ε α β : Type} {f : α → Except ε β} {P : α → Prop} {g : α → β}
    (h : ∀ a b, f a = .ok b ↔ P a ∧ b = g a) {xs : List α} {ys : List β} :
    xs.mapM f = .ok ys ↔ (∀ x ∈ xs, P x) ∧ ys = xs.map g := by
  induction xs generalizing ys with
  | nil => simp [pure, Except.pure, eq_comm]
  | cons x xs ih =>
    simp only [List.mapM_cons, bind_eq_ok, h, ih, pure, Except.pure, Except.ok.injEq]
    constructor
    · rintro ⟨_, ⟨hx, rfl⟩, _, ⟨hxs, rfl⟩, rfl⟩
      exact ⟨List.forall_mem_cons.2 ⟨hx, hxs⟩, rfl⟩
    · rintro ⟨hxs, rfl⟩
      obtain ⟨hx, hxs⟩ := List.forall_mem_cons.1 hxs
      exact ⟨_, ⟨hx, rfl⟩, _, ⟨hxs, rfl⟩, rfl⟩

/-- The text holds no comma, no arrow and no white space. -/
def IsPlain (s : String) : Prop :=
  ',' ∉ s.toList ∧ ¬ ['=', '>'] <:+: s.toList ∧ ∀ c ∈ s.toList, Text.isSpace c = false

theorem isPlain_iff {s : String} :
    IsPlain s ↔ Source.IsField s.toList ∧ ∀ c ∈ s.toList, Text.isSpace c = false := by
  rw [IsPlain, Source.IsField, ← Source.hasArrow_iff, Bool.not_eq_true, and_assoc]

theorem IsPlain.isField {s : String} (h : IsPlain s) : Source.IsField s.toList :=
  (isPlain_iff.1 h).1

theorem isToken_iff {s : String} : Source.isToken s = true ↔ IsPlain s := by
  rw [isPlain_iff, Source.isToken, Source.IsField]
  simp [and_assoc]

instance (s : String) : Decidable (IsPlain s) :=
  decidable_of_iff (Source.isToken s = true) isToken_iff

theorem isPlain_star : IsPlain "*" := by decide

namespace Pattern

def Expressible : Pattern → Prop
  | any => True
  | literal s => s ≠ "*" ∧ IsPlain s

end Pattern

namespace Key

def Expressible (k : Key) : Prop :=
  k.symbol.Expressible ∧ k.state.Expressible

end Key

namespace Write

def Expressible : Write → Prop
  | literal s => s ∉ ["*", "+", "-"] ∧ IsPlain s
  | _ => True

end Write

namespace NextState

def Expressible : NextState → Prop
  | literal s => s ≠ "*" ∧ IsPlain s
  | keep => True

end NextState

namespace Rule

def Expressible : Rule → Prop
  | halt => True
  | transition t =>
    t.write.Expressible ∧ t.next.Expressible ∧ t ≠ ⟨.literal "", .literal "", .stay⟩

end Rule

namespace Program

/-- No part of the program would be read back as something else. -/
structure Expressible (p : Program) : Prop where
  tape_length : p.tape.length = 0 ∨ 4 ≤ p.tape.length
  cells : ∀ s ∈ p.tape, IsPlain s
  state : IsPlain p.state
  rules : ∀ (k : Key) (r : Rule), p.rules[k]? = some r → k.Expressible ∧ r.Expressible

/-- The lines of the canonical source in front of the state. -/
def bodyLines (p : Program) : List String :=
  p.rules.toList.map (fun rule => Source.ruleLine rule.1 rule.2) ++
    if p.tape = [] then [] else [",".intercalate p.tape]

end Program

namespace Source

theorem checkToken_eq_ok {role : TokenRole} {s : String} : checkToken role s = .ok () ↔ IsPlain s := by
  rw [← isToken_iff, checkToken]
  split <;> simp_all

theorem checkLiteral_eq_ok {markers : List String} {s : String} :
    checkLiteral markers s = .ok () ↔ s ∉ markers := by
  rw [checkLiteral]
  split <;> simp_all

/-- Both checks of one half of a key. -/
theorem checkPattern_eq_ok {role : TokenRole} {p : Pattern} :
    checkToken role p.text = .ok () ∧ checkPattern p = .ok () ↔ p.Expressible := by
  rw [checkToken_eq_ok]
  cases p with
  | any => simp [Pattern.text, checkPattern, Pattern.Expressible, isPlain_star]
  | literal s => simp [Pattern.text, checkPattern, Pattern.Expressible, checkLiteral_eq_ok, and_comm]

theorem checkWrite_eq_ok {w : Write} :
    checkWrite w = .ok () ∧ IsPlain w.text ↔ w.Expressible := by
  cases w with
  | literal s => simp [Write.text, checkWrite, Write.Expressible, checkLiteral_eq_ok]
  | increment => simp [Write.text, checkWrite, Write.Expressible, show IsPlain "+" by decide]
  | decrement => simp [Write.text, checkWrite, Write.Expressible, show IsPlain "-" by decide]
  | keep => simp [Write.text, checkWrite, Write.Expressible, isPlain_star]

theorem checkNext_eq_ok {n : NextState} :
    checkNext n = .ok () ∧ IsPlain n.text ↔ n.Expressible := by
  cases n with
  | literal s => simp [NextState.text, checkNext, NextState.Expressible, checkLiteral_eq_ok]
  | keep => simp [NextState.text, checkNext, NextState.Expressible, isPlain_star]

theorem checkEmpty_eq_ok {t : Transition} :
    checkEmpty t = .ok () ↔ t ≠ ⟨.literal "", .literal "", .stay⟩ := by
  rw [checkEmpty]
  split <;> simp_all

theorem checkKey_eq_ok {k : Key} : checkKey k = .ok () ↔ k.Expressible := by
  rw [Key.Expressible, ← @checkPattern_eq_ok .symbol, ← @checkPattern_eq_ok .state]
  simp only [checkKey, check_bind_eq_ok]
  tauto

theorem checkBody_eq_ok {r : Rule} : checkBody r = .ok () ↔ r.Expressible := by
  cases r with
  | halt => simp [checkBody, Rule.Expressible]
  | transition t =>
    rw [Rule.Expressible, ← checkWrite_eq_ok, ← checkNext_eq_ok, ← checkEmpty_eq_ok]
    simp only [checkBody, check_bind_eq_ok, checkToken_eq_ok]
    tauto

theorem ruleSource_eq_ok {rule : Key × Rule} {line : String} :
    ruleSource rule = .ok line ↔
      (rule.1.Expressible ∧ rule.2.Expressible) ∧ line = ruleLine rule.1 rule.2 := by
  simp only [ruleSource, check_bind_eq_ok, checkKey_eq_ok, checkBody_eq_ok, pure, Except.pure,
    Except.ok.injEq, and_assoc]
  rw [eq_comm (a := line)]

theorem forM_checkToken_eq_ok {role : TokenRole} {tape : List Symbol} :
    tape.forM (checkToken role) = .ok () ↔ ∀ s ∈ tape, IsPlain s := by
  induction tape with
  | nil => simp [pure, Except.pure]
  | cons s tape ih =>
    change (checkToken role s >>= fun _ => tape.forM (checkToken role)) = .ok () ↔ _
    rw [check_bind_eq_ok, checkToken_eq_ok, ih, List.forall_mem_cons]

theorem tapeSource_eq_ok {tape : List Symbol} {lines : List String} :
    tapeSource tape = .ok lines ↔
      ((tape.length = 0 ∨ 4 ≤ tape.length) ∧ ∀ s ∈ tape, IsPlain s) ∧
        lines = if tape = [] then [] else [",".intercalate tape] := by
  unfold tapeSource
  by_cases h0 : tape.length = 0
  · have hn : tape = [] := List.eq_nil_of_length_eq_zero h0
    subst hn
    simp [eq_comm]
  · have hn : tape ≠ [] := fun h => h0 (by rw [h]; rfl)
    rw [if_neg h0, if_neg hn]
    by_cases h3 : tape.length ≤ 3
    · rw [if_pos h3]
      have h4 : ¬ (tape.length = 0 ∨ 4 ≤ tape.length) := by omega
      simp only [h4, false_and, reduceCtorEq]
    · rw [if_neg h3]
      have h4 : tape.length = 0 ∨ 4 ≤ tape.length := by omega
      simp only [check_bind_eq_ok, forM_checkToken_eq_ok, h4, true_and, pure, Except.pure,
        Except.ok.injEq, eq_comm (a := lines)]

end Source

namespace Program

/-- A program has a source exactly if it is expressible, and the source is made of the canonical lines. -/
theorem toSource_eq_ok_iff {p : Program} {source : String} :
    p.toSource = .ok source ↔ p.Expressible ∧ source = "\n".intercalate (p.bodyLines ++ [p.state]) := by
  have hrules : (∀ rule ∈ p.rules.toList, rule.1.Expressible ∧ rule.2.Expressible) ↔
      ∀ (k : Key) (r : Rule), p.rules[k]? = some r → k.Expressible ∧ r.Expressible := by
    simp only [Prod.forall, Std.ExtTreeMap.mem_toList_iff_getElem?_eq_some]
  simp only [toSource, sourceLines, bind_eq_ok, mapM_eq_ok fun _ _ => Source.ruleSource_eq_ok,
    Source.tapeSource_eq_ok, hrules, pure, Except.pure, Except.ok.injEq]
  constructor
  · rintro ⟨_, ⟨_, ⟨hr, rfl⟩, _, ⟨⟨hl, hc⟩, rfl⟩, _, hs, rfl⟩, rfl⟩
    exact ⟨⟨hl, hc, Source.checkToken_eq_ok.1 hs, hr⟩, rfl⟩
  · rintro ⟨h, rfl⟩
    have hs : Source.checkToken .state p.state = .ok () := Source.checkToken_eq_ok.2 h.state
    exact ⟨_, ⟨_, ⟨h.rules, rfl⟩, _, ⟨⟨h.tape_length, h.cells⟩, rfl⟩, (), hs, rfl⟩, rfl⟩

end Program

end TapeLang
