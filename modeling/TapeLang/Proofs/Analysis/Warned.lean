import TapeLang.Analysis.Warning
import TapeLang.Proofs.Analysis.Search
import TapeLang.Proofs.Machine.Final

/-! What the warnings about a program mean for its machine. The state of the machine is always one that the
rules lead to, whatever tapes it is given on the way, `History.reaches`; and a state has a rule for some
symbol exactly if some key is for it, `handles_eq_false_iff`. So a state reported as unreachable is never
entered, and the states that a machine cannot leave are those reported as having no rule. -/

namespace TapeLang

theorem Pattern.exists_accepts (p : Pattern) : ∃ value, p.accepts value = true := by
  cases p with
  | any => exact ⟨"", rfl⟩
  | literal s => exact ⟨s, (accepts_literal s s).2 rfl⟩

namespace Program

theorem handles_congr {p q : Program} (h : p.rules = q.rules) (s : State) :
    p.handles s = q.handles s := by
  rw [handles, handles, h]

/-- The keys for a state and the candidates for its symbols come to the same: no key is for the state exactly
if none of its symbols finds a rule. -/
theorem handles_eq_false_iff {p : Program} :
    p.handles p.state = false ↔ ∀ symbol, p.resolve symbol = none := by
  rw [← Bool.not_eq_true, handles_iff]
  constructor
  · intro h symbol
    rw [resolve_eq_none_iff]
    intro k hk ha
    exact h ⟨k, hk, ha.2⟩
  · rintro h ⟨k, hk, hs⟩
    obtain ⟨symbol, ha⟩ := k.symbol.exists_accepts
    exact resolve_eq_none_iff.1 (h symbol) k hk ⟨ha, hs⟩

/-- A program that goes from `A` to a state that no rule is for, and never to `C`, which one is for. -/
def astray : Program where
  tape := ["1", "2", "3", "4"]
  state := "A"
  rules := RuleTable.ofRules
    [(⟨.any, .literal "A"⟩, .transition ⟨.increment, .literal "LOST", .right⟩),
      (⟨.any, .literal "C"⟩, .transition ⟨.keep, .literal "A", .stay⟩)]

end Program

namespace Machine

/-- The machine comes from that of a program by steps, with new tapes at any time. -/
inductive History (p : Program) : Machine → Prop
  | start : History p (ofProgram p)
  | step {m : Machine} (h : History p m) : History p m.step.2
  | setTape {m : Machine} (h : History p m) (cells : List Symbol) : History p (m.setTape cells)

def withTape (m : Machine) (tape : List Symbol) (head : Int) : Machine :=
  { m with program := { m.program with tape, head } }

def scanning (m : Machine) (symbol : Symbol) : Machine :=
  m.withTape (m.program.extend.tape.set m.program.extend.index symbol) m.program.extend.head

/-- Whatever symbol stands under the head, a step fails for want of a rule. -/
def DeadEnd (m : Machine) : Prop :=
  ∀ symbol, ∃ index,
    (m.scanning symbol).step.1 = .failed (.missingRule symbol m.program.state index)

variable {p : Program} {m : Machine}

theorem scanned_scanning (m : Machine) (symbol : Symbol) :
    (m.scanning symbol).program.scanned = symbol := by
  have hon : (m.scanning symbol).program.OnTape := by
    obtain ⟨h0, hlt⟩ := m.program.extend_onTape
    exact ⟨h0, by simpa [scanning, withTape] using hlt⟩
  have hget := (m.scanning symbol).program.getElem?_extend
  rw [Program.extend_of_onTape hon] at hget
  have hset : (m.program.extend.tape.set m.program.extend.index symbol)[m.program.extend.index]? =
      some symbol := List.getElem?_set_self m.program.index_extend_lt
  exact Option.some.inj (hget.symm.trans hset)

/-- The next state of a step is one that the rules lead to if the state before it is. -/
theorem reaches_step (hp : m.program.rules = p.rules) (hs : p.Reaches m.program.state) :
    p.Reaches m.step.2.program.state := by
  have h := m.stepped
  generalize m.step = r at h
  cases h with
  | missing hr => exact hs
  | halted hr => exact hs
  | faulty hr hw => exact hs
  | @applied k t _ hr hw =>
    -- a rule that names its next state is for the state before it, so the search follows it
    change p.Reaches (t.next.after m.program.state)
    rcases Rule.after_or_next? t m.program.state with he | hn
    · rw [he]
      exact hs
    · have hk := (Program.rules_of_resolve hr).2
      rw [hp] at hk
      exact .next hs hk (Program.accepts_of_resolve hr) hn

theorem History.rules (h : History p m) : m.program.rules = p.rules := by
  induction h with
  | start => rfl
  | @step m _ ih => exact m.rules_step.trans ih
  | setTape _ _ ih => exact ih

theorem History.reaches (h : History p m) : p.Reaches m.program.state := by
  induction h with
  | start => exact .current
  | step h ih => exact reaches_step h.rules ih
  | setTape _ _ ih => exact ih

theorem History.deadEnd_iff (h : History p m) : m.DeadEnd ↔ p.handles m.program.state = false := by
  rw [← Program.handles_congr h.rules, Program.handles_eq_false_iff]
  constructor
  · intro hd symbol
    obtain ⟨index, hs⟩ := hd symbol
    have hr := resolve_eq_none_of_step hs
    rwa [scanned_scanning] at hr
  · intro hr symbol
    have hs := step_of_resolve_eq_none (m := m.scanning symbol) (hr _)
    rw [scanned_scanning] at hs
    exact ⟨_, hs⟩

/-- A state that is reported as unreachable is never that of the machine, and no rule that is for it by name
is ever found. -/
theorem History.state_notMem_unreachable (h : History p m) {states : List State}
    (hw : .unreachableStates states ∈ p.warnings) :
    m.program.state ∉ states ∧
      ∀ symbol k r, m.program.resolve symbol = some (k, r) → ∀ s ∈ states, k.state ≠ .literal s := by
  obtain ⟨_, rfl⟩ := Program.unreachableStates_mem_warnings.1 hw
  have hstate : m.program.state ∉ p.unreachable := fun hs =>
    (Program.mem_unreachable.1 hs).2 h.reaches.mem_reachable
  refine ⟨hstate, ?_⟩
  intro symbol k r hr s hs hk
  have ha := Program.accepts_of_resolve hr
  rw [hk, Pattern.accepts_literal] at ha
  exact hstate (ha ▸ hs)

theorem state_notMem_unreachable_astray :
    History .astray ((ofProgram .astray).step.2.setTape ["9"]).step.2 ∧
      .unreachableStates ["C"] ∈ Program.astray.warnings ∧
      ((ofProgram .astray).step.2.setTape ["9"]).step.2.program.state ∉ ["C"] := by
  have h : History .astray ((ofProgram .astray).step.2.setTape ["9"]).step.2 :=
    .step (.setTape (.step .start) ["9"])
  have hw : .unreachableStates ["C"] ∈ Program.astray.warnings := by decide +kernel
  exact ⟨h, hw, (h.state_notMem_unreachable hw).1⟩

/-- The dead ends that a machine can get into are the states reported as having no rule: it is in one only if
its state is reported, and in a state that is reported it fails at the next step on every tape. With no
halt rule reported, it never halts. -/
theorem History.dead_ends (h : History p m) :
    (m.DeadEnd →
        (m.program.state = p.state ∧ .unhandledInitialState m.program.state ∈ p.warnings) ∨
          ∃ states, .undefinedNextStates states ∈ p.warnings ∧ m.program.state ∈ states) ∧
      ((.unhandledInitialState m.program.state ∈ p.warnings ∨
          ∃ states, .undefinedNextStates states ∈ p.warnings ∧ m.program.state ∈ states) →
        ∀ tape head, (m.withTape tape head).step.1 =
          .failed (.missingRule (m.withTape tape head).program.scanned m.program.state
            (m.withTape tape head).program.extend.index)) ∧
      (.noHaltRule ∈ p.warnings → m.step.1 ≠ .halted) := by
  refine ⟨?_, ?_, ?_⟩
  · intro hd
    have hn := h.deadEnd_iff.1 hd
    rcases h.reaches.eq_or_mem_namedStates with hs | hs
    · refine .inl ⟨hs, Program.unhandledInitialState_mem_warnings.2 ⟨hs, ?_⟩⟩
      rwa [← hs]
    · have hu := Program.mem_undefinedStates.2 ⟨hs, hn⟩
      have hw := Program.undefinedNextStates_mem_warnings.2 ⟨List.ne_nil_of_mem hu, rfl⟩
      exact .inr ⟨_, hw, hu⟩
  · intro hw tape head
    have hn : p.handles m.program.state = false := by
      rcases hw with hw | ⟨states, hw, hs⟩
      · obtain ⟨hs, hn⟩ := Program.unhandledInitialState_mem_warnings.1 hw
        rwa [hs]
      · obtain ⟨_, rfl⟩ := Program.undefinedNextStates_mem_warnings.1 hw
        exact (Program.mem_undefinedStates.1 hs).2
    rw [← Program.handles_congr h.rules, Program.handles_eq_false_iff] at hn
    exact step_of_resolve_eq_none (m := m.withTape tape head) (hn _)
  · intro hw hs
    have hn := Program.noHaltRule_mem_warnings.1 hw
    obtain ⟨k, hr⟩ := resolve_of_step_eq_halted hs
    have hk := (Program.rules_of_resolve hr).2
    rw [h.rules] at hk
    rw [Program.hasHaltRule_iff.2 ⟨k, hk⟩] at hn
    cases hn

theorem dead_ends_astray :
    History .astray (ofProgram .astray).step.2 ∧
      (ofProgram .astray).step.2.DeadEnd ∧
      (∃ states, .undefinedNextStates states ∈ Program.astray.warnings ∧
        (ofProgram .astray).step.2.program.state ∈ states) ∧
      (∀ tape head, ((ofProgram .astray).step.2.withTape tape head).step.1 =
        .failed (.missingRule ((ofProgram .astray).step.2.withTape tape head).program.scanned "LOST"
          ((ofProgram .astray).step.2.withTape tape head).program.extend.index)) ∧
      .noHaltRule ∈ Program.astray.warnings ∧
      (ofProgram .astray).step.2.step.1 ≠ .halted := by
  have h : History .astray (ofProgram .astray).step.2 := .step .start
  have hs : (ofProgram .astray).step.2.program.state = "LOST" := by decide +kernel
  have hd : (ofProgram .astray).step.2.DeadEnd := h.deadEnd_iff.2 (by decide +kernel)
  have hn : .noHaltRule ∈ Program.astray.warnings := by decide +kernel
  obtain ⟨hcover, hfail, hhalt⟩ := h.dead_ends
  have hw : ∃ states, .undefinedNextStates states ∈ Program.astray.warnings ∧
      (ofProgram .astray).step.2.program.state ∈ states := by
    rcases hcover hd with ⟨ha, _⟩ | hw
    · rw [hs] at ha
      exact absurd ha (by decide)
    · exact hw
  have hf := hfail (.inr hw)
  rw [hs] at hf
  exact ⟨h, hd, hw, hf, hn, hhalt hn⟩

end Machine

end TapeLang
