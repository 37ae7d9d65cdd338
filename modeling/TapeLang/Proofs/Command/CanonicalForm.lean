import TapeLang.Proofs.Command.Loaded
import TapeLang.Proofs.Source.Listing
import TapeLang.Proofs.Source.Spacing

/-! The canonical source as a normal form. It depends on the rules that count, the tape and the state, and
determines them, `Program.eq_of_toSource`; so what the formatter prints it prints again when it is given it,
`play?_fmt_again`. -/

namespace TapeLang

namespace Program

variable {p q : Program} {source : String}

theorem parse_of_toSource (h : p.toSource = .ok source) : parse source = .ok { p with head := 0 } := by
  obtain ⟨he, rfl⟩ := toSource_eq_ok_iff.1 h
  exact parse_lines he

theorem parseFile_of_toSource (h : p.toSource = .ok source) :
    parseFile (source ++ "\n") = .ok { p with head := 0 } := by
  rw [parseFile_lf, parse_of_toSource h]

theorem eq_of_toSource (hp : p.toSource = .ok source) (hq : q.toSource = .ok source) :
    p.tape = q.tape ∧ p.state = q.state ∧ p.rules = q.rules := by
  have h : Except.ok (ε := SourceError) { p with head := 0 } = .ok { q with head := 0 } := by
    rw [← parse_of_toSource hp, ← parse_of_toSource hq]
  obtain ⟨ht, hs, _, hr⟩ := Program.mk.inj (Except.ok.inj h)
  exact ⟨ht, hs, hr⟩

end Program

section Fmt

variable {v turns : Nat} {origin : Origin} {w : Surroundings} {p : Program} {out : Output}
  {source : String}

theorem exists_play?_fmt (hp : (origin.load w).2 = .ok p) (hs : p.toSource = .ok source) :
    ∃ out, Invocation.play? ⟨v, .fmt origin⟩ w turns = some (out, 0) ∧ out.out = [source] := by
  simp only [Invocation.play?, Invocation.start, Command.withProgram_of_load hp, Command.fmtTurn,
    hs, Turn.after]
  exact ⟨_, rfl, rfl⟩

theorem Error.exitCode_ne_zero (e : Error) : e.exitCode ≠ 0 := by
  unfold exitCode
  split <;> decide

theorem exists_toSource_of_play?_fmt (h : Invocation.play? ⟨v, .fmt origin⟩ w turns = some (out, 0)) :
    ∃ p source, (origin.load w).2 = .ok p ∧ p.toSource = .ok source ∧ out.out = [source] := by
  simp only [Invocation.play?, Invocation.start, Command.withProgram] at h
  rcases hl : (origin.load w).2 with e | p
  · simp only [hl, Error.turn, Turn.after, Option.some.injEq, Prod.mk.injEq] at h
    exact absurd h.2 e.exitCode_ne_zero
  · rcases hs : p.toSource with e | source
    · simp only [hl, Command.fmtTurn, hs, Error.turn, Turn.after, Option.some.injEq,
        Prod.mk.injEq] at h
      exact absurd h.2 (Error.exitCode_ne_zero _)
    · simp only [hl, Command.fmtTurn, hs, Turn.after, Option.some.injEq, Prod.mk.injEq] at h
      refine ⟨p, source, rfl, hs, ?_⟩
      rw [← h.1]
      rfl

/-- The formatter leaves alone what it has printed. -/
theorem play?_fmt_again (h : Invocation.play? ⟨v, .fmt origin⟩ w turns = some (out, 0)) {v' turns' : Nat}
    {origin' : Origin} {w' : Surroundings} (hg : origin'.Gives w' (Output.joined out.out)) :
    ∃ again, Invocation.play? ⟨v', .fmt origin'⟩ w' turns' = some (again, 0) ∧
      again.out = out.out := by
  obtain ⟨p, source, _, hs, hout⟩ := exists_toSource_of_play?_fmt h
  have hjoined : Output.joined out.out = source ++ "\n" := by
    rw [hout]
    simp [Output.joined]
  have hload : (origin'.load w').2 = .ok { p with head := 0 } := by
    rw [Origin.load_of_gives hg, hjoined, Program.parseFile_of_toSource hs]
    rfl
  have hsource : Program.toSource { p with head := 0 } = .ok source := hs
  obtain ⟨again, hagain, hlines⟩ := exists_play?_fmt hload hsource
  exact ⟨again, hagain, hlines.trans hout.symm⟩

end Fmt

/-- The canonical source is a normal form. Only the last rule of each key has a part in it, in whatever order
the rules were given or are listed, and so in what is reported where there is none; programs of one
source differ in their heads only; and the formatter leaves alone what it has printed. -/
theorem toSource_canonical :
    (∀ (rules others : List (Key × Rule)) (tape : List Symbol) (state : State) (head head' : Int),
      (∀ k, rules.reverse.lookup k = others.reverse.lookup k) →
        (Program.mk tape state head (RuleTable.ofRules rules)).toSource =
          (Program.mk tape state head' (RuleTable.ofRules others)).toSource) ∧
      (∀ (p : Program) (l : Listing p.rules), p.sourceOfListing l = p.toSource) ∧
      (∀ (p q : Program) (source : String), p.toSource = .ok source → q.toSource = .ok source →
        p.tape = q.tape ∧ p.state = q.state ∧ p.rules = q.rules) ∧
      ∀ (v turns : Nat) (origin : Origin) (w : Surroundings) (out : Output),
        Invocation.play? ⟨v, .fmt origin⟩ w turns = some (out, 0) →
          ∀ (v' turns' : Nat) (origin' : Origin) (w' : Surroundings),
            origin'.Gives w' (Output.joined out.out) →
              ∃ again, Invocation.play? ⟨v', .fmt origin'⟩ w' turns' = some (again, 0) ∧
                Output.joined again.out = Output.joined out.out := by
  refine ⟨?_, Program.sourceOfListing_eq, fun _ _ _ => Program.eq_of_toSource, ?_⟩
  · intro rules others tape state head head' h
    exact Program.toSource_congr rfl rfl (RuleTable.ofRules_congr h)
  · intro v turns origin w out h v' turns' origin' w' hg
    obtain ⟨again, hagain, hout⟩ := play?_fmt_again h hg
    exact ⟨again, hagain, by rw [hout]⟩

/-- The rules of `relay`, in another order than that of their keys. -/
def relayRules : List (Key × Rule) := [
  (⟨.literal "a", .any⟩, .transition ⟨.increment, .keep, .right⟩),
  (⟨.any, .literal "S"⟩, .halt)]

def relay : Program where
  rules := RuleTable.ofRules relayRules

def relayListing : Listing relay.rules :=
  Listing.ofRules relayRules (by decide)

/-- A rule that is replaced leaves no trace, and an empty state stands as an empty line. -/
theorem toSource_canonical_relay :
    let rules := (⟨.any, .literal "S"⟩, .transition ⟨.keep, .keep, .stay⟩) :: relayRules
    let text := "a,*=>+,*,>\r\n *, S =>,,"
    let source := "*, S => , ,\na, * => +, *, >\n"
    let w : Surroundings := ⟨fun _ => .ok (source ++ "\n").toUTF8, some text.toUTF8⟩
    (∀ k, rules.reverse.lookup k = relayRules.reverse.lookup k) ∧
      (Program.mk [] "" 0 (RuleTable.ofRules rules)).toSource = relay.toSource ∧
      relay.sourceOfListing relayListing = .ok source ∧
      ∃ out again, Invocation.play? ⟨0, .fmt .input⟩ w 1 = some (out, 0) ∧
        Output.joined out.out = source ++ "\n" ∧
        Invocation.play? ⟨0, .fmt (.file "again.ttl")⟩ w 1 = some (again, 0) ∧
        Output.joined again.out = source ++ "\n" := by
  intro rules text source w
  have hlookup (k : Key) : rules.reverse.lookup k = relayRules.reverse.lookup k := by
    simp only [rules, relayRules, List.reverse_cons, List.reverse_nil, List.nil_append,
      List.cons_append, List.lookup_cons, List.lookup_nil]
    split
    · rfl
    · rfl
  have hsource : relay.toSource = .ok source := by decide +kernel
  have hparse : Program.parseFile text = .ok relay := by decide +kernel
  have hgives : Origin.input.Gives w text := rfl
  have hload : (Origin.input.load w).2 = .ok relay := by
    rw [Origin.load_of_gives hgives, hparse]
    rfl
  obtain ⟨out, hout, hlines⟩ := exists_play?_fmt (v := 0) hload hsource
  have hjoined : Output.joined out.out = source ++ "\n" := by
    rw [hlines]
    simp [Output.joined]
  obtain ⟨hinserted, hlisted, _, hagain⟩ := toSource_canonical
  have hfile : (Origin.file "again.ttl").Gives w (Output.joined out.out) := by
    rw [hjoined]
    rfl
  obtain ⟨again, hplay, hsame⟩ := hagain 0 1 .input w out hout 0 1 _ w hfile
  exact ⟨hlookup, hinserted rules relayRules [] "" 0 0 hlookup,
    (hlisted relay relayListing).trans hsource, out, again, hout, hjoined, hplay,
    hsame.trans hjoined⟩

end TapeLang
