import TapeLang.Proofs.Json.RoundTrip
import TapeLang.Rule.Json
import TapeLang.Snapshot

/-! Data in JSON. What is written of a rule, of a part of one or of a snapshot is read back as it was, so
that nothing is lost and a text that is accepted in some other form has one form to settle in. -/

namespace TapeLang

namespace Json

/-- Data of some kind lose nothing in the texts that stand for them, as long as they fit. -/
structure Lossless {α : Type} (encode : α → String) (decode? : String → Option α) (Fits : α → Prop) :
    Prop where
  decode_encode : ∀ a, Fits a → decode? (encode a) = some a
  injective : ∀ a b, Fits a → Fits b → encode a = encode b → a = b
  /-- An accepted text settles once it is written anew. -/
  settles : ∀ text a, decode? text = some a →
    decode? (encode a) = some a ∧ ∀ b, decode? (encode a) = some b → encode b = encode a

section Lossless

variable {α : Type} {toJson : α → Json} {ofJson? : Json → Option α} {Fits : α → Prop}

theorem decode?_write {a : α} (hw : (toJson a).Whole) (hr : ofJson? (toJson a) = some a) :
    decode? ofJson? (toJson a).write = some a := by
  rw [decode?, read?_write hw, Option.bind_some, hr]

theorem Lossless.of_decode_encode {encode : α → String} {decode? : String → Option α}
    (h : ∀ a, Fits a → decode? (encode a) = some a)
    (hf : ∀ text a, decode? text = some a → Fits a) : Lossless encode decode? Fits where
  decode_encode := h
  injective a b ha hb he := by
    have hda := h a ha
    rw [he, h b hb] at hda
    exact (Option.some.inj hda).symm
  settles text a ht := by
    have hd := h a (hf text a ht)
    refine ⟨hd, fun b hb => ?_⟩
    rw [hd] at hb
    rw [Option.some.inj hb]

/-- A kind all of whose data fit. -/
theorem Lossless.of_whole (hw : ∀ a, (toJson a).Whole) (hr : ∀ a, ofJson? (toJson a) = some a) :
    Lossless (fun a => (toJson a).write) (decode? ofJson?) fun _ => True :=
  .of_decode_encode (fun a _ => decode?_write (hw a) (hr a)) fun _ _ _ => trivial

end Lossless

section Shapes

theorem whole_ofFields {fields : List (String × Json)} (h : ∀ f ∈ fields, f.2.Whole) :
    (ofFields fields).Whole := by
  apply Whole.object
  · intro f hf
    obtain ⟨g, _, rfl⟩ := List.mem_map.1 hf
    rfl
  · intro f hf
    obtain ⟨g, hg, rfl⟩ := List.mem_map.1 hf
    exact h g hg

theorem whole_ofStrings (texts : List String) : (ofStrings texts).Whole := by
  apply Whole.array
  intro v hv
  obtain ⟨s, _, rfl⟩ := List.mem_map.1 hv
  exact .string s

theorem texts?_ofStrings (texts : List String) : (ofStrings texts).texts? = some texts := by
  simp only [texts?, ofStrings, List.mapM_map]
  induction texts with
  | nil => rfl
  | cons s texts ih =>
    rw [List.mapM_cons, ih]
    rfl

theorem unsigned?_ofNat {n : Nat} (h : n < 18446744073709551616) : (ofNat n).unsigned? = some n :=
  if_pos h

theorem lt_of_unsigned? {v : Json} {n : Nat} (h : v.unsigned? = some n) :
    n < 18446744073709551616 := by
  unfold unsigned? at h
  split at h
  · split at h
    · next hlt => exact Option.some.inj h ▸ hlt
    · cases h
  · cases h

theorem signed?_ofInt {i : Int} (hl : -9223372036854775808 ≤ i) (hu : i < 9223372036854775808) :
    (ofInt i).signed? = some i := by
  by_cases hneg : i < 0
  · have hm : 0 < i.natAbs ∧ i.natAbs ≤ 9223372036854775808 := by omega
    have hi : -(i.natAbs : Int) = i := by omega
    simp only [ofInt, hneg, decide_true, signed?, if_pos hm, hi]
  · have hm : i.natAbs < 9223372036854775808 := by omega
    have hi : (i.natAbs : Int) = i := by omega
    simp only [ofInt, hneg, decide_false, signed?, if_pos hm, hi]

theorem bounds_of_signed? {v : Json} {i : Int} (h : v.signed? = some i) :
    -9223372036854775808 ≤ i ∧ i < 9223372036854775808 := by
  unfold signed? at h
  split at h
  · split at h
    · cases h
      omega
    · cases h
  · split at h
    · cases h
      omega
    · cases h
  · cases h

end Shapes

end Json

namespace Pattern

theorem whole_toJson (p : Pattern) : p.toJson.Whole := by
  cases p with
  | any => exact .string "Any"
  | literal s => exact Json.whole_ofFields (by simp [Json.Whole.string])

theorem ofJson?_toJson (p : Pattern) : ofJson? p.toJson = some p := by
  cases p with
  | any => rfl
  | literal s => rfl

end Pattern

namespace Key

theorem whole_toJson (k : Key) : k.toJson.Whole :=
  Json.whole_ofFields (by simp [Pattern.whole_toJson])

theorem ofJson?_toJson (k : Key) : ofJson? k.toJson = some k := by
  have hr : k.toJson.record? ["symbol", "state"] = some [k.symbol.toJson, k.state.toJson] := rfl
  simp [ofJson?, hr, Pattern.ofJson?_toJson]

end Key

namespace Write

theorem whole_toJson (w : Write) : w.toJson.Whole := by
  cases w with
  | literal s => exact Json.whole_ofFields (by simp [Json.Whole.string])
  | _ => exact .string _

theorem ofJson?_toJson (w : Write) : ofJson? w.toJson = some w := by
  cases w <;> rfl

end Write

namespace NextState

theorem whole_toJson (n : NextState) : n.toJson.Whole := by
  cases n with
  | literal s => exact Json.whole_ofFields (by simp [Json.Whole.string])
  | keep => exact .string _

theorem ofJson?_toJson (n : NextState) : ofJson? n.toJson = some n := by
  cases n <;> rfl

end NextState

namespace Direction

theorem whole_toJson (d : Direction) : d.toJson.Whole := by
  cases d <;> exact .string _

theorem ofJson?_toJson (d : Direction) : ofJson? d.toJson = some d := by
  cases d <;> rfl

end Direction

namespace Transition

theorem whole_toJson (t : Transition) : t.toJson.Whole :=
  Json.whole_ofFields
    (by simp [Write.whole_toJson, NextState.whole_toJson, Direction.whole_toJson])

theorem ofJson?_toJson (t : Transition) : ofJson? t.toJson = some t := by
  have hr : t.toJson.record? ["write", "next_state", "direction"] =
      some [t.write.toJson, t.next.toJson, t.direction.toJson] := rfl
  simp [ofJson?, hr, Write.ofJson?_toJson, NextState.ofJson?_toJson, Direction.ofJson?_toJson]

end Transition

namespace Rule

theorem whole_toJson (r : Rule) : r.toJson.Whole := by
  cases r with
  | halt => exact .string "Halt"
  | transition t => exact Json.whole_ofFields (by simp [Transition.whole_toJson])

theorem ofJson?_toJson (r : Rule) : ofJson? r.toJson = some r := by
  cases r with
  | halt => rfl
  | transition t =>
    have hc : (transition t).toJson.choice? = some ("Transition", some t.toJson) := rfl
    simp [ofJson?, hc, Transition.ofJson?_toJson]

end Rule

namespace Snapshot

structure Fits (s : Snapshot) : Prop where
  step_lt : s.step < 18446744073709551616
  le_head : -9223372036854775808 ≤ s.head
  head_lt : s.head < 9223372036854775808

theorem whole_toJson (s : Snapshot) : s.toJson.Whole :=
  Json.whole_ofFields
    (by simp [Json.ofNat, Json.ofInt, Json.Whole.integer, Json.Whole.string, Json.whole_ofStrings])

theorem ofJson?_toJson {s : Snapshot} (h : s.Fits) : ofJson? s.toJson = some s := by
  have hr : s.toJson.record? ["step", "state", "head", "tape"] =
      some [.ofNat s.step, .ofString s.state, .ofInt s.head, .ofStrings s.tape] := rfl
  have hs : (Json.ofString s.state).text? = some s.state := rfl
  simp [ofJson?, hr, hs, Json.unsigned?_ofNat h.step_lt, Json.signed?_ofInt h.le_head h.head_lt,
    Json.texts?_ofStrings]

theorem fits_of_ofJson? {v : Json} {s : Snapshot} (h : ofJson? v = some s) : s.Fits := by
  obtain ⟨parts, _, hp⟩ := Option.bind_eq_some_iff.1 h
  split at hp
  · next step state head tape =>
    obtain ⟨n, hn, hp⟩ := Option.bind_eq_some_iff.1 hp
    obtain ⟨t, _, hp⟩ := Option.bind_eq_some_iff.1 hp
    obtain ⟨i, hi, hp⟩ := Option.bind_eq_some_iff.1 hp
    obtain ⟨ts, _, hp⟩ := Option.bind_eq_some_iff.1 hp
    cases hp
    exact ⟨Json.lt_of_unsigned? hn, (Json.bounds_of_signed? hi).1, (Json.bounds_of_signed? hi).2⟩
  · cases hp

theorem decode?_json {s : Snapshot} (h : s.Fits) : Json.decode? ofJson? s.json = some s :=
  Json.decode?_write (whole_toJson s) (ofJson?_toJson h)

theorem fits_of_decode? {text : String} {s : Snapshot}
    (h : Json.decode? ofJson? text = some s) : s.Fits := by
  obtain ⟨v, _, hv⟩ := Option.bind_eq_some_iff.1 h
  exact fits_of_ofJson? hv

/-- Both numbers at an end of their ranges, and strings that need every kind of escape or none. -/
def extreme : Snapshot :=
  ⟨18446744073709551615, "\"\\/\n\t\x01", -9223372036854775808, ["", "𝄞", "\x7f", "\x7b[,:]\x7d"]⟩

theorem fits_extreme : extreme.Fits :=
  ⟨by decide, by decide, by decide⟩

end Snapshot

/-- Snapshots whose numbers fit in 64 bits, and rules with all their parts, lose nothing in JSON. -/
theorem lossless_json :
    Json.Lossless Snapshot.json (Json.decode? Snapshot.ofJson?) Snapshot.Fits ∧
      Json.Lossless (fun p => (Pattern.toJson p).write) (Json.decode? Pattern.ofJson?)
        (fun _ => True) ∧
      Json.Lossless (fun k => (Key.toJson k).write) (Json.decode? Key.ofJson?) (fun _ => True) ∧
      Json.Lossless (fun w => (Write.toJson w).write) (Json.decode? Write.ofJson?)
        (fun _ => True) ∧
      Json.Lossless (fun n => (NextState.toJson n).write) (Json.decode? NextState.ofJson?)
        (fun _ => True) ∧
      Json.Lossless (fun d => (Direction.toJson d).write) (Json.decode? Direction.ofJson?)
        (fun _ => True) ∧
      Json.Lossless (fun r => (Rule.toJson r).write) (Json.decode? Rule.ofJson?) (fun _ => True) ∧
      Json.Lossless (fun t => (Transition.toJson t).write) (Json.decode? Transition.ofJson?)
        (fun _ => True) :=
  ⟨.of_decode_encode (fun _ h => Snapshot.decode?_json h) fun _ _ h => Snapshot.fits_of_decode? h,
    .of_whole Pattern.whole_toJson Pattern.ofJson?_toJson,
    .of_whole Key.whole_toJson Key.ofJson?_toJson,
    .of_whole Write.whole_toJson Write.ofJson?_toJson,
    .of_whole NextState.whole_toJson NextState.ofJson?_toJson,
    .of_whole Direction.whole_toJson Direction.ofJson?_toJson,
    .of_whole Rule.whole_toJson Rule.ofJson?_toJson,
    .of_whole Transition.whole_toJson Transition.ofJson?_toJson⟩

theorem lossless_json_extreme :
    Snapshot.extreme.Fits ∧
      Json.decode? Snapshot.ofJson? Snapshot.extreme.json = some Snapshot.extreme ∧
      ∀ s, s.Fits → s.json = Snapshot.extreme.json → s = Snapshot.extreme :=
  ⟨Snapshot.fits_extreme, lossless_json.1.decode_encode _ Snapshot.fits_extreme,
    fun s hs => lossless_json.1.injective s _ hs Snapshot.fits_extreme⟩

end TapeLang
