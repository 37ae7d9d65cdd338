import TapeLang.Json.Read
import TapeLang.Proofs.Json.Spelling

/-! Reading a JSON text that was written. A reader that expects a value and meets the text of one goes on as
if the value had been handed to it, whatever stands behind, `Whole.readsBack`; so the text of a value is
read as that value, `read?_write`. -/

namespace TapeLang.Json

/-- The value has a text that says all of it: each of its strings has a text, and each of its numbers is
known. -/
inductive Whole : Json → Prop
  | null : Whole .null
  | bool (b : Bool) : Whole (.bool b)
  | integer (negative : Bool) (n : Nat) : Whole (.integer negative n)
  | string (s : String) : Whole (.ofString s)
  | array {items : List Json} (h : ∀ v ∈ items, Whole v) : Whole (.array items)
  | object {fields : List (Option String × Json)} (hnames : ∀ f ∈ fields, f.1.isSome = true)
    (h : ∀ f ∈ fields, Whole f.2) : Whole (.object fields)

def readFrom (r : Reader) (cs : List Char) : Option Reader :=
  (tokens? cs).bind fun tokens => tokens.foldlM Reader.move? r

theorem readFrom_nil (r : Reader) : readFrom r [] = some r := by
  simp [readFrom, tokens?]

theorem readFrom_cons {c : Char} {cs rest : List Char} {t : Token} (hb : isBlank c = false)
    (ht : readToken? c cs = some (t, rest)) (r : Reader) :
    readFrom r (c :: cs) = (r.move? t).bind fun next => readFrom next rest := by
  have htokens : tokens? (c :: cs) = (tokens? rest).map (t :: ·) := by
    rw [tokens?, hb, if_neg Bool.false_ne_true]
    split
    · next hn => rw [ht] at hn; cases hn
    · next hs =>
      rw [ht] at hs
      cases hs
      rfl
  rw [readFrom, htokens]
  cases hr : tokens? rest with
  | none => cases r.move? t <;> simp [readFrom, hr]
  | some tokens => simp [readFrom, hr]

def Reader.TakesValue (r : Reader) : Prop :=
  ∀ t, t ≠ .closeArray → r.move? t = Reader.startValue? r.frames t

theorem takesValue_value (frames : List Frame) : Reader.TakesValue ⟨frames, .value⟩ :=
  fun _ _ => rfl

theorem takesValue_itemOrClose (frames : List Frame) : Reader.TakesValue ⟨frames, .itemOrClose⟩ := by
  intro t ht
  cases t with
  | closeArray => exact absurd rfl ht
  | _ => rfl

/-- The text of the value counts for the value wherever one may start. -/
def ReadsBack (v : Json) : Prop :=
  ∀ (r : Reader) (rest : List Char), r.TakesValue → EndsNumber rest →
    readFrom r (v.chars ++ rest) = readFrom (Reader.give v r.frames) rest

theorem isBlank_of_isDigit {c : Char} (h : c.isDigit = true) : isBlank c = false := by
  obtain ⟨h0, _⟩ : 48 ≤ c.toNat ∧ c.toNat ≤ 57 := Char.isDigit_iff_toNat.1 h
  have hne {d : Char} (hd : d.toNat < 48) : c ≠ d := by
    rintro rfl
    omega
  simp [isBlank, hne (d := ' ') (by decide), hne (d := '\t') (by decide),
    hne (d := '\n') (by decide), hne (d := '\r') (by decide)]

section Leaves

variable {c : Char} {cs rest : List Char} {r : Reader}

theorem readFrom_scalar {v : Json} (hr : r.TakesValue) (hb : isBlank c = false)
    (ht : readToken? c cs = some (.scalar v, rest)) :
    readFrom r (c :: cs) = readFrom (Reader.give v r.frames) rest := by
  rw [readFrom_cons hb ht, hr _ Token.noConfusion]
  rfl

theorem readFrom_stringChars (s : String) (rest : List Char) (r : Reader) :
    readFrom r (stringChars s ++ rest) =
      (r.move? (.string (some s))).bind fun next => readFrom next rest := by
  have he : stringChars s ++ rest = '"' :: (s.toList.flatMap stringChar ++ '"' :: rest) := by
    simp [stringChars]
  rw [he, readFrom_cons rfl (readToken?_string s rest)]

theorem readsBack_string (s : String) : ReadsBack (.ofString s) := by
  intro r rest hr _
  change readFrom r (stringChars s ++ rest) = _
  rw [readFrom_stringChars, hr _ Token.noConfusion]
  rfl

theorem readsBack_integer (negative : Bool) (n : Nat) : ReadsBack (.integer negative n) := by
  intro r rest hr hrest
  have hnumber := readNumber?_toDigits negative n hrest
  cases negative with
  | true => exact readFrom_scalar hr rfl (by simp [readToken?, mark?, hnumber])
  | false =>
    change readFrom r (Nat.toDigits 10 n ++ rest) = _
    cases hd : Nat.toDigits 10 n with
    | nil => exact absurd hd Nat.toDigits_ne_nil
    | cons d ds =>
      have hdigit : d.isDigit = true :=
        Nat.isDigit_of_mem_toDigits (by decide) (by decide) (hd ▸ List.mem_cons_self)
      rw [hd, List.cons_append] at hnumber
      have ht : readToken? d (ds ++ rest) = some (.scalar (.integer false n), rest) := by
        rw [readToken?_of_isDigit hdigit, hnumber]
        rfl
      exact readFrom_scalar hr (isBlank_of_isDigit hdigit) ht

end Leaves

section Parts

variable {frames : List Frame} {rest : List Char}

theorem readFrom_mark {c : Char} {t : Token} (h : mark? c = some t) (r : Reader)
    (rest : List Char) :
    readFrom r (c :: rest) = (r.move? t).bind fun next => readFrom next rest := by
  have hb : isBlank c = false := by
    rw [← Bool.not_eq_true]
    intro hb
    simp only [isBlank, Bool.or_eq_true, decide_eq_true_eq] at hb
    rcases hb with ((rfl | rfl) | rfl) | rfl <;> cases h
  exact readFrom_cons hb (by rw [readToken?, h]) r

theorem ReadsBack.in_front {v : Json} (h : ReadsBack v) {c : Char} (hc : c ∈ [',', ']', '\x7d'])
    {r : Reader} (hr : r.TakesValue) (rest : List Char) :
    readFrom r (v.chars ++ c :: rest) = readFrom (Reader.give v r.frames) (c :: rest) := by
  apply h r _ hr
  rintro d ⟨⟩
  simp only [List.mem_cons, List.not_mem_nil, or_false] at hc
  rcases hc with rfl | rfl | rfl
  · decide
  · decide
  · decide

theorem readFrom_itemChars {items : List Json} (hitems : ∀ v ∈ items, ReadsBack v)
    (acc : List Json) {e : Expecting} (he : e = .itemOrClose ∨ (e = .value ∧ items ≠ [])) :
    readFrom ⟨.array acc :: frames, e⟩ (itemChars items ++ rest) =
      readFrom (Reader.give (.array (acc.reverse ++ items)) frames) rest := by
  induction items generalizing acc e with
  | nil =>
    obtain rfl : e = .itemOrClose := he.resolve_right fun h => h.2 rfl
    rw [List.append_nil]
    exact readFrom_mark (c := ']') rfl _ rest
  | cons v items ih =>
    obtain ⟨hv, hvs⟩ := List.forall_mem_cons.1 hitems
    have htakes : Reader.TakesValue ⟨.array acc :: frames, e⟩ := by
      rcases he with rfl | ⟨rfl, _⟩
      · exact takesValue_itemOrClose _
      · exact takesValue_value _
    cases items with
    | nil =>
      rw [itemChars, List.append_assoc, List.singleton_append, hv.in_front (by decide) htakes,
        readFrom_mark rfl, ← List.reverse_cons]
      rfl
    | cons w items =>
      rw [itemChars, List.append_assoc, List.cons_append, hv.in_front (by decide) htakes,
        readFrom_mark rfl]
      change readFrom ⟨.array (v :: acc) :: frames, .value⟩ _ = _
      rw [ih hvs (v :: acc) (.inr ⟨rfl, List.cons_ne_nil _ _⟩), List.reverse_cons,
        List.append_assoc, List.singleton_append]
      exact List.cons_ne_nil _ _

theorem readFrom_fieldChars {fields : List (Option String × Json)}
    (hnames : ∀ f ∈ fields, f.1.isSome = true) (hfields : ∀ f ∈ fields, ReadsBack f.2)
    (acc : List (Option String × Json)) {e : Expecting}
    (he : e = .nameOrClose ∨ (e = .name ∧ fields ≠ [])) :
    readFrom ⟨.object acc :: frames, e⟩ (fieldChars fields ++ rest) =
      readFrom (Reader.give (.object (acc.reverse ++ fields)) frames) rest := by
  induction fields generalizing acc e with
  | nil =>
    obtain rfl : e = .nameOrClose := he.resolve_right fun h => h.2 rfl
    rw [List.append_nil]
    exact readFrom_mark (c := '\x7d') rfl _ rest
  | cons f fields ih =>
    obtain ⟨hv, hvs⟩ := List.forall_mem_cons.1 hfields
    obtain ⟨hk, hks⟩ := List.forall_mem_cons.1 hnames
    obtain ⟨k, v⟩ := f
    obtain ⟨name, rfl⟩ := Option.isSome_iff_exists.1 hk
    have hname (cs : List Char) :
        readFrom ⟨.object acc :: frames, e⟩ (textChars (some name) ++ ':' :: cs) =
          readFrom ⟨.field (some name) acc :: frames, .value⟩ cs := by
      rw [textChars, readFrom_stringChars]
      rcases he with rfl | ⟨rfl, _⟩
      · exact readFrom_mark (c := ':') rfl _ cs
      · exact readFrom_mark (c := ':') rfl _ cs
    cases fields with
    | nil =>
      rw [fieldChars, List.append_assoc, List.append_assoc, List.cons_append, hname,
        List.singleton_append, hv.in_front (by decide) (takesValue_value _), readFrom_mark rfl,
        ← List.reverse_cons]
      rfl
    | cons g fields =>
      rw [fieldChars, List.append_assoc, List.append_assoc, List.cons_append, hname,
        List.cons_append, hv.in_front (by decide) (takesValue_value _), readFrom_mark rfl]
      · change readFrom ⟨.object ((some name, v) :: acc) :: frames, .name⟩ _ = _
        rw [ih hks hvs ((some name, v) :: acc) (.inr ⟨rfl, List.cons_ne_nil _ _⟩),
          List.reverse_cons, List.append_assoc, List.singleton_append]
      · exact List.cons_ne_nil _ _

end Parts

theorem Whole.readsBack {v : Json} (h : v.Whole) : ReadsBack v := by
  induction h with
  | null => exact fun r rest hr _ => readFrom_scalar hr rfl rfl
  | bool b =>
    cases b with
    | true => exact fun r rest hr _ => readFrom_scalar hr rfl rfl
    | false => exact fun r rest hr _ => readFrom_scalar hr rfl rfl
  | integer negative n => exact readsBack_integer negative n
  | string s => exact readsBack_string s
  | array _ ih =>
    intro r rest hr _
    rw [chars, List.cons_append, readFrom_mark rfl, hr _ Token.noConfusion]
    exact readFrom_itemChars ih [] (.inl rfl)
  | object hnames _ ih =>
    intro r rest hr _
    rw [chars, List.cons_append, readFrom_mark rfl, hr _ Token.noConfusion]
    exact readFrom_fieldChars hnames ih [] (.inl rfl)

theorem read?_write {v : Json} (h : v.Whole) : read? v.write = some v := by
  have hr : readFrom Reader.start v.chars = some (Reader.give v []) := by
    have hv := h.readsBack Reader.start [] (takesValue_value []) (fun _ hc => by cases hc)
    rwa [List.append_nil, readFrom_nil] at hv
  rw [read?, write, String.toList_ofList]
  rw [readFrom] at hr
  obtain ⟨tokens, ht, hm⟩ := Option.bind_eq_some_iff.1 hr
  rw [ht, Option.bind_some, ofTokens?, hm]
  rfl

end TapeLang.Json
