import TapeLang.Json.Write

/-! The characters of a JSON text. None of them is a control, whatever the strings in it hold, so that a text
is one line and lines of such texts fall apart into the texts again. -/

namespace TapeLang.Json

/-- No character of the list is a control, so that there is no line end among them. -/
def OneLine (cs : List Char) : Prop :=
  ∀ c ∈ cs, 0x20 ≤ c.toNat

instance (cs : List Char) : Decidable (OneLine cs) :=
  List.decidableBAll (fun c : Char => 0x20 ≤ c.toNat) cs

theorem oneLine_nil : OneLine [] :=
  List.forall_mem_nil _

theorem oneLine_cons {c : Char} {cs : List Char} :
    OneLine (c :: cs) ↔ 0x20 ≤ c.toNat ∧ OneLine cs :=
  List.forall_mem_cons

theorem oneLine_append {cs ds : List Char} : OneLine (cs ++ ds) ↔ OneLine cs ∧ OneLine ds :=
  List.forall_mem_append

theorem OneLine.not_mem {cs : List Char} (h : OneLine cs) : '\n' ∉ cs :=
  fun hm => absurd (h _ hm) (by decide)

theorem le_toNat_digitChar {n : Nat} (h : n < 16) : 0x20 ≤ n.digitChar.toNat :=
  (by decide : ∀ n < 16, 0x20 ≤ n.digitChar.toNat) n h

theorem oneLine_toDigits (n : Nat) : OneLine (Nat.toDigits 10 n) := by
  intro c hc
  obtain ⟨h0, _⟩ : 48 ≤ c.toNat ∧ c.toNat ≤ 57 :=
    Char.isDigit_iff_toNat.1 (Nat.isDigit_of_mem_toDigits (by decide) (by decide) hc)
  omega

theorem oneLine_stringChar (c : Char) : OneLine (stringChar c) := by
  unfold stringChar
  split
  iterate 7 decide
  split
  · next h =>
    have hhigh : c.toNat / 16 < 16 := by omega
    have hlow : c.toNat % 16 < 16 := by omega
    simp only [oneLine_cons, oneLine_nil, and_true]
    exact ⟨by decide, by decide, by decide, by decide, le_toNat_digitChar hhigh,
      le_toNat_digitChar hlow⟩
  · next h =>
    intro d hd
    rw [List.mem_singleton.1 hd]
    exact Nat.le_of_not_lt h

theorem oneLine_stringChars (s : String) : OneLine (stringChars s) := by
  rw [stringChars, List.cons_append]
  refine oneLine_cons.2 ⟨by decide, oneLine_append.2 ⟨?_, by decide⟩⟩
  intro d hd
  obtain ⟨c, _, hc⟩ := List.mem_flatMap.1 hd
  exact oneLine_stringChar c d hc

theorem oneLine_textChars (t : Option String) : OneLine (textChars t) := by
  rcases t with _ | s
  · decide
  · exact oneLine_stringChars s

mutual

theorem oneLine_chars : ∀ v : Json, OneLine v.chars
  | .null => by decide
  | .bool true => by decide
  | .bool false => by decide
  | .integer true n => oneLine_cons.2 ⟨by decide, oneLine_toDigits n⟩
  | .integer false n => oneLine_toDigits n
  | .fractional => by decide
  | .string t => oneLine_textChars t
  | .array items => oneLine_cons.2 ⟨by decide, oneLine_itemChars items⟩
  | .object fields => oneLine_cons.2 ⟨by decide, oneLine_fieldChars fields⟩

theorem oneLine_itemChars : ∀ items : List Json, OneLine (itemChars items)
  | [] => oneLine_cons.2 ⟨by decide, oneLine_nil⟩
  | [v] => oneLine_append.2 ⟨oneLine_chars v, oneLine_cons.2 ⟨by decide, oneLine_nil⟩⟩
  | v :: w :: rest =>
    oneLine_append.2 ⟨oneLine_chars v, oneLine_cons.2 ⟨by decide, oneLine_itemChars (w :: rest)⟩⟩

theorem oneLine_fieldChars : ∀ fields : List (Option String × Json), OneLine (fieldChars fields)
  | [] => oneLine_cons.2 ⟨by decide, oneLine_nil⟩
  | [(k, v)] => by
    rw [fieldChars]
    simp only [oneLine_append, oneLine_cons]
    exact ⟨⟨oneLine_textChars k, by decide, oneLine_chars v⟩, by decide, oneLine_nil⟩
  | (k, v) :: f :: rest => by
    rw [fieldChars]
    simp only [oneLine_append, oneLine_cons]
    exact ⟨⟨oneLine_textChars k, by decide, oneLine_chars v⟩, by decide, oneLine_fieldChars (f :: rest)⟩
    exact List.cons_ne_nil _ _

end

theorem not_mem_write (v : Json) : '\n' ∉ v.write.toList := by
  rw [write, String.toList_ofList]
  exact (oneLine_chars v).not_mem

end TapeLang.Json
