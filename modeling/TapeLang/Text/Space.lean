/-! White space is the Unicode property White_Space: twenty-five characters in ten ranges. -/

namespace TapeLang.Text

/-- The ranges of White_Space, ends included. -/
def spaceRanges : List (Nat × Nat) :=
  [(0x9, 0xd), (0x20, 0x20), (0x85, 0x85), (0xa0, 0xa0), (0x1680, 0x1680), (0x2000, 0x200a),
    (0x2028, 0x2029), (0x202f, 0x202f), (0x205f, 0x205f), (0x3000, 0x3000)]

def isSpace (c : Char) : Bool :=
  spaceRanges.any fun r => r.1 ≤ c.toNat && c.toNat ≤ r.2

def squeeze (cs : List Char) : List Char :=
  cs.filter fun c => !isSpace c

theorem not_isSpace_of_isDigit {c : Char} (h : c.isDigit = true) : isSpace c = false := by
  obtain ⟨h0, h9⟩ : 48 ≤ c.toNat ∧ c.toNat ≤ 57 := Char.isDigit_iff_toNat.1 h
  simp [isSpace, spaceRanges]
  omega

theorem not_isSpace_of_mem_squeeze {c : Char} {cs : List Char} (h : c ∈ squeeze cs) :
    isSpace c = false := by
  simpa using (List.mem_filter.1 h).2

theorem squeeze_append (a b : List Char) : squeeze (a ++ b) = squeeze a ++ squeeze b :=
  List.filter_append ..

theorem squeeze_eq_self {cs : List Char} (h : ∀ c ∈ cs, isSpace c = false) : squeeze cs = cs :=
  List.filter_eq_self.2 fun c hc => by simp [h c hc]

theorem squeeze_squeeze (cs : List Char) : squeeze (squeeze cs) = squeeze cs :=
  squeeze_eq_self fun _ => not_isSpace_of_mem_squeeze

end TapeLang.Text
