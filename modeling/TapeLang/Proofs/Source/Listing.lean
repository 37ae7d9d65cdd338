import TapeLang.Source.Canonical

/-! Rules in any order. A table is what is left of its rules when the last of each key counts,
`RuleTable.getElem?_ofRules`; however it is listed, the listing has one sorted form, `Listing.sort_eq`,
and so one source, `Program.sourceOfListing_eq`. -/

namespace TapeLang

namespace RuleTable

@[simp] theorem lookup_cons (k key : Key) (rule : Rule) (rules : List (Key × Rule)) :
    ((key, rule) :: rules).lookup k = if k = key then some rule else rules.lookup k := by
  by_cases h : k = key
  · rw [if_pos h, h, List.lookup_cons_self]
  · have hb : (k == key) = false := beq_eq_false_iff_ne.2 h
    rw [if_neg h, List.lookup_cons, hb]

theorem getElem?_foldl_insert (rules : List (Key × Rule)) (t : RuleTable) (k : Key) :
    (rules.foldl (fun t r => t.insert r.1 r.2) t)[k]? = (rules.reverse.lookup k).or t[k]? := by
  induction rules generalizing t with
  | nil => rfl
  | cons r rules ih =>
    obtain ⟨key, body⟩ := r
    have hone : (t.insert key body)[k]? = ([(key, body)].lookup k).or t[k]? := by
      rw [Std.ExtTreeMap.getElem?_insert]
      by_cases he : k = key
      · simp [he]
      · have hc : compare key k ≠ .eq := fun h => he (Std.LawfulEqOrd.eq_of_compare h).symm
        rw [if_neg hc, lookup_cons, if_neg he]
        rfl
    rw [List.foldl_cons, ih, hone, List.reverse_cons, List.lookup_append, Option.or_assoc]

/-- The last rule of a key counts. -/
theorem getElem?_ofRules (rules : List (Key × Rule)) (k : Key) :
    (ofRules rules)[k]? = rules.reverse.lookup k := by
  rw [ofRules, getElem?_foldl_insert, Std.ExtTreeMap.getElem?_empty, Option.or_none]

theorem ofRules_congr {rules others : List (Key × Rule)}
    (h : ∀ k, rules.reverse.lookup k = others.reverse.lookup k) : ofRules rules = ofRules others := by
  apply Std.ExtTreeMap.ext_getElem?
  intro k
  rw [getElem?_ofRules, getElem?_ofRules, h]

end RuleTable

/-- The rules of a table, each once, in any order. -/
structure Listing (t : RuleTable) where
  rules : List (Key × Rule)
  nodup_keys : (rules.map Prod.fst).Nodup
  mem_iff : ∀ k r, (k, r) ∈ rules ↔ t[k]? = some r

namespace Listing

variable {t : RuleTable}

def le (a b : Key × Rule) : Bool :=
  (compare a.1 b.1).isLE

theorem le_total (a b : Key × Rule) : (le a b || le b a) = true := by
  have h : compare a.1 b.1 = (compare b.1 a.1).swap := Std.OrientedCmp.eq_swap
  simp only [le, h]
  cases compare b.1 a.1 <;> rfl

def sort (l : Listing t) : List (Key × Rule) :=
  l.rules.mergeSort le

theorem mem_iff_lookup {rules : List (Key × Rule)} (h : (rules.map Prod.fst).Nodup) (k : Key)
    (r : Rule) : (k, r) ∈ rules ↔ rules.lookup k = some r := by
  induction rules generalizing r with
  | nil => simp
  | cons rule rules ih =>
    obtain ⟨key, body⟩ := rule
    rw [List.map_cons, List.nodup_cons] at h
    rw [List.mem_cons, ih h.2, RuleTable.lookup_cons]
    by_cases he : k = key
    · subst he
      have hnone : rules.lookup k = none := by
        rw [Option.eq_none_iff_forall_ne_some]
        exact fun r' hr' => h.1 (List.mem_map.2 ⟨(k, r'), (ih h.2 r').2 hr', rfl⟩)
      simp [hnone, eq_comm]
    · simp [he]

def ofRules (rules : List (Key × Rule)) (h : (rules.map Prod.fst).Nodup) :
    Listing (RuleTable.ofRules rules) where
  rules := rules
  nodup_keys := h
  mem_iff k r := by
    have hreverse : (rules.reverse.map Prod.fst).Nodup :=
      ((List.reverse_perm rules).map Prod.fst).nodup_iff.2 h
    rw [RuleTable.getElem?_ofRules, ← mem_iff_lookup hreverse, List.mem_reverse]

theorem perm_toList (l : Listing t) : l.rules.Perm t.toList := by
  have htable : t.toList.Nodup := by
    refine Std.ExtTreeMap.distinct_keys_toList.imp ?_
    rintro a _ hne rfl
    exact hne Std.ReflCmp.compare_self
  have hlisting : l.rules.Nodup := by
    refine (List.pairwise_map.1 l.nodup_keys).imp ?_
    rintro a _ hne rfl
    exact hne rfl
  rw [List.perm_ext_iff_of_nodup hlisting htable]
  rintro ⟨k, r⟩
  rw [l.mem_iff, Std.ExtTreeMap.mem_toList_iff_getElem?_eq_some]

theorem eq_of_le {a b : Key × Rule} (l : Listing t) (ha : a ∈ l.rules) (hb : b ∈ l.rules)
    (hab : le a b = true) (hba : le b a = true) : a = b := by
  obtain ⟨k, r⟩ := a
  obtain ⟨k', r'⟩ := b
  obtain rfl : k = k' := Std.LawfulEqOrd.eq_of_compare (Std.OrientedCmp.isLE_antisymm hab hba)
  have hr : some r = some r' := ((l.mem_iff _ _).1 ha).symm.trans ((l.mem_iff _ _).1 hb)
  rw [Option.some.inj hr]

/-- The sorted form of a listing is the one in which the table lists itself. -/
theorem sort_eq (l : Listing t) : l.sort = t.toList := by
  have hperm : l.sort.Perm l.rules := List.mergeSort_perm l.rules le
  have hsorted : l.sort.Pairwise fun a b => le a b = true := by
    apply List.pairwise_mergeSort
    · exact fun a b c => Std.TransCmp.isLE_trans
    · exact le_total
  have htable : t.toList.Pairwise fun a b => le a b = true := by
    refine Std.ExtTreeMap.ordered_keys_toList.imp ?_
    intro a b hlt
    rw [le, hlt]
    rfl
  refine List.Perm.eq_of_pairwise ?_ hsorted htable (hperm.trans l.perm_toList)
  intro a b ha hb
  exact l.eq_of_le (hperm.mem_iff.1 ha) (l.perm_toList.mem_iff.2 hb)

end Listing

namespace Program

def sourceOfListing (p : Program) (l : Listing p.rules) : Except Inexpressible String := do
  let rules ← l.sort.mapM Source.ruleSource
  let tape ← Source.tapeSource p.tape
  Source.checkToken .state p.state
  return "\n".intercalate (rules ++ tape ++ [p.state])

theorem sourceOfListing_eq (p : Program) (l : Listing p.rules) :
    p.sourceOfListing l = p.toSource := by
  simp only [sourceOfListing, l.sort_eq, toSource, sourceLines, bind_assoc, pure_bind]

theorem toSource_congr {p q : Program} (ht : p.tape = q.tape) (hs : p.state = q.state)
    (hr : p.rules = q.rules) : p.toSource = q.toSource := by
  rw [toSource, toSource, sourceLines_congr ht hs hr]

end Program

end TapeLang
