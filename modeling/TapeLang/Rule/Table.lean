import Std.Data.ExtTreeMap
import TapeLang.Rule.Basic

/-! Rule tables: finite maps from keys to bodies, equal when they hold the same rules. Keys are in order
of their symbol and then of their state; the pattern for anything comes before the literals, and
those are ordered by code point. -/

namespace TapeLang

instance : Ord Pattern := ⟨compareOn Pattern.literal?⟩

instance : Std.TransOrd Pattern :=
  inferInstanceAs (Std.TransCmp (compareOn Pattern.literal?))

theorem Pattern.literal?_inj {p q : Pattern} (h : p.literal? = q.literal?) : p = q := by
  cases p <;> cases q <;> simp_all [Pattern.literal?]

instance : Std.LawfulEqOrd Pattern where
  eq_of_compare h := Pattern.literal?_inj (Std.LawfulEqOrd.eq_of_compare h)

instance : Ord Key := ⟨compareLex (compareOn Key.symbol) (compareOn Key.state)⟩

instance : Std.TransOrd Key :=
  inferInstanceAs (Std.TransCmp (compareLex (compareOn Key.symbol) (compareOn Key.state)))

theorem Key.compare_eq_then (a b : Key) :
    compare a b = (compare a.symbol b.symbol).then (compare a.state b.state) := rfl

instance : Std.LawfulEqOrd Key where
  eq_of_compare {a b} h := by
    rw [Key.compare_eq_then, Ordering.then_eq_eq] at h
    cases a
    cases b
    simp_all

abbrev RuleTable := Std.ExtTreeMap Key Rule

namespace RuleTable

/-- The table of the rules, each replacing an earlier one of the same key. -/
def ofRules (rules : List (Key × Rule)) : RuleTable :=
  rules.foldl (fun t r => t.insert r.1 r.2) ∅

end RuleTable

end TapeLang
