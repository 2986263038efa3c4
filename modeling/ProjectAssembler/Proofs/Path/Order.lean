import ProjectAssembler.Path.Basic

/-!
# The order of paths

Paths are ordered by their components, and components by their kind and then by their name.  Both
orders are oriented and transitive, so that a list which is ascending from one path to the next is
ascending throughout.

Main results: `Path.compareComponents_eq_compareLex`, the order of paths is lexicographic, and the
instances that say that `Path.compare` is an order.
-/

namespace ProjectAssembler
namespace Path

/-- The name in a component; other components have none. -/
def Component.label : Component → String
  | name text => text
  | _ => ""

/-- Components are ordered by their kind, and by their names among names. -/
theorem Component.compare_eq_compareLex (a b : Component) :
    a.compare b = compareLex (compareOn Component.rank) (compareOn Component.label) a b := by
  cases a <;> cases b <;> rfl

instance : Std.TransCmp Component.compare := by
  have h : Component.compare =
      compareLex (compareOn Component.rank) (compareOn Component.label) := by
    funext a b
    exact Component.compare_eq_compareLex a b
  rw [h]
  infer_instance

/-- Component sequences are ordered lexicographically. -/
theorem compareComponents_eq_compareLex (as bs : List Component) :
    compareComponents as bs = List.compareLex Component.compare as bs := by
  induction as generalizing bs with
  | nil => cases bs <;> simp [compareComponents, List.compareLex]
  | cons a as ih =>
      cases bs with
      | nil => simp [compareComponents, List.compareLex]
      | cons b bs =>
          rw [List.compareLex_cons_cons, ← ih bs, compareComponents]
          cases a.compare b <;> rfl

/-- The order of paths is oriented and transitive. -/
instance : Std.TransCmp Path.compare where
  eq_swap {p q} := by
    simp only [Path.compare, compareComponents_eq_compareLex]
    exact Std.OrientedCmp.eq_swap
  isLE_trans {p q r} hpq hqr := by
    simp only [Path.compare, compareComponents_eq_compareLex] at *
    exact Std.TransCmp.isLE_trans hpq hqr

/-- Paths compare equal exactly when they are the same. -/
theorem compare_eq_iff_same {p q : Path} : p.compare q = .eq ↔ p.same q = true := by
  rw [compare_eq_iff]
  simp [same]

end Path
end ProjectAssembler
