/-!
# Sets of code points

Character properties are given by tables of code point intervals in ascending order.  This module
holds the type of such tables, membership, and the runs that describe a case mapping.

Main definitions:

* `CodePoints.contains`: membership by one pass that stops at the first interval reaching the point;
* `CaseRun.image?`: the image of a code point under one run of a case mapping.
-/

namespace ProjectAssembler
namespace Text

/-- A set of code points, as closed intervals in ascending order. -/
structure CodePoints where
  intervals : List (Nat × Nat)

/-- Membership in ascending intervals: the first one that does not end before `point` decides. -/
def CodePoints.search (point : Nat) : List (Nat × Nat) → Bool
  | [] => false
  | (low, high) :: rest =>
      if point ≤ high then decide (low ≤ point) else CodePoints.search point rest

/-- Whether a character's code point lies in one of the intervals. -/
def CodePoints.contains (set : CodePoints) (c : Char) : Bool :=
  CodePoints.search c.toNat set.intervals

@[simp]
theorem CodePoints.search_nil (point : Nat) : CodePoints.search point [] = false :=
  rfl

/-- A point found lies in one of the intervals. -/
theorem CodePoints.exists_of_search {point : Nat} {intervals : List (Nat × Nat)}
    (h : CodePoints.search point intervals = true) :
    ∃ i ∈ intervals, i.1 ≤ point ∧ point ≤ i.2 := by
  induction intervals with
  | nil => simp at h
  | cons i rest ih =>
      unfold CodePoints.search at h
      split at h
      · exact ⟨i, by simp, by simpa using h, by assumption⟩
      · obtain ⟨j, hj, hp⟩ := ih h
        exact ⟨j, by simp [hj], hp⟩

/-- A run of code points, `step` apart, that a case mapping moves by the same distance. -/
structure CaseRun where
  low : Nat
  high : Nat
  step : Nat
  distance : Int

/-- The image of a code point under a run, if the run covers it. -/
def CaseRun.image? (run : CaseRun) (point : Nat) : Option Nat :=
  if run.low ≤ point ∧ point ≤ run.high ∧ (point - run.low) % run.step = 0 then
    some (point + run.distance).toNat
  else
    none

end Text
end ProjectAssembler
