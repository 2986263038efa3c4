import ProjectAssembler.FileSystem.PathSet
import ProjectAssembler.Proofs.OrderedLists
import ProjectAssembler.Proofs.Path.Order

/-!
# What a set of files holds

A set of files is an ascending list of paths.  Adding the file that a path means makes the set hold
the path's normal form and nothing else that it did not hold before.

Main definition: `PathSet.Ascending`.

Main results:

* `PathSet.holds_insert`, `PathSet.holds_extend`: what a set holds after files have been added;
* `PathSet.ascending_extend`: adding files keeps a set ascending;
* `PathSet.eq_of_mem_iff`: ascending sets with the same elements are equal.
-/

namespace ProjectAssembler
namespace PathSet

/-- The paths of a set are strictly ascending. -/
def Ascending (set : PathSet) : Prop :=
  OrderedList.Ascending Path.compare set.paths

theorem holds_iff {set : PathSet} {normal : Path} :
    set.holds normal = true ↔ ∃ element ∈ set.paths, element.same normal = true := by
  simp [holds]

@[simp]
theorem ascending_empty : empty.Ascending :=
  OrderedList.ascending_nil

/-- An insertion adds the normal form of the path and nothing else. -/
theorem holds_insert {system : FileSystem} {set : PathSet} {path normal : Path} :
    (set.insert system path).holds normal = true ↔
      set.holds normal = true ∨ (system.normalPath path).same normal = true := by
  simp only [holds_iff]
  constructor
  · rintro ⟨element, helement, hsame⟩
    rcases mem_of_mem_insert helement with rfl | helement
    · exact Or.inr hsame
    · exact Or.inl ⟨element, helement, hsame⟩
  · rintro (⟨element, helement, hsame⟩ | hsame)
    · exact ⟨element, mem_insert_of_mem helement, hsame⟩
    · obtain ⟨element, helement, heq⟩ : ∃ element ∈ (set.insert system path).paths,
          Path.compare element (system.normalPath path) = .eq :=
        OrderedList.exists_eq_insert (system.normalPath path) set.paths
      have hnormal : element.same (system.normalPath path) = true :=
        Path.compare_eq_iff_same.1 heq
      exact ⟨element, helement, by simp_all [Path.same]⟩

/-- Adding files adds the normal forms of their paths and nothing else. -/
theorem holds_extend {system : FileSystem} {set : PathSet} {paths : List Path} {normal : Path} :
    (set.extend system paths).holds normal = true ↔
      set.holds normal = true ∨ ∃ path ∈ paths, (system.normalPath path).same normal = true := by
  induction paths generalizing set with
  | nil => simp
  | cons path rest ih =>
      rw [extend_cons, ih, holds_insert]
      simp [or_assoc]

/-- An element after files have been added was there before, or is the normal form of a path. -/
theorem mem_of_mem_extend {system : FileSystem} {set : PathSet} {paths : List Path}
    {element : Path} (h : element ∈ (set.extend system paths).paths) :
    element ∈ set.paths ∨ ∃ path ∈ paths, element = system.normalPath path := by
  induction paths generalizing set with
  | nil => exact Or.inl h
  | cons path rest ih =>
      rcases ih h with hinsert | ⟨other, hother, heq⟩
      · rcases mem_of_mem_insert hinsert with heq | hmem
        · exact Or.inr ⟨path, by simp, heq⟩
        · exact Or.inl hmem
      · exact Or.inr ⟨other, List.mem_cons_of_mem _ hother, heq⟩

/-- Adding files keeps a set ascending. -/
theorem ascending_extend {system : FileSystem} {set : PathSet} (h : set.Ascending)
    (paths : List Path) : (set.extend system paths).Ascending := by
  induction paths generalizing set with
  | nil => exact h
  | cons path rest ih => exact ih (OrderedList.ascending_insert h)

/-- Ascending sets with the same elements are equal. -/
theorem eq_of_mem_iff {first second : PathSet} (hfirst : first.Ascending)
    (hsecond : second.Ascending) (h : ∀ path, path ∈ first.paths ↔ path ∈ second.paths) :
    first = second := by
  have hpaths : first.paths = second.paths := hfirst.eq_of_mem_iff hsecond h
  cases first
  cases second
  exact congrArg PathSet.mk hpaths

end PathSet
end ProjectAssembler
