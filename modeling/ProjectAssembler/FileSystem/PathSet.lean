import ProjectAssembler.FileSystem.Canonical
import ProjectAssembler.OrderedList

/-!
# Sets of files

The files of a project are collected in a set.  Every path is brought to its normal form first, so
that a file which is reached by several spellings is kept once; the elements are in path order.

Main definitions: `PathSet`, `PathSet.insert`, `PathSet.extend`, `PathSet.contains` and
`PathSet.retain`.

Main results:

* `PathSet.mem_of_mem_insert`, `PathSet.mem_insert_of_mem`: what an insertion leaves in the set;
* `PathSet.mem_retain`: what a selection leaves in the set.
-/

namespace ProjectAssembler

/-- A set of files, as the ascending list of their normal paths. -/
structure PathSet where
  paths : List Path
deriving DecidableEq, Repr

namespace PathSet

/-- The set without elements. -/
def empty : PathSet :=
  ⟨[]⟩

/-- Whether a set holds a path that is normal already. -/
def holds (set : PathSet) (normal : Path) : Bool :=
  set.paths.any (·.same normal)

/-- Add a path that is normal already. -/
def insertNormal (set : PathSet) (normal : Path) : PathSet :=
  ⟨OrderedList.insert Path.compare normal set.paths⟩

/-- Whether a set holds the file that a path means. -/
def contains (system : FileSystem) (set : PathSet) (path : Path) : Bool :=
  set.holds (system.normalPath path)

/-- Add the file that a path means. -/
def insert (system : FileSystem) (set : PathSet) (path : Path) : PathSet :=
  set.insertNormal (system.normalPath path)

/-- Add the files that paths mean. -/
def extend (system : FileSystem) (set : PathSet) (paths : List Path) : PathSet :=
  paths.foldl (insert system) set

/-- Keep the elements that satisfy a test. -/
def retain (set : PathSet) (keep : Path → Bool) : PathSet :=
  ⟨set.paths.filter keep⟩

/-- The number of elements. -/
def size (set : PathSet) : Nat :=
  set.paths.length

/-- Whether a set has no elements. -/
def isEmpty (set : PathSet) : Bool :=
  set.paths.isEmpty

@[simp]
theorem paths_empty : empty.paths = [] :=
  rfl

@[simp]
theorem extend_nil (system : FileSystem) (set : PathSet) : set.extend system [] = set :=
  rfl

@[simp]
theorem extend_cons (system : FileSystem) (set : PathSet) (path : Path) (paths : List Path) :
    set.extend system (path :: paths) = (set.insert system path).extend system paths :=
  rfl

/-- Files that are added one list after the other. -/
theorem extend_append (system : FileSystem) (set : PathSet) (first second : List Path) :
    set.extend system (first ++ second) = (set.extend system first).extend system second := by
  simp [extend]

/-- An element after an insertion was there before, or is the normal form of the path. -/
theorem mem_of_mem_insert {system : FileSystem} {set : PathSet} {path element : Path}
    (h : element ∈ (set.insert system path).paths) :
    element = system.normalPath path ∨ element ∈ set.paths :=
  OrderedList.mem_of_mem_insert h

/-- An insertion loses nothing. -/
theorem mem_insert_of_mem {system : FileSystem} {set : PathSet} {path element : Path}
    (h : element ∈ set.paths) : element ∈ (set.insert system path).paths :=
  OrderedList.mem_insert_of_mem h

/-- Only elements that satisfy the test are kept. -/
@[simp]
theorem mem_retain {set : PathSet} {keep : Path → Bool} {path : Path} :
    path ∈ (set.retain keep).paths ↔ path ∈ set.paths ∧ keep path = true := by
  simp [retain]

end PathSet
end ProjectAssembler
