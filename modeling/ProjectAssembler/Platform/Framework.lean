import ProjectAssembler.FileSystem.Resolve
import ProjectAssembler.Platform.Version

/-!
# Finding the base libraries

An installation keeps the base libraries of each of its versions in a directory that is named for
the version.

Main definitions:

* `Framework.versions`: the versions of an installation with their directories;
* `Framework.newest?`: the directory of the newest one.

Main result: `Framework.newest?_mem`, a directory that is found belongs to one of the versions.
-/

namespace ProjectAssembler
namespace Framework

/-- The directory below the root of an installation that holds one directory for each version. -/
def versionsPath (root : Path) : Path :=
  (root.child "shared").child "Microsoft.NETCore.App"

/-- The version that an entry of a directory is for, if it leads to a directory. -/
def versionOf? (system : FileSystem) (directory : Path) (entry : String × Node) :
    Option (Version × Path) :=
  if system.isDirectory (directory.child entry.1) then
    (Version.parse? entry.1).map fun version => (version, directory.child entry.1)
  else none

/-- The versions of an installation with their directories. -/
def versions (system : FileSystem) (root : Path) : List (Version × Path) :=
  match system.readDirectory (versionsPath root) with
  | .ok entries => entries.filterMap (versionOf? system (versionsPath root))
  | .error _ => []

/-- The later one of two versions; the second one if they are equal. -/
def later (a b : Version × Path) : Version × Path :=
  if a.1.compare b.1 = .gt then a else b

/-- The latest version of a list. -/
def latest? : List (Version × Path) → Option (Version × Path)
  | [] => none
  | first :: rest => some (rest.foldl later first)

/-- The directory of the newest version of an installation. -/
def newest? (system : FileSystem) (root : Path) : Option Path :=
  (latest? (versions system root)).map (·.2)

theorem later_eq (a b : Version × Path) : later a b = a ∨ later a b = b := by
  unfold later
  split <;> simp

theorem foldl_later_mem (first : Version × Path) (rest : List (Version × Path)) :
    rest.foldl later first ∈ first :: rest := by
  induction rest generalizing first with
  | nil => simp
  | cons next rest ih =>
      rw [List.foldl_cons]
      rcases List.mem_cons.1 (ih (later first next)) with h | h
      · rw [h]
        rcases later_eq first next with heq | heq <;> simp [heq]
      · simp [h]

/-- A directory that is found belongs to one of the versions. -/
theorem newest?_mem {system : FileSystem} {root path : Path} (h : newest? system root = some path) :
    ∃ version, (version, path) ∈ versions system root := by
  unfold newest? at h
  obtain ⟨⟨version, found⟩, hlatest, heq⟩ := Option.map_eq_some_iff.1 h
  cases hversions : versions system root with
  | nil => simp [hversions, latest?] at hlatest
  | cons first rest =>
      simp only [hversions, latest?, Option.some.injEq] at hlatest
      have hmem := foldl_later_mem first rest
      rw [hlatest] at hmem
      simp only at heq
      exact ⟨version, heq ▸ hmem⟩

end Framework
end ProjectAssembler
