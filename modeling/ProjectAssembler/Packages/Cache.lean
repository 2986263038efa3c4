import ProjectAssembler.FileSystem.Listing
import ProjectAssembler.Path.FileName
import ProjectAssembler.Text.Lowercase

/-!
# The package cache

Restored packages lie at `id/version/lib/framework` below the root of a cache.  Caches disagree on
the case of these names, so a package is looked for under the exact path, then under the path in
lower case, and then name by name without regard to case.

Main definitions:

* `PackageCache.exactPath`: where a package should be;
* `PackageCache.searchIgnoringCase`: the search name by name;
* `PackageCache.directory?`: the library directory of a package;
* `PackageCache.libraries`: its libraries.
-/

namespace ProjectAssembler
namespace PackageCache

/-- The names below the root of a cache that lead to a package's libraries. -/
def names (id version framework : String) : List String :=
  [Text.lowercaseString (Text.trimString id), Text.trimString version, "lib",
    Text.trimString framework]

/-- The path below a root that names lead to. -/
def exactPath (root : Path) (names : List String) : Path :=
  names.foldl Path.child root

/-- The path of the first directory among entries whose name is the wanted one up to ASCII case. -/
def firstMatch? (system : FileSystem) (directory : Path) (wanted : String) (entries : Entries) :
    Option Path :=
  (entries.find? fun entry =>
    Text.equalIgnoringCase entry.1 wanted && system.isDirectory (directory.child entry.1)).map
    fun entry => directory.child entry.1

/-- One step down by a name: the exact directory, or the first one enumerated whose name is equal
up to ASCII case. -/
def descendIgnoringCase? (system : FileSystem) (directory : Path) (wanted : String) : Option Path :=
  let exact := directory.child wanted
  if system.isDirectory exact then some exact
  else
    match system.readDirectory directory with
    | .ok entries => firstMatch? system directory wanted entries
    | .error _ => none

/-- The directory that names lead to without regard to case; a choice made on the way is not taken
back. -/
def searchIgnoringCase (system : FileSystem) (directory : Path) : List String → Option Path
  | [] => some directory
  | wanted :: rest =>
      match descendIgnoringCase? system directory wanted with
      | some next => searchIgnoringCase system next rest
      | none => none

theorem searchIgnoringCase_cons (system : FileSystem) (directory : Path) (wanted : String)
    (rest : List String) :
    searchIgnoringCase system directory (wanted :: rest) =
      match descendIgnoringCase? system directory wanted with
      | some next => searchIgnoringCase system next rest
      | none => none := by
  rfl

/-- The library directory of a package for a framework. -/
def directory? (system : FileSystem) (root : Path) (id version framework : String) :
    Option Path :=
  let names := names id version framework
  let exact := exactPath root names
  let lowered : Path := ⟨Text.lowercaseString exact.text⟩
  if system.isDirectory exact then some exact
  else if system.isDirectory lowered then some lowered
  else searchIgnoringCase system root names

/-- The libraries of a package for a framework; none for a package that is not in the cache. -/
def libraries (system : FileSystem) (root : Path) (id version framework : String) : List Path :=
  match directory? system root id version framework with
  | none => []
  | some directory =>
      match system.listFiles directory Path.isLibrary with
      | .ok files => files
      | .error _ => []

/-- A package that lies exactly where it should is found there. -/
theorem directory?_of_exact {system : FileSystem} {root : Path} {id version framework : String}
    (h : system.isDirectory (exactPath root (names id version framework)) = true) :
    directory? system root id version framework =
      some (exactPath root (names id version framework)) := by
  simp [directory?, h]

end PackageCache
end ProjectAssembler
