import ProjectAssembler.FileSystem.Resolve
import ProjectAssembler.Path.Lexical

/-!
# Canonical and normal paths

The canonical path of something is its absolute path without links.  It is written out name by
name: however long the given path is, every place on the way needs a path that is not too long.
A relative path has a canonical form only while the working directory stands.

Main definitions:

* `FileSystem.canonicalLocation`: the location that a canonical path names;
* `FileSystem.canonical`: the canonical path of what a path means;
* `FileSystem.normalPath`: the canonical path, or the lexically normal one where nothing exists.

Main results: `FileSystem.canonical_empty` and `FileSystem.normalPath_of_canonical`.
-/

namespace ProjectAssembler
namespace FileSystem

/-- The location of what a path means, whose names make up the canonical path. -/
def canonicalLocation (system : FileSystem) (path : Path) : Except AccessError Location :=
  if path.text.toList.contains '\x00' then .error .other
  else if path.text.isEmpty then .error .notFound
  else
    match system.origin? path with
    | some origin => follow system .spelling linkLimit origin (steps path)
    | none => .error .notFound

/-- The absolute path without links of what a path means. -/
def canonical (system : FileSystem) (path : Path) : Except AccessError Path :=
  (system.canonicalLocation path).map Path.ofNames

/-- The path that a file is known by: without links where it exists, otherwise without `.` and
`..`. -/
def normalPath (system : FileSystem) (path : Path) : Path :=
  match system.canonical path with
  | .ok canonical => canonical
  | .error _ => (system.absolutePath path).lexicalNormal

@[simp]
theorem canonical_empty (system : FileSystem) : system.canonical ⟨""⟩ = .error .notFound := by
  simp [canonical, canonicalLocation, Except.map]

/-- A path that means something is known by its canonical form. -/
theorem normalPath_of_canonical {system : FileSystem} {path canonical : Path}
    (h : system.canonical path = .ok canonical) : system.normalPath path = canonical := by
  simp [normalPath, h]

end FileSystem
end ProjectAssembler
