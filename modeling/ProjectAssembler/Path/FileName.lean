import ProjectAssembler.Path.Basic
import ProjectAssembler.Text.AsciiCase

/-!
# File names

The last name of a path, its parts before and after the last dot, and the kinds of files that are
told apart by them.

Main definitions: `Path.fileName?`, `Path.stem?`, `Path.extension?` and `Path.hasExtension`.
-/

namespace ProjectAssembler
namespace Path

/-- The last component of a path, if it is a name. -/
def fileName? (path : Path) : Option String :=
  match path.components.getLast? with
  | some (.name text) => some text
  | _ => none

/-- A file name cut at its last dot: the part before it, and the part after it if there is one.  A
dot at the very beginning, with no other one, does not cut. -/
def cutAtDot (name : String) : String × Option String :=
  let reversed := name.toList.reverse
  match reversed.dropWhile (· != '.') with
  | [] => (name, none)
  | [_] => (name, none)
  | _ :: stem =>
      (String.ofList stem.reverse, some (String.ofList (reversed.takeWhile (· != '.')).reverse))

/-- The file name without its extension. -/
def stem? (path : Path) : Option String :=
  path.fileName?.map fun name => (cutAtDot name).1

/-- The part of the file name after its last dot. -/
def extension? (path : Path) : Option String :=
  path.fileName?.bind fun name => (cutAtDot name).2

/-- Whether a path has a given extension, up to ASCII case. -/
def hasExtension (path : Path) (extension : String) : Bool :=
  path.extension?.any fun own => Text.equalIgnoringCase own extension

/-- The extension of source files. -/
def sourceExtension : String :=
  "cs"

/-- The extension of libraries. -/
def libraryExtension : String :=
  "dll"

/-- Whether a path names a source file. -/
def isSource (path : Path) : Bool :=
  path.hasExtension sourceExtension

/-- Whether a path names a library. -/
def isLibrary (path : Path) : Bool :=
  path.hasExtension libraryExtension

/-- The names of directories that hold build output and no sources. -/
def isBuildOutput (name : String) : Bool :=
  name == "bin" || name == "obj"

end Path
end ProjectAssembler
