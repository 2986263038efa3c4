import ProjectAssembler.FileSystem.Error
import ProjectAssembler.Path.Basic

/-!
# File systems

A file system is a tree of named entries.  Directories hold their entries in the order in which
they are enumerated; files hold a text, or bytes that are no text; links hold the path they stand
for.

Main definitions:

* `Node`: an entry;
* `FileSystem`: the entries of the root and the working directory;
* `Location`: the names that lead from the root to an entry without passing a link;
* `WorkingDirectory`: where relative paths begin, also when it has been removed;
* `FileSystem.node?`: the entry at a location.
-/

namespace ProjectAssembler

/-- An entry of a file system. -/
inductive Node where
  /-- A regular file; `none` stands for bytes that are not the UTF-8 form of a text. -/
  | file (text : Option String)
  | directory (entries : List (String × Node))
  | link (target : Path)
deriving Repr, Inhabited

/-- The entries of a directory, in the order of enumeration. -/
abbrev Entries : Type :=
  List (String × Node)

/-- The names that lead from the root to an entry. -/
abbrev Location : Type :=
  List String

/-- Where relative paths begin.  A directory that is removed while a process works in it stays its
working directory, empty and without a path of its own; only its parents can be reached from it. -/
structure WorkingDirectory where
  /-- The innermost directory on the way to it that has not been removed. -/
  standing : Location
  /-- The number of removed directories from there on; none if it stands itself. -/
  removed : Nat
deriving DecidableEq, Repr, Inhabited

/-- A file system as a process sees it. -/
structure FileSystem where
  root : Entries
  workingDirectory : WorkingDirectory
deriving Repr, Inhabited

/-- A file system without entries, seen from its root. -/
def FileSystem.empty : FileSystem :=
  ⟨[], ⟨[], 0⟩⟩

namespace Node

/-- Whether an entry is a directory itself, not a link to one. -/
def isDirectory : Node → Bool
  | directory _ => true
  | _ => false

/-- Whether an entry is a regular file itself, not a link to one. -/
def isFile : Node → Bool
  | file _ => true
  | _ => false

/-- Whether an entry is a link. -/
def isLink : Node → Bool
  | link _ => true
  | _ => false

/-- The entries of a directory; none for anything else. -/
def entries : Node → Entries
  | directory entries => entries
  | _ => []

/-- The entry that names lead to, without passing a link. -/
def descend? : Node → Location → Option Node
  | node, [] => some node
  | directory entries, name :: rest =>
      match entries.lookup name with
      | some node => node.descend? rest
      | none => none
  | _, _ :: _ => none

@[simp]
theorem descend?_nil (node : Node) : node.descend? [] = some node := by
  cases node <;> rfl

/-- Names that lead on from an entry which names lead to. -/
theorem descend?_append (node : Node) (first second : Location) :
    node.descend? (first ++ second) = (node.descend? first).bind (·.descend? second) := by
  induction first generalizing node with
  | nil => simp
  | cons name rest ih =>
      cases node with
      | directory entries =>
          simp only [List.cons_append, descend?]
          cases entries.lookup name with
          | none => rfl
          | some node => exact ih node
      | file text => rfl
      | link target => rfl

end Node

namespace WorkingDirectory

/-- The location of a working directory; none when it has been removed. -/
def location? (directory : WorkingDirectory) : Option Location :=
  if directory.removed = 0 then some directory.standing else none

/-- A working directory after the removal of whatever is at a location or below it.  Of the way to
it, `kept` still stands if it led through that location. -/
def afterRemoval (directory : WorkingDirectory) (location kept : Location) : WorkingDirectory :=
  if location.isPrefixOf directory.standing then
    ⟨kept, directory.removed + (directory.standing.length - kept.length)⟩
  else directory

/-- A working directory that stands has a location. -/
@[simp]
theorem location?_standing (location : Location) :
    (⟨location, 0⟩ : WorkingDirectory).location? = some location :=
  rfl

end WorkingDirectory

namespace FileSystem

/-- The entry at a location. -/
def node? (system : FileSystem) (location : Location) : Option Node :=
  (Node.directory system.root).descend? location

/-- The path of the working directory; none when it has been removed. -/
def workingPath? (system : FileSystem) : Option Path :=
  system.workingDirectory.location?.map Path.ofNames

/-- The absolute path for a path.  Where the working directory has been removed a relative path
stays as it is. -/
def absolutePath (system : FileSystem) (path : Path) : Path :=
  match system.workingPath? with
  | some directory => directory.join path
  | none => path

@[simp]
theorem node?_root (system : FileSystem) : system.node? [] = some (.directory system.root) := by
  simp [node?]

end FileSystem
end ProjectAssembler
