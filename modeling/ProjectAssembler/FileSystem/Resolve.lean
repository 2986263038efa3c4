import ProjectAssembler.FileSystem.Trail
import ProjectAssembler.Text.Utf8

/-!
# The meaning of a path

A path is followed name by name from the root or the working directory.  Each name needs a
directory to be looked up in; a link continues with its target.  The number of links on one way is
bounded.  A working directory that has been removed is an empty directory, from which only `..`
leads on.

Main definitions:

* `FileSystem.followTrail` and `FileSystem.follow`: the location that a way leads to;
* `FileSystem.Place`: a location, or a directory that has been removed;
* `FileSystem.resolve`: what a path means;
* `FileSystem.isDirectory`, `FileSystem.isFile` and `FileSystem.readText`: what is there.

Main results: `FileSystem.followTrail_nil`, `FileSystem.leaveRemoved_zero` and
`FileSystem.resolve_empty`.
-/

namespace ProjectAssembler
namespace FileSystem

/-- The number of links that one way may pass. -/
def linkLimit : Nat :=
  40

/-- The number of bytes that a name may have. -/
def nameLimit : Nat :=
  255

/-- The number of bytes that a path has to stay below. -/
def pathLimit : Nat :=
  4096

/-- The steps that a path's text asks for, one for each text between separators. -/
def steps (path : Path) : List String :=
  path.segments.map String.ofList

/-- Whether a step stays where it is. -/
def isStay (step : String) : Bool :=
  step == "" || step == "."

/-- What a way is followed for. -/
structure Purpose where
  /-- Whether a link at the end is followed. -/
  followLast : Bool
  /-- Whether the last name may be missing. -/
  mayBeMissing : Bool
  /-- Whether the path of every place on the way is written out, so that it must not be too long. -/
  writesOut : Bool
deriving DecidableEq, Repr

/-- Follow everything and find something that exists. -/
def Purpose.existing : Purpose :=
  ⟨true, false, false⟩

/-- Find the entry itself, be it a link or not. -/
def Purpose.entry : Purpose :=
  ⟨false, false, false⟩

/-- Follow everything and find a place for a file. -/
def Purpose.file : Purpose :=
  ⟨true, true, false⟩

/-- Find a place for an entry of its own, not for what a link there stands for. -/
def Purpose.newEntry : Purpose :=
  ⟨false, true, false⟩

/-- Follow everything and write the way out without links. -/
def Purpose.spelling : Purpose :=
  ⟨true, false, true⟩

/-- Whether a name, looked up in the innermost directory of a trail, is too long for a purpose. -/
def Purpose.tooLong (purpose : Purpose) (trail : Trail) (name : String) : Bool :=
  nameLimit < name.utf8ByteSize ||
    (purpose.writesOut &&
      pathLimit ≤ (Path.ofNames (trail.location ++ [name])).text.utf8ByteSize)

/-- Where a way leads that begins inside of the directories of a trail and may still pass a number
of links.  Every step needs a directory. -/
def followTrail (system : FileSystem) (purpose : Purpose) (links : Nat) (trail : Trail)
    (way : List String) : Except AccessError Location :=
  match way with
  | [] => .ok trail.location
  | step :: rest =>
      if isStay step then followTrail system purpose links trail rest
      else if step = ".." then followTrail system purpose links trail.tail rest
      else if purpose.tooLong trail step then .error .other
      else
        match (trail.entries system.root).lookup step with
        | none =>
            if purpose.mayBeMissing ∧ rest = [] then .ok (trail.location ++ [step])
            else .error .notFound
        | some (.directory inner) => followTrail system purpose links ((step, inner) :: trail) rest
        | some (.file _) => if rest = [] then .ok (trail.location ++ [step]) else .error .other
        | some (.link target) =>
            if purpose.followLast = false ∧ rest = [] then .ok (trail.location ++ [step])
            else
              match links with
              | 0 => .error .other
              | links + 1 =>
                  followTrail system purpose links (if target.isAbsolute then [] else trail)
                    (steps target ++ rest)
termination_by (links, way.length)

/-- Where a way leads that begins in the directory at a location and may still pass a number of
links. -/
def follow (system : FileSystem) (purpose : Purpose) (links : Nat) (here : Location)
    (way : List String) : Except AccessError Location :=
  match system.trailTo? here with
  | some trail => followTrail system purpose links trail way
  | none => .error .notFound

/-- A way without steps stays where it begins. -/
@[simp]
theorem followTrail_nil (system : FileSystem) (purpose : Purpose) (links : Nat) (trail : Trail) :
    followTrail system purpose links trail [] = .ok trail.location := by
  unfold followTrail
  rfl

/-- Whether a path can be asked for at all: it is not too long and holds no null character. -/
def admissible (path : Path) : Bool :=
  path.text.utf8ByteSize < pathLimit && !path.text.toList.contains '\x00'

/-- What a path leads to. -/
inductive Place where
  | standing (location : Location)
  /-- A directory that has been removed. -/
  | removed
deriving DecidableEq, Repr

/-- The entry at a place; a removed directory is empty. -/
def entryAt? (system : FileSystem) : Place → Option Node
  | .standing location => system.node? location
  | .removed => some (.directory [])

/-- Where the way of a path begins; nowhere for a relative path when the working directory has been
removed. -/
def origin? (system : FileSystem) (path : Path) : Option Location :=
  if path.isAbsolute then some [] else system.workingDirectory.location?

/-- What is left of a way after a number of removed directories, the innermost of which it begins
in; nothing if it ends in one of them.  They hold no names, and `..` leads out of each. -/
def leaveRemoved : Nat → List String → Except AccessError (Option (List String))
  | 0, way => .ok (some way)
  | _ + 1, [] => .ok none
  | removed + 1, step :: rest =>
      if isStay step then leaveRemoved (removed + 1) rest
      else if step = ".." then leaveRemoved removed rest
      else .error .notFound

/-- Where a way leads that begins at the root or in the working directory. -/
def followFrom (system : FileSystem) (purpose : Purpose) (absolute : Bool) (way : List String) :
    Except AccessError Place :=
  if absolute then (follow system purpose linkLimit [] way).map .standing
  else
    match leaveRemoved system.workingDirectory.removed way with
    | .error error => .error error
    | .ok none => .ok .removed
    | .ok (some way) =>
        (follow system purpose linkLimit system.workingDirectory.standing way).map .standing

/-- What a path means for a purpose. -/
def resolveFor (system : FileSystem) (purpose : Purpose) (path : Path) :
    Except AccessError Place :=
  if !admissible path then .error .other
  else if path.text.isEmpty then .error .notFound
  else followFrom system purpose path.isAbsolute (steps path)

/-- What a path means, all links followed. -/
def resolve (system : FileSystem) (path : Path) : Except AccessError Place :=
  resolveFor system .existing path

@[simp]
theorem resolve_empty (system : FileSystem) : system.resolve ⟨""⟩ = .error .notFound := by
  simp [resolve, resolveFor, admissible, pathLimit]

/-- Without removed directories a way is followed from where it begins. -/
@[simp]
theorem leaveRemoved_zero (way : List String) : leaveRemoved 0 way = .ok (some way) := by
  cases way <;> rfl

/-! ## What is at a path -/

/-- The entry that a path means, all links followed. -/
def find? (system : FileSystem) (path : Path) : Option Node :=
  match system.resolve path with
  | .ok place => system.entryAt? place
  | .error _ => none

/-- Whether something exists at a path. -/
def exists? (system : FileSystem) (path : Path) : Bool :=
  (system.find? path).isSome

/-- Whether a path means a directory. -/
def isDirectory (system : FileSystem) (path : Path) : Bool :=
  (system.find? path).any Node.isDirectory

/-- Whether a path means a regular file. -/
def isFile (system : FileSystem) (path : Path) : Bool :=
  (system.find? path).any Node.isFile

/-- Whether a path names a link itself. -/
def isLink (system : FileSystem) (path : Path) : Bool :=
  match system.resolveFor .entry path with
  | .ok place => (system.entryAt? place).any Node.isLink
  | .error _ => false

/-- The text of the file at a path. -/
def readText (system : FileSystem) (path : Path) : Except AccessError String :=
  match system.resolve path with
  | .error error => .error error
  | .ok place =>
      match system.entryAt? place with
      | some (.file (some text)) => .ok text
      | some (.file none) => .error .notText
      | some _ => .error .other
      | none => .error .notFound

/-- The entries of the directory at a path, in the order of enumeration. -/
def readDirectory (system : FileSystem) (path : Path) : Except AccessError Entries :=
  match system.resolve path with
  | .error error => .error error
  | .ok place =>
      match system.entryAt? place with
      | some (.directory entries) => .ok entries
      | some _ => .error .other
      | none => .error .notFound

end FileSystem
end ProjectAssembler
