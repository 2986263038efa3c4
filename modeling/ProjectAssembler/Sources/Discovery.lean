import ProjectAssembler.FileSystem.Listing
import ProjectAssembler.Path.FileName

/-!
# Discovering sources below a directory

A walk visits everything below a directory, depth first and by file name, without following links
and without entering directories of build output.  It reads each directory that it enters, and fails
at the first one that cannot be read, as one whose path is too long cannot.  The sources of a
directory are the source files that the walk meets.

Main definitions:

* `SourceError`: why the sources of a project cannot be found;
* `Node.walk`: the entries below a directory in the order of the walk;
* `FileSystem.visits`: what a walk meets, if it can read all directories that it enters;
* `FileSystem.discover`: the sources below a path;
* `FileSystem.sourceDirectories`: the directories that a walk meets.

Main results:

* `FileSystem.obstacle?_eq_none_iff`, `FileSystem.exists_of_obstacle?`: when a walk fails, and where;
* `FileSystem.visits_eq_ok_iff` and `FileSystem.visits_eq_error_iff`: what a walk meets when it does
  not fail, and what it reports when it does.
-/

namespace ProjectAssembler

/-- Why the sources of a project cannot be found. -/
inductive SourceError where
  /-- A directory does not exist; the pattern that asked for it, if one did. -/
  | missingDirectory (path : Path) (pattern : Option String)
  /-- A walk from a path cannot read the directory at a place. -/
  | walk (path place : Path) (cause : AccessError)
  /-- A directory cannot be listed. -/
  | listing (path : Path) (cause : AccessError)
deriving DecidableEq, Repr

namespace SourceError

/-- The wording of an error. -/
def message : SourceError → String
  | missingDirectory path _ => "source directory does not exist: " ++ path.text
  | walk path _ _ => "failed to scan " ++ path.text
  | listing path _ => "failed to list " ++ path.text

/-- What to do about an error. -/
def help? : SourceError → Option String
  | missingDirectory _ _ => some "check the <Compile> and <Import> paths in the project file"
  | walk _ _ _ => none
  | listing _ _ => none

/-- The code that an error is known by. -/
def code : SourceError → String
  | missingDirectory _ _ => "wharf::sources::missing_directory"
  | walk _ _ _ => "wharf::sources::walk"
  | listing _ _ => "wharf::sources::io"

end SourceError

/-- An entry met on a walk. -/
structure Visit where
  path : Path
  node : Node

/-- Whether a walk leaves an entry out with everything below it. -/
def Node.isPruned (name : String) (node : Node) : Bool :=
  node.isDirectory && Path.isBuildOutput name

/-- What a walk meets at an entry, under the entry's name. -/
abbrev Visits : Type :=
  String × List Visit

/-- Put the visits of the entries of a directory in the order of their names. -/
def arrange (visits : List Visits) : List Visit :=
  (OrderedList.ofList (fun a b => compare a.1 b.1) visits).flatMap (·.2)

mutual

/-- The entries below a directory with a given path, in the order of the walk. -/
def Node.walk (path : Path) : Node → List Visit
  | .directory entries => arrange (walkEach path entries)
  | _ => []
termination_by structural node => node

/-- What the walk meets at each of the entries of a directory with a given path. -/
def walkEach (path : Path) : List (String × Node) → List Visits
  | [] => []
  | (name, node) :: rest =>
      (name,
        if node.isPruned name then []
        else ⟨path.child name, node⟩ :: node.walk (path.child name)) :: walkEach path rest
termination_by structural entries => entries

end

namespace FileSystem

/-- The entries below a directory in the order of the walk; none where there is no directory. -/
def walk (system : FileSystem) (path : Path) : List Visit :=
  match system.find? path with
  | some node => node.walk path
  | none => []

/-- The directories that a walk enters, in the order of the walk. -/
def entered (system : FileSystem) (path : Path) : List Path :=
  path :: ((system.walk path).filter (·.node.isDirectory)).map Visit.path

/-- What a walk from a path reports when it cannot read the directory at a place. -/
def failure? (system : FileSystem) (path place : Path) : Option SourceError :=
  match system.readDirectory place with
  | .ok _ => none
  | .error cause => some (.walk path place cause)

/-- What a walk reports about the first directory that it cannot read, if there is one. -/
def obstacle? (system : FileSystem) (path : Path) : Option SourceError :=
  (system.entered path).findSome? (system.failure? path)

/-- What a walk meets, unless it cannot read a directory that it enters. -/
def visits (system : FileSystem) (path : Path) : Except SourceError (List Visit) :=
  match system.obstacle? path with
  | some error => .error error
  | none => .ok (system.walk path)

/-- The sources among what a walk meets. -/
def sourcesAmong (visits : List Visit) : List Path :=
  (visits.filter fun visit => visit.node.isFile && visit.path.isSource).map Visit.path

/-- The directories among what a walk from a path meets.  The path itself counts unless it is that
of a link. -/
def directoriesAmong (system : FileSystem) (path : Path) (visits : List Visit) : List Path :=
  (if system.isLink path then [] else [path]) ++
    (visits.filter (·.node.isDirectory)).map Visit.path

/-- The sources below a directory, in the order of the walk. -/
def discover (system : FileSystem) (path : Path) : Except SourceError (List Path) :=
  if system.isDirectory path then (system.visits path).map sourcesAmong
  else .error (.missingDirectory path none)

/-- The directories that a walk from a directory meets. -/
def sourceDirectories (system : FileSystem) (path : Path) : Except SourceError (List Path) :=
  (system.visits path).map (system.directoriesAmong path)

/-- Where there is no directory there are no sources. -/
theorem discover_of_not_isDirectory {system : FileSystem} {path : Path}
    (h : system.isDirectory path = false) :
    system.discover path = .error (.missingDirectory path none) := by
  simp [discover, h]

/-! ## Walks that fail -/

variable {system : FileSystem} {path : Path}

/-- A walk does not fail if it can read all directories that it enters. -/
theorem obstacle?_eq_none_iff :
    system.obstacle? path = none ↔
      ∀ place ∈ system.entered path, ∃ entries, system.readDirectory place = .ok entries := by
  rw [obstacle?, List.findSome?_eq_none_iff]
  refine forall₂_congr fun place _ => ?_
  unfold failure?
  cases system.readDirectory place <;> simp

/-- A walk fails at a directory that it enters and cannot read. -/
theorem exists_of_obstacle? {error : SourceError} (h : system.obstacle? path = some error) :
    ∃ place ∈ system.entered path, ∃ cause, system.readDirectory place = .error cause ∧
      error = .walk path place cause := by
  obtain ⟨place, hplace, hfailure⟩ := List.exists_of_findSome?_eq_some h
  refine ⟨place, hplace, ?_⟩
  unfold failure? at hfailure
  cases hread : system.readDirectory place with
  | ok entries => simp [hread] at hfailure
  | error cause =>
      rw [hread] at hfailure
      exact ⟨cause, rfl, (Option.some.inj hfailure).symm⟩

/-- A walk that can read all directories that it enters meets what is below them. -/
theorem visits_eq_ok_iff {visits : List Visit} :
    system.visits path = .ok visits ↔
      (∀ place ∈ system.entered path, ∃ entries, system.readDirectory place = .ok entries) ∧
        visits = system.walk path := by
  rw [← obstacle?_eq_none_iff]
  unfold FileSystem.visits
  cases system.obstacle? path <;> simp [eq_comm]

/-- A walk reports the first directory that it cannot read. -/
theorem visits_eq_error_iff {error : SourceError} :
    system.visits path = .error error ↔ system.obstacle? path = some error := by
  unfold FileSystem.visits
  cases system.obstacle? path <;> simp

end FileSystem
end ProjectAssembler
