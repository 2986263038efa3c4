import ProjectAssembler.FileSystem.Resolve

/-!
# Changes to a file system

Files, directories and links are made together with the directories they need, and removed with
everything below them.  A change that is not possible leaves the entry out.

Main definitions: `FileSystem.makeDirectories`, `FileSystem.writeFile`, `FileSystem.makeLink` and
`FileSystem.remove`.

Main results: `Entries.lookup_put` and `Entries.lookup_remove` say what a directory holds
afterwards.
-/

namespace ProjectAssembler
namespace Entries

/-- Give a name an entry: it takes the place of the one before, or comes last. -/
def put (name : String) (node : Node) : Entries → Entries
  | [] => [(name, node)]
  | (other, old) :: rest =>
      if name == other then (name, node) :: rest else (other, old) :: put name node rest

/-- Take the entry of a name away. -/
def remove (name : String) (entries : Entries) : Entries :=
  entries.filter fun entry => name != entry.1

/-- Change the entries of the directory at a location. -/
def alter (change : Entries → Entries) : Location → Entries → Entries
  | [], entries => change entries
  | name :: rest, entries =>
      match entries.lookup name with
      | some (.directory inner) => put name (.directory (alter change rest inner)) entries
      | _ => entries

/-- A name has the entry that it was given, and no other name is touched. -/
theorem lookup_put (name other : String) (node : Node) (entries : Entries) :
    (put name node entries).lookup other =
      if other == name then some node else entries.lookup other := by
  induction entries with
  | nil =>
      simp only [put, List.lookup_cons, List.lookup_nil]
      cases other == name <;> rfl
  | cons entry rest ih =>
      obtain ⟨key, old⟩ := entry
      unfold put
      by_cases hkey : name = key
      · subst hkey
        simp only [beq_self_eq_true, if_true, List.lookup_cons]
        cases other == name <;> rfl
      · simp only [beq_iff_eq, hkey, if_false, List.lookup_cons, ih]
        by_cases hother : other = key
        · subst hother
          simp [Ne.symm hkey]
        · have hfalse : (other == key) = false := by simpa using hother
          simp [hfalse]

/-- A name that was removed has no entry, and no other name is touched. -/
theorem lookup_remove (name other : String) (entries : Entries) :
    (remove name entries).lookup other = if other == name then none else entries.lookup other := by
  induction entries with
  | nil => simp [remove]
  | cons entry rest ih =>
      obtain ⟨key, old⟩ := entry
      simp only [remove] at ih ⊢
      by_cases hkey : name = key
      · subst hkey
        simp only [List.filter_cons, bne_self_eq_false, Bool.false_eq_true, if_false, ih,
          List.lookup_cons]
        cases other == name <;> rfl
      · have hne : (name != key) = true := by simpa using hkey
        simp only [List.filter_cons, hne, if_true, List.lookup_cons, ih]
        by_cases hother : other = key
        · subst hother
          simp [Ne.symm hkey]
        · have hfalse : (other == key) = false := by simpa using hother
          simp [hfalse]

end Entries

namespace FileSystem

/-- Change the entries of the directory at a location. -/
def alter (system : FileSystem) (location : Location) (change : Entries → Entries) : FileSystem :=
  { system with root := Entries.alter change location system.root }

/-- Give the last name of a location an entry. -/
def put (system : FileSystem) (location : Location) (node : Node) : FileSystem :=
  match location.getLast? with
  | some name => system.alter location.dropLast (Entries.put name node)
  | none => system

/-- Make the missing directories on a way, as far as nothing else is in the way, and tell whether
the end was reached.  A missing directory before a final `.` is looked for and not made. -/
def makeWay (system : FileSystem) (here : Location) : List String → FileSystem × Bool
  | [] => (system, true)
  | step :: rest =>
      match system.follow .existing linkLimit here [step] with
      | .ok next =>
          if (system.node? next).any Node.isDirectory then makeWay system next rest
          else (system, false)
      | .error _ =>
          match system.follow .newEntry linkLimit here [step] with
          | .ok next =>
              if (system.node? next).isSome || (rest.contains "." && rest.all isStay) then
                (system, false)
              else makeWay (system.put next (.directory [])) next rest
          | .error _ => (system, false)

/-- Make the directory at a path and all that lead to it, and tell whether it is there.  Nothing is
made unless all that is wrong with the path is that something is missing. -/
def makeDirectories (system : FileSystem) (path : Path) : FileSystem × Bool :=
  match system.resolve path with
  | .ok place => (system, (system.entryAt? place).any Node.isDirectory)
  | .error .notFound =>
      match system.origin? path with
      | some origin => makeWay system origin (steps path)
      | none => (system, false)
  | .error _ => (system, false)

/-- Make the directories that lead to a path. -/
def makeParent (system : FileSystem) (path : Path) : FileSystem × Bool :=
  match path.parent? with
  | some parent => system.makeDirectories parent
  | none => (system, true)

/-- Write a file, in the place of an earlier one. -/
def writeFile (system : FileSystem) (path : Path) (text : Option String) : FileSystem :=
  match system.makeParent path with
  | (system, false) => system
  | (system, true) =>
      match system.resolveFor .file path with
      | .ok (.standing location) =>
          match system.node? location with
          | some (.directory _) => system
          | _ => system.put location (.file text)
      | _ => system

/-- Make a directory. -/
def makeDirectory (system : FileSystem) (path : Path) : FileSystem :=
  (system.makeDirectories path).1

/-- Make a link, unless something has its name already or no link can have the target. -/
def makeLink (system : FileSystem) (path target : Path) : FileSystem :=
  match system.makeParent path with
  | (system, false) => system
  | (system, true) =>
      match system.resolveFor .newEntry path with
      | .ok (.standing location) =>
          if (system.node? location).isSome || target.text.isEmpty || !admissible target then system
          else system.put location (.link target)
      | _ => system

/-! ## Removing -/

/-- Remove what is at a location. -/
def removeAt (system : FileSystem) (location : Location) : FileSystem :=
  match location.getLast? with
  | some name =>
      { system.alter location.dropLast (Entries.remove name) with
        workingDirectory := system.workingDirectory.afterRemoval location location.dropLast }
  | none => system

/-- Remove everything inside of the directory at a location. -/
def emptyAt (system : FileSystem) (location : Location) : FileSystem :=
  { system.alter location (fun _ => []) with
    workingDirectory := system.workingDirectory.afterRemoval location location }

/-- Whether the last name of a path is that of the entry at a location; it is not when the path
ends with `.` or `..`, or with a separator after a link. -/
def isNamedBy (system : FileSystem) (location : Location) (path : Path) : Bool :=
  let way := (steps path).filter (· != "")
  match way.getLast?, system.followFrom .entry path.isAbsolute way with
  | some step, .ok (.standing named) => !isStay step && step != ".." && named == location
  | _, _ => false

/-- Remove a file, a link or a directory with everything in it.  A directory that the path does not
name is emptied and stays. -/
def remove (system : FileSystem) (path : Path) : FileSystem :=
  match system.resolveFor .entry path with
  | .ok (.standing location) =>
      if system.isNamedBy location path then system.removeAt location
      else system.emptyAt location
  | _ => system

end FileSystem
end ProjectAssembler
