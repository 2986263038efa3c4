import ProjectAssembler.FileSystem.Change

/-!
# Snapshots of a file system

A snapshot describes a file system as a text, with one entry a line.  Tabs separate the fields of
a line: a letter for the kind of the entry, its path, and what it holds.  Inside of a field,
backslashes, tabs and line ends are escaped.

Main definitions:

* `SnapshotEntry`: what a line describes;
* `FileSystem.ofSnapshot?`: the file system that a text describes.

Main result: `Snapshot.decode_encode`, a field holds what was written into it.
-/

namespace ProjectAssembler
namespace Snapshot

/-! ## Fields -/

/-- The written form of a character inside of a field. -/
def encodeCharacter (c : Char) : List Char :=
  if c = '\\' then ['\\', '\\']
  else if c = '\t' then ['\\', 't']
  else if c = '\n' then ['\\', 'n']
  else [c]

/-- The written form of a field. -/
def encode (content : List Char) : List Char :=
  content.flatMap encodeCharacter

/-- What a field holds; none for an escape that does not exist. -/
def decode : List Char → Option (List Char)
  | [] => some []
  | '\\' :: '\\' :: rest => (decode rest).map ('\\' :: ·)
  | '\\' :: 't' :: rest => (decode rest).map ('\t' :: ·)
  | '\\' :: 'n' :: rest => (decode rest).map ('\n' :: ·)
  | '\\' :: _ => none
  | c :: rest => (decode rest).map (c :: ·)

/-- A field holds what was written into it. -/
theorem decode_encode (content : List Char) : decode (encode content) = some content := by
  induction content with
  | nil => rfl
  | cons c rest ih =>
      simp only [encode, List.flatMap_cons] at ih ⊢
      by_cases hbackslash : c = '\\'
      · subst hbackslash
        simp [encodeCharacter, decode, ih]
      · by_cases htab : c = '\t'
        · subst htab
          simp [encodeCharacter, decode, ih]
        · by_cases hnewline : c = '\n'
          · subst hnewline
            simp [encodeCharacter, decode, ih]
          · simp [encodeCharacter, hbackslash, htab, hnewline, decode, ih]

end Snapshot

/-! ## Entries -/

/-- What a line of a snapshot describes. -/
inductive SnapshotEntry where
  | directory (path : Path)
  | file (path : Path) (text : String)
  /-- A file whose bytes are no text. -/
  | bytes (path : Path)
  | link (path target : Path)
  /-- The working directory. -/
  | working (path : Path)
deriving DecidableEq, Repr

namespace SnapshotEntry

/-- The entry that the fields of a line describe. -/
def ofFields? : List String → Option SnapshotEntry
  | ["d", path] => some (directory ⟨path⟩)
  | ["f", path, text] => some (file ⟨path⟩ text)
  | ["b", path] => some (bytes ⟨path⟩)
  | ["l", path, target] => some (link ⟨path⟩ ⟨target⟩)
  | ["w", path] => some (working ⟨path⟩)
  | _ => none

/-- The entry that a line describes. -/
def ofLine? (line : String) : Option SnapshotEntry :=
  ((line.splitOn "\t").mapM fun written =>
    (Snapshot.decode written.toList).map String.ofList).bind ofFields?

/-- A file system with an entry added to it. -/
def addTo (system : FileSystem) : SnapshotEntry → FileSystem
  | directory path => system.makeDirectory path
  | file path text => system.writeFile path (some text)
  | bytes path => system.writeFile path none
  | link path target => system.makeLink path target
  | working path =>
      let system := system.makeDirectory path
      match system.resolve path with
      | .ok (.standing location) => { system with workingDirectory := ⟨location, 0⟩ }
      | _ => system

end SnapshotEntry

/-- The file system that a text describes, line after line; empty lines say nothing. -/
def FileSystem.ofSnapshot? (text : String) : Option FileSystem :=
  (((text.splitOn "\n").filter (· != "")).mapM SnapshotEntry.ofLine?).map
    (List.foldl SnapshotEntry.addTo .empty)

end ProjectAssembler
