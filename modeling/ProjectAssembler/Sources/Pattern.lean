import ProjectAssembler.Path.Lexical
import ProjectAssembler.Sources.Discovery
import ProjectAssembler.Sources.Glob

/-!
# Source patterns

A descriptor lists sources by patterns.  A pattern is read segment by segment: one that contains
`**` continues in every directory below, one with another wildcard selects files by name and ends
the pattern, and any other one goes one step further.  What is reached at the end is a file, or a
directory whose sources are taken.

Main definitions:

* `Pattern.Segment`: the kinds of segments;
* `Pattern.ofText`: the base and the segments of a pattern;
* `Pattern.expandFrom`: the files that the rest of a pattern stands for;
* `FileSystem.expand`: the files that a pattern stands for.
-/

namespace ProjectAssembler
namespace Pattern

/-- A segment of a pattern. -/
inductive Segment where
  /-- Every directory below, however deep. -/
  | anyDepth
  /-- Files whose names match; `none` for a pattern that is not well formed. -/
  | files (names : Option Glob)
  | step (name : String)
deriving DecidableEq, Repr

/-- Whether two stars stand next to each other in a text. -/
def hasDoubleStar : List Char → Bool
  | '*' :: '*' :: _ => true
  | _ :: rest => hasDoubleStar rest
  | [] => false

/-- The segment that a name spells. -/
def Segment.ofName (name : String) : Segment :=
  if hasDoubleStar name.toList then anyDepth
  else if name.toList.any fun c => c == '*' || c == '?' then files (Glob.parse? name.toList)
  else step name

/-- The segment that a component of a pattern's path spells, if any. -/
def Segment.ofComponent? : Path.Component → Option Segment
  | .name text => some (ofName text)
  | .parent => some (step "..")
  | .root => none
  | .current => none

/-- Where a pattern begins, relative to a directory, and its segments. -/
def ofText (directory : Path) (pattern : String) : Path × List Segment :=
  let path := Path.ofDescriptor pattern
  (if path.isAbsolute then ⟨"/"⟩ else directory,
    path.components.filterMap Segment.ofComponent?)

/-- The source files directly inside of a directory whose names satisfy a test. -/
def sourcesIn (system : FileSystem) (directory : Path) (keep : String → Bool) :
    Except SourceError (List Path) :=
  (system.listFiles directory fun path => path.isSource && path.fileName?.any keep).mapError
    (.listing directory)

/-- The files that are found in directories one after the other. -/
def collect (found : Path → Except SourceError (List Path)) (directories : List Path) :
    Except SourceError (List Path) :=
  (directories.mapM found).map List.flatten

/-- What a missing place means: an error outside of `**`, and nothing below it. -/
def missing (strict : Bool) (pattern : String) (path : Path) : Except SourceError (List Path) :=
  if strict then .error (.missingDirectory path (some pattern)) else .ok []

/-- What a pattern stands for once all of its steps have been taken.  A source file that is
missing is taken too, outside of `**`; reading it fails later. -/
def reached (system : FileSystem) (strict : Bool) (pattern : String) (path : Path) :
    Except SourceError (List Path) :=
  if system.isFile path then .ok [path]
  else if system.isDirectory path then sourcesIn system path fun _ => true
  else if strict && path.isSource then .ok [path]
  else missing strict pattern path

/-- The files that the rest of a pattern stands for below a path.  Outside of `**`, where reading is
strict, a missing directory is an error. -/
def expandFrom (system : FileSystem) (pattern : String) (strict : Bool) (path : Path) :
    List Segment → Except SourceError (List Path)
  | [] => reached system strict pattern path
  | .step name :: rest => expandFrom system pattern strict (path.child name) rest
  | .files names :: _ =>
      if system.isDirectory path then
        match names with
        | some names => sourcesIn system path fun name => names.accepts name.toList
        | none => .ok []
      else missing strict pattern path
  | .anyDepth :: rest =>
      if system.isDirectory path then
        match rest with
        | [] =>
            (system.sourceDirectories path).bind
              (collect fun directory => sourcesIn system directory fun _ => true)
        | segment :: rest =>
            (system.sourceDirectories path).bind (collect fun directory =>
              expandFrom system pattern false directory (segment :: rest))
      else missing strict pattern path

end Pattern

/-- The files that a pattern stands for, relative to a directory, in the order in which they are
found. -/
def FileSystem.expand (system : FileSystem) (directory : Path) (pattern : String) :
    Except SourceError (List Path) :=
  let (base, segments) := Pattern.ofText directory pattern
  Pattern.expandFrom system pattern true base segments

end ProjectAssembler
