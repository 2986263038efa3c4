import Mathlib.Data.List.TakeWhile
import ProjectAssembler.Proofs.Sources.Segments
import ProjectAssembler.Proofs.Sources.WalkOrder

/-!
# Missing directories of patterns

A pattern is strict about one place: where the names in front of its first wildcard lead, or all of
its names if none is a wildcard.  A wildcard needs a directory there; without one the place has to
be a file or a directory, or a source that is still to come.  Everything behind `**` is looked for
and need not be there.  Apart from what is missing, only a walk that cannot read a directory makes a
pattern fail.

Main definitions:

* `Pattern.names`: the names that a pattern spells;
* `Pattern.strictPlace`: the place that a pattern is strict about;
* `Pattern.IsMissing`: whether what is needed there is missing;
* `Pattern.IsWalkFailure`: whether an error is that of a walk from a directory which cannot read
  another one that it enters.

Main results:

* `Pattern.IsWalkFailure.long`: where a walk fails;
* `Pattern.isWalkFailure_of_expandFrom`: nothing that is missing behind `**` is an error;
* `Pattern.expand_error_iff`: when a pattern cannot be expanded, and what is reported then.
-/

namespace ProjectAssembler
namespace Pattern

/-! ## The names of a pattern -/

/-- The name that a component of a pattern's path spells, if any. -/
def nameOf? : Path.Component → Option String
  | .name text => some text
  | .parent => some ".."
  | .root => none
  | .current => none

/-- The names that a pattern spells, `..` among them. -/
def names (pattern : String) : List String :=
  (Path.ofDescriptor pattern).components.filterMap nameOf?

/-- Where the names in front of the first wildcard lead, from the root for an absolute pattern and
from a directory for any other. -/
def strictPlace (directory : Path) (pattern : String) : Path :=
  (if (Path.ofDescriptor pattern).isAbsolute then ⟨"/"⟩ else directory).below
    ((names pattern).takeWhile fun name => !isWildcard name)

/-- What a pattern needs at the place that it is strict about is missing: a directory if it has a
wildcard, otherwise a file or a directory, unless a source may come there. -/
def IsMissing (system : FileSystem) (directory : Path) (pattern : String) : Prop :=
  ((∃ name ∈ names pattern, isWildcard name = true) ∧
    system.isDirectory (strictPlace directory pattern) = false) ∨
  ((∀ name ∈ names pattern, isWildcard name = false) ∧
    system.isFile (strictPlace directory pattern) = false ∧
    system.isDirectory (strictPlace directory pattern) = false ∧
    (strictPlace directory pattern).isSource = false)

/-- A name without wildcards is a step. -/
theorem ofName_of_plain {name : String} (h : isWildcard name = false) :
    Segment.ofName name = .step name := by
  rw [Segment.ofName_eq_step_iff, ← not_or, ← isWildcard_iff, h]
  exact ⟨Bool.false_ne_true, rfl⟩

/-- A name with a wildcard continues in every directory below or selects files. -/
theorem ofName_of_wildcard {name : String} (h : isWildcard name = true) :
    Segment.ofName name = .anyDepth ∨ Segment.ofName name = .files (Glob.parse? name.toList) := by
  by_cases hstars : ['*', '*'] <:+: name.toList
  · exact Or.inl (Segment.ofName_eq_anyDepth_iff.2 hstars)
  · exact Or.inr (Segment.ofName_eq_files_iff.2 ⟨hstars, isWildcard_iff.1 h, rfl⟩)

/-- The segments of a pattern are those of its names. -/
theorem ofText_snd (directory : Path) (pattern : String) :
    (ofText directory pattern).2 = (names pattern).map Segment.ofName := by
  have hup : Segment.ofName ".." = .step ".." := ofName_of_plain rfl
  have hcomponent : Segment.ofComponent? = fun component =>
      (nameOf? component).map Segment.ofName := by
    funext component
    cases component with
    | parent => rw [nameOf?, Option.map_some, hup]; rfl
    | root => rfl
    | current => rfl
    | name text => rfl
  rw [ofText, names, hcomponent, List.map_filterMap]

/-! ## What is found -/

variable {system : FileSystem} {pattern : String}

/-- Whether an error is that of a walk from a directory which cannot read another one that it
enters. -/
def IsWalkFailure (system : FileSystem) (error : SourceError) : Prop :=
  ∃ root, system.isDirectory root = true ∧ ∃ place ∈ system.entered root, ∃ cause,
    system.readDirectory place = .error cause ∧ error = .walk root place cause

/-- That is a directory with a path that is too long, where names are proper and distinct. -/
theorem IsWalkFailure.long (hsystem : system.WellFormed) {error : SourceError}
    (h : IsWalkFailure system error) : ∃ root place,
      error = .walk root place .other ∧ FileSystem.pathLimit ≤ place.text.utf8ByteSize := by
  obtain ⟨root, hroot, place, hplace, cause, hfailed, rfl⟩ := h
  obtain ⟨entries, hread⟩ := FileSystem.isDirectory_iff_readDirectory.1 hroot
  obtain ⟨names, inner, -, -, hlong, rfl⟩ :=
    FileSystem.long_of_mem_entered hsystem hread hplace hfailed
  exact ⟨root, place, rfl, hlong⟩

/-- The directories below a path cannot be listed if a walk cannot read one of them. -/
theorem isWalkFailure_of_sourceDirectories {path : Path} {error : SourceError}
    (hdirectory : system.isDirectory path = true)
    (h : system.sourceDirectories path = .error error) : IsWalkFailure system error := by
  refine ⟨path, hdirectory, FileSystem.exists_of_obstacle? (FileSystem.visits_eq_error_iff.1 ?_)⟩
  rw [FileSystem.sourceDirectories] at h
  cases hvisits : system.visits path with
  | ok visits =>
      rw [hvisits] at h
      cases h
  | error other =>
      rw [hvisits] at h
      exact congrArg Except.error (Except.error.inj h)

/-- A wildcard for files gives the files of a directory. -/
theorem exists_expandFrom_files {strict : Bool} {path : Path}
    (hdirectory : system.isDirectory path = true) (glob? : Option Glob) (rest : List Segment) :
    ∃ files, expandFrom system pattern strict path (.files glob? :: rest) = .ok files := by
  unfold expandFrom
  rw [if_pos hdirectory]
  cases glob? with
  | none => exact ⟨[], rfl⟩
  | some glob => exact exists_sourcesIn hdirectory _

/-- In a directory `**` fails as the walk does, or as the rest of the pattern does somewhere below. -/
theorem eq_error_of_expandFrom_anyDepth {strict : Bool} {path : Path} {rest : List Segment}
    {error : SourceError} (hdirectory : system.isDirectory path = true)
    (h : expandFrom system pattern strict path (.anyDepth :: rest) = .error error) :
    IsWalkFailure system error ∨
      ∃ below, expandFrom system pattern false below rest = .error error := by
  rw [expandFrom_anyDepth hdirectory] at h
  cases hdirectories : system.sourceDirectories path with
  | error other =>
      rw [hdirectories] at h
      obtain rfl := Except.error.inj h
      exact Or.inl (isWalkFailure_of_sourceDirectories hdirectory hdirectories)
  | ok directories =>
      rw [hdirectories] at h
      obtain ⟨below, -, hbelow⟩ := exists_of_collect_error h
      exact Or.inr ⟨below, hbelow⟩

/-- What is reached at the end of a pattern can be listed, unless it is missing. -/
theorem exists_reached {strict : Bool} {path : Path} (h : strict = false ∨
    system.isFile path = true ∨ system.isDirectory path = true ∨ path.isSource = true) :
    ∃ files, reached system strict pattern path = .ok files := by
  unfold reached
  split_ifs with hfile hdirectory hsource
  · exact ⟨_, rfl⟩
  · exact exists_sourcesIn hdirectory _
  · exact ⟨_, rfl⟩
  · rcases h with rfl | h | h | h
    · exact ⟨[], rfl⟩
    · exact absurd h hfile
    · exact absurd h hdirectory
    · cases strict with
      | false => exact ⟨[], rfl⟩
      | true => exact absurd h hsource

/-- Behind `**` only a walk fails: nothing that is missing is an error. -/
theorem isWalkFailure_of_expandFrom {path : Path} {segments : List Segment} {error : SourceError}
    (h : expandFrom system pattern false path segments = .error error) :
    IsWalkFailure system error := by
  induction segments generalizing path with
  | nil =>
      obtain ⟨files, hfiles⟩ : ∃ files, reached system false pattern path = .ok files :=
        exists_reached (Or.inl rfl)
      rw [expandFrom, hfiles] at h
      cases h
  | cons segment rest ih =>
      cases hdirectory : system.isDirectory path with
      | false =>
          cases segment with
          | step name => exact ih h
          | files glob? =>
              rw [expandFrom_of_not_isDirectory (by simp) hdirectory] at h
              cases h
          | anyDepth =>
              rw [expandFrom_of_not_isDirectory (by simp) hdirectory] at h
              cases h
      | true =>
          cases segment with
          | step name => exact ih h
          | files glob? =>
              obtain ⟨files, hfiles⟩ := exists_expandFrom_files hdirectory glob? rest
              rw [hfiles] at h
              cases h
          | anyDepth =>
              rcases eq_error_of_expandFrom_anyDepth hdirectory h with hwalk | ⟨below, hbelow⟩
              · exact hwalk
              · exact ih hbelow

/-- In a directory a wildcard fails only as a walk does, whatever stands behind it. -/
theorem isWalkFailure_of_wildcard {name : String} (hname : isWildcard name = true) {path : Path}
    (hdirectory : system.isDirectory path = true) {rest : List Segment} {error : SourceError}
    (h : expandFrom system pattern true path (Segment.ofName name :: rest) = .error error) :
    IsWalkFailure system error := by
  rcases ofName_of_wildcard hname with hsegment | hsegment
  · rw [hsegment] at h
    rcases eq_error_of_expandFrom_anyDepth hdirectory h with hwalk | ⟨below, hbelow⟩
    · exact hwalk
    · exact isWalkFailure_of_expandFrom hbelow
  · obtain ⟨files, hfiles⟩ := exists_expandFrom_files hdirectory (Glob.parse? name.toList) rest
    rw [hsegment, hfiles] at h
    cases h

/-- Names without wildcards lead on. -/
theorem expandFrom_below {strict : Bool} {steps : List String}
    (h : ∀ name ∈ steps, isWildcard name = false) (path : Path) (rest : List Segment) :
    expandFrom system pattern strict path (steps.map Segment.ofName ++ rest) =
      expandFrom system pattern strict (path.below steps) rest := by
  induction steps generalizing path with
  | nil => rfl
  | cons name steps ih =>
      obtain ⟨hname, hsteps⟩ := List.forall_mem_cons.1 h
      rw [List.map_cons, ofName_of_plain hname]
      exact ih hsteps (path.child name)

/-! ## Whole patterns -/

/-- A pattern is expanded from the place that it is strict about, with its first wildcard or at its
end. -/
theorem expand_eq (system : FileSystem) (directory : Path) (pattern : String) :
    system.expand directory pattern =
      expandFrom system pattern true (strictPlace directory pattern)
        (((names pattern).dropWhile fun name => !isWildcard name).map Segment.ofName) := by
  have hplain : ∀ name ∈ (names pattern).takeWhile fun name => !isWildcard name,
      isWildcard name = false := fun name hname => by
    simpa using List.all_eq_true.1 List.all_takeWhile name hname
  have hsegments : (ofText directory pattern).2 =
      ((names pattern).takeWhile fun name => !isWildcard name).map Segment.ofName ++
        ((names pattern).dropWhile fun name => !isWildcard name).map Segment.ofName := by
    rw [← List.map_append, List.takeWhile_append_dropWhile, ofText_snd]
  have hbase : (ofText directory pattern).1 =
      if (Path.ofDescriptor pattern).isAbsolute then ⟨"/"⟩ else directory := by
    rw [ofText]
  rw [expand_eq_expandFrom, strictPlace, ← expandFrom_below hplain, ← hsegments, ← hbase]

/-- Without wildcards nothing stands behind the names in front of the first wildcard. -/
theorem dropWhile_eq_nil_iff {names : List String} :
    (names.dropWhile fun name => !isWildcard name) = [] ↔
      ∀ name ∈ names, isWildcard name = false := by
  simp only [List.dropWhile_eq_nil_iff, Bool.not_eq_true']

/-- The first wildcard stands right behind the names in front of it. -/
theorem exists_dropWhile_eq_cons {names : List String}
    (h : ∃ name ∈ names, isWildcard name = true) :
    ∃ name rest, isWildcard name = true ∧
      (names.dropWhile fun name => !isWildcard name) = name :: rest := by
  cases hrest : names.dropWhile fun name => !isWildcard name with
  | nil =>
      obtain ⟨name, hmem, hname⟩ := h
      rw [dropWhile_eq_nil_iff.1 hrest name hmem] at hname
      cases hname
  | cons name rest =>
      have hhead := List.head?_dropWhile_not (fun name => !isWildcard name) names
      rw [hrest] at hhead
      exact ⟨name, rest, by simpa using hhead, rfl⟩

/-- A pattern cannot be expanded if what it needs is missing. -/
theorem expand_of_isMissing {directory : Path} (h : IsMissing system directory pattern) :
    system.expand directory pattern =
      .error (.missingDirectory (strictPlace directory pattern) (some pattern)) := by
  rw [expand_eq]
  unfold IsMissing at h
  generalize strictPlace directory pattern = place at h ⊢
  generalize names pattern = all at h ⊢
  have hmissing : missing true pattern place =
      .error (.missingDirectory place (some pattern)) := rfl
  rw [← hmissing]
  rcases h with ⟨hwildcard, hdirectory⟩ | ⟨hplain, hfile, hdirectory, hsource⟩
  · obtain ⟨name, rest, hname, hrest⟩ := exists_dropWhile_eq_cons hwildcard
    have hsegment : ∀ step, Segment.ofName name ≠ .step step := fun step => by
      rcases ofName_of_wildcard hname with hsegment | hsegment <;> simp [hsegment]
    rw [hrest, List.map_cons]
    exact expandFrom_of_not_isDirectory hsegment hdirectory _
  · rw [dropWhile_eq_nil_iff.2 hplain]
    simp [expandFrom, reached, hfile, hdirectory, hsource]

/-- A pattern fails only as a walk does if what it needs is there. -/
theorem isWalkFailure_of_not_isMissing {directory : Path} {error : SourceError}
    (hthere : ¬ IsMissing system directory pattern)
    (h : system.expand directory pattern = .error error) : IsWalkFailure system error := by
  rw [expand_eq] at h
  unfold IsMissing at hthere
  generalize strictPlace directory pattern = place at h hthere
  generalize names pattern = all at h hthere
  by_cases hwildcard : ∃ name ∈ all, isWildcard name = true
  · have hdirectory : system.isDirectory place = true := by
      by_contra hnone
      exact hthere (Or.inl ⟨hwildcard, Bool.eq_false_of_not_eq_true hnone⟩)
    obtain ⟨name, rest, hname, hrest⟩ := exists_dropWhile_eq_cons hwildcard
    rw [hrest, List.map_cons] at h
    exact isWalkFailure_of_wildcard hname hdirectory h
  · have hplain : ∀ name ∈ all, isWildcard name = false := fun name hmem =>
      Bool.eq_false_of_not_eq_true fun hname => hwildcard ⟨name, hmem, hname⟩
    obtain ⟨files, hfiles⟩ : ∃ files, reached system true pattern place = .ok files := by
      refine exists_reached (Or.inr ?_)
      by_contra hnone
      simp only [not_or, Bool.not_eq_true] at hnone
      exact hthere (Or.inr ⟨hplain, hnone⟩)
    rw [dropWhile_eq_nil_iff.2 hplain, List.map_nil, expandFrom, hfiles] at h
    cases h

/-- A pattern fails for a missing directory exactly if what it needs at the place that it is strict
about is missing; that place and the pattern are reported then.  In every other case it can be
expanded, or a walk cannot read a directory. -/
theorem expand_error_iff (system : FileSystem) (directory : Path) (pattern : String) :
    (∀ path asked, system.expand directory pattern = .error (.missingDirectory path asked) ↔
      (path = strictPlace directory pattern ∧ asked = some pattern) ∧
        IsMissing system directory pattern) ∧
    (((∃ files, system.expand directory pattern = .ok files) ∨
        ∃ error, system.expand directory pattern = .error error ∧ IsWalkFailure system error) ↔
      ¬ IsMissing system directory pattern) := by
  by_cases hmissing : IsMissing system directory pattern
  · have hwalk : ¬ IsWalkFailure system
        (.missingDirectory (strictPlace directory pattern) (some pattern)) := by
      rintro ⟨root, -, place, -, cause, -, herror⟩
      cases herror
    rw [expand_of_isMissing hmissing]
    simp [hmissing, hwalk, eq_comm]
  · cases hexpand : system.expand directory pattern with
    | ok files => simp [hmissing]
    | error error =>
        have hwalk := isWalkFailure_of_not_isMissing hmissing hexpand
        have hother : ∀ path asked, error ≠ .missingDirectory path asked := by
          obtain ⟨root, -, place, -, cause, -, rfl⟩ := hwalk
          exact nofun
        simp [hmissing, hwalk, hother]

end Pattern
end ProjectAssembler
