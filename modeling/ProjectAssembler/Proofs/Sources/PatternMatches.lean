import ProjectAssembler.Proofs.FileSystem.Parents
import ProjectAssembler.Proofs.Sources.Segments
import ProjectAssembler.Proofs.Sources.WalkOrder

/-!
# What the files of a pattern match

The names that lead to a file that a pattern stands for can be read along the segments of the
pattern.  A wildcard for files ends the pattern, wherever it stands: the segments behind it are not
read, and a file matches only those up to it.

Main definitions:

* `Pattern.Aligned`: whether names below a path can be read along segments;
* `Pattern.Matches`: whether a file matches segments below a path;
* `Pattern.untilFiles`: the segments of a pattern that are read.

Main results:

* `Pattern.matches_of_mem_expandFrom`: what the rest of a pattern stands for matches it;
* `Pattern.expand_matches`: what a pattern stands for matches the segments that are read;
* `Pattern.expand_not_matches_link`: it need not match those behind them.
-/

namespace ProjectAssembler

/-! ## Directories on the way -/

namespace FileSystem

variable {system : FileSystem} {path : Path}

/-- Where a path continued by a name means something, the path means a directory. -/
theorem isDirectory_of_child {name : String} (hname : Path.IsName name) (hpath : path.text ≠ "")
    (h : (system.find? (path.child name)).isSome = true) : system.isDirectory path = true := by
  obtain ⟨node, hnode⟩ := Option.isSome_iff_exists.1 h
  obtain ⟨entries, -, hread, -⟩ := exists_readDirectory_of_child hname hpath hnode
  exact isDirectory_iff_readDirectory.2 ⟨entries, hread⟩

/-- A path to a directory means something. -/
theorem isSome_find?_of_isDirectory (h : system.isDirectory path = true) :
    (system.find? path).isSome = true := by
  obtain ⟨entries, hfind⟩ := isDirectory_iff.1 h
  rw [hfind]
  rfl

/-- Names that lead to a directory lead on from a directory. -/
theorem isDirectory_of_below {names : List String} (hnames : ∀ name ∈ names, Path.IsName name)
    (hpath : path.text ≠ "") (h : system.isDirectory (path.below names) = true) :
    system.isDirectory path = true := by
  induction names generalizing path with
  | nil => exact h
  | cons name names ih =>
      obtain ⟨hname, hnames⟩ := List.forall_mem_cons.1 hnames
      exact isDirectory_of_child hname hpath
        (isSome_find?_of_isDirectory (ih hnames (Path.text_child_ne hname) h))

/-- Names lead to the directories that a walk meets. -/
theorem exists_below_of_mem_sourceDirectories (hsystem : system.WellFormed)
    {directories : List Path} (h : system.sourceDirectories path = .ok directories)
    {directory : Path} (hmem : directory ∈ directories) :
    ∃ names, (∀ name ∈ names, Path.IsName name) ∧ directory = path.below names := by
  obtain ⟨entries, hwalkable⟩ := walkable_of_sourceDirectories h
  have hkept := keptBelow_of_find? hsystem (readDirectory_eq_ok_iff.1 hwalkable.read)
  rw [hwalkable.sourceDirectories_eq hsystem, Except.ok.injEq] at h
  subst h
  rcases mem_directoriesAmong_iff.1 hmem with ⟨rfl, -⟩ | ⟨inner, hmet⟩
  · exact ⟨[], nofun, rfl⟩
  · rw [walk_of_readDirectory hwalkable.read] at hmet
    obtain ⟨names, -, hdescend, -, rfl⟩ := (mem_walk_directory_iff_descend hkept).1 hmet
    exact ⟨names, hkept.isName_of_descend? hdescend, rfl⟩

end FileSystem

namespace Pattern

open FileSystem

variable {system : FileSystem} {pattern : String} {strict : Bool} {path file : Path}
  {segments rest : List Segment} {files : List Path}

/-! ## Matching -/

/-- Whether names below a path can be read along segments.  At the end, the name of a source in the
directory that has been reached may be added. -/
inductive Aligned (system : FileSystem) : Path → List Segment → List String → Prop where
  | done {path : Path} : Aligned system path [] []
  | inside {path : Path} {name : String} (hdirectory : system.isDirectory path = true)
      (hsource : (path.child name).isSource = true) : Aligned system path [] [name]
  | step {path : Path} {name : String} {rest : List Segment} {names : List String}
      (h : Aligned system (path.child name) rest names) :
      Aligned system path (.step name :: rest) (name :: names)
  | files {path : Path} {glob : Glob} {name : String} {rest : List Segment} {names : List String}
      (hname : glob.StandsFor name.toList)
      (h : Aligned system (path.child name) rest names) :
      Aligned system path (.files (some glob) :: rest) (name :: names)
  | leave {path : Path} {rest : List Segment} {names : List String}
      (h : Aligned system path rest names) : Aligned system path (.anyDepth :: rest) names
  | descend {path : Path} {name : String} {rest : List Segment} {names : List String}
      (hdirectory : system.isDirectory (path.child name) = true)
      (h : Aligned system (path.child name) (.anyDepth :: rest) names) :
      Aligned system path (.anyDepth :: rest) (name :: names)

/-- Whether a file matches segments below a path: its components are those of the path and names
that can be read along the segments. -/
def Matches (system : FileSystem) (path : Path) (segments : List Segment) (file : Path) : Prop :=
  ∃ names, file.components = path.components ++ names.map .name ∧
    Aligned system path segments names

namespace Matches

/-- What matches below a path continued by a name matches below the path, if the name can be read
first. -/
theorem of_child {before : List Segment} {name : String} (hname : Path.IsName name)
    (h : Matches system (path.child name) rest file)
    (hread : ∀ names, Aligned system (path.child name) rest names →
      Aligned system path before (name :: names)) : Matches system path before file := by
  obtain ⟨names, hcomponents, haligned⟩ := h
  refine ⟨name :: names, ?_, hread names haligned⟩
  rw [hcomponents, Path.components_child hname, List.append_assoc, List.map_cons,
    List.singleton_append]

/-- Under `**`, names that lead to a directory come before the match. -/
theorem of_below {names : List String} (hnames : ∀ name ∈ names, Path.IsName name)
    (hdirectory : system.isDirectory (path.below names) = true)
    (h : Matches system (path.below names) rest file) :
    Matches system path (.anyDepth :: rest) file := by
  induction names generalizing path with
  | nil =>
      obtain ⟨others, hcomponents, haligned⟩ := h
      exact ⟨others, hcomponents, .leave haligned⟩
  | cons name names ih =>
      obtain ⟨hname, hnames⟩ := List.forall_mem_cons.1 hnames
      have hchild := isDirectory_of_below hnames (Path.text_child_ne hname) hdirectory
      exact of_child hname (ih hnames hdirectory h) fun _ => .descend hchild

end Matches

/-- The segments of a pattern that are read: those up to the first wildcard for files. -/
def untilFiles : List Segment → List Segment
  | [] => []
  | .files names :: _ => [.files names]
  | .anyDepth :: rest => .anyDepth :: untilFiles rest
  | .step name :: rest => .step name :: untilFiles rest

/-- All segments are read when a wildcard for files stands only at the end. -/
theorem untilFiles_eq_self (h : ∀ names, Segment.files names ∉ segments.dropLast) :
    untilFiles segments = segments := by
  induction segments with
  | nil => rfl
  | cons segment rest ih =>
      cases rest with
      | nil => cases segment <;> rfl
      | cons next rest =>
          rw [List.dropLast_cons_cons] at h
          have hrest := ih fun names hmem => h names (List.mem_cons_of_mem _ hmem)
          cases segment with
          | files names => exact absurd List.mem_cons_self (h names)
          | anyDepth => rw [untilFiles, hrest]
          | step name => rw [untilFiles, hrest]

/-! ## What each part of a pattern stands for -/

/-- Nothing is found at a missing place. -/
theorem not_mem_missing (h : missing strict pattern path = .ok files) : file ∉ files := by
  unfold missing at h
  split at h
  · cases h
  · obtain rfl := Except.ok.inj h
    exact List.not_mem_nil

/-- The sources in a directory. -/
theorem exists_of_mem_sourcesIn (hsystem : system.WellFormed) {keep : String → Bool}
    (h : sourcesIn system path keep = .ok files) (hfile : file ∈ files) :
    system.isDirectory path = true ∧ file.isSource = true ∧
      ∃ name, Path.IsName name ∧ file = path.child name ∧ keep name = true := by
  unfold sourcesIn at h
  cases hlisted : system.listFiles path fun path => path.isSource && path.fileName?.any keep with
  | error cause =>
      rw [hlisted] at h
      cases h
  | ok listed =>
      rw [hlisted] at h
      obtain rfl := Except.ok.inj h
      obtain ⟨hkeep, entries, name, text, hread, hentry, rfl⟩ := mem_listFiles hlisted hfile
      have hname := ((wellKept_of_readDirectory hsystem hread).named _ hentry).1
      obtain ⟨hsource, hkept⟩ := Bool.and_eq_true_iff.1 hkeep
      rw [Path.fileName?_child hname] at hkept
      exact ⟨isDirectory_iff_readDirectory.2 ⟨entries, hread⟩, hsource, name, hname, rfl, hkept⟩

/-- What is reached at the end of a pattern is the path itself or a source in it. -/
theorem mem_reached (h : reached system strict pattern path = .ok files) (hfile : file ∈ files) :
    file = path ∨ sourcesIn system path (fun _ => true) = .ok files := by
  unfold reached at h
  split at h
  · exact Or.inl (List.mem_singleton.1 (Except.ok.inj h ▸ hfile))
  · split at h
    · exact Or.inr h
    · split at h
      · exact Or.inl (List.mem_singleton.1 (Except.ok.inj h ▸ hfile))
      · exact absurd hfile (not_mem_missing h)

/-- The rest of a pattern after `**` stands for what it stands for in one of the directories that a
walk meets. -/
theorem exists_of_mem_anyDepth (hsystem : system.WellFormed)
    (h : expandFrom system pattern strict path (.anyDepth :: rest) = .ok files)
    (hfile : file ∈ files) :
    ∃ names found, (∀ name ∈ names, Path.IsName name) ∧
      system.isDirectory (path.below names) = true ∧
      expandFrom system pattern false (path.below names) rest = .ok found ∧ file ∈ found := by
  have hpath : system.isDirectory path = true := by
    by_contra hnone
    rw [expandFrom_of_not_isDirectory (by simp) (Bool.eq_false_of_not_eq_true hnone)] at h
    exact not_mem_missing h hfile
  rw [expandFrom_anyDepth hpath] at h
  cases hdirectories : system.sourceDirectories path with
  | error error =>
      rw [hdirectories] at h
      cases h
  | ok directories =>
      rw [hdirectories] at h
      obtain ⟨directory, hmem, found, hfound, hhere⟩ := (mem_of_collect h).1 hfile
      have hdirectory := isDirectory_of_mem_sourceDirectories hdirectories hmem
      obtain ⟨names, hnames, rfl⟩ :=
        exists_below_of_mem_sourceDirectories hsystem hdirectories hmem
      exact ⟨names, found, hnames, hdirectory, hfound, hhere⟩

/-- What the rest of a pattern stands for matches the segments of it that are read. -/
theorem matches_of_mem_expandFrom (hsystem : system.WellFormed)
    (hsteps : ∀ name, Segment.step name ∈ segments → Path.IsName name)
    (h : expandFrom system pattern strict path segments = .ok files) (hfile : file ∈ files) :
    Matches system path (untilFiles segments) file := by
  induction segments generalizing strict path files with
  | nil =>
      rcases mem_reached h hfile with rfl | hlisted
      · exact ⟨[], (List.append_nil _).symm, .done⟩
      · obtain ⟨hdirectory, hsource, name, hname, rfl, -⟩ :=
          exists_of_mem_sourcesIn hsystem hlisted hfile
        exact ⟨[name], Path.components_child hname, .inside hdirectory hsource⟩
  | cons segment rest ih =>
      have hrest : ∀ name, Segment.step name ∈ rest → Path.IsName name :=
        fun name hmem => hsteps name (List.mem_cons_of_mem _ hmem)
      cases segment with
      | step name =>
          have hname := hsteps name List.mem_cons_self
          exact (ih hrest h hfile).of_child hname fun _ => .step
      | files names =>
          unfold expandFrom at h
          split at h
          · cases names with
            | none => exact absurd (Except.ok.inj h ▸ hfile) List.not_mem_nil
            | some glob =>
                obtain ⟨-, -, name, hname, rfl, haccepts⟩ :=
                  exists_of_mem_sourcesIn hsystem h hfile
                exact ⟨[name], Path.components_child hname,
                  .files (Glob.accepts_iff_standsFor.1 haccepts) .done⟩
          · exact absurd hfile (not_mem_missing h)
      | anyDepth =>
          obtain ⟨names, found, hnames, hdirectory, hfound, hhere⟩ :=
            exists_of_mem_anyDepth hsystem h hfile
          exact Matches.of_below hnames hdirectory (ih hrest hfound hhere)

/-! ## What is read of a pattern -/

/-- The segments behind the first wildcard for files make no difference. -/
theorem expandFrom_untilFiles (segments : List Segment) :
    expandFrom system pattern strict path (untilFiles segments) =
      expandFrom system pattern strict path segments := by
  induction segments generalizing strict path with
  | nil => rfl
  | cons segment rest ih =>
      cases segment with
      | files names => rfl
      | step name => exact ih
      | anyDepth =>
          cases rest with
          | nil => rfl
          | cons next rest =>
              obtain ⟨first, later, hread⟩ : ∃ first later,
                  untilFiles (next :: rest) = first :: later := by
                cases next <;> exact ⟨_, _, rfl⟩
              rw [hread] at ih
              simp only [untilFiles, hread, expandFrom, ih]

/-- A step of a pattern that never leads up is a name. -/
theorem isName_of_mem_ofText {directory : Path} {text name : String}
    (hparent : Path.Component.parent ∉ (Path.ofDescriptor text).components)
    (h : Segment.step name ∈ (ofText directory text).2) : Path.IsName name := by
  simp only [ofText, List.mem_filterMap] at h
  obtain ⟨component, hcomponent, hspelled⟩ := h
  cases component with
  | root => cases hspelled
  | current => cases hspelled
  | parent => exact absurd hcomponent hparent
  | name spelled =>
      obtain ⟨-, rfl⟩ := Segment.ofName_eq_step_iff.1 (Option.some.inj hspelled)
      exact Path.isName_of_mem_components hcomponent

/-- A relative pattern is expanded from the directory. -/
theorem expand_of_relative (system : FileSystem) (root : Path)
    (h : (Path.ofDescriptor pattern).isAbsolute = false) :
    system.expand root pattern = expandFrom system pattern true root (ofText root pattern).2 := by
  have hbase : (ofText root pattern).1 = root := by simp [ofText, h]
  rw [expand_eq_expandFrom, hbase]

/-- Relative to a directory, without leading up, a pattern is read up to the first wildcard for
files, and each file that it stands for matches the segments that are read.  So it matches the whole
pattern if no such wildcard stands before the end. -/
theorem expand_matches (hsystem : system.WellFormed) {root : Path}
    (hrelative : (Path.ofDescriptor pattern).isAbsolute = false)
    (hparent : Path.Component.parent ∉ (Path.ofDescriptor pattern).components) :
    system.expand root pattern =
        expandFrom system pattern true root (untilFiles (ofText root pattern).2) ∧
      ∀ files, system.expand root pattern = .ok files → ∀ file ∈ files,
        Matches system root (untilFiles (ofText root pattern).2) file ∧
        ((∀ names, Segment.files names ∉ (ofText root pattern).2.dropLast) →
          Matches system root (ofText root pattern).2 file) := by
  have hexpand := expand_of_relative system root hrelative
  refine ⟨hexpand.trans (expandFrom_untilFiles _).symm, fun files hfiles file hfile => ?_⟩
  have hmatches := matches_of_mem_expandFrom hsystem (fun _ => isName_of_mem_ofText hparent)
    (hexpand ▸ hfiles) hfile
  refine ⟨hmatches, fun hlast => ?_⟩
  rw [untilFiles_eq_self hlast] at hmatches
  exact hmatches

theorem expand_matches_link : linkedSources.WellFormed ∧
    linkedSources.isDirectory ⟨"/link"⟩ = true ∧
    (Path.ofDescriptor sourcePattern).isAbsolute = false ∧
    Path.Component.parent ∉ (Path.ofDescriptor sourcePattern).components ∧
    linkedSources.expand ⟨"/link"⟩ sourcePattern = expandFrom linkedSources sourcePattern true
        ⟨"/link"⟩ (untilFiles (ofText ⟨"/link"⟩ sourcePattern).2) ∧
      ∀ files, linkedSources.expand ⟨"/link"⟩ sourcePattern = .ok files → ∀ file ∈ files,
        Matches linkedSources ⟨"/link"⟩ (untilFiles (ofText ⟨"/link"⟩ sourcePattern).2) file ∧
        ((∀ names, Segment.files names ∉ (ofText ⟨"/link"⟩ sourcePattern).2.dropLast) →
          Matches linkedSources ⟨"/link"⟩ (ofText ⟨"/link"⟩ sourcePattern).2 file) :=
  ⟨wellFormed_linkedSources, isDirectory_link, by decide, by decide,
    expand_matches wellFormed_linkedSources (by decide) (by decide)⟩

/-- A pattern with a step behind a wildcard for files stands for a file that does not match the
step. -/
theorem expand_not_matches_link : linkedSources.isDirectory ⟨"/link"⟩ = true ∧
    (Path.ofDescriptor "*/C.cs").isAbsolute = false ∧
    Path.Component.parent ∉ (Path.ofDescriptor "*/C.cs").components ∧
    linkedSources.expand ⟨"/link"⟩ "*/C.cs" = .ok [⟨"/link/A.cs"⟩] ∧
    ¬ Matches linkedSources ⟨"/link"⟩ (ofText ⟨"/link"⟩ "*/C.cs").2 ⟨"/link/A.cs"⟩ := by
  have hpattern : ofText ⟨"/link"⟩ "*/C.cs" =
      (⟨"/link"⟩, [.files (some [.anyRun]), .step "C.cs"]) := by
    have hcomponents : (Path.ofDescriptor "*/C.cs").components = [.name "*", .name "C.cs"] := by
      decide
    have habsolute : (Path.ofDescriptor "*/C.cs").isAbsolute = false := by decide
    have hfiles : Segment.ofName "*" = .files (some [.anyRun]) := Segment.ofName_eq_files_iff.2
      ⟨by decide, by decide, (Glob.parse?_of_plain (by decide)).trans (by decide)⟩
    have hstep : Segment.ofName "C.cs" = .step "C.cs" :=
      Segment.ofName_eq_step_iff.2 ⟨by decide, rfl⟩
    unfold ofText
    simp [habsolute, hcomponents, Segment.ofComponent?, hfiles, hstep]
  refine ⟨isDirectory_link, by decide, by decide, ?_, ?_⟩
  · rw [expand, hpattern]
    simp only [expandFrom, isDirectory_link, if_true]
    exact (sourcesIn_of_readDirectory readDirectory_link _).trans (by decide)
  · rw [hpattern]
    rintro ⟨names, hcomponents, haligned⟩
    have hpath : (⟨"/link/A.cs"⟩ : Path).components =
        (⟨"/link"⟩ : Path).components ++ [.name "A.cs"] := by decide
    have hnames : names.map Path.Component.name = [.name "A.cs"] :=
      (List.append_cancel_left (hpath.symm.trans hcomponents)).symm
    cases haligned with
    | files hname hrest =>
        cases hrest with
        | step hlonger => simp at hnames

end Pattern
end ProjectAssembler
