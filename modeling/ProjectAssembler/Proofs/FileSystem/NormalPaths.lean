import ProjectAssembler.Proofs.FileSystem.PathSets
import ProjectAssembler.Proofs.FileSystem.PlainWays

/-!
# Normal paths of normal paths

The normal path of a file is meant to be its only one.  It is, except for a path that means nothing,
because a name on its way is missing, while its lexical normal form leads through a link to
something that exists: that form is not canonical, and it has another normal form itself.  A set of
files that is given such a path does not recognise the element it then holds.

Main definitions:

* `FileSystem.LeadsAstray`: whether a path is such a path;
* `PathSet.Addition`: a call that adds files to a set.

Main results:

* `FileSystem.normalPath_normalPath_iff`: when the normal path of a file is normal;
* `PathSet.mem_extend_empty_iff`: what a set of files holds;
* `PathSet.normalPath_enumerated`: when the elements of a set are normal, and when the set
  recognises them.
-/

namespace ProjectAssembler

/-! ## Lexical normal forms -/

namespace Path

/-- Names come behind the names so far. -/
theorem resolveNames_append (names others : List String) (rest : List Component) :
    resolveNames names (others.map .name ++ rest) =
      resolveNames (others.reverse ++ names) rest := by
  induction others generalizing names with
  | nil => rfl
  | cons name others ih =>
      rw [List.map_cons, List.cons_append, resolveNames, ih, List.reverse_cons, List.append_assoc,
        List.singleton_append]

theorem resolveNames_names (names others : List String) :
    resolveNames names (others.map .name) = names.reverse ++ others := by
  have h := resolveNames_append names others []
  rwa [List.append_nil, resolveNames, List.reverse_append, List.reverse_reverse] at h

/-- A path is absolute if its components begin with the root. -/
theorem isAbsolute_iff {path : Path} : path.isAbsolute = true ↔ .root ∈ path.components := by
  have hsegments : Component.root ∉ path.segments.filterMap Component.ofSegment? := by
    intro hroot
    obtain ⟨segment, -, hsegment⟩ := List.mem_filterMap.1 hroot
    unfold Component.ofSegment? at hsegment
    split at hsegment
    · cases hsegment
    · split at hsegment <;> cases hsegment
  unfold components
  by_cases habsolute : path.isAbsolute = true
  · simp [habsolute]
  · by_cases hcurrent : path.beginsAtCurrent = true
    · simp [habsolute, hcurrent, hsegments]
    · simp [habsolute, hcurrent, hsegments]

/-- Names without a root spell a relative path. -/
theorem not_isAbsolute_intercalate {names : List String} (h : ∀ name ∈ names, IsName name) :
    ¬ (⟨"/".intercalate names⟩ : Path).isAbsolute = true := by
  rw [isAbsolute_iff, components_intercalate h]
  simp

/-- A path in normal form is its own lexical normal form. -/
theorem IsNormal.lexicalNormal {path : Path} (h : path.IsNormal) : path.lexicalNormal = path := by
  unfold Path.lexicalNormal
  cases h with
  | absolute hnames =>
      simp only [components_ofNames hnames, FileSystem.isAbsolute_ofNames, resolveNames,
        resolveNames_names, if_true]
      rfl
  | @relative names hnames =>
      simp only [components_intercalate hnames, if_neg (not_isAbsolute_intercalate hnames),
        resolveNames_names]
      rfl

/-- The lexical normal form of an absolute path is absolute. -/
theorem lexicalNormal_of_isAbsolute {path : Path} (h : path.isAbsolute = true) :
    path.lexicalNormal = ofNames (resolveNames [] path.components) := by
  simp [lexicalNormal, h]

end Path

/-! ## Normal forms of normal forms -/

namespace FileSystem

open ProjectAssembler.Path (IsName)

variable {system : FileSystem} {path : Path}

/-- The names that a path consists of once `.` and `..` have been resolved without a look at the
file system. -/
def lexicalNames (system : FileSystem) (path : Path) : List String :=
  Path.resolveNames [] (system.absolutePath path).components

/-- A path leads astray if it has no canonical form but its lexical normal form has one, and meets a
link on the way to it. -/
def LeadsAstray (system : FileSystem) (path : Path) : Prop :=
  (∃ error, system.canonical path = .error error) ∧
    (system.absolutePath path).isAbsolute = true ∧
    (∃ canonical, system.canonical (Path.ofNames (system.lexicalNames path)) = .ok canonical) ∧
    system.MeetsLink (system.lexicalNames path)

/-- The names that a path consists of are proper. -/
theorem isName_of_mem_lexicalNames : ∀ name ∈ system.lexicalNames path, IsName name := by
  apply Path.isName_of_mem_resolveNames
  · simp
  · exact fun name => Path.isName_of_mem_components

/-- An absolute path stays as it is. -/
theorem absolutePath_of_isAbsolute (h : path.isAbsolute = true) :
    system.absolutePath path = path := by
  unfold absolutePath
  split
  · exact Path.join_of_absolute h
  · rfl

/-- Only where the working directory has been removed a path cannot be made absolute. -/
theorem workingPath?_of_relative (h : ¬ (system.absolutePath path).isAbsolute = true) :
    system.workingPath? = none := by
  unfold absolutePath at h
  split at h
  · rename_i directory hdirectory
    obtain ⟨location, -, rfl⟩ := Option.map_eq_some_iff.1 hdirectory
    refine absurd ?_ h
    unfold Path.join
    split
    · assumption
    · split <;> simp [Path.ofNames, Path.isAbsolute]
  · assumption

/-- A relative path has no canonical form where the working directory has been removed. -/
theorem exists_error_of_relative (hremoved : system.workingPath? = none)
    (hrelative : ¬ path.isAbsolute = true) : ∃ error, system.canonical path = .error error := by
  have horigin : system.origin? path = none := by
    rw [origin?, if_neg hrelative]
    exact Option.map_eq_none_iff.1 hremoved
  unfold canonical canonicalLocation
  rw [horigin]
  split
  · exact ⟨.other, rfl⟩
  · split <;> exact ⟨.notFound, rfl⟩

/-- A path that has no canonical form is known by its lexical normal form. -/
theorem normalPath_of_error {error : AccessError} (h : system.canonical path = .error error) :
    system.normalPath path = (system.absolutePath path).lexicalNormal := by
  simp [normalPath, h]

/-- The path spelled from names that meet no link is normal. -/
theorem normalPath_ofNames {names : List String} (hnames : ∀ name ∈ names, IsName name)
    (hlinks : ¬ system.MeetsLink names) :
    system.normalPath (Path.ofNames names) = Path.ofNames names := by
  cases hcanonical : system.canonical (Path.ofNames names) with
  | ok canonical =>
      rw [normalPath_of_canonical hcanonical]
      exact (canonical_ofNames_iff hnames hcanonical).2 hlinks
  | error error =>
      rw [normalPath_of_error hcanonical, absolutePath_of_isAbsolute (isAbsolute_ofNames names)]
      exact (Path.IsNormal.absolute hnames).lexicalNormal

/-- The lexical normal form of a path without a canonical form is normal, unless the path leads
astray. -/
theorem normalPath_lexicalNormal_iff {error : AccessError}
    (herror : system.canonical path = .error error) :
    system.normalPath (system.absolutePath path).lexicalNormal =
      (system.absolutePath path).lexicalNormal ↔ ¬ system.LeadsAstray path := by
  by_cases habsolute : (system.absolutePath path).isAbsolute = true
  · have hnames : ∀ name ∈ system.lexicalNames path, IsName name := isName_of_mem_lexicalNames
    have hspelled : (system.absolutePath path).lexicalNormal =
        Path.ofNames (system.lexicalNames path) := Path.lexicalNormal_of_isAbsolute habsolute
    rw [hspelled]
    cases hcanonical : system.canonical (Path.ofNames (system.lexicalNames path)) with
    | ok canonical =>
        rw [normalPath_of_canonical hcanonical, canonical_ofNames_iff hnames hcanonical]
        simp [LeadsAstray, herror, habsolute, hcanonical]
    | error cause =>
        have hastray : ¬ system.LeadsAstray path := by
          rintro ⟨-, -, ⟨canonical, hok⟩, -⟩
          rw [hcanonical] at hok
          cases hok
        rw [normalPath_of_error hcanonical, absolutePath_of_isAbsolute (isAbsolute_ofNames _),
          (Path.IsNormal.absolute hnames).lexicalNormal]
        simp [hastray]
  · -- Without a working directory a relative path stays relative.
    have hremoved := workingPath?_of_relative habsolute
    have hnormal := Path.isNormal_lexicalNormal (system.absolutePath path)
    have hspelled : (system.absolutePath path).lexicalNormal =
        ⟨"/".intercalate (system.lexicalNames path)⟩ := by
      simp [Path.lexicalNormal, habsolute, lexicalNames]
    have hrelative : ¬ (system.absolutePath path).lexicalNormal.isAbsolute = true := by
      rw [hspelled]
      exact Path.not_isAbsolute_intercalate isName_of_mem_lexicalNames
    obtain ⟨cause, hcause⟩ := exists_error_of_relative hremoved hrelative
    have hsame : system.absolutePath (system.absolutePath path).lexicalNormal =
        (system.absolutePath path).lexicalNormal := by
      simp [absolutePath, hremoved]
    rw [normalPath_of_error hcause, hsame, hnormal.lexicalNormal]
    simp [LeadsAstray, habsolute]

/-- The normal path of a file is normal, unless the path that was given leads astray. -/
theorem normalPath_normalPath_iff (hsystem : system.WellNamed) :
    system.normalPath (system.normalPath path) = system.normalPath path ↔
      ¬ system.LeadsAstray path := by
  cases hcanonical : system.canonical path with
  | ok canonical =>
      obtain ⟨names, hnames, hlinks, rfl⟩ := exists_names_of_canonical hsystem hcanonical
      rw [normalPath_of_canonical hcanonical, normalPath_ofNames hnames hlinks]
      simp [LeadsAstray, hcanonical]
  | error error =>
      rw [normalPath_of_error hcanonical]
      exact normalPath_lexicalNormal_iff hcanonical

end FileSystem

/-! ## Sets of files -/

namespace PathSet

variable {system : FileSystem}

/-- A call that adds files to a set. -/
inductive Addition where
  /-- One file. -/
  | insert (path : Path)
  /-- Several files, one after the other. -/
  | extend (paths : List Path)
deriving DecidableEq, Repr

/-- The paths that a call is given. -/
def Addition.paths : Addition → List Path
  | insert path => [path]
  | extend paths => paths

/-- The set after a call. -/
def Addition.run (system : FileSystem) (set : PathSet) : Addition → PathSet
  | insert path => set.insert system path
  | extend paths => set.extend system paths

/-- The set after a sequence of calls on a new one. -/
def ofAdditions (system : FileSystem) (additions : List Addition) : PathSet :=
  additions.foldl (Addition.run system) empty

/-- The calls add the paths that they are given, one after the other. -/
theorem ofAdditions_eq (additions : List Addition) :
    ofAdditions system additions = empty.extend system (additions.flatMap Addition.paths) := by
  have hrun : ∀ set : PathSet, additions.foldl (Addition.run system) set =
      set.extend system (additions.flatMap Addition.paths) := by
    induction additions with
    | nil => exact fun _ => rfl
    | cons addition rest ih =>
        intro set
        rw [List.foldl_cons, ih, List.flatMap_cons, extend_append]
        cases addition <;> rfl
  exact hrun empty

/-- A set made from paths holds their normal paths. -/
theorem mem_extend_empty_iff (hsystem : system.WellNamed) {paths : List Path} {element : Path} :
    element ∈ (empty.extend system paths).paths ↔
      ∃ path ∈ paths, element = system.normalPath path := by
  have honly : ∀ {element : Path}, element ∈ (empty.extend system paths).paths →
      ∃ path ∈ paths, element = system.normalPath path := by
    intro element helement
    rcases mem_of_mem_extend helement with hempty | hpath
    · simp at hempty
    · exact hpath
  constructor
  · exact honly
  · rintro ⟨path, hpath, rfl⟩
    have hholds : (empty.extend system paths).holds (system.normalPath path) = true :=
      holds_extend.2 (Or.inr ⟨path, hpath, Path.same_refl _⟩)
    obtain ⟨other, hother, hsame⟩ := holds_iff.1 hholds
    obtain ⟨given, -, rfl⟩ := honly hother
    have hequal := (FileSystem.isNormal_normalPath hsystem given).eq_of_same
      (FileSystem.isNormal_normalPath hsystem path) hsame
    rwa [hequal] at hother

/-- A set made from paths holds the file of a path if its normal path is an element. -/
theorem contains_iff_mem (hsystem : system.WellNamed) {paths : List Path} {path : Path} :
    (empty.extend system paths).contains system path = true ↔
      system.normalPath path ∈ (empty.extend system paths).paths := by
  unfold contains
  rw [holds_iff]
  constructor
  · rintro ⟨element, helement, hsame⟩
    obtain ⟨given, -, rfl⟩ := (mem_extend_empty_iff hsystem).1 helement
    have hequal := (FileSystem.isNormal_normalPath hsystem given).eq_of_same
      (FileSystem.isNormal_normalPath hsystem path) hsame
    rwa [hequal] at helement
  · exact fun hmem => ⟨_, hmem, Path.same_refl _⟩

/-- Adding files changes nothing if a set holds the files already. -/
theorem extend_eq_self_iff (hsystem : system.WellNamed) {paths others : List Path} :
    (empty.extend system paths).extend system others = empty.extend system paths ↔
      ∀ path ∈ others, (empty.extend system paths).contains system path = true := by
  constructor
  · intro hsame path hpath
    unfold contains
    rw [← hsame]
    exact holds_extend.2 (Or.inr ⟨path, hpath, Path.same_refl _⟩)
  · intro hcontained
    apply eq_of_mem_iff
    · exact ascending_extend (ascending_extend ascending_empty paths) others
    · exact ascending_extend ascending_empty paths
    · intro element
      rw [← extend_append, mem_extend_empty_iff hsystem, mem_extend_empty_iff hsystem]
      constructor
      · rintro ⟨path, hpath, rfl⟩
        rcases List.mem_append.1 hpath with hpath | hpath
        · exact ⟨path, hpath, rfl⟩
        · apply (mem_extend_empty_iff hsystem).1
          exact (contains_iff_mem hsystem).1 (hcontained path hpath)
      · rintro ⟨path, hpath, rfl⟩
        exact ⟨path, List.mem_append_left _ hpath, rfl⟩

/-- The elements of a set that was made by any calls are normal exactly if no call was given a path
that leads astray.  The set recognises all its elements, and adding them again changes nothing,
exactly if it also holds what such paths lead to.  The normal path of a file is normal exactly if
the given path does not lead astray. -/
theorem normalPath_enumerated (hsystem : system.WellNamed) (additions : List Addition) :
    ((∀ element ∈ (ofAdditions system additions).paths, system.normalPath element = element) ↔
      ∀ path ∈ additions.flatMap Addition.paths, ¬ system.LeadsAstray path) ∧
    ((∀ element ∈ (ofAdditions system additions).paths,
        (ofAdditions system additions).contains system element = true) ↔
      ∀ path ∈ additions.flatMap Addition.paths, system.LeadsAstray path →
        system.normalPath (system.normalPath path) ∈ (ofAdditions system additions).paths) ∧
    ((ofAdditions system additions).extend system (ofAdditions system additions).paths =
        ofAdditions system additions ↔
      ∀ element ∈ (ofAdditions system additions).paths,
        (ofAdditions system additions).contains system element = true) ∧
    ∀ path, system.normalPath (system.normalPath path) = system.normalPath path ↔
      ¬ system.LeadsAstray path := by
  rw [ofAdditions_eq]
  have hmembers : ∀ {P : Path → Prop},
      (∀ element ∈ (empty.extend system (additions.flatMap Addition.paths)).paths, P element) ↔
        ∀ path ∈ additions.flatMap Addition.paths, P (system.normalPath path) := by
    intro P
    simp only [mem_extend_empty_iff hsystem]
    constructor
    · exact fun h path hpath => h _ ⟨path, hpath, rfl⟩
    · rintro h _ ⟨path, hpath, rfl⟩
      exact h path hpath
  refine ⟨?_, ?_, extend_eq_self_iff hsystem, fun path =>
    FileSystem.normalPath_normalPath_iff hsystem⟩
  · rw [hmembers]
    simp only [FileSystem.normalPath_normalPath_iff hsystem]
  · rw [hmembers]
    refine forall₂_congr fun path hpath => ?_
    rw [contains_iff_mem hsystem]
    constructor
    · exact fun hmem _ => hmem
    · intro hastray
      by_cases hpathAstray : system.LeadsAstray path
      · exact hastray hpathAstray
      · rw [(FileSystem.normalPath_normalPath_iff hsystem).2 hpathAstray]
        exact (mem_extend_empty_iff hsystem).2 ⟨path, hpath, rfl⟩

end PathSet

/-! ## A path through a missing directory -/

namespace FileSystem

/-- A directory with a file, and a link to it. -/
def linkedFile : FileSystem :=
  ⟨[("real", .directory [("A.cs", .file (some ""))]), ("link", .link ⟨"/real"⟩)], ⟨[], 0⟩⟩

/-- A path that goes through a missing directory, out of it again, and through the link. -/
def detour : Path :=
  ⟨"/missing/../link/A.cs"⟩

theorem wellNamed_linkedFile : linkedFile.WellNamed := by
  simp [WellNamed, linkedFile]

theorem canonical_detour : linkedFile.canonical detour = .error .notFound := by
  have hsteps : steps detour = ["", "missing", "..", "link", "A.cs"] := by decide
  have hway : followTrail linkedFile .spelling linkLimit [] (steps detour) = .error .notFound := by
    rw [hsteps, followTrail_stay (by decide)]
    exact followTrail_missing (by decide) (by decide) (by decide) rfl rfl
  exact canonical_of_followTrail (by decide) (by decide) (by decide) hway

theorem canonical_link : linkedFile.canonical ⟨"/link/A.cs"⟩ = .ok ⟨"/real/A.cs"⟩ := by
  have hsteps : steps ⟨"/link/A.cs"⟩ = ["", "link", "A.cs"] := by decide
  have htarget : steps ⟨"/real"⟩ ++ ["A.cs"] = ["", "real", "A.cs"] := by decide
  have hway : followTrail linkedFile .spelling linkLimit [] (steps ⟨"/link/A.cs"⟩) =
      .ok ["real", "A.cs"] := by
    rw [hsteps, followTrail_stay (by decide), linkLimit,
      followTrail_link (by decide) (by decide) (by decide) rfl (Or.inl rfl), htarget,
      followTrail_stay (by decide), followTrail_enter (by decide) (by decide) (by decide) rfl]
    exact followTrail_file (by decide) (by decide) (by decide) rfl
  exact canonical_of_followTrail (by decide) (by decide) (by decide) hway

theorem normalPath_detour : linkedFile.normalPath detour = ⟨"/link/A.cs"⟩ := by
  rw [normalPath_of_error canonical_detour]
  decide

/-- The detour has no canonical form, but its lexical normal form leads through the link. -/
theorem leadsAstray_detour : linkedFile.LeadsAstray detour := by
  have hnames : linkedFile.lexicalNames detour = ["link", "A.cs"] := by decide
  refine ⟨⟨_, canonical_detour⟩, by decide, ?_, ?_⟩
  · rw [hnames]
    exact ⟨_, canonical_link⟩
  · rw [hnames]
    exact ⟨["link"], ⟨"/real"⟩, ⟨["A.cs"], rfl⟩, rfl⟩

theorem normalPath_enumerated_linkedFile : linkedFile.WellNamed ∧
    (∀ element ∈ (PathSet.ofAdditions linkedFile [.insert ⟨"/link/A.cs"⟩, .extend []]).paths,
      linkedFile.normalPath element = element) ∧
    linkedFile.LeadsAstray detour ∧
    ¬ ∀ element ∈ (PathSet.ofAdditions linkedFile [.insert ⟨"/link/A.cs"⟩, .extend [detour]]).paths,
      linkedFile.normalPath element = element := by
  have hlink : ¬ linkedFile.LeadsAstray ⟨"/link/A.cs"⟩ := by
    rintro ⟨⟨error, herror⟩, -⟩
    rw [canonical_link] at herror
    cases herror
  refine ⟨wellNamed_linkedFile, ?_, leadsAstray_detour, ?_⟩
  · apply (PathSet.normalPath_enumerated wellNamed_linkedFile _).1.2
    simpa [PathSet.Addition.paths] using hlink
  · intro hnormal
    have hgiven := (PathSet.normalPath_enumerated wellNamed_linkedFile _).1.1 hnormal
    exact hgiven detour (by simp [PathSet.Addition.paths]) leadsAstray_detour

/-- A set that is given the detour holds a path that is not normal, does not recognise it, and holds
another path of the same file once the first one is added again. -/
theorem not_contains_detour :
    (PathSet.ofAdditions linkedFile [.insert detour]).paths = [⟨"/link/A.cs"⟩] ∧
    linkedFile.normalPath ⟨"/link/A.cs"⟩ = ⟨"/real/A.cs"⟩ ∧
    (PathSet.ofAdditions linkedFile [.insert detour]).contains linkedFile ⟨"/link/A.cs"⟩ = false ∧
    (PathSet.ofAdditions linkedFile [.insert detour, .insert ⟨"/link/A.cs"⟩]).paths =
      [⟨"/link/A.cs"⟩, ⟨"/real/A.cs"⟩] := by
  have hlink := normalPath_of_canonical canonical_link
  have hfirst : PathSet.ofAdditions linkedFile [.insert detour] = ⟨[⟨"/link/A.cs"⟩]⟩ := by
    simp [PathSet.ofAdditions, PathSet.Addition.run, PathSet.insert, normalPath_detour,
      PathSet.insertNormal, PathSet.empty]
  have hsecond : PathSet.ofAdditions linkedFile [.insert detour, .insert ⟨"/link/A.cs"⟩] =
      PathSet.insert linkedFile ⟨[⟨"/link/A.cs"⟩]⟩ ⟨"/link/A.cs"⟩ := by
    rw [← hfirst]
    rfl
  refine ⟨congrArg PathSet.paths hfirst, hlink, ?_, ?_⟩
  · rw [hfirst, PathSet.contains, hlink]
    decide
  · rw [hsecond, PathSet.insert, hlink]
    decide

end FileSystem
end ProjectAssembler
