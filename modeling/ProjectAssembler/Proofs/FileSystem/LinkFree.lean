import ProjectAssembler.Proofs.FileSystem.NormalPaths

/-!
# File systems without links

Without links a path leads where its text says once `.` and `..` have been resolved: whatever a walk
through the directories finds, step by step, is what the names of the path spell.  So the canonical
path of a file is the lexical normal form of every path to it, a file keeps its normal path when it
comes or goes, and a set of files tells paths apart by their lexical normal forms.

Main definitions:

* `FileSystem.LinkFree`: a file system without links;
* `FileSystem.lexicalPath`: the lexical normal form of a path, made absolute;
* `FileSystem.Anchored`: whether the names that lead to a path's beginning are proper.

Main results:

* `FileSystem.eq_resolveNames_of_followTrail`: where a way leads;
* `FileSystem.normalPath_of_linkFree`: canonical paths, normal paths and sets of files.
-/

namespace ProjectAssembler
namespace FileSystem

open ProjectAssembler.Path (Component IsName resolveNames)

variable {system : FileSystem} {path : Path}

/-- A file system has no links. -/
def LinkFree (system : FileSystem) : Prop :=
  ∀ location target, system.node? location ≠ some (.link target)

/-- The lexical normal form of a path, made absolute. -/
def lexicalPath (system : FileSystem) (path : Path) : Path :=
  (system.absolutePath path).lexicalNormal

/-- The names that lead to a path's beginning are proper: it begins at the root, or in the working
directory, which is known by proper names. -/
def Anchored (system : FileSystem) (path : Path) : Prop :=
  path.isAbsolute = true ∨ system.WellNamed

theorem lexicalPath_of_isAbsolute (h : path.isAbsolute = true) :
    system.lexicalPath path = path.lexicalNormal := by
  rw [lexicalPath, absolutePath_of_isAbsolute h]

theorem isNormal_lexicalPath (system : FileSystem) (path : Path) :
    (system.lexicalPath path).IsNormal :=
  Path.isNormal_lexicalNormal _

/-! ## Where ways lead -/

/-- The components that steps spell. -/
def spelled (way : List String) : List Component :=
  (way.map String.toList).filterMap Component.ofSegment?

theorem spelled_steps (path : Path) :
    spelled (steps path) = path.segments.filterMap Component.ofSegment? := by
  simp [spelled, steps, Function.comp_def]

theorem spelled_cons (step : String) (rest : List String) :
    spelled (step :: rest) =
      if isStay step then spelled rest
      else if step = ".." then .parent :: spelled rest else .name step :: spelled rest := by
  have hempty : step.toList = [] ↔ step = "" := by rw [← String.toList_inj]; rfl
  have hdot : step.toList = ['.'] ↔ step = "." := by rw [← String.toList_inj]; rfl
  have hdots : step.toList = ['.', '.'] ↔ step = ".." := by rw [← String.toList_inj]; rfl
  unfold spelled isStay
  rw [List.map_cons, List.filterMap_cons]
  simp only [Component.ofSegment?, hempty, hdot, hdots, Bool.or_eq_true, beq_iff_eq,
    String.ofList_toList]
  split_ifs <;> rfl

/-- Without links a way that leads anywhere leads where its steps say. -/
theorem eq_resolveNames_of_followTrail (hlinks : system.LinkFree) {purpose : Purpose} {links : Nat}
    {trail : Trail} {way : List String} {there : Location} (hstands : trail.Stands system.root)
    (h : followTrail system purpose links trail way = .ok there) :
    there = resolveNames (trail.map (·.1)) (spelled way) := by
  induction way generalizing trail with
  | nil =>
      rw [followTrail_nil] at h
      exact (Except.ok.inj h).symm
  | cons step rest ih =>
      rw [spelled_cons]
      by_cases hstay : isStay step = true
      · rw [followTrail_stay hstay] at h
        rw [if_pos hstay]
        exact ih hstands h
      · rw [if_neg hstay]
        by_cases hup : step = ".."
        · subst hup
          rw [followTrail_up] at h
          rw [if_pos rfl, ih (Trail.stands_tail hstands) h, List.map_tail]
          rfl
        · -- A name is entered, or it is the last one of the way.
          have hlast : rest = [] → trail.location ++ [step] =
              resolveNames (trail.map (·.1)) (.name step :: spelled rest) := by
            rintro rfl
            simp [Trail.location, spelled, resolveNames]
          rw [if_neg hup]
          rw [followTrail, if_neg hstay, if_neg hup] at h
          split at h
          · cases h
          · split at h
            · split at h
              · rename_i hmissing
                rw [← Except.ok.inj h, hlast hmissing.2]
              · cases h
            · rename_i inner hentry
              have hinner : Trail.Stands system.root ((step, inner) :: trail) := ⟨hentry, hstands⟩
              exact ih hinner h
            · split at h
              · rename_i hend
                rw [← Except.ok.inj h, hlast hend]
              · cases h
            · rename_i target hentry
              rw [lookup_entries hstands] at hentry
              exact absurd hentry (hlinks _ target)

/-! ## Canonical paths -/

/-- The lexical normal form of a path is what its steps spell from where it begins. -/
theorem lexicalPath_of_origin? (hanchored : system.Anchored path) {origin : Location}
    (horigin : system.origin? path = some origin) :
    system.lexicalPath path =
      Path.ofNames (resolveNames origin.reverse (spelled (steps path))) := by
  rw [spelled_steps]
  by_cases habsolute : path.isAbsolute = true
  · obtain rfl : origin = [] := by simpa [origin?, habsolute, eq_comm] using horigin
    rw [lexicalPath_of_isAbsolute habsolute, Path.lexicalNormal_of_isAbsolute habsolute,
      Path.components, if_pos habsolute]
    rfl
  · -- A relative path continues the path of the working directory.
    have hsystem : system.WellNamed := hanchored.resolve_left habsolute
    have hnames : ∀ name ∈ origin, IsName name := isName_of_mem_origin? hsystem horigin
    rw [origin?, if_neg habsolute] at horigin
    have hjoin : system.absolutePath path = (Path.ofNames origin).join path := by
      simp [absolutePath, workingPath?, horigin]
    have hfalse : path.isAbsolute = false := by simpa using habsolute
    rw [lexicalPath, hjoin, Path.lexicalNormal_of_isAbsolute
        (by rw [Path.isAbsolute_join hfalse, isAbsolute_ofNames]),
      Path.components_join (isAbsolute_ofNames origin) hfalse, Path.components_ofNames hnames,
      List.cons_append, resolveNames, Path.resolveNames_append, List.append_nil]

/-- Without links the canonical path of something is its lexical normal form. -/
theorem canonical_eq_lexicalPath (hlinks : system.LinkFree) (hanchored : system.Anchored path)
    {canonical : Path} (h : system.canonical path = .ok canonical) :
    canonical = system.lexicalPath path := by
  obtain ⟨there, hthere, rfl⟩ := canonical_eq_ok_iff.1 h
  obtain ⟨origin, horigin, hfollow⟩ := exists_follow_of_canonicalLocation hthere
  unfold follow at hfollow
  split at hfollow
  · rename_i trail htrail
    have hlocation : trail.map (·.1) = origin.reverse := by
      rw [← List.reverse_eq_iff]
      exact Trail.location_of_continue? htrail
    rw [lexicalPath_of_origin? hanchored horigin,
      eq_resolveNames_of_followTrail hlinks (stands_of_trailTo? htrail) hfollow, hlocation]
  · cases hfollow

/-- Without links a file is known by its lexical normal form, whether it exists or not. -/
theorem normalPath_eq_lexicalPath (hlinks : system.LinkFree) (hanchored : system.Anchored path) :
    system.normalPath path = system.lexicalPath path := by
  cases hcanonical : system.canonical path with
  | ok canonical =>
      rw [normalPath_of_canonical hcanonical]
      exact canonical_eq_lexicalPath hlinks hanchored hcanonical
  | error error =>
      rw [normalPath_of_error hcanonical]
      rfl

/-- Normal paths have the same components exactly if the lexical normal forms are equal. -/
theorem same_normalPath_iff (hlinks : system.LinkFree) {other : Path}
    (hpath : system.Anchored path) (hother : system.Anchored other) :
    (system.normalPath path).same (system.normalPath other) = true ↔
      system.lexicalPath path = system.lexicalPath other := by
  rw [normalPath_eq_lexicalPath hlinks hpath, normalPath_eq_lexicalPath hlinks hother]
  constructor
  · exact (isNormal_lexicalPath system path).eq_of_same (isNormal_lexicalPath system other)
  · intro heq
    rw [heq]
    exact Path.same_refl _

/-! ## Sets of files -/

/-- Without links a set made from paths holds the file of another path exactly if one of the paths
has the same lexical normal form. -/
theorem contains_extend_iff (hlinks : system.LinkFree) {paths : List Path} {other : Path}
    (hpaths : ∀ path ∈ paths, system.Anchored path) (hother : system.Anchored other) :
    (PathSet.empty.extend system paths).contains system other = true ↔
      ∃ path ∈ paths, system.lexicalPath path = system.lexicalPath other := by
  rw [PathSet.contains, PathSet.holds_extend]
  have hempty : ¬ PathSet.empty.holds (system.normalPath other) = true := by
    simp [PathSet.holds_iff]
  rw [or_iff_right hempty]
  exact exists_congr fun path => and_congr_right fun hpath =>
    same_normalPath_iff hlinks (hpaths path hpath) hother

/-- Without links a set made from paths does not grow by another path exactly if one of the paths
has the same lexical normal form. -/
theorem size_insert_extend_iff (hlinks : system.LinkFree) {paths : List Path} {other : Path}
    (hpaths : ∀ path ∈ paths, system.Anchored path) (hother : system.Anchored other) :
    ((PathSet.empty.extend system paths).insert system other).size =
        (PathSet.empty.extend system paths).size ↔
      ∃ path ∈ paths, system.lexicalPath path = system.lexicalPath other := by
  have hascending : (PathSet.empty.extend system paths).Ascending :=
    PathSet.ascending_extend PathSet.ascending_empty paths
  rw [← contains_extend_iff hlinks hpaths hother, PathSet.contains, PathSet.holds_iff]
  refine (OrderedList.length_insert_eq_iff hascending).trans ?_
  simp only [Path.compare_eq_iff_same, Path.same_comm]

/-- Without links whatever the canonical path of an absolute path is, it is its lexical normal form,
however the path is spelled.  So the lexical normal form, made absolute, is the path that a file is
known by, whether it exists or not.  A set that was made from any paths holds the file of another
one, and does not grow by it, exactly if one of the paths has the same lexical normal form. -/
theorem normalPath_of_linkFree (system : FileSystem) (hlinks : system.LinkFree) :
    (∀ path canonical : Path, path.isAbsolute = true → system.canonical path = .ok canonical →
      canonical = path.lexicalNormal) ∧
    (∀ path : Path, path.isAbsolute = true → system.normalPath path = path.lexicalNormal) ∧
    (∀ path : Path, system.Anchored path → system.normalPath path = system.lexicalPath path) ∧
    ∀ (paths : List Path) (other : Path), (∀ path ∈ paths, system.Anchored path) →
      system.Anchored other →
      ((PathSet.empty.extend system paths).contains system other = true ↔
        ∃ path ∈ paths, system.lexicalPath path = system.lexicalPath other) ∧
      (((PathSet.empty.extend system paths).insert system other).size =
          (PathSet.empty.extend system paths).size ↔
        ∃ path ∈ paths, system.lexicalPath path = system.lexicalPath other) := by
  refine ⟨?_, ?_, fun path => normalPath_eq_lexicalPath hlinks, fun paths other hpaths hother =>
    ⟨contains_extend_iff hlinks hpaths hother, size_insert_extend_iff hlinks hpaths hother⟩⟩
  · intro path canonical habsolute hcanonical
    rw [← lexicalPath_of_isAbsolute habsolute]
    exact canonical_eq_lexicalPath hlinks (Or.inl habsolute) hcanonical
  · intro path habsolute
    rw [← lexicalPath_of_isAbsolute habsolute]
    exact normalPath_eq_lexicalPath hlinks (Or.inl habsolute)

/-- A directory beside a file. -/
def directoryAndFile : FileSystem :=
  ⟨[("sub", .directory []), ("A.cs", .file (some ""))], ⟨[], 0⟩⟩

theorem linkFree_directoryAndFile : directoryAndFile.LinkFree := by
  intro location target hlink
  match location with
  | [] => cases hlink
  | name :: rest =>
      by_cases hsub : name = "sub"
      · subst hsub
        cases rest with
        | nil => cases hlink
        | cons next rest => cases hlink
      · by_cases hfile : name = "A.cs"
        · subst hfile
          cases rest with
          | nil => cases hlink
          | cons next rest => cases hlink
        · simp [node?, Node.descend?, directoryAndFile, List.lookup_cons, beq_false_of_ne hsub,
            beq_false_of_ne hfile] at hlink

theorem canonical_file_directoryAndFile :
    directoryAndFile.canonical ⟨"/sub/../A.cs"⟩ = .ok ⟨"/A.cs"⟩ := by
  have hsteps : steps ⟨"/sub/../A.cs"⟩ = ["", "sub", "..", "A.cs"] := by decide
  have hway : followTrail directoryAndFile .spelling linkLimit [] (steps ⟨"/sub/../A.cs"⟩) =
      .ok ["A.cs"] := by
    rw [hsteps, followTrail_stay (by decide),
      followTrail_enter (by decide) (by decide) (by decide) rfl, followTrail_up]
    exact followTrail_file (by decide) (by decide) (by decide) rfl
  exact canonical_of_followTrail (by decide) (by decide) (by decide) hway

/-- A file is one element of a set, whether the path to it leads through a directory and out again
or not. -/
theorem normalPath_of_linkFree_directoryAndFile :
    directoryAndFile.LinkFree ∧
    directoryAndFile.canonical ⟨"/sub/../A.cs"⟩ = .ok ⟨"/A.cs"⟩ ∧
    (⟨"/A.cs"⟩ : Path) = (⟨"/sub/../A.cs"⟩ : Path).lexicalNormal ∧
    directoryAndFile.normalPath ⟨"/missing/./..//../A.cs"⟩ = ⟨"/A.cs"⟩ ∧
    (PathSet.empty.extend directoryAndFile [⟨"/A.cs"⟩]).contains directoryAndFile
      ⟨"/sub/../A.cs"⟩ = true ∧
    ((PathSet.empty.extend directoryAndFile [⟨"/A.cs"⟩]).insert directoryAndFile
      ⟨"/sub/../A.cs"⟩).size = 1 := by
  obtain ⟨hcanonical, hnormal, -, hset⟩ :=
    normalPath_of_linkFree directoryAndFile linkFree_directoryAndFile
  obtain ⟨hcontains, hsize⟩ := hset [⟨"/A.cs"⟩] ⟨"/sub/../A.cs"⟩
    (List.forall_mem_singleton.2 (Or.inl rfl)) (Or.inl rfl)
  refine ⟨linkFree_directoryAndFile, canonical_file_directoryAndFile,
    hcanonical _ _ rfl canonical_file_directoryAndFile, ?_, ?_, ?_⟩
  · rw [hnormal _ (by decide)]
    decide
  · exact hcontains.2 ⟨_, List.mem_singleton_self _, by decide⟩
  · exact hsize.2 ⟨_, List.mem_singleton_self _, by decide⟩

end FileSystem
end ProjectAssembler
