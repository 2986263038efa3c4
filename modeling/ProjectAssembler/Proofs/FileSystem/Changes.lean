import ProjectAssembler.FileSystem.Snapshot
import ProjectAssembler.Proofs.FileSystem.CanonicalPaths

/-!
# File systems that come about by changes

The working directory is known by proper names in every file system that a snapshot describes, and
no change makes it otherwise: what is made leaves it where it is, what is removed leaves a part of
the way to it, and a process enters only directories that a path leads to.

Main results:

* `FileSystem.wellNamed_writeFile`, `FileSystem.wellNamed_remove` and their likes: changes keep the
  working directory properly named;
* `FileSystem.wellNamed_ofSnapshot?`: every file system that is described is properly named.
-/

namespace ProjectAssembler
namespace FileSystem

open ProjectAssembler.Path (IsName)

theorem wellNamed_empty : empty.WellNamed := by
  simp [WellNamed, empty]

/-! ## Making -/

@[simp]
theorem workingDirectory_put (system : FileSystem) (location : Location) (node : Node) :
    (system.put location node).workingDirectory = system.workingDirectory := by
  unfold put
  split <;> rfl

theorem workingDirectory_makeWay (system : FileSystem) (here : Location) (way : List String) :
    (system.makeWay here way).1.workingDirectory = system.workingDirectory := by
  fun_induction makeWay system here way <;> simp_all

theorem workingDirectory_makeDirectories (system : FileSystem) (path : Path) :
    (system.makeDirectories path).1.workingDirectory = system.workingDirectory := by
  unfold makeDirectories
  split
  · rfl
  · split
    · exact workingDirectory_makeWay system _ _
    · rfl
  · rfl

theorem workingDirectory_makeParent (system : FileSystem) (path : Path) :
    (system.makeParent path).1.workingDirectory = system.workingDirectory := by
  unfold makeParent
  split
  · exact workingDirectory_makeDirectories system _
  · rfl

theorem wellNamed_makeDirectory {system : FileSystem} (h : system.WellNamed) (path : Path) :
    (system.makeDirectory path).WellNamed :=
  h.of_eq (workingDirectory_makeDirectories system path)

theorem wellNamed_writeFile {system : FileSystem} (h : system.WellNamed) (path : Path)
    (text : Option String) : (system.writeFile path text).WellNamed := by
  have hparent := workingDirectory_makeParent system path
  unfold writeFile
  split
  · rename_i between hmake
    rw [hmake] at hparent
    exact h.of_eq hparent
  · rename_i between hmake
    rw [hmake] at hparent
    have hbetween : between.WellNamed := h.of_eq hparent
    split
    · split
      · exact hbetween
      · exact hbetween.of_eq (workingDirectory_put between _ _)
    · exact hbetween

theorem wellNamed_makeLink {system : FileSystem} (h : system.WellNamed) (path target : Path) :
    (system.makeLink path target).WellNamed := by
  have hparent := workingDirectory_makeParent system path
  unfold makeLink
  split
  · rename_i between hmake
    rw [hmake] at hparent
    exact h.of_eq hparent
  · rename_i between hmake
    rw [hmake] at hparent
    have hbetween : between.WellNamed := h.of_eq hparent
    split
    · split
      · exact hbetween
      · exact hbetween.of_eq (workingDirectory_put between _ _)
    · exact hbetween

/-! ## Removing -/

/-- Of the way to the working directory a removal leaves a part. -/
theorem isName_of_mem_afterRemoval {directory : WorkingDirectory} {location kept : Location}
    (hnames : ∀ name ∈ directory.standing, IsName name) (hkept : kept <+: location) :
    ∀ name ∈ (directory.afterRemoval location kept).standing, IsName name := by
  unfold WorkingDirectory.afterRemoval
  split
  · rename_i hprefix
    intro name hname
    exact hnames name ((List.isPrefixOf_iff_prefix.1 hprefix).subset (hkept.subset hname))
  · exact hnames

theorem wellNamed_remove {system : FileSystem} (h : system.WellNamed) (path : Path) :
    (system.remove path).WellNamed := by
  unfold remove
  split
  · split
    · unfold removeAt
      split
      · exact isName_of_mem_afterRemoval h (List.dropLast_prefix _)
      · exact h
    · exact isName_of_mem_afterRemoval h (List.prefix_refl _)
  · exact h

/-! ## Snapshots -/

/-- What is left of a way after removed directories is an end of it. -/
theorem suffix_of_leaveRemoved {removed : Nat} {way left : List String}
    (h : leaveRemoved removed way = .ok (some left)) : left <:+ way := by
  fun_induction leaveRemoved removed way with
  | case1 way =>
      obtain rfl : way = left := Option.some.inj (Except.ok.inj h)
      exact List.suffix_refl way
  | case2 => simp at h
  | case3 removed step rest hstay ih => exact (ih h).trans (List.suffix_cons step rest)
  | case4 removed rest hstay ih => exact (ih h).trans (List.suffix_cons ".." rest)
  | case5 => simp at h

theorem map_standing_eq_ok_iff {result : Except AccessError Location} {location : Location} :
    result.map Place.standing = .ok (.standing location) ↔ result = .ok location := by
  cases result <;> simp [Except.map]

/-- A path that leads somewhere can be asked for, and an end of its way leads there from the root or
from what still stands of the way to the working directory. -/
theorem exists_follow_of_resolveFor {system : FileSystem} {purpose : Purpose} {path : Path}
    {location : Location} (h : system.resolveFor purpose path = .ok (.standing location)) :
    admissible path = true ∧ ∃ here way,
      (here = [] ∨ here = system.workingDirectory.standing) ∧ way <:+ steps path ∧
        system.follow purpose linkLimit here way = .ok location := by
  unfold resolveFor at h
  split at h
  · cases h
  · rename_i hadmissible
    refine ⟨by simpa using hadmissible, ?_⟩
    split at h
    · cases h
    · unfold followFrom at h
      split at h
      · exact ⟨[], steps path, Or.inl rfl, List.suffix_refl _, map_standing_eq_ok_iff.1 h⟩
      · split at h
        · cases h
        · cases h
        · rename_i left hleft
          exact ⟨_, left, Or.inr rfl, suffix_of_leaveRemoved hleft, map_standing_eq_ok_iff.1 h⟩

/-- What a path means is properly named. -/
theorem isName_of_mem_resolve {system : FileSystem} (hsystem : system.WellNamed) {path : Path}
    {location : Location} (h : system.resolve path = .ok (.standing location)) :
    ∀ name ∈ location, IsName name := by
  obtain ⟨-, here, way, hhere, hway, hfollow⟩ := exists_follow_of_resolveFor h
  have hnames : ∀ name ∈ here, IsName name := by
    rcases hhere with rfl | rfl
    · exact nofun
    · exact hsystem
  exact isName_of_mem_follow hnames (fun step hstep => isStep_of_mem_steps (hway.subset hstep))
    hfollow

/-- An entry of a snapshot leaves the working directory properly named. -/
theorem wellNamed_addTo {system : FileSystem} (h : system.WellNamed) (entry : SnapshotEntry) :
    (entry.addTo system).WellNamed := by
  cases entry with
  | directory path => exact wellNamed_makeDirectory h path
  | file path text => exact wellNamed_writeFile h path (some text)
  | bytes path => exact wellNamed_writeFile h path none
  | link path target => exact wellNamed_makeLink h path target
  | working path =>
      have hmade := wellNamed_makeDirectory h path
      simp only [SnapshotEntry.addTo]
      split
      · rename_i location hlocation
        exact isName_of_mem_resolve hmade hlocation
      · exact hmade

/-- Every file system that a snapshot describes is properly named. -/
theorem wellNamed_ofSnapshot? {text : String} {system : FileSystem}
    (h : ofSnapshot? text = some system) : system.WellNamed := by
  obtain ⟨entries, -, rfl⟩ := Option.map_eq_some_iff.1 h
  have hrun : ∀ (entries : List SnapshotEntry) (start : FileSystem), start.WellNamed →
      (entries.foldl SnapshotEntry.addTo start).WellNamed := by
    intro entries
    induction entries with
    | nil => exact fun _ hstart => hstart
    | cons entry rest ih => exact fun start hstart => ih _ (wellNamed_addTo hstart entry)
  exact hrun entries empty wellNamed_empty

end FileSystem
end ProjectAssembler
