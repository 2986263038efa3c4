import Mathlib.Data.List.Nodup
import ProjectAssembler.Proofs.FileSystem.Descents
import ProjectAssembler.Proofs.OrderedLists
import ProjectAssembler.Sources.Discovery

/-!
# What a walk meets

A walk meets the entries of the directories that it enters, and it enters the directory that it
begins in and all directories that it meets.  Each directory that it meets can be read at the path
that it is met under, as long as no path is too long.

Main definition: `FileSystem.Walkable`.

Main results:

* `mem_walk_directory`: one step of a walk;
* `FileSystem.Walkable.induction`: what holds below the directories that a walk enters;
* `FileSystem.Walkable.readDirectory_visit`: a directory that is met can be read;
* `FileSystem.Walkable.length_components_lt`: what is met lies below the beginning of the walk;
* `FileSystem.Walkable.mem_walk_iff`: what is met lies in the directories that are entered;
* `FileSystem.Walkable.visits_eq` and `FileSystem.walkable_of_visits`: when a walk does not fail;
* `FileSystem.isDirectory_of_mem_sourceDirectories`: the directories that are met can be read.
-/

namespace ProjectAssembler

/-! ## Steps of a walk -/

theorem walkEach_eq_map (path : Path) (entries : Entries) :
    walkEach path entries = entries.map fun entry =>
      (entry.1, if entry.2.isPruned entry.1 then []
        else ⟨path.child entry.1, entry.2⟩ :: entry.2.walk (path.child entry.1)) := by
  induction entries with
  | nil => rfl
  | cons entry rest ih => rw [walkEach, ih, List.map_cons]

/-- Arranging visits by distinct names loses none. -/
theorem mem_arrange {visits : List Visits} (h : (visits.map (·.1)).Nodup) {visit : Visit} :
    visit ∈ arrange visits ↔ ∃ each ∈ visits, visit ∈ each.2 := by
  have hdistinct : ∀ a ∈ visits, ∀ b ∈ visits, compareOn Prod.fst a b = .eq → a = b := by
    intro a ha b hb heq
    exact List.inj_on_of_nodup_map h ha hb (Std.LawfulEqCmp.eq_of_compare heq)
  have hlist : OrderedList.ofList (fun a b : Visits => compare a.1 b.1) visits =
      OrderedList.ofList (compareOn Prod.fst) visits := rfl
  rw [arrange, hlist, List.mem_flatMap]
  simp only [OrderedList.mem_ofList_iff hdistinct]

/-- Only a directory has anything below it. -/
theorem mem_walk_iff_directory {path : Path} {node : Node} {visit : Visit} :
    visit ∈ node.walk path ↔
      ∃ inner, node = .directory inner ∧ visit ∈ (Node.directory inner).walk path := by
  cases node with
  | directory inner => simp
  | file text => simp [Node.walk]
  | link target => simp [Node.walk]

/-- A walk meets the entries of a directory that are not pruned, and what it meets below those that
are directories. -/
theorem mem_walk_directory {entries : Entries} (h : FileSystem.WellKept entries) {path : Path}
    {visit : Visit} :
    visit ∈ (Node.directory entries).walk path ↔
      ∃ name node, (name, node) ∈ entries ∧ node.isPruned name = false ∧
        (visit = ⟨path.child name, node⟩ ∨ ∃ inner, node = .directory inner ∧
          visit ∈ (Node.directory inner).walk (path.child name)) := by
  have hnames : ((walkEach path entries).map (·.1)).Nodup := by
    rw [walkEach_eq_map, List.map_map]
    exact h.distinct
  simp only [← mem_walk_iff_directory]
  rw [Node.walk, mem_arrange hnames, walkEach_eq_map]
  constructor
  · rintro ⟨each, heach, hvisit⟩
    obtain ⟨⟨name, node⟩, hentry, rfl⟩ := List.mem_map.1 heach
    cases hpruned : node.isPruned name with
    | true => simp [hpruned] at hvisit
    | false => exact ⟨name, node, hentry, hpruned, by simpa [hpruned] using hvisit⟩
  · rintro ⟨name, node, hentry, hpruned, hvisit⟩
    exact ⟨_, List.mem_map_of_mem hentry, by simpa [hpruned] using hvisit⟩

namespace FileSystem

/-! ## Paths that are too long -/

section Long

variable {system : FileSystem} {path : Path}

/-- A path that is too long cannot be asked for. -/
theorem admissible_of_long (h : pathLimit ≤ path.text.utf8ByteSize) : admissible path = false := by
  rw [admissible, decide_eq_false (Nat.not_lt.2 h), Bool.false_and]

theorem isLink_of_long (h : pathLimit ≤ path.text.utf8ByteSize) : system.isLink path = false := by
  rw [isLink, resolveFor, admissible_of_long h]
  rfl

theorem readDirectory_of_long (h : pathLimit ≤ path.text.utf8ByteSize) :
    system.readDirectory path = .error .other := by
  rw [readDirectory, resolve, resolveFor, admissible_of_long h]
  rfl

/-- The path of a directory that can be read is short enough. -/
theorem utf8ByteSize_lt_of_readDirectory {entries : Entries}
    (h : system.readDirectory path = .ok entries) : path.text.utf8ByteSize < pathLimit := by
  by_contra hlong
  rw [readDirectory_of_long (Nat.not_lt.1 hlong)] at h
  cases h

end Long

/-! ## Walks through directories that can be read -/

/-- Whether a walk from a directory can read it and everything below it. -/
structure Walkable (system : FileSystem) (path : Path) (entries : Entries) : Prop where
  read : system.readDirectory path = .ok entries
  short : ∀ visit ∈ (Node.directory entries).walk path,
    visit.node.isDirectory = true → visit.path.text.utf8ByteSize < pathLimit

variable {system : FileSystem} {path : Path} {entries : Entries}

namespace Walkable

theorem wellKept (h : Walkable system path entries) (hsystem : system.WellFormed) :
    WellKept entries :=
  wellKept_of_readDirectory hsystem h.read

/-- A walk goes on through the directories in a directory. -/
theorem child (h : Walkable system path entries) (hsystem : system.WellFormed) {name : String}
    {inner : Entries} (hentry : (name, .directory inner) ∈ entries)
    (hpruned : (Node.directory inner).isPruned name = false) :
    Walkable system (path.child name) inner := by
  have hmet : ⟨path.child name, .directory inner⟩ ∈ (Node.directory entries).walk path :=
    (mem_walk_directory (h.wellKept hsystem)).2
      ⟨name, .directory inner, hentry, hpruned, Or.inl rfl⟩
  constructor
  · exact readDirectory_child hsystem h.read hentry (h.short _ hmet rfl)
  · intro visit hvisit
    refine h.short visit ((mem_walk_directory (h.wellKept hsystem)).2 ?_)
    exact ⟨name, .directory inner, hentry, hpruned, Or.inr ⟨inner, rfl, hvisit⟩⟩

/-- What holds of a directory if it holds of those in it that are not pruned holds of every
directory that a walk can go through. -/
theorem induction (hsystem : system.WellFormed) {motive : Path → Entries → Prop}
    (step : ∀ path entries, Walkable system path entries →
      (∀ name inner, (name, Node.directory inner) ∈ entries →
        (Node.directory inner).isPruned name = false → motive (path.child name) inner) →
      motive path entries) {path : Path} {entries : Entries}
    (h : Walkable system path entries) : motive path entries := by
  refine step path entries h fun name inner hentry hpruned => ?_
  have hsmaller : sizeOf inner < sizeOf entries := by
    have hmem := List.sizeOf_lt_of_mem hentry
    simp only [Prod.mk.sizeOf_spec, Node.directory.sizeOf_spec] at hmem
    omega
  exact induction hsystem step (h.child hsystem hentry hpruned)
termination_by sizeOf entries

/-- A directory that is met can be read at the path that it is met under. -/
theorem readDirectory_visit (h : Walkable system path entries) (hsystem : system.WellFormed)
    {met : Path} {inner : Entries}
    (hmet : ⟨met, .directory inner⟩ ∈ (Node.directory entries).walk path) :
    system.readDirectory met = .ok inner := by
  revert hmet
  refine induction hsystem (motive := fun path entries =>
    ⟨met, .directory inner⟩ ∈ (Node.directory entries).walk path →
      system.readDirectory met = .ok inner) ?_ h
  intro path entries h ih hmet
  obtain ⟨name, node, hentry, hpruned, hvisit⟩ := (mem_walk_directory (h.wellKept hsystem)).1 hmet
  rcases hvisit with heq | ⟨deeper, rfl, hbelow⟩
  · obtain ⟨rfl, rfl⟩ := Visit.mk.inj heq
    exact (h.child hsystem hentry hpruned).read
  · exact ih name deeper hentry hpruned hbelow

/-- What is met lies deeper than where the walk begins. -/
theorem length_components_lt (h : Walkable system path entries) (hsystem : system.WellFormed)
    {visit : Visit} (hvisit : visit ∈ (Node.directory entries).walk path) :
    path.components.length < visit.path.components.length := by
  revert hvisit
  refine induction hsystem (motive := fun path entries =>
    visit ∈ (Node.directory entries).walk path →
      path.components.length < visit.path.components.length) ?_ h
  intro path entries h ih hvisit
  have hkept := h.wellKept hsystem
  obtain ⟨name, node, hentry, hpruned, hbelow⟩ := (mem_walk_directory hkept).1 hvisit
  have hchild : (path.child name).components.length = path.components.length + 1 := by
    rw [Path.components_child (hkept.named _ hentry).1, List.length_append, List.length_singleton]
  rcases hbelow with rfl | ⟨deeper, rfl, hbelow⟩
  · rw [hchild]
    exact Nat.lt_succ_self _
  · have hdeeper := ih name deeper hentry hpruned hbelow
    omega

/-- Whether a walk from a directory enters another one: it begins there, or meets it. -/
def Enters (path : Path) (entries : Entries) (met : Path) (inner : Entries) : Prop :=
  (met = path ∧ inner = entries) ∨
    ⟨met, .directory inner⟩ ∈ (Node.directory entries).walk path

/-- Whether something lies in a directory that a walk enters, and is not pruned. -/
def Reaches (path : Path) (entries : Entries) (visit : Visit) : Prop :=
  ∃ met inner name, Enters path entries met inner ∧ (name, visit.node) ∈ inner ∧
    visit.node.isPruned name = false ∧ visit.path = met.child name

/-- A walk meets what lies in the directories that it enters and is not pruned. -/
theorem mem_walk_iff (h : Walkable system path entries) (hsystem : system.WellFormed)
    {visit : Visit} :
    visit ∈ (Node.directory entries).walk path ↔ Reaches path entries visit := by
  refine induction hsystem (motive := fun path entries =>
    visit ∈ (Node.directory entries).walk path ↔ Reaches path entries visit) ?_ h
  intro path entries h ih
  have hkept := h.wellKept hsystem
  constructor
  · intro hvisit
    obtain ⟨name, node, hentry, hpruned, rfl | ⟨deeper, rfl, hbelow⟩⟩ :=
      (mem_walk_directory hkept).1 hvisit
    · exact ⟨path, entries, name, Or.inl ⟨rfl, rfl⟩, hentry, hpruned, rfl⟩
    · obtain ⟨met, inner, last, henters, hlast⟩ := (ih name deeper hentry hpruned).1 hbelow
      refine ⟨met, inner, last, Or.inr ?_, hlast⟩
      refine (mem_walk_directory hkept).2 ⟨name, _, hentry, hpruned, ?_⟩
      rcases henters with ⟨rfl, rfl⟩ | hmet
      · exact Or.inl rfl
      · exact Or.inr ⟨deeper, rfl, hmet⟩
  · rintro ⟨met, inner, last, ⟨rfl, rfl⟩ | hmet, hlast⟩
    · exact (mem_walk_directory hkept).2
        ⟨last, visit.node, hlast.1, hlast.2.1, Or.inl (by rw [← hlast.2.2])⟩
    · obtain ⟨name, node, hentry, hpruned, hvisit⟩ := (mem_walk_directory hkept).1 hmet
      -- The directory that holds it is the entry itself, or is met below the entry.
      obtain ⟨deeper, rfl, henters⟩ :
          ∃ deeper, node = .directory deeper ∧ Enters (path.child name) deeper met inner := by
        rcases hvisit with heq | ⟨deeper, hnode, hbelow⟩
        · obtain ⟨hmet, hnode⟩ := Visit.mk.inj heq
          exact ⟨inner, hnode.symm, Or.inl ⟨hmet, rfl⟩⟩
        · exact ⟨deeper, hnode, Or.inr hbelow⟩
      have hbelow := (ih name deeper hentry hpruned).2 ⟨met, inner, last, henters, hlast⟩
      exact (mem_walk_directory hkept).2
        ⟨name, _, hentry, hpruned, Or.inr ⟨deeper, rfl, hbelow⟩⟩

end Walkable

/-! ## Walks that do not fail -/

/-- The paths of the directories that are met. -/
theorem mem_map_path_iff {visits : List Visit} {place : Path} :
    place ∈ (visits.filter (·.node.isDirectory)).map Visit.path ↔
      ∃ inner, ⟨place, .directory inner⟩ ∈ visits := by
  rw [List.mem_map]
  constructor
  · rintro ⟨⟨met, node⟩, hvisit, rfl⟩
    obtain ⟨hmet, hkind⟩ := List.mem_filter.1 hvisit
    cases node with
    | directory inner => exact ⟨inner, hmet⟩
    | file text => cases hkind
    | link target => cases hkind
  · rintro ⟨inner, hmet⟩
    exact ⟨⟨place, .directory inner⟩, List.mem_filter.2 ⟨hmet, rfl⟩, rfl⟩

/-- The directories that a walk enters are the one that it begins in and those that it meets. -/
theorem mem_entered_iff {place : Path} :
    place ∈ system.entered path ↔
      place = path ∨ ∃ inner, ⟨place, .directory inner⟩ ∈ system.walk path := by
  rw [entered, List.mem_cons, mem_map_path_iff]

/-- The directories among what is met are the one that the walk begins in, unless it is a link, and
those below it. -/
theorem mem_directoriesAmong_iff {visits : List Visit} {place : Path} :
    place ∈ system.directoriesAmong path visits ↔
      (place = path ∧ system.isLink path = false) ∨ ∃ inner, ⟨place, .directory inner⟩ ∈ visits := by
  rw [directoriesAmong, List.mem_append, mem_map_path_iff]
  refine or_congr_left ?_
  cases system.isLink path <;> simp

/-- What a walk meets from a directory that can be read. -/
theorem walk_of_readDirectory (h : system.readDirectory path = .ok entries) :
    system.walk path = (Node.directory entries).walk path := by
  rw [walk, readDirectory_eq_ok_iff.1 h]

/-- A directory can be walked if the paths of all directories that are met are short enough. -/
theorem walkable_of_short (hdirectory : system.isDirectory path = true)
    (hshort : ∀ visit ∈ system.walk path,
      visit.node.isDirectory = true → visit.path.text.utf8ByteSize < pathLimit) :
    ∃ entries, Walkable system path entries := by
  obtain ⟨entries, hread⟩ := isDirectory_iff_readDirectory.1 hdirectory
  exact ⟨entries, hread, walk_of_readDirectory hread ▸ hshort⟩

/-- A walk that can read a directory and everything below it does not fail. -/
theorem Walkable.visits_eq (h : Walkable system path entries) (hsystem : system.WellFormed) :
    system.visits path = .ok (system.walk path) := by
  refine visits_eq_ok_iff.2 ⟨fun place hplace => ?_, rfl⟩
  rcases mem_entered_iff.1 hplace with rfl | ⟨inner, hmet⟩
  · exact ⟨entries, h.read⟩
  · rw [walk_of_readDirectory h.read] at hmet
    exact ⟨inner, h.readDirectory_visit hsystem hmet⟩

/-- Such a walk meets directories and sources. -/
theorem Walkable.sourceDirectories_eq (h : Walkable system path entries)
    (hsystem : system.WellFormed) :
    system.sourceDirectories path = .ok (system.directoriesAmong path (system.walk path)) := by
  rw [sourceDirectories, h.visits_eq hsystem]
  rfl

theorem Walkable.discover_eq (h : Walkable system path entries) (hsystem : system.WellFormed) :
    system.discover path = .ok (sourcesAmong (system.walk path)) := by
  rw [discover, if_pos (isDirectory_iff_readDirectory.2 ⟨entries, h.read⟩), h.visits_eq hsystem]
  rfl

/-- A walk that does not fail can read the directory that it begins in and everything below it. -/
theorem walkable_of_visits {visits : List Visit} (h : system.visits path = .ok visits) :
    ∃ entries, Walkable system path entries := by
  obtain ⟨hreadable, -⟩ := visits_eq_ok_iff.1 h
  obtain ⟨entries, hread⟩ := hreadable path (mem_entered_iff.2 (Or.inl rfl))
  refine ⟨entries, hread, fun ⟨met, node⟩ hvisit hkind => ?_⟩
  cases node with
  | directory inner =>
      rw [← walk_of_readDirectory hread] at hvisit
      obtain ⟨found, hfound⟩ := hreadable met (mem_entered_iff.2 (Or.inr ⟨inner, hvisit⟩))
      exact utf8ByteSize_lt_of_readDirectory hfound
  | file text => cases hkind
  | link target => cases hkind

theorem walkable_of_sourceDirectories {directories : List Path}
    (h : system.sourceDirectories path = .ok directories) :
    ∃ entries, Walkable system path entries := by
  rw [sourceDirectories] at h
  cases hvisits : system.visits path with
  | error error => rw [hvisits] at h; cases h
  | ok visits => exact walkable_of_visits hvisits

/-- The directories that a walk meets are there. -/
theorem isDirectory_of_mem_sourceDirectories {directories : List Path} {place : Path}
    (h : system.sourceDirectories path = .ok directories) (hmem : place ∈ directories) :
    system.isDirectory place = true := by
  rw [sourceDirectories] at h
  cases hvisits : system.visits path with
  | error error => rw [hvisits] at h; cases h
  | ok visits =>
      rw [hvisits] at h
      obtain rfl := Except.ok.inj h
      obtain ⟨hreadable, rfl⟩ := visits_eq_ok_iff.1 hvisits
      refine isDirectory_iff_readDirectory.2 (hreadable place (mem_entered_iff.2 ?_))
      exact (mem_directoriesAmong_iff.1 hmem).imp_left And.left

end FileSystem
end ProjectAssembler
