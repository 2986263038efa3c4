import ProjectAssembler.Proofs.Sources.Walks

/-!
# Walks inside of walks

A walk enters a directory, so long as no link leads to it, and those that it meets below.  A walk
from a directory that another walk meets goes on where that one does: no link leads to the
directory, because it is an entry of the one around it, and the walk meets nothing below it that the
other one does not meet.  So the directories that walks meet from the directories that a walk meets
are the ones that it meets itself, and if that walk does not fail, none of them does.

Main results:

* `FileSystem.Walkable.mem_walk_trans`: what is met below what is met;
* `FileSystem.Walkable.isLink_visit`: no link leads to a directory that is met;
* `FileSystem.Walkable.of_mem_directoriesAmong` and `FileSystem.Walkable.mem_directoriesAmong_nested`:
  the walks from the directories that a walk meets.
-/

namespace ProjectAssembler
namespace FileSystem

variable {system : FileSystem} {path met place : Path} {entries inner : Entries}

/-- The name of a directory is no link. -/
theorem isLink_child (hsystem : system.WellFormed) (h : system.readDirectory path = .ok entries)
    {name : String} (hentry : (name, .directory inner) ∈ entries) :
    system.isLink (path.child name) = false := by
  by_cases hlength : (path.child name).text.utf8ByteSize < pathLimit
  · obtain ⟨location, hresolve, hinner⟩ :=
      exists_resolveFor_child .entry rfl hsystem h hentry hlength
    rw [isLink, hresolve]
    simp [entryAt?, hinner, Node.isLink]
  · exact isLink_of_long (Nat.not_lt.1 hlength)

namespace Walkable

/-- What a walk meets below a directory that another one meets is met by that one too. -/
theorem mem_walk_trans (h : Walkable system path entries) (hsystem : system.WellFormed)
    (hmet : ⟨met, .directory inner⟩ ∈ (Node.directory entries).walk path) {visit : Visit}
    (hvisit : visit ∈ (Node.directory inner).walk met) :
    visit ∈ (Node.directory entries).walk path := by
  revert hmet
  refine induction hsystem (motive := fun path entries =>
    ⟨met, .directory inner⟩ ∈ (Node.directory entries).walk path →
      visit ∈ (Node.directory entries).walk path) ?_ h
  intro path entries h ih hmet
  have hkept := h.wellKept hsystem
  obtain ⟨name, node, hentry, hpruned, heq | ⟨deeper, rfl, hbelow⟩⟩ :=
    (mem_walk_directory hkept).1 hmet
  · obtain ⟨rfl, rfl⟩ := Visit.mk.inj heq
    exact (mem_walk_directory hkept).2
      ⟨name, _, hentry, hpruned, Or.inr ⟨inner, rfl, hvisit⟩⟩
  · exact (mem_walk_directory hkept).2
      ⟨name, _, hentry, hpruned, Or.inr ⟨deeper, rfl, ih name deeper hentry hpruned hbelow⟩⟩

/-- No link leads to a directory that is met. -/
theorem isLink_visit (h : Walkable system path entries) (hsystem : system.WellFormed)
    (hmet : ⟨met, .directory inner⟩ ∈ (Node.directory entries).walk path) :
    system.isLink met = false := by
  revert hmet
  refine induction hsystem (motive := fun path entries =>
    ⟨met, .directory inner⟩ ∈ (Node.directory entries).walk path →
      system.isLink met = false) ?_ h
  intro path entries h ih hmet
  obtain ⟨name, node, hentry, hpruned, heq | ⟨deeper, rfl, hbelow⟩⟩ :=
    (mem_walk_directory (h.wellKept hsystem)).1 hmet
  · obtain ⟨rfl, rfl⟩ := Visit.mk.inj heq
    exact isLink_child hsystem h.read hentry
  · exact ih name deeper hentry hpruned hbelow

/-- A walk can go through every directory that another one meets. -/
theorem visit (h : Walkable system path entries) (hsystem : system.WellFormed)
    (hmet : ⟨met, .directory inner⟩ ∈ (Node.directory entries).walk path) :
    Walkable system met inner :=
  ⟨h.readDirectory_visit hsystem hmet,
    fun visit hvisit => h.short visit (h.mem_walk_trans hsystem hmet hvisit)⟩

/-- A walk from a directory that another one meets does not fail if that one does not. -/
theorem of_mem_directoriesAmong (h : Walkable system path entries) (hsystem : system.WellFormed)
    (hmem : met ∈ system.directoriesAmong path (system.walk path)) :
    ∃ inner, Walkable system met inner := by
  rcases mem_directoriesAmong_iff.1 hmem with ⟨rfl, -⟩ | ⟨inner, hmet⟩
  · exact ⟨entries, h⟩
  · rw [walk_of_readDirectory h.read] at hmet
    exact ⟨inner, h.visit hsystem hmet⟩

/-- The directories that walks meet from the directories that a walk meets are the ones that it
meets itself. -/
theorem mem_directoriesAmong_nested (h : Walkable system path entries)
    (hsystem : system.WellFormed) :
    place ∈ system.directoriesAmong path (system.walk path) ↔
      ∃ met ∈ system.directoriesAmong path (system.walk path),
        place ∈ system.directoriesAmong met (system.walk met) := by
  simp only [mem_directoriesAmong_iff]
  constructor
  · -- The walk from the directory begins there, because no link leads to it.
    rintro (⟨rfl, hlink⟩ | ⟨inner, hplace⟩)
    · exact ⟨place, Or.inl ⟨rfl, hlink⟩, Or.inl ⟨rfl, hlink⟩⟩
    · have hlink : system.isLink place = false :=
        h.isLink_visit hsystem (walk_of_readDirectory h.read ▸ hplace)
      exact ⟨place, Or.inr ⟨inner, hplace⟩, Or.inl ⟨rfl, hlink⟩⟩
  · rintro ⟨met, ⟨rfl, hlink⟩ | ⟨middle, hmet⟩, hplace⟩
    · exact hplace
    · right
      rcases hplace with ⟨rfl, -⟩ | ⟨inner, hbelow⟩
      · exact ⟨middle, hmet⟩
      · rw [walk_of_readDirectory h.read] at hmet ⊢
        rw [walk_of_readDirectory (h.readDirectory_visit hsystem hmet)] at hbelow
        exact ⟨inner, h.mem_walk_trans hsystem hmet hbelow⟩

end Walkable
end FileSystem
end ProjectAssembler
