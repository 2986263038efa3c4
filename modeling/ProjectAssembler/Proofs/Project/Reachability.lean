import Mathlib.Logic.Relation
import ProjectAssembler.Proofs.FileSystem.Flat
import ProjectAssembler.Proofs.Project.Traversal

/-!
# Projects that are reached from roots

What a list of roots asks for is every project that references lead to from one of them.

Main definitions:

* `FileSystem.Reachable`: a project is reached from one of the roots;
* `FileSystem.Usable`: a descriptor can be read, has sources and references only what exists;
* `FileSystem.Intact`: all that the roots reach is usable.

Main results:

* `FileSystem.Reachable.induction`: what references hand on holds of all that is reached;
* `FileSystem.intact_of_closed`: a list of projects that is closed under references shows that all
  that is reached is usable.
-/

namespace ProjectAssembler
namespace FileSystem

/-- A project is reached from one of the roots. -/
def Reachable (system : FileSystem) (roots : List Path) (project : Path) : Prop :=
  ∃ root ∈ roots, ∃ first, system.canonical root = .ok first ∧
    Relation.ReflTransGen system.References first project

/-- The descriptor of a project can be read, its sources are found, and whatever it references
exists. -/
def Usable (system : FileSystem) (project : Path) : Prop :=
  ∃ descriptor sources, system.loadDescriptor project = .ok descriptor ∧
    descriptor.sources system = .ok sources ∧
    ∀ reference ∈ descriptor.projectReferences, ∃ target, system.canonical reference = .ok target

/-- All roots exist, and all projects that they reach are usable. -/
structure Intact (system : FileSystem) (roots : List Path) : Prop where
  exist : ∀ root ∈ roots, ∃ project, system.canonical root = .ok project
  usable : ∀ project, system.Reachable roots project → system.Usable project

/-- The project of a root is reached. -/
theorem reachable_of_root {system : FileSystem} {roots : List Path} {root project : Path}
    (hroot : root ∈ roots) (hpath : system.canonical root = .ok project) :
    system.Reachable roots project :=
  ⟨root, hroot, project, hpath, .refl⟩

/-- What a reached project references is reached. -/
theorem Reachable.step {system : FileSystem} {roots : List Path} {project target : Path}
    (h : system.Reachable roots project) (hreference : system.References project target) :
    system.Reachable roots target := by
  obtain ⟨root, hroot, first, hpath, hreaches⟩ := h
  exact ⟨root, hroot, first, hpath, hreaches.tail hreference⟩

/-- What holds of the projects of all roots and is handed on by references holds of all that is
reached. -/
theorem Reachable.induction {system : FileSystem} {roots : List Path} (holds : Path → Prop)
    (hroots : ∀ root ∈ roots, ∀ project, system.canonical root = .ok project → holds project)
    (hstep : ∀ project target, holds project → system.References project target → holds target)
    {project : Path} (h : system.Reachable roots project) : holds project := by
  obtain ⟨root, hroot, first, hpath, hreaches⟩ := h
  induction hreaches with
  | refl => exact hroots root hroot first hpath
  | tail _ hreference ih => exact hstep _ _ ih hreference

/-- What is reached does not depend on the order of the roots. -/
theorem reachable_congr {system : FileSystem} {roots others : List Path}
    (h : ∀ root, root ∈ roots ↔ root ∈ others) (project : Path) :
    system.Reachable roots project ↔ system.Reachable others project := by
  unfold Reachable
  simp only [h]

/-- Usable projects that the roots lead to and that reference only one another are all that is
reached. -/
theorem intact_of_closed {system : FileSystem} {roots : List Path} (projects : List Path)
    (hroots : ∀ root ∈ roots, ∃ project ∈ projects, system.canonical root = .ok project)
    (hprojects : ∀ project ∈ projects, ∃ descriptor sources,
      system.loadDescriptor project = .ok descriptor ∧ descriptor.sources system = .ok sources ∧
      ∀ reference ∈ descriptor.projectReferences,
        ∃ target ∈ projects, system.canonical reference = .ok target) :
    system.Intact roots := by
  have hmem : ∀ project, system.Reachable roots project → project ∈ projects := by
    intro project h
    refine h.induction (· ∈ projects) ?_ ?_
    · intro root hroot project hpath
      obtain ⟨found, hfound, hcanonical⟩ := hroots root hroot
      rwa [Except.ok.inj (hpath.symm.trans hcanonical)]
    · rintro project target hproject ⟨descriptor, reference, hload, hreference, htarget⟩
      obtain ⟨other, sources, hother, -, htargets⟩ := hprojects project hproject
      rw [Except.ok.inj (hload.symm.trans hother)] at hreference
      obtain ⟨found, hfound, hcanonical⟩ := htargets reference hreference
      rwa [Except.ok.inj (htarget.symm.trans hcanonical)]
  refine ⟨?_, ?_⟩
  · intro root hroot
    obtain ⟨project, -, hpath⟩ := hroots root hroot
    exact ⟨project, hpath⟩
  · intro project hreachable
    obtain ⟨descriptor, sources, hload, hsources, htargets⟩ :=
      hprojects project (hmem project hreachable)
    refine ⟨descriptor, sources, hload, hsources, ?_⟩
    intro reference hreference
    obtain ⟨target, -, htarget⟩ := htargets reference hreference
    exact ⟨target, htarget⟩

/-! ## A fork -/

/-- The application and its libraries can be used. -/
theorem intact_fork : (fork "lib" "util").Intact [⟨"/app"⟩] := by
  apply intact_of_closed [⟨"/app"⟩, ⟨"/lib"⟩, ⟨"/util"⟩]
  · simp [canonical_app]
  · simp only [List.mem_cons, List.not_mem_nil, or_false, forall_eq_or_imp, forall_eq]
    refine ⟨⟨_, [], loadDescriptor_app, sources_applicationDescriptor _ _, ?_⟩,
      ⟨_, [], loadDescriptor_lib _ _, sources_plainDescriptor _ _ _, ?_⟩,
      ⟨_, [], loadDescriptor_util _ _, sources_plainDescriptor _ _ _, ?_⟩⟩
    · simp [applicationDescriptor, plainDescriptor, canonical_lib, canonical_util]
    · simp [plainDescriptor]
    · simp [plainDescriptor]

/-- A project whose descriptor lists no references has none. -/
theorem not_references_of_nil {system : FileSystem} {project : Path} {descriptor : Descriptor}
    (hload : system.loadDescriptor project = .ok descriptor)
    (hnil : descriptor.projectReferences = []) (target : Path) :
    ¬ system.References project target := by
  rintro ⟨found, reference, hfound, hreference, -⟩
  rw [← Except.ok.inj (hload.symm.trans hfound), hnil] at hreference
  exact List.not_mem_nil hreference

/-- The application references its libraries only. -/
theorem references_app {target : Path}
    (h : (fork "lib" "util").References ⟨"/app"⟩ target) :
    target = ⟨"/lib"⟩ ∨ target = ⟨"/util"⟩ := by
  obtain ⟨found, reference, hfound, hmem, htarget⟩ := h
  rw [← Except.ok.inj (loadDescriptor_app.symm.trans hfound)] at hmem
  have hnames : reference = ⟨"/lib"⟩ ∨ reference = ⟨"/util"⟩ := by
    simpa [applicationDescriptor, plainDescriptor] using hmem
  rcases hnames with rfl | rfl
  · exact Or.inl (Except.ok.inj ((canonical_lib _ _).symm.trans htarget)).symm
  · exact Or.inr (Except.ok.inj ((canonical_util _ _).symm.trans htarget)).symm

/-- The application reaches itself and its libraries. -/
theorem reachable_fork {project : Path}
    (h : (fork "lib" "util").Reachable [⟨"/app"⟩] project) :
    project = ⟨"/app"⟩ ∨ project = ⟨"/lib"⟩ ∨ project = ⟨"/util"⟩ := by
  refine h.induction
    (fun project => project = ⟨"/app"⟩ ∨ project = ⟨"/lib"⟩ ∨ project = ⟨"/util"⟩) ?_ ?_
  · intro root hroot project hpath
    rw [List.mem_singleton.1 hroot, canonical_app] at hpath
    exact Or.inl (Except.ok.inj hpath).symm
  · rintro project target (rfl | rfl | rfl) hnext
    · exact Or.inr (references_app hnext)
    · exact absurd hnext (not_references_of_nil (loadDescriptor_lib _ _) rfl target)
    · exact absurd hnext (not_references_of_nil (loadDescriptor_util _ _) rfl target)

/-- Only the application references anything. -/
theorem references_fork {project target : Path} (hreachable : (fork "lib" "util").Reachable
    [⟨"/app"⟩] project) (hreference : (fork "lib" "util").References project target) :
    project = ⟨"/app"⟩ ∧ (target = ⟨"/lib"⟩ ∨ target = ⟨"/util"⟩) := by
  rcases reachable_fork hreachable with rfl | rfl | rfl
  · exact ⟨rfl, references_app hreference⟩
  · exact absurd hreference (not_references_of_nil (loadDescriptor_lib _ _) rfl target)
  · exact absurd hreference (not_references_of_nil (loadDescriptor_util _ _) rfl target)

end FileSystem
end ProjectAssembler
