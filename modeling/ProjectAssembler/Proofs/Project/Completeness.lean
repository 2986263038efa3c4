import Mathlib.Logic.Relation
import ProjectAssembler.Proofs.Project.Traversal

/-!
# What a successful traversal leaves

A project is settled when everything that it contributes is in the state: its sources and libraries,
the project itself, and its references to projects that have been visited.  A call that succeeds
settles every project that it visits.  When it started with nothing but settled projects, none of
the projects that it has finished lies on a circle of references or leads to one.

Main definitions:

* `Resolver.Merged`: what a project contributes by itself is in a state;
* `Resolver.Settled`: a project has been resolved into a state;
* `Resolver.Founded`: no chain of references from a project goes on for ever;
* `Resolver.Covers`: what a successful part of a traversal guarantees.

Main results:

* `Resolver.covers_resolveProject`: a successful call covers all that it visits;
* `Resolver.covers_resolveRoots`: so do successful calls for several roots;
* `Resolver.Settled.followed`: a settled project's references have been visited.
-/

namespace ProjectAssembler
namespace Resolver

variable {resolver : Resolver}

/-- What a project contributes by itself, as its descriptor says, is in a state. -/
structure Merged (resolver : Resolver) (state : ResolutionState) (project : Path)
    (descriptor : Descriptor) (sources : List Path) : Prop where
  loads : resolver.system.loadDescriptor project = .ok descriptor
  finds : descriptor.sources resolver.system = .ok sources
  listed : state.graph.Has project
  sources : ∀ source ∈ sources,
    state.resolution.sources.holds (resolver.system.normalPath source) = true
  libraries : ∀ library ∈ descriptor.libraries resolver.system resolver.platform,
    state.resolution.references.holds (resolver.system.normalPath library) = true

/-- A reference has been followed: it leads to a visited project, and the graph records it. -/
def Followed (resolver : Resolver) (state : ResolutionState) (project reference : Path) : Prop :=
  ∃ target, resolver.system.canonical reference = .ok target ∧
    state.graph.Refers project target ∧ target ∈ state.visited

/-- A project has been resolved into a state: what it contributes is there and its references have
been followed. -/
def Settled (resolver : Resolver) (state : ResolutionState) (project : Path) : Prop :=
  ∃ descriptor sources, resolver.Merged state project descriptor sources ∧
    ∀ reference ∈ descriptor.projectReferences, resolver.Followed state project reference

/-- No chain of references from a project goes on for ever. -/
def Founded (resolver : Resolver) (project : Path) : Prop :=
  Acc (fun target source => resolver.system.References source target) project

/-- What a successful part of a traversal guarantees: the projects that it has visited are settled,
apart from the open ones, and no project that is finished leads to a circle. -/
structure Covers (resolver : Resolver) (opened : List Path) (before after : ResolutionState) :
    Prop where
  settled : ∀ project ∈ after.visited, project ∉ before.visited → resolver.Settled after project
  founded : (∀ project ∈ before.visited, project ∉ opened → resolver.Founded project) →
    ∀ project ∈ after.visited, project ∉ opened → resolver.Founded project

/-! ## Settled projects -/

theorem Merged.mono {before after : ResolutionState} (h : before.Grows after) {project : Path}
    {descriptor : Descriptor} {sources : List Path}
    (hmerged : resolver.Merged before project descriptor sources) :
    resolver.Merged after project descriptor sources where
  loads := hmerged.loads
  finds := hmerged.finds
  listed := h.projects project hmerged.listed
  sources source hsource := h.sources _ (hmerged.sources source hsource)
  libraries library hlibrary := h.references _ (hmerged.libraries library hlibrary)

theorem Followed.mono {before after : ResolutionState} (h : before.Grows after)
    {project reference : Path} (hfollowed : resolver.Followed before project reference) :
    resolver.Followed after project reference := by
  obtain ⟨target, hcanonical, hedge, hvisited⟩ := hfollowed
  exact ⟨target, hcanonical, h.edges project target hedge, h.visited target hvisited⟩

/-- A settled project stays settled. -/
theorem Settled.mono {before after : ResolutionState} (h : before.Grows after) {project : Path}
    (hsettled : resolver.Settled before project) : resolver.Settled after project := by
  obtain ⟨descriptor, sources, hmerged, hfollowed⟩ := hsettled
  exact ⟨descriptor, sources, hmerged.mono h, fun reference hreference =>
    (hfollowed reference hreference).mono h⟩

/-- Entering a project merges what it contributes by itself. -/
theorem merged_enter (state : ResolutionState) {project : Path} {descriptor : Descriptor}
    {sources : List Path} (hload : resolver.system.loadDescriptor project = .ok descriptor)
    (hsources : descriptor.sources resolver.system = .ok sources) :
    resolver.Merged (state.enter resolver.system project sources
      (descriptor.libraries resolver.system resolver.platform)) project descriptor sources where
  loads := hload
  finds := hsources
  listed := ProjectGraph.has_addProject.2 (Or.inr (Path.same_refl project))
  sources source hsource :=
    PathSet.holds_extend.2 (Or.inr ⟨source, hsource, Path.same_refl _⟩)
  libraries library hlibrary :=
    PathSet.holds_extend.2 (Or.inr ⟨library, hlibrary, Path.same_refl _⟩)

/-- What a settled project references has been visited, and the graph records it. -/
theorem Settled.followed {state : ResolutionState} {project target : Path}
    (h : resolver.Settled state project) (hreference : resolver.system.References project target) :
    state.graph.Refers project target ∧ target ∈ state.visited := by
  obtain ⟨descriptor, sources, hmerged, hfollowed⟩ := h
  obtain ⟨other, reference, hload, hmem, hcanonical⟩ := hreference
  have heq : descriptor = other := Except.ok.inj (hmerged.loads.symm.trans hload)
  subst heq
  obtain ⟨found, hfound, hedge, hvisited⟩ := hfollowed reference hmem
  have heq : found = target := Except.ok.inj (hfound.symm.trans hcanonical)
  subst heq
  exact ⟨hedge, hvisited⟩

/-! ## Founded projects -/

/-- Whatever a founded project reaches is founded. -/
theorem Founded.of_reaches {project target : Path} (h : resolver.Founded project)
    (hreaches : Relation.ReflTransGen resolver.system.References project target) :
    resolver.Founded target := by
  induction hreaches with
  | refl => exact h
  | tail _ hreference ih => exact ih.inv hreference

/-- A founded project does not lead back to itself. -/
theorem Founded.not_circular {project : Path} (h : resolver.Founded project) :
    ¬ Relation.TransGen resolver.system.References project project := by
  induction h with
  | intro project _ ih =>
      intro hcircle
      obtain ⟨next, hfirst, hrest⟩ := Relation.TransGen.head'_iff.1 hcircle
      exact ih next hfirst (Relation.TransGen.tail' hrest hfirst)

/-! ## Parts of a traversal -/

/-- A part that visits nothing covers all that it visits. -/
theorem Covers.refl (opened : List Path) (state : ResolutionState) :
    resolver.Covers opened state state :=
  ⟨fun _ hvisited hfresh => absurd hvisited hfresh, id⟩

/-- Parts of a traversal that follow each other. -/
theorem Covers.trans {opened : List Path} {first second third : ResolutionState}
    (h : resolver.Covers opened first second) (h' : resolver.Covers opened second third)
    (hgrows : second.Grows third) : resolver.Covers opened first third where
  settled project hvisited hfresh := by
    by_cases hmem : project ∈ second.visited
    · exact (h.settled project hmem hfresh).mono hgrows
    · exact h'.settled project hvisited hmem
  founded hfounded := h'.founded (h.founded hfounded)

/-- Recording a reference visits nothing. -/
theorem covers_addReference (opened : List Path) (state : ResolutionState) (source target : Path) :
    resolver.Covers opened state (state.addReference source target) :=
  ⟨fun _ hvisited hfresh => absurd hvisited hfresh, id⟩

/-- Once the references of an entered project have been followed, the project is covered too. -/
theorem Asked.covers_of_followed {opened : List Path} {path project : Path}
    {state after : ResolutionState} {descriptor : Descriptor} {sources : List Path}
    (h : resolver.Asked opened path state project)
    (hload : resolver.system.loadDescriptor project = .ok descriptor)
    (hsources : descriptor.sources resolver.system = .ok sources)
    (hgrows : (state.enter resolver.system project sources
      (descriptor.libraries resolver.system resolver.platform)).Grows after)
    (hcovers : resolver.Covers (project :: opened) (state.enter resolver.system project sources
      (descriptor.libraries resolver.system resolver.platform)) after)
    (hfollowed : ∀ reference ∈ descriptor.projectReferences,
      resolver.Followed after project reference ∧
        ∀ target, resolver.system.canonical reference = .ok target → target ∉ project :: opened) :
    resolver.Covers opened state after where
  settled other hvisited hfresh := by
    by_cases hother : other = project
    · subst hother
      exact ⟨descriptor, sources, (merged_enter state hload hsources).mono hgrows,
        fun reference hreference => (hfollowed reference hreference).1⟩
    · apply hcovers.settled other hvisited
      simp [hother, hfresh]
  founded hfounded := by
    -- What was finished before the project was entered is still finished while it is open.
    have hinside := hcovers.founded (by
      intro other hother hclosed
      simp only [List.mem_cons, not_or] at hclosed
      have hbefore : other ∈ state.visited := by simpa [hclosed.1] using hother
      exact hfounded other hbefore hclosed.2)
    intro other hvisited hclosed
    by_cases hother : other = project
    · subst hother
      refine ⟨other, ?_⟩
      rintro target ⟨found, reference, hfound, hreference, hcanonical⟩
      have heq : descriptor = found := Except.ok.inj (hload.symm.trans hfound)
      subst heq
      obtain ⟨⟨next, hnext, -, hnextVisited⟩, houtside⟩ := hfollowed reference hreference
      have heq : next = target := Except.ok.inj (hnext.symm.trans hcanonical)
      subst heq
      exact hinside next hnextVisited (houtside next hnext)
    · exact hinside other hvisited (by simp [hother, hclosed])

/-- A call that succeeds answers with the canonical path of a project that is visited and no longer
open, and covers all that it visits. -/
theorem covers_resolveProject (hnamed : resolver.system.WellNamed) {opened : List Path}
    (hopened : ∀ other ∈ opened, other.IsCanonical) {path project : Path}
    {state : ResolutionState} (hstate : state.WellFormed)
    (h : (resolver.resolveProject opened path state).1 = .ok project) :
    resolver.system.canonical path = .ok project ∧ project ∉ opened ∧
      project ∈ (resolver.resolveProject opened path state).2.visited ∧
      resolver.Covers opened state (resolver.resolveProject opened path state).2 := by
  refine ((traversal_induction hnamed
    (fun opened path state outcome => ∀ project, outcome.1 = .ok project →
      resolver.system.canonical path = .ok project ∧ project ∉ opened ∧
        project ∈ outcome.2.visited ∧ resolver.Covers opened state outcome.2)
    (fun opened project references state outcome => outcome.1 = .ok () →
      (∀ reference ∈ references, resolver.Followed outcome.2 project reference ∧
        ∀ target, resolver.system.canonical reference = .ok target → target ∉ opened) ∧
      resolver.Covers opened state outcome.2)
    ?_ ?_ ?_ ?_ ?_ ?_ ?_ ?_ ?_ ?_).1 opened path state hopened hstate).2.2 project h
  · intro _ _ _ _ _ hok
    simp at hok
  · intro _ _ _ _ _ _ hok
    simp at hok
  · intro _ _ _ _ _ _ _ _ _ hok
    simp at hok
  · intro opened path state found hpath hclosed hvisited project hok
    rw [← Except.ok.inj hok]
    exact ⟨hpath, hclosed, hvisited, .refl opened state⟩
  · intro _ _ _ _ _ _ _ _ hok
    simp at hok
  · intro _ _ _ _ _ _ _ _ _ _ hok
    simp at hok
  · intro opened path state entered descriptor sources result after hasked hload hsources hgrows
      hreferences project hok
    cases result with
    | error error => simp [Except.map] at hok
    | ok =>
        rw [← Except.ok.inj hok]
        obtain ⟨hfollowed, hcovers⟩ := hreferences rfl
        exact ⟨hasked.canonical, hasked.not_opened, hgrows.visited entered (by simp),
          hasked.covers_of_followed hload hsources hgrows hcovers hfollowed⟩
  · intro opened _ state _
    exact ⟨by simp, .refl opened state⟩
  · intro _ _ _ _ _ _ _ _ hok
    simp at hok
  · intro opened project reference rest state target after outcome hspelled hafter hgrows hproject
      hrest hok
    obtain ⟨hcanonical, hclosed, hvisited, hcovers⟩ := hproject target rfl
    obtain ⟨hfollowed, hcoversRest⟩ := hrest hok
    refine ⟨?_, (hcovers.trans (covers_addReference opened after project target)
      (ResolutionState.grows_addReference hafter project target)).trans hcoversRest hgrows⟩
    intro other hother
    rcases List.mem_cons.1 hother with rfl | hother
    · have hedge : (after.addReference project target).graph.Refers project target :=
        (ProjectGraph.refers_addReference hafter.graph).2
          (Or.inr ⟨Path.same_refl project, Path.same_refl target⟩)
      refine ⟨⟨target, hcanonical, hgrows.edges _ _ hedge, hgrows.visited target hvisited⟩, ?_⟩
      intro found hfound
      rwa [← Except.ok.inj (hcanonical.symm.trans hfound)]
    · exact hfollowed other hother

/-! ## Several roots -/

/-- Calls for several roots that succeed cover all that they visit, and visit every root. -/
theorem covers_resolveRoots (hnamed : resolver.system.WellNamed) {roots : List Path}
    {state : ResolutionState} (hstate : state.WellFormed)
    (h : (resolver.resolveRoots roots state).1 = .ok ()) :
    (resolver.resolveRoots roots state).2.WellFormed ∧
      state.Grows (resolver.resolveRoots roots state).2 ∧
      resolver.Covers [] state (resolver.resolveRoots roots state).2 ∧
      ∀ root ∈ roots, ∃ project, resolver.system.canonical root = .ok project ∧
        project ∈ (resolver.resolveRoots roots state).2.visited := by
  induction roots generalizing state with
  | nil => exact ⟨hstate, .refl state, .refl [] state, by simp⟩
  | cons root rest ih =>
      have hfirst := fun project (hok : (resolver.resolveProject [] root state).1 = .ok project) =>
        covers_resolveProject hnamed (List.forall_mem_nil _) hstate hok
      obtain ⟨hafter, hgrows⟩ :=
        grows_resolveProject hnamed (List.forall_mem_nil _) root hstate
      unfold resolveRoots at h ⊢
      rcases hrun : resolver.resolveProject [] root state with ⟨error | project, after⟩
      · simp [hrun] at h
      · rw [hrun] at hafter hgrows hfirst
        simp only [hrun] at h ⊢
        obtain ⟨hcanonical, -, hvisited, hcovers⟩ := hfirst project rfl
        have hadded := ResolutionState.wellFormed_addRoot hafter project
        have hgrowsAdded := ResolutionState.grows_addRoot hafter project
        obtain ⟨hend, hgrowsRest, hcoversRest, hroots⟩ := ih hadded h
        have hcoversAdded : resolver.Covers [] after (after.addRoot project) :=
          ⟨fun _ hmem hfresh => absurd hmem hfresh, id⟩
        refine ⟨hend, hgrows.trans (hgrowsAdded.trans hgrowsRest),
          (hcovers.trans hcoversAdded hgrowsAdded).trans hcoversRest hgrowsRest, ?_⟩
        intro other hother
        rcases List.mem_cons.1 hother with rfl | hother
        · exact ⟨project, hcanonical, hgrowsRest.visited project hvisited⟩
        · exact hroots other hother

end Resolver
end ProjectAssembler
