import ProjectAssembler.Proofs.Project.Circles
import ProjectAssembler.Proofs.Project.Completeness
import ProjectAssembler.Proofs.Project.Reachability

/-!
# Resolutions and circles

When everything that is reached can be read, only a circle of references stops a resolution, and a
circle always does: it is not hidden by projects that another root has visited before, and no
project that is merely met again is taken for one.

Main definition: `FileSystem.Acyclic`.

Main results:

* `Resolver.cycle_of_error`: among usable projects every error names a circle;
* `Resolver.assembleProjects_isOk_iff_acyclic`: projects are assembled exactly when their references
  form no circle.
-/

namespace ProjectAssembler

/-- No project that is reached from the roots leads back to itself. -/
def FileSystem.Acyclic (system : FileSystem) (roots : List Path) : Prop :=
  ∀ project, system.Reachable roots project →
    ¬ Relation.TransGen system.References project project

namespace Resolver

variable {resolver : Resolver}

/-- Among usable projects that reference only one another every error names a circle of them. -/
theorem cycle_of_error (hnamed : resolver.system.WellNamed) (hactive : resolver.cancelled = false)
    {member : Path → Prop}
    (husable : ∀ project, member project → resolver.system.Usable project)
    (hclosed : ∀ project target, member project → resolver.system.References project target →
      member target)
    {opened : List Path} (hspelled : ∀ other ∈ opened, other.IsCanonical)
    (hopened : ∀ other ∈ opened, member other) {path project : Path}
    (hpath : resolver.system.canonical path = .ok project) (hproject : member project)
    {state : ResolutionState} (hstate : state.WellFormed) {error : ResolveError}
    (h : (resolver.resolveProject opened path state).1 = .error error) :
    ∃ projects, error = .cycle projects ∧ ∀ other ∈ projects, member other := by
  refine ((traversal_induction hnamed
    (fun opened path _ outcome => (∀ other ∈ opened, member other) →
      ∀ project, resolver.system.canonical path = .ok project → member project →
      ∀ error, outcome.1 = .error error →
        ∃ projects, error = .cycle projects ∧ ∀ other ∈ projects, member other)
    (fun opened _ references _ outcome => (∀ other ∈ opened, member other) →
      (∀ reference ∈ references, ∃ target,
        resolver.system.canonical reference = .ok target ∧ member target) →
      ∀ error, outcome.1 = .error error →
        ∃ projects, error = .cycle projects ∧ ∀ other ∈ projects, member other)
    ?_ ?_ ?_ ?_ ?_ ?_ ?_ ?_ ?_ ?_).1 opened path state hspelled hstate).2.2 hopened project hpath
    hproject error h
  · intro _ _ _ hcancelled
    rw [hactive] at hcancelled
    exact absurd hcancelled (by simp)
  · intro _ path _ cause hmissing _ project hpath
    rw [hmissing] at hpath
    exact absurd hpath (by simp)
  · intro opened path _ project _ _ _ hmem hopened _ _ _ error herror
    refine ⟨cycleAt opened project, (Except.error.inj herror).symm, ?_⟩
    intro other hother
    rcases List.mem_append.1 hother with hother | hother
    · exact hopened other (List.mem_reverse.1 ((List.dropWhile_suffix _).subset hother))
    · rw [List.mem_singleton.1 hother]
      exact hopened project hmem
  · intro _ _ _ _ _ _ _ _ _ _ _ _ herror
    simp at herror
  · intro _ path _ project error hasked hload _ found hpath hmember
    rw [Except.ok.inj (hasked.canonical.symm.trans hpath)] at hload
    obtain ⟨descriptor, sources, hloads, -⟩ := husable found hmember
    rw [hloads] at hload
    exact absurd hload (by simp)
  · intro _ path _ project descriptor error hasked hload hsources _ found hpath hmember
    rw [Except.ok.inj (hasked.canonical.symm.trans hpath)] at hload
    obtain ⟨other, sources, hloads, hfinds, -⟩ := husable found hmember
    rw [← Except.ok.inj (hload.symm.trans hloads), hsources] at hfinds
    exact absurd hfinds (by simp)
  · intro opened path _ project descriptor sources result after hasked hload _ _ hreferences
      hopened found hpath hmember error herror
    rw [← Except.ok.inj (hasked.canonical.symm.trans hpath)] at hmember
    cases result with
    | ok => simp [Except.map] at herror
    | error cause =>
        apply hreferences _ _ error (by simpa [Except.map] using herror)
        · intro other hother
          rcases List.mem_cons.1 hother with rfl | hother
          · exact hmember
          · exact hopened other hother
        · intro reference hreference
          obtain ⟨other, _, hloads, -, htargets⟩ := husable project hmember
          rw [Except.ok.inj (hload.symm.trans hloads)] at hreference
          obtain ⟨target, htarget⟩ := htargets reference hreference
          exact ⟨target, htarget, hclosed project target hmember
            ⟨other, reference, hloads, hreference, htarget⟩⟩
  · intro _ _ _ _ _ _ herror
    simp at herror
  · intro opened _ reference rest _ cause _ hstopped hopened hreferences error herror
    obtain ⟨target, htarget, hmember⟩ := hreferences reference List.mem_cons_self
    exact hstopped hopened target htarget hmember error (by simpa using herror)
  · intro opened _ reference rest _ _ _ _ _ _ _ _ hrest hopened hreferences
    exact hrest hopened fun other hother => hreferences other (List.mem_cons_of_mem _ hother)

/-- When the calls for several roots fail, one of them has failed. -/
theorem exists_of_resolveRoots_error (hnamed : resolver.system.WellNamed) {roots : List Path}
    {state : ResolutionState} (hstate : state.WellFormed) {error : ResolveError}
    (h : (resolver.resolveRoots roots state).1 = .error error) :
    ∃ root ∈ roots, ∃ before : ResolutionState, before.WellFormed ∧
      (resolver.resolveProject [] root before).1 = .error error := by
  induction roots generalizing state with
  | nil => simp [resolveRoots] at h
  | cons root rest ih =>
      obtain ⟨hafter, -⟩ := grows_resolveProject hnamed (List.forall_mem_nil _) root hstate
      unfold resolveRoots at h
      rcases hrun : resolver.resolveProject [] root state with ⟨cause | project, after⟩
      · simp only [hrun] at h
        refine ⟨root, List.mem_cons_self, state, hstate, ?_⟩
        rw [hrun, Except.error.inj h]
      · rw [hrun] at hafter
        simp only [hrun] at h
        obtain ⟨other, hother, hfailed⟩ :=
          ih (ResolutionState.wellFormed_addRoot hafter project) h
        exact ⟨other, List.mem_cons_of_mem _ hother, hfailed⟩

/-- Whatever is reached from roots that have been resolved without error leads to no circle. -/
theorem acyclic_of_resolveRoots (hnamed : resolver.system.WellNamed) {roots : List Path}
    (h : (resolver.resolveRoots roots .empty).1 = .ok ()) : resolver.system.Acyclic roots := by
  obtain ⟨-, -, hcovers, hroots⟩ := covers_resolveRoots hnamed ResolutionState.wellFormed_empty h
  intro project hreachable
  obtain ⟨root, hroot, first, hfirst, hreaches⟩ := hreachable
  obtain ⟨found, hfound, hvisited⟩ := hroots root hroot
  rw [Except.ok.inj (hfound.symm.trans hfirst)] at hvisited
  have hfounded : resolver.Founded first :=
    hcovers.founded (by simp [ResolutionState.empty]) first hvisited (by simp)
  exact (hfounded.of_reaches hreaches).not_circular

/-- Among usable projects an error names a circle that is reached from the roots. -/
theorem isCircle_of_resolveRoots_error (hnamed : resolver.system.WellNamed)
    (hactive : resolver.cancelled = false) {roots : List Path}
    (hintact : resolver.system.Intact roots) {error : ResolveError}
    (h : (resolver.resolveRoots roots .empty).1 = .error error) :
    ∃ projects, error = .cycle projects ∧ resolver.system.IsCircle projects ∧
      ∀ project ∈ projects, resolver.system.Reachable roots project := by
  obtain ⟨root, hroot, before, hbefore, hfailed⟩ :=
    exists_of_resolveRoots_error hnamed ResolutionState.wellFormed_empty h
  obtain ⟨first, hfirst⟩ := hintact.exist root hroot
  obtain ⟨projects, rfl, hreached⟩ := cycle_of_error hnamed hactive hintact.usable
    (fun _ _ hproject hreference => hproject.step hreference) (by simp) (by simp) hfirst
    (FileSystem.reachable_of_root hroot hfirst) hbefore hfailed
  exact ⟨projects, rfl, isCircle_of_cycle hnamed (by simp) hbefore
    (fun project _ => leads_nil project) hfailed, hreached⟩

/-- Without a circle usable projects are assembled. -/
theorem exists_assembleProjects (hnamed : resolver.system.WellNamed)
    (hactive : resolver.cancelled = false) {roots : List Path}
    (hintact : resolver.system.Intact roots) (hacyclic : resolver.system.Acyclic roots) :
    ∃ resolution, resolver.assembleProjects roots = .ok resolution := by
  unfold assembleProjects
  rcases hrun : resolver.resolveRoots roots .empty with ⟨error | ok, state⟩
  · have herror : (resolver.resolveRoots roots .empty).1 = .error error := by rw [hrun]
    obtain ⟨projects, -, hcircle, hreached⟩ :=
      isCircle_of_resolveRoots_error hnamed hactive hintact herror
    obtain ⟨project, hproject, hcircular⟩ := hcircle.exists_transGen
    exact absurd hcircular (hacyclic project (hreached project hproject))
  · exact ⟨state.resolution, rfl⟩

/-- Roots that are assembled have been resolved without error. -/
theorem resolveRoots_of_assembleProjects {roots : List Path} {resolution : Resolution}
    (h : resolver.assembleProjects roots = .ok resolution) :
    (resolver.resolveRoots roots .empty).1 = .ok () ∧
      (resolver.resolveRoots roots .empty).2.resolution = resolution := by
  unfold assembleProjects at h
  rcases hrun : resolver.resolveRoots roots .empty with ⟨error | ok, state⟩
  · simp [hrun] at h
  · simp only [hrun, Except.ok.injEq] at h
    exact ⟨rfl, h⟩

/-- When everything that is reached from the roots can be used, the roots are assembled exactly when
the references that are reached form no circle, and otherwise a circle is reported. -/
theorem assembleProjects_isOk_iff_acyclic (hnamed : resolver.system.WellNamed)
    (hactive : resolver.cancelled = false) {roots : List Path}
    (hintact : resolver.system.Intact roots) :
    ((∃ resolution, resolver.assembleProjects roots = .ok resolution) ↔
      resolver.system.Acyclic roots) ∧
    (¬ resolver.system.Acyclic roots →
      ∃ projects, resolver.assembleProjects roots = .error (.cycle projects) ∧
        resolver.system.IsCircle projects) := by
  refine ⟨⟨?_, exists_assembleProjects hnamed hactive hintact⟩, ?_⟩
  · rintro ⟨resolution, hassembled⟩
    exact acyclic_of_resolveRoots hnamed (resolveRoots_of_assembleProjects hassembled).1
  · intro hcircular
    rcases hrun : resolver.resolveRoots roots .empty with ⟨error | ok, state⟩
    · have herror : (resolver.resolveRoots roots .empty).1 = .error error := by rw [hrun]
      obtain ⟨projects, rfl, hcircle, -⟩ :=
        isCircle_of_resolveRoots_error hnamed hactive hintact herror
      refine ⟨projects, ?_, hcircle⟩
      simp only [assembleProjects, hrun]
    · have hok : (resolver.resolveRoots roots .empty).1 = .ok () := by rw [hrun]
      exact absurd (acyclic_of_resolveRoots hnamed hok) hcircular

/-- The application and its libraries form no circle. -/
theorem acyclic_fork : (FileSystem.fork "lib" "util").Acyclic [⟨"/app"⟩] := by
  intro project hreachable hcircle
  obtain ⟨next, hfirst, -⟩ := Relation.TransGen.head'_iff.1 hcircle
  obtain ⟨last, hbefore, hlast⟩ := Relation.TransGen.tail'_iff.1 hcircle
  obtain ⟨rfl, -⟩ := FileSystem.references_fork hreachable hfirst
  have hreached : (FileSystem.fork "lib" "util").Reachable [⟨"/app"⟩] last :=
    ⟨⟨"/app"⟩, List.mem_cons_self, ⟨"/app"⟩, FileSystem.canonical_app _ _, hbefore⟩
  obtain ⟨-, heq | heq⟩ := FileSystem.references_fork hreached hlast
  · exact absurd heq (by decide)
  · exact absurd heq (by decide)

/-- The application is assembled. -/
theorem exists_assembleProjects_fork :
    ∃ resolution, (Resolver.mk (.fork "lib" "util") ⟨⟨"/packages"⟩, none⟩ false).assembleProjects
      [⟨"/app"⟩] = .ok resolution :=
  (assembleProjects_isOk_iff_acyclic (FileSystem.wellNamed_flat _) rfl
    FileSystem.intact_fork).1.2 acyclic_fork

end Resolver
end ProjectAssembler
