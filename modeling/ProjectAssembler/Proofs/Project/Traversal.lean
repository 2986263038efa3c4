import ProjectAssembler.Project.Resolver
import ProjectAssembler.Proofs.Project.States

/-!
# The traversal of projects

Whatever holds of every step of a resolution holds of the whole traversal.  The induction principle
of this module says what the steps are, in terms of canonical paths: whether a path is among the
open or the visited projects is a question of membership, because canonical paths that are the same
are equal.

Main definitions:

* `Resolver.Asked`: a path leads to a project that is neither open nor visited;
* `FileSystem.References`: a project declares a reference to another one.

Main results:

* `Resolver.traversal_induction`: the induction principle;
* `Resolver.grows_resolveProject`: a state stays in good order and only grows, whatever the outcome.
-/

namespace ProjectAssembler

/-- A project declares a reference to another one, both known by their canonical paths. -/
def FileSystem.References (system : FileSystem) (project target : Path) : Prop :=
  ∃ descriptor reference, system.loadDescriptor project = .ok descriptor ∧
    reference ∈ descriptor.projectReferences ∧ system.canonical reference = .ok target

namespace Resolver

/-- A path leads to a project that is neither open nor visited. -/
structure Asked (resolver : Resolver) (opened : List Path) (path : Path) (state : ResolutionState)
    (project : Path) : Prop where
  canonical : resolver.system.canonical path = .ok project
  spelled : project.IsCanonical
  not_opened : project ∉ opened
  not_visited : project ∉ state.visited
  wellFormed : state.WellFormed

variable {resolver : Resolver}

/-- A path that leads to a project which is neither open nor visited asks for it. -/
theorem asked_of_fresh (hnamed : resolver.system.WellNamed) {opened : List Path} {path : Path}
    {state : ResolutionState} {project : Path} (hopened : ∀ other ∈ opened, other.IsCanonical)
    (hstate : state.WellFormed) (hpath : resolver.system.canonical path = .ok project)
    (hclosed : ¬ FileSystem.isOpened opened project = true)
    (hfresh : ¬ state.isVisited project = true) : resolver.Asked opened path state project := by
  have hspelled := FileSystem.isCanonical_of_canonical hnamed hpath
  exact ⟨hpath, hspelled, fun hmem => hclosed ((Path.any_same_iff hopened hspelled).2 hmem),
    fun hmem => hfresh ((ResolutionState.isVisited_iff hstate hspelled).2 hmem), hstate⟩

/-- The open projects stay canonical when one that was asked for is opened. -/
theorem Asked.forall_opened {opened : List Path} {path : Path} {state : ResolutionState}
    {project : Path} (h : resolver.Asked opened path state project)
    (hopened : ∀ other ∈ opened, other.IsCanonical) :
    ∀ other ∈ project :: opened, other.IsCanonical := by
  intro other hother
  rcases List.mem_cons.1 hother with rfl | hother
  · exact h.spelled
  · exact hopened other hother

/-- The state in good order in which a project that was asked for has been entered. -/
theorem Asked.wellFormed_enter {opened : List Path} {path : Path} {state : ResolutionState}
    {project : Path} (h : resolver.Asked opened path state project)
    (sources libraries : List Path) :
    (state.enter resolver.system project sources libraries).WellFormed :=
  ResolutionState.wellFormed_enter h.wellFormed h.spelled resolver.system sources libraries

/-- Entering a project that was asked for loses nothing. -/
theorem Asked.grows_enter {opened : List Path} {path : Path} {state : ResolutionState}
    {project : Path} (h : resolver.Asked opened path state project)
    (sources libraries : List Path) :
    state.Grows (state.enter resolver.system project sources libraries) :=
  ResolutionState.grows_enter h.wellFormed h.spelled resolver.system sources libraries

/-! ## Induction -/

/-- The induction principle of the traversal.  `onProject` speaks of a project that is asked for
while others are open, and `onReferences` of the references of an open project; both of a state and
of the outcome with the state afterwards.  On the way every state is in good order and holds all
that the earlier ones hold. -/
theorem traversal_induction (hnamed : resolver.system.WellNamed)
    (onProject : List Path → Path → ResolutionState →
      Except ResolveError Path × ResolutionState → Prop)
    (onReferences : List Path → Path → List Path → ResolutionState →
      Except ResolveError Unit × ResolutionState → Prop)
    (cancelled : ∀ opened path state, resolver.cancelled = true →
      onProject opened path state (.error .cancelled, state))
    (missing : ∀ opened path state cause, resolver.system.canonical path = .error cause →
      onProject opened path state (.error (.descriptor (.read path cause)), state))
    (circular : ∀ opened path state project, resolver.system.canonical path = .ok project →
      project.IsCanonical → (∀ other ∈ opened, other.IsCanonical) → project ∈ opened →
      onProject opened path state (.error (.cycle (cycleAt opened project)), state))
    (known : ∀ opened path state project, resolver.system.canonical path = .ok project →
      project ∉ opened → project ∈ state.visited → onProject opened path state (.ok project, state))
    (unreadable : ∀ opened path state project error, resolver.Asked opened path state project →
      resolver.system.loadDescriptor project = .error error →
      onProject opened path state (.error (.descriptor error), state.visit project))
    (sourceless : ∀ opened path state project descriptor error,
      resolver.Asked opened path state project →
      resolver.system.loadDescriptor project = .ok descriptor →
      descriptor.sources resolver.system = .error error →
      onProject opened path state
        (.error (.sources error), (state.visit project).addProject project))
    (entered : ∀ opened path state project descriptor sources result after,
      resolver.Asked opened path state project →
      resolver.system.loadDescriptor project = .ok descriptor →
      descriptor.sources resolver.system = .ok sources →
      (state.enter resolver.system project sources
        (descriptor.libraries resolver.system resolver.platform)).Grows after →
      onReferences (project :: opened) project descriptor.projectReferences
        (state.enter resolver.system project sources
          (descriptor.libraries resolver.system resolver.platform)) (result, after) →
      onProject opened path state (result.map fun _ => project, after))
    (nil : ∀ opened project state, onReferences opened project [] state (.ok (), state))
    (stopped : ∀ opened project reference rest state error after,
      onProject opened reference state (.error error, after) →
      onReferences opened project (reference :: rest) state (.error error, after))
    (continued : ∀ opened project reference rest state target after outcome,
      project.IsCanonical → after.WellFormed → (after.addReference project target).Grows outcome.2 →
      onProject opened reference state (.ok target, after) →
      onReferences opened project rest (after.addReference project target) outcome →
      onReferences opened project (reference :: rest) state outcome) :
    (∀ opened path state, (∀ other ∈ opened, other.IsCanonical) → state.WellFormed →
      (resolver.resolveProject opened path state).2.WellFormed ∧
        state.Grows (resolver.resolveProject opened path state).2 ∧
        onProject opened path state (resolver.resolveProject opened path state)) ∧
    (∀ opened project references state, (∀ other ∈ opened, other.IsCanonical) →
      project ∈ opened → state.WellFormed →
      (resolver.resolveReferences opened project references state).2.WellFormed ∧
        state.Grows (resolver.resolveReferences opened project references state).2 ∧
        onReferences opened project references state
          (resolver.resolveReferences opened project references state)) := by
  apply resolveProject.mutual_induct_unfolding resolver
    (fun opened path state outcome => (∀ other ∈ opened, other.IsCanonical) → state.WellFormed →
      outcome.2.WellFormed ∧ state.Grows outcome.2 ∧ onProject opened path state outcome)
    (fun opened project references state outcome => (∀ other ∈ opened, other.IsCanonical) →
      project ∈ opened → state.WellFormed →
      outcome.2.WellFormed ∧ state.Grows outcome.2 ∧
        onReferences opened project references state outcome)
  · intro opened path state hcancelled hopened hstate
    exact ⟨hstate, .refl state, cancelled opened path state hcancelled⟩
  · intro opened path state _ cause hpath hopened hstate
    exact ⟨hstate, .refl state, missing opened path state cause hpath⟩
  · intro opened path state _ project hpath hmem hopened hstate
    have hspelled := FileSystem.isCanonical_of_canonical hnamed hpath
    exact ⟨hstate, .refl state, circular opened path state project hpath hspelled hopened
      ((Path.any_same_iff hopened hspelled).1 hmem)⟩
  · intro opened path state _ project hpath hclosed hvisited hopened hstate
    have hspelled := FileSystem.isCanonical_of_canonical hnamed hpath
    exact ⟨hstate, .refl state, known opened path state project hpath
      (fun hmem => hclosed ((Path.any_same_iff hopened hspelled).2 hmem))
      ((ResolutionState.isVisited_iff hstate hspelled).1 hvisited)⟩
  · intro opened path state _ project hpath hclosed hfresh visited error hload hopened hstate
    have h := asked_of_fresh hnamed hopened hstate hpath hclosed hfresh
    exact ⟨ResolutionState.wellFormed_visit hstate h.spelled,
      ResolutionState.grows_visit state project,
      unreadable opened path state project error h hload⟩
  · intro opened path state _ project hpath hclosed hfresh visited descriptor hload added error
      hsources hopened hstate
    have h := asked_of_fresh hnamed hopened hstate hpath hclosed hfresh
    have hvisited := ResolutionState.wellFormed_visit hstate h.spelled
    exact ⟨ResolutionState.wellFormed_addProject hvisited project,
      (ResolutionState.grows_visit state project).trans
        (ResolutionState.grows_addProject hvisited project),
      sourceless opened path state project descriptor error h hload hsources⟩
  · intro opened path state _ project hpath hclosed hfresh visited descriptor hload added sources
      hsources libraries inside error after hrun ih hopened hstate
    have h := asked_of_fresh hnamed hopened hstate hpath hclosed hfresh
    obtain ⟨hafter, hgrows, hreferences⟩ :=
      ih (h.forall_opened hopened) List.mem_cons_self (h.wellFormed_enter sources libraries)
    rw [hrun] at hafter hgrows hreferences
    exact ⟨hafter, (h.grows_enter sources libraries).trans hgrows,
      entered opened path state project descriptor sources (.error error) after h hload hsources
        hgrows hreferences⟩
  · intro opened path state _ project hpath hclosed hfresh visited descriptor hload added sources
      hsources libraries inside after hrun ih hopened hstate
    have h := asked_of_fresh hnamed hopened hstate hpath hclosed hfresh
    obtain ⟨hafter, hgrows, hreferences⟩ :=
      ih (h.forall_opened hopened) List.mem_cons_self (h.wellFormed_enter sources libraries)
    rw [hrun] at hafter hgrows hreferences
    exact ⟨hafter, (h.grows_enter sources libraries).trans hgrows,
      entered opened path state project descriptor sources (.ok ()) after h hload hsources
        hgrows hreferences⟩
  · intro opened project state hopened hproject hstate
    exact ⟨hstate, .refl state, nil opened project state⟩
  · intro opened project state reference rest error after hrun ih hopened hproject hstate
    obtain ⟨hafter, hgrows, hreference⟩ := ih hopened hstate
    rw [hrun] at hafter hgrows hreference
    exact ⟨hafter, hgrows, stopped opened project reference rest state error after hreference⟩
  · intro opened project state reference rest target after hrun ih ihRest hopened hproject hstate
    obtain ⟨hafter, hgrows, hreference⟩ := ih hopened hstate
    rw [hrun] at hafter hgrows hreference
    obtain ⟨hend, hgrowsRest, hrest⟩ := ihRest hopened hproject
      (ResolutionState.wellFormed_addReference hafter project target)
    exact ⟨hend,
      hgrows.trans
        ((ResolutionState.grows_addReference hafter project target).trans hgrowsRest),
      continued opened project reference rest state target after _ (hopened project hproject)
        hafter hgrowsRest hreference hrest⟩

/-- A state stays in good order and only grows while a project is resolved, whatever the outcome. -/
theorem grows_resolveProject (hnamed : resolver.system.WellNamed) {opened : List Path}
    (hopened : ∀ other ∈ opened, other.IsCanonical) (path : Path) {state : ResolutionState}
    (hstate : state.WellFormed) :
    (resolver.resolveProject opened path state).2.WellFormed ∧
      state.Grows (resolver.resolveProject opened path state).2 := by
  obtain ⟨hafter, hgrows, -⟩ := (traversal_induction hnamed (fun _ _ _ _ => True)
    (fun _ _ _ _ _ => True) (by simp) (by simp) (by simp) (by simp) (by simp) (by simp) (by simp)
    (by simp) (by simp) (by simp)).1 opened path state hopened hstate
  exact ⟨hafter, hgrows⟩

end Resolver
end ProjectAssembler
