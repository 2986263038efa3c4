import ProjectAssembler.Proofs.Project.Completeness

/-!
# What an interrupted traversal leaves

An error stops a traversal while projects are open.  Whatever the outcome, projects that had been
visited before keep the references that they had, and a project that is visited merges what it
contributes by itself as soon as its descriptor can be read and its sources are found.  A call that
fails leaves the project that it was made for visited and unsettled.

Main definitions:

* `ResolutionState.Linked`: the graph records references between visited projects only;
* `Resolver.Leaves`: what resolving a project leaves, whatever the outcome.

Main results:

* `Resolver.Leaves.of_references`: what an entered project leaves follows from its references;
* `Resolver.leaves_resolveProject`: every call leaves what it should.
-/

namespace ProjectAssembler
namespace ResolutionState

/-- The graph records references between visited projects only. -/
def Linked (state : ResolutionState) : Prop :=
  ∀ source target : Path, source.IsCanonical → target.IsCanonical →
    state.graph.Refers source target → source ∈ state.visited ∧ target ∈ state.visited

theorem linked_empty : empty.Linked :=
  fun source target _ _ hedge => absurd hedge (ProjectGraph.not_refers_empty source target)

theorem Linked.visit {state : ResolutionState} (h : state.Linked) (project : Path) :
    (state.visit project).Linked := by
  intro source target hsource htarget hedge
  obtain ⟨hfirst, hsecond⟩ := h source target hsource htarget hedge
  exact ⟨List.mem_cons_of_mem _ hfirst, List.mem_cons_of_mem _ hsecond⟩

theorem Linked.addProject {state : ResolutionState} (h : state.Linked) (hstate : state.WellFormed)
    (project : Path) : (state.addProject project).Linked := by
  intro source target hsource htarget hedge
  exact h source target hsource htarget ((ProjectGraph.refers_addProject hstate.graph).1 hedge)

theorem Linked.addReference {state : ResolutionState} (h : state.Linked)
    (hstate : state.WellFormed) {project other : Path} (hproject : project ∈ state.visited)
    (hother : other ∈ state.visited) : (state.addReference project other).Linked := by
  intro source target hsource htarget hedge
  rcases (ProjectGraph.refers_addReference hstate.graph).1 hedge with hedge | ⟨hfirst, hsecond⟩
  · exact h source target hsource htarget hedge
  · rw [← ((hstate.visited project hproject).same_iff hsource).1 hfirst,
      ← ((hstate.visited other hother).same_iff htarget).1 hsecond]
    exact ⟨hproject, hother⟩

theorem Linked.enter {state : ResolutionState} (h : state.Linked) (hstate : state.WellFormed)
    {project : Path} (hproject : project.IsCanonical) (system : FileSystem)
    (sources libraries : List Path) : (state.enter system project sources libraries).Linked :=
  (h.visit project).addProject (wellFormed_visit hstate hproject) project

end ResolutionState

namespace Resolver

variable {resolver : Resolver}

/-- What a part of a traversal leaves, whatever the outcome: visited projects stay visited, and
those that it visits have merged what they contribute by themselves. -/
structure Visiting (resolver : Resolver) (before after : ResolutionState) : Prop where
  visited : ∀ other ∈ before.visited, other ∈ after.visited
  merged : ∀ other ∈ after.visited, other ∉ before.visited → ∀ descriptor sources,
    resolver.system.loadDescriptor other = .ok descriptor →
    descriptor.sources resolver.system = .ok sources →
    resolver.Merged after other descriptor sources
  linked : before.Linked → after.Linked

/-- What resolving a project leaves, whatever the outcome.  Projects visited before have no new
references.  If it fails the project, unless it was open, is visited but not settled. -/
structure Leaves (resolver : Resolver) (opened : List Path) (path : Path) (state : ResolutionState)
    (outcome : Except ResolveError Path × ResolutionState) : Prop where
  visiting : resolver.Visiting state outcome.2
  kept : ∀ source ∈ state.visited, ∀ target,
    outcome.2.graph.Refers source target → state.graph.Refers source target
  answered : ∀ target, outcome.1 = .ok target → resolver.system.canonical path = .ok target ∧
    target ∉ opened ∧ target ∈ outcome.2.visited
  stopped : ∀ error, outcome.1 = .error error → resolver.cancelled = false →
    ∀ project, resolver.system.canonical path = .ok project → project ∉ opened →
      project ∉ state.visited ∧ project ∈ outcome.2.visited ∧
        (state.Linked → ¬ resolver.Settled outcome.2 project)

/-- What following the references of an open project leaves, whatever the outcome.  If it fails one
of the references has not been followed. -/
structure LeavesReferences (resolver : Resolver) (opened : List Path) (project : Path)
    (references : List Path) (state : ResolutionState)
    (outcome : Except ResolveError Unit × ResolutionState) : Prop where
  visiting : resolver.Visiting state outcome.2
  kept : ∀ source ∈ state.visited, source ≠ project → ∀ target,
    outcome.2.graph.Refers source target → state.graph.Refers source target
  stopped : ∀ error, outcome.1 = .error error → resolver.cancelled = false → state.Linked →
    (∀ target : Path, target.IsCanonical → state.graph.Refers project target → target ∉ opened) →
    ∃ reference ∈ references, ¬ resolver.Followed outcome.2 project reference

/-! ## Parts of a traversal -/

theorem Visiting.refl (state : ResolutionState) : resolver.Visiting state state :=
  ⟨fun _ => id, fun _ hvisited hfresh => absurd hvisited hfresh, id⟩

/-- Parts of a traversal that follow each other. -/
theorem Visiting.trans {first second third : ResolutionState}
    (h : resolver.Visiting first second) (h' : resolver.Visiting second third)
    (hgrows : second.Grows third) : resolver.Visiting first third where
  visited other hother := h'.visited other (h.visited other hother)
  merged other hvisited hfresh descriptor sources hload hsources := by
    by_cases hmem : other ∈ second.visited
    · exact (h.merged other hmem hfresh descriptor sources hload hsources).mono hgrows
    · exact h'.merged other hvisited hmem descriptor sources hload hsources
  linked hlinked := h'.linked (h.linked hlinked)

theorem visiting_addReference {state : ResolutionState} (hstate : state.WellFormed)
    {source target : Path} (hsource : source ∈ state.visited) (htarget : target ∈ state.visited) :
    resolver.Visiting state (state.addReference source target) :=
  ⟨fun _ => id, fun _ hvisited hfresh => absurd hvisited hfresh,
    fun hlinked => hlinked.addReference hstate hsource htarget⟩

/-- An outcome that leaves the state as it is. -/
theorem Leaves.of_same {opened : List Path} {path : Path} {state : ResolutionState}
    {answer : Except ResolveError Path}
    (hanswered : ∀ target, answer = .ok target → resolver.system.canonical path = .ok target ∧
      target ∉ opened ∧ target ∈ state.visited)
    (hstopped : ∀ error, answer = .error error → resolver.cancelled = false →
      ∀ project, resolver.system.canonical path = .ok project → project ∈ opened) :
    resolver.Leaves opened path state (answer, state) where
  visiting := .refl state
  kept _ _ _ := id
  answered := hanswered
  stopped error herror hactive project hpath hclosed :=
    absurd (hstopped error herror hactive project hpath) hclosed

/-- A project whose descriptor cannot be read, or whose sources cannot be found, is only visited. -/
theorem Leaves.of_unusable {opened : List Path} {path project : Path} {state : ResolutionState}
    (h : resolver.Asked opened path state project) (after : ResolutionState)
    (hvisited : after.visited = project :: state.visited)
    (hedges : ∀ source target,
      after.graph.Refers source target → state.graph.Refers source target)
    (hlinked : state.Linked → after.Linked)
    (hunusable : ∀ descriptor sources, resolver.system.loadDescriptor project = .ok descriptor →
      descriptor.sources resolver.system ≠ .ok sources) (error : ResolveError) :
    resolver.Leaves opened path state (.error error, after) where
  visiting := by
    refine ⟨fun other hother => by simp [hvisited, hother], ?_, hlinked⟩
    intro other hother hfresh descriptor sources hload hsources
    have heq : other = project := by simpa [hvisited, hfresh] using hother
    subst heq
    exact absurd hsources (hunusable descriptor sources hload)
  kept source _ target := hedges source target
  answered target hok := absurd hok (by simp)
  stopped _ _ _ other hpath _ := by
    have heq : project = other := Except.ok.inj (h.canonical.symm.trans hpath)
    subst heq
    refine ⟨h.not_visited, by simp [hvisited], ?_⟩
    rintro - ⟨descriptor, sources, hmerged, -⟩
    exact hunusable descriptor sources hmerged.loads hmerged.finds

/-- What an entered project leaves follows from what its references leave. -/
theorem Leaves.of_references {opened : List Path} {path project : Path}
    {state after : ResolutionState} {descriptor : Descriptor} {sources : List Path}
    {result : Except ResolveError Unit} (h : resolver.Asked opened path state project)
    (hload : resolver.system.loadDescriptor project = .ok descriptor)
    (hsources : descriptor.sources resolver.system = .ok sources)
    (hgrows : (state.enter resolver.system project sources
      (descriptor.libraries resolver.system resolver.platform)).Grows after)
    (hreferences : resolver.LeavesReferences (project :: opened) project
      descriptor.projectReferences (state.enter resolver.system project sources
        (descriptor.libraries resolver.system resolver.platform)) (result, after)) :
    resolver.Leaves opened path state (result.map fun _ => project, after) := by
  have hedges : ∀ source target, (state.enter resolver.system project sources
        (descriptor.libraries resolver.system resolver.platform)).graph.Refers source target →
      state.graph.Refers source target :=
    fun _ _ => (ProjectGraph.refers_addProject h.wellFormed.graph).1
  have hmem : project ∈ after.visited := hgrows.visited project (by simp)
  refine ⟨⟨?_, ?_, ?_⟩, ?_, ?_, ?_⟩
  · intro other hother
    exact hgrows.visited other (List.mem_cons_of_mem _ hother)
  · intro other hvisited hfresh found files hfound hfiles
    by_cases hother : other = project
    · subst hother
      have heq : descriptor = found := Except.ok.inj (hload.symm.trans hfound)
      subst heq
      have heq : sources = files := Except.ok.inj (hsources.symm.trans hfiles)
      subst heq
      exact (merged_enter state hload hsources).mono hgrows
    · exact hreferences.visiting.merged other hvisited (by simp [hother, hfresh]) found files
        hfound hfiles
  · intro hlinked
    exact hreferences.visiting.linked (hlinked.enter h.wellFormed h.spelled resolver.system sources
      (descriptor.libraries resolver.system resolver.platform))
  · intro source hsource target hedge
    have hne : source ≠ project := fun heq => h.not_visited (heq ▸ hsource)
    exact hedges source target
      (hreferences.kept source (List.mem_cons_of_mem _ hsource) hne target hedge)
  · intro target hok
    cases result with
    | error error => exact absurd hok (by simp [Except.map])
    | ok =>
        obtain rfl : project = target := Except.ok.inj hok
        exact ⟨h.canonical, h.not_opened, hmem⟩
  · intro error herror hactive other hpath _
    obtain rfl : project = other := Except.ok.inj (h.canonical.symm.trans hpath)
    refine ⟨h.not_visited, hmem, ?_⟩
    cases result with
    | ok => exact absurd herror (by simp [Except.map])
    | error cause =>
        rintro hlinked ⟨found, files, hmerged, hfollowed⟩
        obtain rfl : descriptor = found := Except.ok.inj (hload.symm.trans hmerged.loads)
        -- A project that has not been visited has no references in the graph.
        have hnone : ∀ target : Path, target.IsCanonical →
            (state.enter resolver.system project sources
              (descriptor.libraries resolver.system resolver.platform)).graph.Refers project
                target → target ∉ project :: opened :=
          fun target htarget hedge => absurd
            (hlinked project target h.spelled htarget (hedges project target hedge)).1
            h.not_visited
        obtain ⟨reference, hreference, hnot⟩ := hreferences.stopped cause rfl hactive
          (hlinked.enter h.wellFormed h.spelled resolver.system sources
            (descriptor.libraries resolver.system resolver.platform)) hnone
        exact hnot (hfollowed reference hreference)

/-- When a reference cannot be resolved, it has not been followed. -/
theorem LeavesReferences.of_stopped (hnamed : resolver.system.WellNamed) {opened : List Path}
    {project reference : Path} {rest : List Path} {state after : ResolutionState}
    {error : ResolveError} (hspelled : project.IsCanonical) (hproject : project ∈ state.visited)
    (h : resolver.Leaves opened reference state (.error error, after)) :
    resolver.LeavesReferences opened project (reference :: rest) state (.error error, after) where
  visiting := h.visiting
  kept source hsource _ := h.kept source hsource
  stopped cause hcause hactive hlinked hclosed := by
    refine ⟨reference, List.mem_cons_self, ?_⟩
    rintro ⟨target, htarget, hedge, -⟩
    -- The reference would have been recorded before, so the target would have been visited.
    have hcanonical := FileSystem.isCanonical_of_canonical hnamed htarget
    have hbefore := h.kept project hproject target hedge
    obtain ⟨hfresh, -⟩ := h.stopped error rfl hactive target htarget
      (hclosed target hcanonical hbefore)
    exact hfresh (hlinked project target hspelled hcanonical hbefore).2

/-- A reference that has been resolved, and those after it. -/
theorem LeavesReferences.of_continued {opened : List Path} {project reference target : Path}
    {rest : List Path} {state after : ResolutionState}
    {outcome : Except ResolveError Unit × ResolutionState} (hspelled : project.IsCanonical)
    (hproject : project ∈ state.visited) (hafter : after.WellFormed)
    (hgrows : (after.addReference project target).Grows outcome.2)
    (h : resolver.Leaves opened reference state (.ok target, after))
    (hrest : resolver.LeavesReferences opened project rest (after.addReference project target)
      outcome) :
    resolver.LeavesReferences opened project (reference :: rest) state outcome := by
  have hmem : project ∈ after.visited := h.visiting.visited project hproject
  obtain ⟨-, hclosed, hvisited⟩ := h.answered target rfl
  have hadded : resolver.Visiting after (after.addReference project target) :=
    visiting_addReference hafter hmem hvisited
  have hedges : ∀ source ∈ state.visited, ∀ other,
      (after.addReference project target).graph.Refers source other →
      state.graph.Refers source other ∨ source = project ∧ target.same other = true := by
    intro source hsource other hedge
    rcases (ProjectGraph.refers_addReference hafter.graph).1 hedge with hedge | ⟨hfirst, hsecond⟩
    · exact Or.inl (h.kept source hsource other hedge)
    · have hcanonical := hafter.visited source (h.visiting.visited source hsource)
      exact Or.inr ⟨((hspelled.same_iff hcanonical).1 hfirst).symm, hsecond⟩
  refine ⟨?_, ?_, ?_⟩
  · exact (h.visiting.trans hadded
      (ResolutionState.grows_addReference hafter project target)).trans hrest.visiting hgrows
  · intro source hsource hne other hedge
    have hbefore := hrest.kept source (h.visiting.visited source hsource) hne other hedge
    rcases hedges source hsource other hbefore with hbefore | ⟨heq, -⟩
    · exact hbefore
    · exact absurd heq hne
  · intro error herror hactive hlinked hnone
    have hnoneRest : ∀ other : Path, other.IsCanonical →
        (after.addReference project target).graph.Refers project other → other ∉ opened := by
      intro other hother hedge
      rcases hedges project hproject other hedge with hbefore | ⟨-, hsame⟩
      · exact hnone other hother hbefore
      · rwa [← ((hafter.visited target hvisited).same_iff hother).1 hsame]
    obtain ⟨found, hfound, hnot⟩ := hrest.stopped error herror hactive
      (hadded.linked (h.visiting.linked hlinked)) hnoneRest
    exact ⟨found, List.mem_cons_of_mem _ hfound, hnot⟩

/-! ## Every call -/

/-- Whatever its outcome, a call leaves what it should. -/
theorem leaves_resolveProject (hnamed : resolver.system.WellNamed) {opened : List Path}
    (hopened : ∀ other ∈ opened, other.IsCanonical) (path : Path) {state : ResolutionState}
    (hstate : state.WellFormed) :
    resolver.Leaves opened path state (resolver.resolveProject opened path state) := by
  refine ((traversal_induction hnamed
    (fun opened path state outcome => resolver.Leaves opened path state outcome)
    (fun opened project references state outcome => project.IsCanonical → project ∈ state.visited →
      resolver.LeavesReferences opened project references state outcome)
    ?_ ?_ ?_ ?_ ?_ ?_ ?_ ?_ ?_ ?_).1 opened path state hopened hstate).2.2
  · intro opened path state hcancelled
    refine .of_same (by simp) ?_
    intro _ _ hactive
    rw [hcancelled] at hactive
    exact absurd hactive (by simp)
  · intro opened path state cause hmissing
    refine .of_same (by simp) ?_
    intro _ _ _ project hpath
    exact absurd (hmissing.symm.trans hpath) (by simp)
  · intro opened path state project hpath _ _ hmem
    refine .of_same (by simp) ?_
    intro _ _ _ other hother
    rwa [← Except.ok.inj (hpath.symm.trans hother)]
  · intro opened path state project hpath hclosed hvisited
    refine .of_same ?_ (by simp)
    intro target hok
    obtain rfl : project = target := Except.ok.inj hok
    exact ⟨hpath, hclosed, hvisited⟩
  · intro opened path state project error hasked hload
    refine .of_unusable hasked (state.visit project) rfl (fun _ _ => id)
      (fun hlinked => hlinked.visit project) ?_ _
    intro descriptor sources hfound
    exact absurd (hload.symm.trans hfound) (by simp)
  · intro opened path state project descriptor error hasked hload hsources
    have hvisit := ResolutionState.wellFormed_visit hasked.wellFormed hasked.spelled
    refine .of_unusable hasked ((state.visit project).addProject project) rfl
      (fun _ _ => (ProjectGraph.refers_addProject hasked.wellFormed.graph).1)
      (fun hlinked => (hlinked.visit project).addProject hvisit project) ?_ _
    intro found sources hfound hfiles
    rw [← Except.ok.inj (hload.symm.trans hfound)] at hfiles
    exact absurd (hsources.symm.trans hfiles) (by simp)
  · intro opened path state project descriptor sources result after hasked hload hsources hgrows
      hreferences
    exact .of_references hasked hload hsources hgrows
      (hreferences hasked.spelled List.mem_cons_self)
  · intro opened project state _ _
    exact ⟨.refl state, fun _ _ _ _ => id, by simp⟩
  · intro opened project reference rest state error after hreference hspelled hproject
    exact .of_stopped hnamed hspelled hproject hreference
  · intro opened project reference rest state target after outcome hspelled hafter hgrows
      hreference hrest _ hproject
    exact .of_continued hspelled hproject hafter hgrows hreference
      (hrest hspelled (hreference.visiting.visited project hproject))

end Resolver
end ProjectAssembler
