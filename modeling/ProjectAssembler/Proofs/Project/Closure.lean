import ProjectAssembler.Proofs.FileSystem.Shapes
import ProjectAssembler.Proofs.Project.Acyclicity
import ProjectAssembler.Proofs.Project.Justification

/-!
# A resolution is what its roots reach

A resolution that succeeds holds the projects that are reached from the roots, with the references
that they declare and with their sources and libraries, and nothing else.  It therefore does not
depend on the order in which roots and references are written.

Main definitions:

* `Resolver.IsClosure`: a resolution is what roots reach;
* `Resolution.Agrees`: two resolutions hold the same;
* `FileSystem.Reordered`: a file system in which references are written in another order.

Main results:

* `Resolver.isClosure_of_resolveRoots`: a state that is reached without error holds what the roots
  reach;
* `Resolver.isClosure_of_assembleProjects`: so does the resolution of roots, and it agrees with the
  resolution of the same roots in any order with references in any order.
-/

namespace ProjectAssembler

/-- Two resolutions hold the same sources, libraries, projects and references. -/
structure Resolution.Agrees (first second : Resolution) : Prop where
  sources : first.sources = second.sources
  references : first.references = second.references
  projects : ∀ project, project ∈ first.graph.projects ↔ project ∈ second.graph.projects
  edges : ∀ source ∈ first.graph.projects, ∀ target,
    target ∈ first.graph.references source ↔ target ∈ second.graph.references source

/-- A file system differs from another one at most in the texts of files, and the descriptors that
are reached from roots say the same as before, up to the order of their references. -/
structure FileSystem.Reordered (system : FileSystem) (roots : List Path) (other : FileSystem) :
    Prop where
  shape : other.shape = system.shape
  descriptors : ∀ project descriptor, system.Reachable roots project →
    system.loadDescriptor project = .ok descriptor →
    ∃ references, references.Perm descriptor.projectReferences ∧
      other.loadDescriptor project = .ok { descriptor with projectReferences := references }

namespace Resolver

variable {resolver : Resolver}

/-- A resolution is what roots reach: the projects that they reach with the references that these
declare, the distinct projects of the roots in the order of their first appearance, and the sources
and libraries of the projects. -/
structure IsClosure (resolver : Resolver) (roots : List Path) (resolution : Resolution) : Prop where
  wellFormed : resolution.graph.WellFormed
  projects : ∀ project, project ∈ resolution.graph.projects ↔
    resolver.system.Reachable roots project
  edges : ∀ source ∈ resolution.graph.projects, ∀ target,
    target ∈ resolution.graph.references source ↔ resolver.system.References source target
  rooted : ∃ projects, List.Forall₂ (fun root project =>
      resolver.system.canonical root = .ok project) roots projects ∧
    resolution.graph.roots = projects.eraseDups
  ascending : resolution.sources.Ascending ∧ resolution.references.Ascending
  sources : ∀ source, source ∈ resolution.sources.paths ↔
    ∃ project, resolver.system.Reachable roots project ∧ resolver.Supplies project source
  references : ∀ library, library ∈ resolution.references.paths ↔
    ∃ project, resolver.system.Reachable roots project ∧ resolver.Needs project library

/-! ## The roots of the graph -/

/-- Resolving a project adds no roots. -/
theorem roots_resolveProject (hnamed : resolver.system.WellNamed) {opened : List Path}
    (hopened : ∀ other ∈ opened, other.IsCanonical) (path : Path) {state : ResolutionState}
    (hstate : state.WellFormed) :
    (resolver.resolveProject opened path state).2.graph.roots = state.graph.roots := by
  have hreference : ∀ (state : ResolutionState) (source target : Path),
      (state.addReference source target).graph.roots = state.graph.roots :=
    fun state => ProjectGraph.roots_addReference state.graph
  refine ((traversal_induction hnamed
    (fun _ _ state outcome => outcome.2.graph.roots = state.graph.roots)
    (fun _ _ _ state outcome => outcome.2.graph.roots = state.graph.roots)
    ?_ ?_ ?_ ?_ ?_ ?_ ?_ ?_ ?_ ?_).1 opened path state hopened hstate).2.2
  · intros; rfl
  · intros; rfl
  · intros; rfl
  · intros; rfl
  · intros; rfl
  · intro _ _ state project _ _ _ _ _
    exact ProjectGraph.roots_addProject state.graph project
  · intro _ _ state project _ _ _ _ _ _ _ _ hreferences
    rw [hreferences, ResolutionState.graph_enter, ProjectGraph.roots_addProject]
  · intros; rfl
  · intro _ _ _ _ _ _ _ hstopped
    exact hstopped
  · intro _ project _ _ _ target after _ _ _ _ hcontinued hrest
    rw [hrest, hreference, hcontinued]

/-- The roots of the graph are the distinct projects of the roots that were asked for, in the order
of their first appearance. -/
theorem roots_resolveRoots (hnamed : resolver.system.WellNamed) {roots seen : List Path}
    {state : ResolutionState} (hstate : state.WellFormed)
    (hseen : ∀ project ∈ seen, project.IsCanonical) (hroots : state.graph.roots = seen.eraseDups)
    (h : (resolver.resolveRoots roots state).1 = .ok ()) :
    ∃ projects, List.Forall₂ (fun root project => resolver.system.canonical root = .ok project)
        roots projects ∧
      (resolver.resolveRoots roots state).2.graph.roots = (seen ++ projects).eraseDups := by
  induction roots generalizing state seen with
  | nil => exact ⟨[], .nil, by simpa [resolveRoots] using hroots⟩
  | cons root rest ih =>
      obtain ⟨hafter, -⟩ :=
        grows_resolveProject hnamed (List.forall_mem_nil _) root hstate
      have hkept := roots_resolveProject hnamed (List.forall_mem_nil _) root hstate
      have hcovers := fun project (hok : (resolver.resolveProject [] root state).1 = .ok project) =>
        covers_resolveProject hnamed (List.forall_mem_nil _) hstate hok
      unfold resolveRoots at h ⊢
      rcases hrun : resolver.resolveProject [] root state with ⟨error | project, after⟩
      · simp [hrun] at h
      · rw [hrun] at hafter hkept hcovers
        simp only [hrun] at h ⊢
        obtain ⟨hcanonical, -⟩ := hcovers project rfl
        have hproject := FileSystem.isCanonical_of_canonical hnamed hcanonical
        have hmore : ∀ other ∈ seen ++ [project], other.IsCanonical := by
          intro other hother
          rcases List.mem_append.1 hother with hother | hother
          · exact hseen other hother
          · rw [List.mem_singleton.1 hother]
            exact hproject
        have hadded : (after.addRoot project).graph.roots = (seen ++ [project]).eraseDups := by
          have hgraph : (after.addRoot project).graph = after.graph.addRoot project := rfl
          rw [hgraph, ProjectGraph.roots_addRoot, hkept, hroots, List.eraseDups_append]
          have hpresent : seen.eraseDups.any (·.same project) = true ↔ project ∈ seen := by
            rw [← List.mem_eraseDups]
            exact Path.any_same_iff
              (fun other hother => hseen other (List.mem_eraseDups.1 hother)) hproject
          by_cases hmem : project ∈ seen
          · rw [if_pos (hpresent.2 hmem)]
            simp [List.removeAll, hmem]
          · rw [if_neg (fun hany => hmem (hpresent.1 hany))]
            simp [List.removeAll, hmem, List.eraseDups_cons]
        obtain ⟨projects, hprojects, hend⟩ :=
          ih (ResolutionState.wellFormed_addRoot hafter project) hmore hadded h
        refine ⟨project :: projects, .cons hcanonical hprojects, ?_⟩
        rw [hend, List.append_assoc, List.singleton_append]

/-! ## What the roots reach -/

/-- Calls for several roots leave a state justified by what is reached from them. -/
theorem justified_resolveRoots (hnamed : resolver.system.WellNamed) {member : Path → Prop}
    (hclosed : ∀ project target, member project → resolver.system.References project target →
      member target)
    {roots : List Path}
    (hroots : ∀ root ∈ roots, ∀ project, resolver.system.canonical root = .ok project →
      member project)
    {state : ResolutionState} (hstate : state.WellFormed) (h : resolver.Justified member state) :
    resolver.Justified member (resolver.resolveRoots roots state).2 := by
  induction roots generalizing state with
  | nil => exact h
  | cons root rest ih =>
      obtain ⟨hafter, -⟩ :=
        grows_resolveProject hnamed (List.forall_mem_nil _) root hstate
      obtain ⟨hjustified, hanswer⟩ := justified_resolveProject hnamed hclosed
        (List.forall_mem_nil _) (hroots root List.mem_cons_self) hstate h
      unfold resolveRoots
      rcases hrun : resolver.resolveProject [] root state with ⟨error | project, after⟩
      · rw [hrun] at hjustified
        exact hjustified
      · rw [hrun] at hafter hjustified hanswer
        have hproject : member project :=
          hroots root List.mem_cons_self project (hanswer project rfl)
        exact ih (fun other hother => hroots other (List.mem_cons_of_mem _ hother))
          (ResolutionState.wellFormed_addRoot hafter project)
          (hjustified.addRoot hafter hproject)

/-- Whatever is reached from roots that have been resolved without error is settled. -/
theorem settled_of_resolveRoots (hnamed : resolver.system.WellNamed) {roots : List Path}
    (h : (resolver.resolveRoots roots .empty).1 = .ok ()) {project : Path}
    (hreachable : resolver.system.Reachable roots project) :
    project ∈ (resolver.resolveRoots roots .empty).2.visited ∧
      resolver.Settled (resolver.resolveRoots roots .empty).2 project := by
  obtain ⟨-, -, hcovers, hroots⟩ := covers_resolveRoots hnamed ResolutionState.wellFormed_empty h
  have hsettled : ∀ project ∈ (resolver.resolveRoots roots .empty).2.visited,
      resolver.Settled (resolver.resolveRoots roots .empty).2 project :=
    fun project hvisited => hcovers.settled project hvisited (by simp [ResolutionState.empty])
  have hvisited : project ∈ (resolver.resolveRoots roots .empty).2.visited := by
    refine hreachable.induction (· ∈ (resolver.resolveRoots roots .empty).2.visited) ?_ ?_
    · intro root hroot project hpath
      obtain ⟨found, hfound, hvisited⟩ := hroots root hroot
      rwa [Except.ok.inj (hpath.symm.trans hfound)]
    · intro project target hvisited hreference
      exact ((hsettled project hvisited).followed hreference).2
  exact ⟨hvisited, hsettled project hvisited⟩

/-- What a set holds up to the equality of components it holds literally when its elements are in
normal form. -/
theorem mem_paths_of_holds {set : PathSet} (hset : ∀ path ∈ set.paths, path.IsNormal)
    {path : Path} (hpath : path.IsNormal) (h : set.holds path = true) : path ∈ set.paths := by
  obtain ⟨element, helement, hsame⟩ := PathSet.holds_iff.1 h
  rwa [← (hset element helement).eq_of_same hpath hsame]

/-- A state that is reached without error holds what the roots reach. -/
theorem isClosure_of_resolveRoots (hnamed : resolver.system.WellNamed) {roots : List Path}
    (h : (resolver.resolveRoots roots .empty).1 = .ok ()) :
    resolver.IsClosure roots (resolver.resolveRoots roots .empty).2.resolution := by
  obtain ⟨hend, -, -, -⟩ := covers_resolveRoots hnamed ResolutionState.wellFormed_empty h
  have hjustified := justified_resolveRoots hnamed
    (fun _ _ hproject hreference => FileSystem.Reachable.step hproject hreference)
    (fun _ hroot _ => FileSystem.reachable_of_root hroot) ResolutionState.wellFormed_empty
    (justified_empty (resolver.system.Reachable roots))
  have hsettled := fun project (hreachable : resolver.system.Reachable roots project) =>
    settled_of_resolveRoots hnamed h hreachable
  obtain ⟨asked, hasked, hrooted⟩ :=
    roots_resolveRoots hnamed ResolutionState.wellFormed_empty (List.forall_mem_nil _) rfl h
  generalize (resolver.resolveRoots roots .empty).2 = state at *
  have hspelled : ∀ project, resolver.system.Reachable roots project → project.IsCanonical :=
    fun project hreachable => hend.visited project (hsettled project hreachable).1
  have hprojects : ∀ project, project ∈ state.graph.projects ↔
      resolver.system.Reachable roots project := by
    intro project
    refine ⟨hjustified.projects project, ?_⟩
    intro hreachable
    obtain ⟨-, descriptor, files, hmerged, -⟩ := hsettled project hreachable
    obtain ⟨own, hown, hsame⟩ := hmerged.listed
    have hownSpelled := hspelled own (hjustified.projects own hown)
    rwa [← (hownSpelled.same_iff (hspelled project hreachable)).1 hsame]
  refine ⟨hend.graph, hprojects, ?_, ?_, ⟨hend.sources, hend.references⟩, ?_, ?_⟩
  · intro source hsource target
    have hreachable := (hprojects source).1 hsource
    refine (ProjectGraph.mem_references_iff hend.graph).trans ⟨?_, ?_⟩
    · rintro ⟨htarget, hedge⟩
      exact hjustified.edges source target (hspelled source hreachable)
        (hspelled target ((hprojects target).1 htarget)) hedge
    · intro hreference
      exact ⟨(hprojects target).2 (hreachable.step hreference),
        ((hsettled source hreachable).2.followed hreference).1⟩
  · exact ⟨asked, hasked, hrooted⟩
  · intro source
    refine ⟨hjustified.sources source, ?_⟩
    rintro ⟨project, hreachable, descriptor, files, file, hload, hfiles, hfile, rfl⟩
    obtain ⟨-, other, found, hmerged, -⟩ := hsettled project hreachable
    have hother : other = descriptor := Except.ok.inj (hmerged.loads.symm.trans hload)
    subst hother
    have hfound : found = files := Except.ok.inj (hmerged.finds.symm.trans hfiles)
    subst hfound
    refine mem_paths_of_holds ?_ (FileSystem.isNormal_normalPath hnamed file)
      (hmerged.sources file hfile)
    intro path hpath
    obtain ⟨_, -, _, _, other, -, -, -, rfl⟩ := hjustified.sources path hpath
    exact FileSystem.isNormal_normalPath hnamed other
  · intro library
    refine ⟨hjustified.references library, ?_⟩
    rintro ⟨project, hreachable, descriptor, file, hload, huses, rfl⟩
    obtain ⟨-, other, found, hmerged, -⟩ := hsettled project hreachable
    have hother : other = descriptor := Except.ok.inj (hmerged.loads.symm.trans hload)
    subst hother
    refine mem_paths_of_holds ?_ (FileSystem.isNormal_normalPath hnamed file)
      (hmerged.libraries file (Descriptor.mem_libraries_iff.2 huses))
    intro path hpath
    obtain ⟨_, -, _, other, -, -, rfl⟩ := hjustified.references path hpath
    exact FileSystem.isNormal_normalPath hnamed other

/-- Roots that have been resolved without error reach only what can be used. -/
theorem intact_of_resolveRoots (hnamed : resolver.system.WellNamed) {roots : List Path}
    (h : (resolver.resolveRoots roots .empty).1 = .ok ()) : resolver.system.Intact roots := by
  obtain ⟨-, -, -, hroots⟩ := covers_resolveRoots hnamed ResolutionState.wellFormed_empty h
  refine ⟨?_, ?_⟩
  · intro root hroot
    obtain ⟨project, hpath, -⟩ := hroots root hroot
    exact ⟨project, hpath⟩
  · intro project hreachable
    obtain ⟨-, descriptor, files, hmerged, hfollowed⟩ := settled_of_resolveRoots hnamed h hreachable
    refine ⟨descriptor, files, hmerged.loads, hmerged.finds, ?_⟩
    intro reference hreference
    obtain ⟨target, htarget, -⟩ := hfollowed reference hreference
    exact ⟨target, htarget⟩

/-! ## Other orders -/

/-- Resolutions of what is the same agree. -/
theorem IsClosure.agrees {roots others : List Path} {other : Resolver}
    {first second : Resolution} (h : resolver.IsClosure roots first)
    (h' : other.IsClosure others second)
    (hreach : ∀ project, other.system.Reachable others project ↔
      resolver.system.Reachable roots project)
    (hedges : ∀ project target, resolver.system.Reachable roots project →
      (other.system.References project target ↔ resolver.system.References project target))
    (hsources : ∀ project source, resolver.system.Reachable roots project →
      (other.Supplies project source ↔ resolver.Supplies project source))
    (hlibraries : ∀ project library, resolver.system.Reachable roots project →
      (other.Needs project library ↔ resolver.Needs project library)) :
    second.Agrees first where
  sources := by
    refine PathSet.eq_of_mem_iff h'.ascending.1 h.ascending.1 ?_
    intro source
    rw [h'.sources, h.sources]
    refine exists_congr fun project => ?_
    rw [hreach]
    exact and_congr_right (hsources project source)
  references := by
    refine PathSet.eq_of_mem_iff h'.ascending.2 h.ascending.2 ?_
    intro library
    rw [h'.references, h.references]
    refine exists_congr fun project => ?_
    rw [hreach]
    exact and_congr_right (hlibraries project library)
  projects project := by rw [h'.projects, h.projects, hreach]
  edges source hsource target := by
    have hreachable := (hreach source).1 ((h'.projects source).1 hsource)
    rw [h'.edges source hsource, h.edges source ((h.projects source).2 hreachable)]
    exact hedges source target hreachable

end Resolver

namespace FileSystem.Reordered

variable {system other : FileSystem} {roots : List Path}

theorem canonical_eq (h : system.Reordered roots other) (path : Path) :
    other.canonical path = system.canonical path := by
  rw [← canonical_shape, h.shape, canonical_shape]

theorem sources_eq (h : system.Reordered roots other) (descriptor : Descriptor) :
    descriptor.sources other = descriptor.sources system := by
  rw [← Descriptor.sources_shape, h.shape, Descriptor.sources_shape]

theorem libraries_eq (h : system.Reordered roots other) (platform : Platform)
    (descriptor : Descriptor) :
    descriptor.libraries other platform = descriptor.libraries system platform := by
  rw [← Descriptor.libraries_shape, h.shape, Descriptor.libraries_shape]

theorem normalPath_eq (h : system.Reordered roots other) (path : Path) :
    other.normalPath path = system.normalPath path := by
  rw [← normalPath_shape, h.shape, normalPath_shape]

theorem wellNamed (h : system.Reordered roots other) (hsystem : system.WellNamed) :
    other.WellNamed := by
  have hworking : other.shape.workingDirectory = system.shape.workingDirectory := by rw [h.shape]
  exact hsystem.of_eq hworking

/-- What is reached has a descriptor of its own in the other file system, which differs in the order
of its references only. -/
theorem exists_descriptor (h : system.Reordered roots other) (hintact : system.Intact roots)
    {project : Path} (hreachable : system.Reachable roots project) :
    ∃ descriptor references, references.Perm descriptor.projectReferences ∧
      system.loadDescriptor project = .ok descriptor ∧
      other.loadDescriptor project = .ok { descriptor with projectReferences := references } := by
  obtain ⟨descriptor, -, hload, -⟩ := hintact.usable project hreachable
  obtain ⟨references, hperm, hother⟩ := h.descriptors project descriptor hreachable hload
  exact ⟨descriptor, references, hperm, hload, hother⟩

theorem references_iff (h : system.Reordered roots other) (hintact : system.Intact roots)
    {project : Path} (hreachable : system.Reachable roots project) (target : Path) :
    other.References project target ↔ system.References project target := by
  obtain ⟨descriptor, references, hperm, hload, hother⟩ := h.exists_descriptor hintact hreachable
  constructor
  · rintro ⟨found, reference, hfound, hreference, htarget⟩
    rw [← Except.ok.inj (hother.symm.trans hfound)] at hreference
    rw [h.canonical_eq] at htarget
    exact ⟨descriptor, reference, hload, hperm.subset hreference, htarget⟩
  · rintro ⟨found, reference, hfound, hreference, htarget⟩
    rw [← Except.ok.inj (hload.symm.trans hfound)] at hreference
    rw [← h.canonical_eq] at htarget
    exact ⟨_, reference, hother, hperm.symm.subset hreference, htarget⟩

theorem reachable_iff (h : system.Reordered roots other) (hintact : system.Intact roots)
    (project : Path) : other.Reachable roots project ↔ system.Reachable roots project := by
  constructor
  · intro hreachable
    refine hreachable.induction (system.Reachable roots) ?_ ?_
    · intro root hroot project hpath
      rw [h.canonical_eq] at hpath
      exact reachable_of_root hroot hpath
    · intro project target hproject hreference
      exact hproject.step ((h.references_iff hintact hproject target).1 hreference)
  · intro hreachable
    have hboth := hreachable.induction
      (fun project => system.Reachable roots project ∧ other.Reachable roots project) ?_ ?_
    · exact hboth.2
    · intro root hroot project hpath
      refine ⟨reachable_of_root hroot hpath, reachable_of_root hroot ?_⟩
      rwa [h.canonical_eq]
    · rintro project target ⟨hproject, hother⟩ hreference
      exact ⟨hproject.step hreference,
        hother.step ((h.references_iff hintact hproject target).2 hreference)⟩

/-- The other file system is intact too. -/
theorem intact (h : system.Reordered roots other) (hintact : system.Intact roots) :
    other.Intact roots := by
  refine ⟨?_, ?_⟩
  · intro root hroot
    rw [h.canonical_eq]
    exact hintact.exist root hroot
  · intro project hproject
    have hreachable := (h.reachable_iff hintact project).1 hproject
    obtain ⟨descriptor, files, hload, hfiles, htargets⟩ := hintact.usable project hreachable
    obtain ⟨references, hperm, hother⟩ := h.descriptors project descriptor hreachable hload
    refine ⟨_, files, hother, (h.sources_eq descriptor).trans hfiles, ?_⟩
    · intro reference hreference
      rw [h.canonical_eq]
      exact htargets reference (hperm.subset hreference)

/-- The other file system has no new circles. -/
theorem acyclic (h : system.Reordered roots other) (hintact : system.Intact roots)
    (hacyclic : system.Acyclic roots) : other.Acyclic roots := by
  intro project hproject hcircle
  have hreachable := (h.reachable_iff hintact project).1 hproject
  have hleads : ∀ target, Relation.TransGen other.References project target →
      Relation.TransGen system.References project target ∧ system.Reachable roots target := by
    intro target hpath
    induction hpath with
    | single hreference =>
        have hfirst := (h.references_iff hintact hreachable _).1 hreference
        exact ⟨.single hfirst, hreachable.step hfirst⟩
    | tail _ hreference ih =>
        have hnext := (h.references_iff hintact ih.2 _).1 hreference
        exact ⟨ih.1.tail hnext, ih.2.step hnext⟩
  exact hacyclic project hreachable (hleads project hcircle).1

/-- What is reached supplies the same sources. -/
theorem supplies_iff (h : system.Reordered roots other) (hintact : system.Intact roots)
    (platform : Platform) (cancelled : Bool) {project : Path}
    (hreachable : system.Reachable roots project) (source : Path) :
    (Resolver.mk other platform cancelled).Supplies project source ↔
      (Resolver.mk system platform cancelled).Supplies project source := by
  obtain ⟨descriptor, references, -, hload, hother⟩ := h.exists_descriptor hintact hreachable
  constructor
  · rintro ⟨found, files, file, hfound, hfiles, hfile, rfl⟩
    rw [← Except.ok.inj (hother.symm.trans hfound)] at hfiles
    exact ⟨descriptor, files, file, hload, (h.sources_eq descriptor).symm.trans hfiles, hfile,
      (h.normalPath_eq file).symm⟩
  · rintro ⟨found, files, file, hfound, hfiles, hfile, rfl⟩
    rw [← Except.ok.inj (hload.symm.trans hfound)] at hfiles
    exact ⟨_, files, file, hother, (h.sources_eq descriptor).trans hfiles, hfile,
      h.normalPath_eq file⟩

/-- What is reached needs the same libraries. -/
theorem needs_iff (h : system.Reordered roots other) (hintact : system.Intact roots)
    (platform : Platform) (cancelled : Bool) {project : Path}
    (hreachable : system.Reachable roots project) (library : Path) :
    (Resolver.mk other platform cancelled).Needs project library ↔
      (Resolver.mk system platform cancelled).Needs project library := by
  obtain ⟨descriptor, references, -, hload, hother⟩ := h.exists_descriptor hintact hreachable
  -- A descriptor's libraries do not depend on its references.
  have huses : ∀ file, Descriptor.UsesLibrary other platform
        { descriptor with projectReferences := references } file ↔
      descriptor.UsesLibrary system platform file := by
    intro file
    rw [← Descriptor.mem_libraries_iff, ← Descriptor.mem_libraries_iff, ← h.libraries_eq]
    rfl
  constructor
  · rintro ⟨found, file, hfound, hfile, rfl⟩
    rw [← Except.ok.inj (hother.symm.trans hfound)] at hfile
    exact ⟨descriptor, file, hload, (huses file).1 hfile, (h.normalPath_eq file).symm⟩
  · rintro ⟨found, file, hfound, hfile, rfl⟩
    rw [← Except.ok.inj (hload.symm.trans hfound)] at hfile
    exact ⟨_, file, hother, (huses file).2 hfile, h.normalPath_eq file⟩

end FileSystem.Reordered

namespace Resolver

variable {resolver : Resolver}

/-- Whether the work has been called off does not matter where there is nothing to do. -/
theorem active_of_resolveRoots {root : Path} {rest : List Path} {state : ResolutionState}
    (h : (resolver.resolveRoots (root :: rest) state).1 = .ok ()) : resolver.cancelled = false := by
  by_contra hcancelled
  rw [Bool.not_eq_false] at hcancelled
  simp [resolveRoots, resolveProject_of_cancelled hcancelled] at h

/-- The same roots in any order, with references written in any order, are assembled too. -/
theorem exists_assembleProjects_reordered (hnamed : resolver.system.WellNamed)
    {roots others : List Path} {system : FileSystem}
    (h : (resolver.resolveRoots roots .empty).1 = .ok ())
    (hothers : ∀ root, root ∈ others ↔ root ∈ roots)
    (hreordered : resolver.system.Reordered roots system) :
    ∃ another, ({ resolver with system } : Resolver).assembleProjects others = .ok another := by
  cases roots with
  | nil =>
      have hnil : others = [] := List.eq_nil_iff_forall_not_mem.2 fun root hroot =>
        absurd ((hothers root).1 hroot) List.not_mem_nil
      rw [hnil]
      exact ⟨_, rfl⟩
  | cons root rest =>
      have hintact := intact_of_resolveRoots hnamed h
      have hreach : ∀ project, system.Reachable others project ↔
          system.Reachable (root :: rest) project := FileSystem.reachable_congr hothers
      have hother := hreordered.intact hintact
      have hacyclic := hreordered.acyclic hintact (acyclic_of_resolveRoots hnamed h)
      have hnamedOther : ({ resolver with system } : Resolver).system.WellNamed :=
        hreordered.wellNamed hnamed
      have hactive : resolver.cancelled = false := active_of_resolveRoots h
      refine exists_assembleProjects hnamedOther hactive ⟨?_, ?_⟩ ?_
      · exact fun other hmem => hother.exist other ((hothers other).1 hmem)
      · exact fun project hproject => hother.usable project ((hreach project).1 hproject)
      · exact fun project hproject => hacyclic project ((hreach project).1 hproject)

/-- The resolution of roots is what they reach: its projects are those that are reached, with the
references that they declare, its roots are the distinct projects of the roots in the order of their
first appearance, and its sources and libraries are those of its projects.  It agrees with the
resolution of the same roots in any order with references in any order. -/
theorem isClosure_of_assembleProjects (hnamed : resolver.system.WellNamed) {roots : List Path}
    {resolution : Resolution} (h : resolver.assembleProjects roots = .ok resolution) :
    resolver.IsClosure roots resolution ∧
      ∀ (others : List Path) (system : FileSystem), (∀ root, root ∈ others ↔ root ∈ roots) →
        resolver.system.Reordered roots system →
        ∃ another, ({ resolver with system } : Resolver).assembleProjects others = .ok another ∧
          another.Agrees resolution := by
  obtain ⟨hok, hresolution⟩ := resolveRoots_of_assembleProjects h
  have hclosure := isClosure_of_resolveRoots hnamed hok
  rw [hresolution] at hclosure
  refine ⟨hclosure, ?_⟩
  intro others system hothers hreordered
  obtain ⟨another, hanother⟩ :=
    exists_assembleProjects_reordered hnamed hok hothers hreordered
  obtain ⟨hokOther, hresolutionOther⟩ := resolveRoots_of_assembleProjects hanother
  have hclosureOther := isClosure_of_resolveRoots (hreordered.wellNamed hnamed) hokOther
  rw [hresolutionOther] at hclosureOther
  have hintact := intact_of_resolveRoots hnamed hok
  refine ⟨another, hanother, hclosure.agrees hclosureOther ?_ ?_ ?_ ?_⟩
  · intro project
    exact (FileSystem.reachable_congr hothers project).trans
      (hreordered.reachable_iff hintact project)
  · exact fun project target hreachable => hreordered.references_iff hintact hreachable target
  · exact fun project source hreachable =>
      hreordered.supplies_iff hintact resolver.platform resolver.cancelled hreachable source
  · exact fun project library hreachable =>
      hreordered.needs_iff hintact resolver.platform resolver.cancelled hreachable library

/-- In a fork the references may be swapped. -/
theorem reordered_fork :
    (FileSystem.fork "lib" "util").Reordered [⟨"/app"⟩] (.fork "util" "lib") where
  shape := by
    simp only [FileSystem.fork, FileSystem.flat, FileSystem.shape, List.map_cons, List.map_nil,
      shapeEach, Node.shape]
  descriptors project descriptor hreachable hload := by
    rcases FileSystem.reachable_fork hreachable with rfl | rfl | rfl
    · rw [← Except.ok.inj (FileSystem.loadDescriptor_app.symm.trans hload)]
      exact ⟨_, List.Perm.swap _ _ _, FileSystem.loadDescriptor_app_swapped⟩
    · rw [← Except.ok.inj ((FileSystem.loadDescriptor_lib _ _).symm.trans hload)]
      exact ⟨_, List.Perm.refl _, FileSystem.loadDescriptor_lib _ _⟩
    · rw [← Except.ok.inj ((FileSystem.loadDescriptor_util _ _).symm.trans hload)]
      exact ⟨_, List.Perm.refl _, FileSystem.loadDescriptor_util _ _⟩

/-- The application of a fork uses the library file. -/
theorem usesLibrary_application (first second : String) (platform : Platform)
    (references : List Path) :
    (FileSystem.applicationDescriptor references).UsesLibrary (.fork first second) platform
      ⟨"/core.dll"⟩ := by
  have hdirectory : (FileSystem.applicationDescriptor references).directory =
      (FileSystem.applicationDescriptor []).directory := rfl
  have hpath : (FileSystem.applicationDescriptor references).directory.join ⟨"core.dll"⟩ =
      ⟨"/core.dll"⟩ := by
    rw [hdirectory]
    decide
  rw [← hpath]
  refine .hinted (List.mem_singleton.2 rfl) ?_
  rw [hpath]
  exact FileSystem.isFile_core first second

/-- The resolution of a fork has a project and a library that the application references, and it
agrees with the one in which the references are swapped and the root is given twice. -/
theorem agrees_fork_swapped :
    ∃ resolution another,
      (Resolver.mk (.fork "lib" "util") ⟨⟨"/packages"⟩, none⟩ false).assembleProjects [⟨"/app"⟩] =
        .ok resolution ∧
      (Resolver.mk (.fork "util" "lib") ⟨⟨"/packages"⟩, none⟩ false).assembleProjects
        [⟨"/app"⟩, ⟨"/app"⟩] = .ok another ∧
      ⟨"/lib"⟩ ∈ resolution.graph.projects ∧ ⟨"/core.dll"⟩ ∈ resolution.references.paths ∧
      another.Agrees resolution := by
  have hnamed : (FileSystem.fork "lib" "util").WellNamed := FileSystem.wellNamed_flat _
  have hassembled : ∃ resolution, (Resolver.mk (.fork "lib" "util") ⟨⟨"/packages"⟩, none⟩
      false).assembleProjects [⟨"/app"⟩] = .ok resolution :=
    exists_assembleProjects hnamed rfl FileSystem.intact_fork acyclic_fork
  obtain ⟨resolution, hresolution⟩ := hassembled
  obtain ⟨hclosure, hother⟩ := isClosure_of_assembleProjects hnamed hresolution
  obtain ⟨another, hanother, hagrees⟩ := hother [⟨"/app"⟩, ⟨"/app"⟩] (.fork "util" "lib")
    (by simp) reordered_fork
  have happ : (FileSystem.fork "lib" "util").Reachable [⟨"/app"⟩] ⟨"/app"⟩ :=
    FileSystem.reachable_of_root List.mem_cons_self (FileSystem.canonical_app _ _)
  refine ⟨resolution, another, hresolution, hanother, (hclosure.projects _).2 ?_,
    (hclosure.references _).2 ?_, hagrees⟩
  · exact happ.step ⟨_, ⟨"/lib"⟩, FileSystem.loadDescriptor_app, List.mem_cons_self,
      FileSystem.canonical_lib _ _⟩
  · exact ⟨_, happ, _, ⟨"/core.dll"⟩, FileSystem.loadDescriptor_app,
      usesLibrary_application _ _ _ _,
      FileSystem.normalPath_of_canonical (FileSystem.canonical_core _ _)⟩

end Resolver
end ProjectAssembler
