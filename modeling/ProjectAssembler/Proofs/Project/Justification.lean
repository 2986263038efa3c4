import ProjectAssembler.Proofs.Project.Traversal

/-!
# Where the content of a state comes from

Whatever a resolution collects is justified by a project that it has to do with: its projects were
asked for or referenced, its references are declared, and its sources and libraries are those of
such projects.  This holds whether or not the resolution succeeds.

Main definitions:

* `Descriptor.UsesLibrary`: the libraries of a project, as its descriptor says;
* `Resolver.Supplies`, `Resolver.Needs`: the sources and libraries of a project by their normal
  paths;
* `Resolver.Justified`: all that a state holds comes from certain projects.

Main results:

* `Descriptor.mem_libraries_iff`: the libraries that are collected are those the descriptor means;
* `Resolver.justified_resolveProject`: a state stays justified while a project is resolved.
-/

namespace ProjectAssembler

/-- The libraries that a project uses: the files of the assemblies that it references, as far as
they exist, and what the packages that it references hold for its first target framework.  The file
of an assembly is where its hint says, as seen from the directory of the descriptor, or without a
hint the library of its name in the directory of the platform's libraries. -/
inductive Descriptor.UsesLibrary (system : FileSystem) (platform : Platform)
    (descriptor : Descriptor) : Path → Prop where
  | hinted {name : String} {hint : Path}
      (hreference : ⟨name, some hint⟩ ∈ descriptor.assemblyReferences)
      (hexists : system.isFile (descriptor.directory.join hint) = true) :
      UsesLibrary system platform descriptor (descriptor.directory.join hint)
  | platform {name : String} {directory : Path}
      (hreference : ⟨name, none⟩ ∈ descriptor.assemblyReferences)
      (hdirectory : platform.framework = some directory)
      (hexists : system.isFile (directory.child (name ++ ".dll")) = true) :
      UsesLibrary system platform descriptor (directory.child (name ++ ".dll"))
  | package {framework : String} {package : PackageReference} {path : Path}
      (hframework : descriptor.targetFrameworks.head? = some framework)
      (hpackage : package ∈ descriptor.packageReferences)
      (hpath : path ∈ PackageCache.libraries system platform.packages package.id package.version
        framework) : UsesLibrary system platform descriptor path

section UsesLibrary

variable {system : FileSystem} {platform : Platform} {descriptor : Descriptor} {path : Path}

/-- How the file of a library of the platform is called. -/
theorem append_libraryExtension (name : String) :
    name ++ "." ++ Path.libraryExtension = name ++ ".dll" := by
  have hextension : "." ++ Path.libraryExtension = ".dll" := by decide
  rw [String.append_assoc, hextension]

/-- The library that a reference means is used. -/
theorem Descriptor.usesLibrary_of_library? {reference : AssemblyReference}
    (hreference : reference ∈ descriptor.assemblyReferences)
    (h : descriptor.library? system platform reference = some path) :
    descriptor.UsesLibrary system platform path := by
  obtain ⟨hpath, hexists⟩ := Option.filter_eq_some_iff.1 h
  obtain ⟨name, hint | hint⟩ := reference
  · obtain ⟨directory, hdirectory, rfl⟩ := Option.map_eq_some_iff.1 hpath
    rw [append_libraryExtension] at hexists ⊢
    exact .platform hreference hdirectory hexists
  · obtain rfl := Option.some.inj hpath
    exact .hinted hreference hexists

/-- The libraries that are collected for a project are those that it uses. -/
theorem Descriptor.mem_libraries_iff :
    path ∈ descriptor.libraries system platform ↔ descriptor.UsesLibrary system platform path := by
  unfold libraries
  rw [List.mem_append, List.mem_filterMap]
  constructor
  · rintro (⟨reference, hreference, hlibrary⟩ | hpackage)
    · exact usesLibrary_of_library? hreference hlibrary
    · unfold packageLibraries primaryFramework? at hpackage
      split at hpackage
      · simp at hpackage
      · rename_i framework hframework
        obtain ⟨package, hmem, hpath⟩ := List.mem_flatMap.1 hpackage
        exact .package hframework hmem hpath
  · intro huses
    cases huses with
    | hinted hreference hexists =>
        exact Or.inl ⟨_, hreference, Option.filter_eq_some_iff.2 ⟨rfl, hexists⟩⟩
    | @platform name directory hreference hdirectory hexists =>
        refine Or.inl ⟨_, hreference, Option.filter_eq_some_iff.2 ⟨?_, hexists⟩⟩
        simp only [libraryPath?, hdirectory, Option.map_some, append_libraryExtension]
    | package hframework hpackage hpath =>
        refine Or.inr ?_
        unfold packageLibraries primaryFramework?
        rw [hframework]
        exact List.mem_flatMap.2 ⟨_, hpackage, hpath⟩

end UsesLibrary

namespace Resolver

variable {resolver : Resolver}

/-- A project supplies a source, which is known by its normal path. -/
def Supplies (resolver : Resolver) (project source : Path) : Prop :=
  ∃ descriptor files file, resolver.system.loadDescriptor project = .ok descriptor ∧
    descriptor.sources resolver.system = .ok files ∧ file ∈ files ∧
    resolver.system.normalPath file = source

/-- A project needs a library, which is known by its normal path. -/
def Needs (resolver : Resolver) (project library : Path) : Prop :=
  ∃ descriptor file, resolver.system.loadDescriptor project = .ok descriptor ∧
    descriptor.UsesLibrary resolver.system resolver.platform file ∧
    resolver.system.normalPath file = library

/-- All that a state holds comes from certain projects. -/
structure Justified (resolver : Resolver) (member : Path → Prop) (state : ResolutionState) :
    Prop where
  visited : ∀ project ∈ state.visited, member project
  projects : ∀ project ∈ state.graph.projects, member project
  edges : ∀ source target, source.IsCanonical → target.IsCanonical →
    state.graph.Refers source target → resolver.system.References source target
  sources : ∀ source ∈ state.resolution.sources.paths,
    ∃ project, member project ∧ resolver.Supplies project source
  references : ∀ library ∈ state.resolution.references.paths,
    ∃ project, member project ∧ resolver.Needs project library

/-- Nothing needs a justification at first. -/
theorem justified_empty (member : Path → Prop) : resolver.Justified member .empty where
  visited := by simp [ResolutionState.empty]
  projects := by simp [ResolutionState.empty, ResolutionState.graph, Resolution.empty,
    ProjectGraph.empty]
  edges source target _ _ hedge := absurd hedge (ProjectGraph.not_refers_empty source target)
  sources := by simp [ResolutionState.empty, Resolution.empty, PathSet.empty]
  references := by simp [ResolutionState.empty, Resolution.empty, PathSet.empty]

/-! ## What each operation needs -/

variable {member : Path → Prop} {state : ResolutionState} {project : Path}

theorem Justified.visit (h : resolver.Justified member state) (hproject : member project) :
    resolver.Justified member (state.visit project) where
  visited other hother := by
    rcases List.mem_cons.1 hother with rfl | hother
    · exact hproject
    · exact h.visited other hother
  projects := h.projects
  edges := h.edges
  sources := h.sources
  references := h.references

theorem Justified.addProject (h : resolver.Justified member state) (hstate : state.WellFormed)
    (hproject : member project) : resolver.Justified member (state.addProject project) where
  visited := h.visited
  projects other hother := by
    rcases ProjectGraph.mem_projects_addProject hother with hother | rfl
    · exact h.projects other hother
    · exact hproject
  edges source target hsource htarget hedge :=
    h.edges source target hsource htarget ((ProjectGraph.refers_addProject hstate.graph).1 hedge)
  sources := h.sources
  references := h.references

/-- The own sources and libraries of a project are justified. -/
theorem Justified.contribute (h : resolver.Justified member state) (hproject : member project)
    {descriptor : Descriptor} {files : List Path}
    (hload : resolver.system.loadDescriptor project = .ok descriptor)
    (hfiles : descriptor.sources resolver.system = .ok files) :
    resolver.Justified member (state.contribute resolver.system files
      (descriptor.libraries resolver.system resolver.platform)) where
  visited := h.visited
  projects := h.projects
  edges := h.edges
  sources source hsource := by
    rcases PathSet.mem_of_mem_extend hsource with hsource | ⟨file, hfile, rfl⟩
    · exact h.sources source hsource
    · exact ⟨project, hproject, descriptor, files, file, hload, hfiles, hfile, rfl⟩
  references library hlibrary := by
    rcases PathSet.mem_of_mem_extend hlibrary with hlibrary | ⟨file, hfile, rfl⟩
    · exact h.references library hlibrary
    · exact ⟨project, hproject, descriptor, file, hload, Descriptor.mem_libraries_iff.1 hfile, rfl⟩

theorem Justified.addReference {target : Path} (h : resolver.Justified member state)
    (hstate : state.WellFormed) (hsource : project.IsCanonical) (htarget : target.IsCanonical)
    (hproject : member project) (hmember : member target)
    (hreference : resolver.system.References project target) :
    resolver.Justified member (state.addReference project target) where
  visited := h.visited
  projects other hother := by
    rcases ProjectGraph.mem_projects_addReference hother with hother | rfl | rfl
    · exact h.projects other hother
    · exact hproject
    · exact hmember
  edges source other hspelled hspelled' hedge := by
    rcases (ProjectGraph.refers_addReference hstate.graph).1 hedge with hedge | ⟨hfirst, hsecond⟩
    · exact h.edges source other hspelled hspelled' hedge
    · rwa [← (hsource.same_iff hspelled).1 hfirst, ← (htarget.same_iff hspelled').1 hsecond]
  sources := h.sources
  references := h.references

theorem Justified.addRoot (h : resolver.Justified member state) (hstate : state.WellFormed)
    (hproject : member project) : resolver.Justified member (state.addRoot project) where
  visited := h.visited
  projects other hother := by
    have hadded : other ∈ (state.graph.addProject project).projects := by
      rwa [← (ProjectGraph.addRoot_eq state.graph project).1]
    rcases ProjectGraph.mem_projects_addProject hadded with hother | rfl
    · exact h.projects other hother
    · exact hproject
  edges source target hsource htarget hedge :=
    h.edges source target hsource htarget ((ProjectGraph.refers_addRoot hstate.graph).1 hedge)
  sources := h.sources
  references := h.references

/-! ## Whole traversals -/

/-- A state stays justified while a project is resolved, whatever the outcome, and an answer is the
canonical path of what was asked for. -/
theorem justified_resolveProject (hnamed : resolver.system.WellNamed)
    (hclosed : ∀ project target, member project → resolver.system.References project target →
      member target)
    {opened : List Path} (hopened : ∀ other ∈ opened, other.IsCanonical) {path : Path}
    (hpath : ∀ project, resolver.system.canonical path = .ok project → member project)
    (hstate : state.WellFormed) (h : resolver.Justified member state) :
    resolver.Justified member (resolver.resolveProject opened path state).2 ∧
      ∀ project, (resolver.resolveProject opened path state).1 = .ok project →
        resolver.system.canonical path = .ok project := by
  refine ((traversal_induction hnamed
    (fun _ path state outcome =>
      (∀ project, resolver.system.canonical path = .ok project → member project) →
      resolver.Justified member state → resolver.Justified member outcome.2 ∧
        ∀ project, outcome.1 = .ok project → resolver.system.canonical path = .ok project)
    (fun _ project references state outcome => member project →
      (∀ reference ∈ references, ∀ target, resolver.system.canonical reference = .ok target →
        resolver.system.References project target) →
      resolver.Justified member state → resolver.Justified member outcome.2)
    ?_ ?_ ?_ ?_ ?_ ?_ ?_ ?_ ?_ ?_).1 opened path state hopened hstate).2.2 hpath h
  · intro _ _ _ _ _ hjustified
    exact ⟨hjustified, by simp⟩
  · intro _ _ _ _ _ _ hjustified
    exact ⟨hjustified, by simp⟩
  · intro _ _ _ _ _ _ _ _ _ hjustified
    exact ⟨hjustified, by simp⟩
  · intro _ _ _ project hcanonical _ _ _ hjustified
    refine ⟨hjustified, ?_⟩
    intro other hok
    rwa [← Except.ok.inj hok]
  · intro _ _ _ project _ hasked _ hmember hjustified
    exact ⟨hjustified.visit (hmember project hasked.canonical), by simp⟩
  · intro _ _ _ project _ _ hasked _ _ hmember hjustified
    have hproject := hmember project hasked.canonical
    exact ⟨(hjustified.visit hproject).addProject
      (ResolutionState.wellFormed_visit hasked.wellFormed hasked.spelled) hproject, by simp⟩
  · intro _ _ _ project descriptor files result _ hasked hload hfiles _ hreferences hmember
      hjustified
    have hproject := hmember project hasked.canonical
    have hadded := (hjustified.visit hproject).addProject
      (ResolutionState.wellFormed_visit hasked.wellFormed hasked.spelled) hproject
    refine ⟨hreferences hproject ?_ (hadded.contribute hproject hload hfiles), ?_⟩
    · intro reference hreference target htarget
      exact ⟨descriptor, reference, hload, hreference, htarget⟩
    · intro other hok
      cases result with
      | error error => simp [Except.map] at hok
      | ok =>
          rw [← Except.ok.inj hok]
          exact hasked.canonical
  · intro _ _ _ _ _ hjustified
    exact hjustified
  · intro _ project reference rest _ _ _ hstopped hproject hreferences hjustified
    refine (hstopped ?_ hjustified).1
    intro target htarget
    exact hclosed project target hproject
      (hreferences reference List.mem_cons_self target htarget)
  · intro _ project reference rest _ target after _ hspelled hafter _ hcontinued hrest hproject
      hreferences hjustified
    have hdeclared := hreferences reference List.mem_cons_self
    obtain ⟨hjustifiedAfter, hanswer⟩ := hcontinued
      (fun other hother => hclosed project other hproject (hdeclared other hother)) hjustified
    have hcanonical := hanswer target rfl
    have hreference := hdeclared target hcanonical
    exact hrest hproject
      (fun other hother => hreferences other (List.mem_cons_of_mem _ hother))
      (hjustifiedAfter.addReference hafter hspelled
        (FileSystem.isCanonical_of_canonical hnamed hcanonical) hproject
        (hclosed project target hproject hreference) hreference)

end Resolver
end ProjectAssembler
