import ProjectAssembler.Project.Resolution
import ProjectAssembler.Proofs.FileSystem.CanonicalPaths
import ProjectAssembler.Proofs.FileSystem.PathSets
import ProjectAssembler.Proofs.Project.Graphs

/-!
# States of a resolution

While projects are resolved the state only grows, and what it holds stays in good order: visited
projects are canonical paths, the graph is well formed and the sets are ascending.

Main definitions:

* `ResolutionState.WellFormed`: a state in good order;
* `ResolutionState.Grows`: one state holds all that another one holds;
* `ResolutionState.enter`: a project is visited and contributes what is its own.

Main results:

* `ResolutionState.isVisited_iff`: whether a canonical path has been visited;
* the lemmas `wellFormed_enter`, `grows_enter` and their likes say what each operation keeps.
-/

namespace ProjectAssembler

/-- A canonical path is in a list of canonical paths as soon as one of them is the same. -/
theorem Path.any_same_iff {paths : List Path} {path : Path}
    (hpaths : ∀ other ∈ paths, other.IsCanonical) (hpath : path.IsCanonical) :
    paths.any (·.same path) = true ↔ path ∈ paths := by
  rw [List.any_eq_true]
  constructor
  · rintro ⟨other, hother, hsame⟩
    rwa [← ((hpaths other hother).same_iff hpath).1 hsame]
  · intro hmem
    exact ⟨path, hmem, Path.same_refl path⟩

namespace ResolutionState

/-- Nothing of a state is out of order. -/
structure WellFormed (state : ResolutionState) : Prop where
  visited : ∀ project ∈ state.visited, project.IsCanonical
  graph : state.graph.WellFormed
  sources : state.resolution.sources.Ascending
  references : state.resolution.references.Ascending

/-- A state holds all that an earlier one holds. -/
structure Grows (before after : ResolutionState) : Prop where
  visited : ∀ project ∈ before.visited, project ∈ after.visited
  projects : ∀ project, before.graph.Has project → after.graph.Has project
  edges : ∀ source target, before.graph.Refers source target → after.graph.Refers source target
  sources : ∀ path, before.resolution.sources.holds path = true →
    after.resolution.sources.holds path = true
  references : ∀ path, before.resolution.references.holds path = true →
    after.resolution.references.holds path = true

/-- Visit a project and take over what it contributes by itself. -/
def enter (system : FileSystem) (state : ResolutionState) (project : Path)
    (sources libraries : List Path) : ResolutionState :=
  ((state.visit project).addProject project).contribute system sources libraries

theorem wellFormed_empty : empty.WellFormed :=
  ⟨by simp [empty], ProjectGraph.wellFormed_empty, PathSet.ascending_empty, PathSet.ascending_empty⟩

/-- A canonical path has been visited exactly when it is among the visited projects. -/
theorem isVisited_iff {state : ResolutionState} (hstate : state.WellFormed) {project : Path}
    (hproject : project.IsCanonical) : state.isVisited project = true ↔ project ∈ state.visited :=
  Path.any_same_iff hstate.visited hproject

/-! ## Growth -/

namespace Grows

theorem refl (state : ResolutionState) : state.Grows state :=
  ⟨fun _ => id, fun _ => id, fun _ _ => id, fun _ => id, fun _ => id⟩

theorem trans {first second third : ResolutionState} (h : first.Grows second)
    (h' : second.Grows third) : first.Grows third where
  visited project hproject := h'.visited project (h.visited project hproject)
  projects project hproject := h'.projects project (h.projects project hproject)
  edges source target hedge := h'.edges source target (h.edges source target hedge)
  sources path hpath := h'.sources path (h.sources path hpath)
  references path hpath := h'.references path (h.references path hpath)

end Grows

/-! ## Visiting and entering -/

theorem wellFormed_visit {state : ResolutionState} (h : state.WellFormed) {project : Path}
    (hproject : project.IsCanonical) : (state.visit project).WellFormed where
  visited other hother := by
    rcases List.mem_cons.1 hother with rfl | hother
    · exact hproject
    · exact h.visited other hother
  graph := h.graph
  sources := h.sources
  references := h.references

theorem grows_visit (state : ResolutionState) (project : Path) :
    state.Grows (state.visit project) :=
  ⟨fun _ => List.mem_cons_of_mem _, fun _ => id, fun _ _ => id, fun _ => id, fun _ => id⟩

theorem wellFormed_addProject {state : ResolutionState} (h : state.WellFormed) (project : Path) :
    (state.addProject project).WellFormed :=
  ⟨h.visited, ProjectGraph.wellFormed_addProject h.graph project, h.sources, h.references⟩

theorem grows_addProject {state : ResolutionState} (h : state.WellFormed) (project : Path) :
    state.Grows (state.addProject project) where
  visited _ := id
  projects _ hother := ProjectGraph.has_addProject.2 (Or.inl hother)
  edges _ _ hedge := (ProjectGraph.refers_addProject h.graph).2 hedge
  sources _ := id
  references _ := id

theorem wellFormed_contribute {state : ResolutionState} (h : state.WellFormed)
    (system : FileSystem) (sources libraries : List Path) :
    (state.contribute system sources libraries).WellFormed :=
  ⟨h.visited, h.graph, PathSet.ascending_extend h.sources sources,
    PathSet.ascending_extend h.references libraries⟩

theorem grows_contribute (system : FileSystem) (state : ResolutionState)
    (sources libraries : List Path) :
    state.Grows (state.contribute system sources libraries) where
  visited _ := id
  projects _ := id
  edges _ _ := id
  sources _ hpath := PathSet.holds_extend.2 (Or.inl hpath)
  references _ hpath := PathSet.holds_extend.2 (Or.inl hpath)

theorem wellFormed_enter {state : ResolutionState} (h : state.WellFormed) {project : Path}
    (hproject : project.IsCanonical) (system : FileSystem) (sources libraries : List Path) :
    (state.enter system project sources libraries).WellFormed :=
  wellFormed_contribute (wellFormed_addProject (wellFormed_visit h hproject) project) system
    sources libraries

theorem grows_enter {state : ResolutionState} (h : state.WellFormed) {project : Path}
    (hproject : project.IsCanonical) (system : FileSystem) (sources libraries : List Path) :
    state.Grows (state.enter system project sources libraries) :=
  (grows_visit state project).trans
    ((grows_addProject (wellFormed_visit h hproject) project).trans
      (grows_contribute system _ sources libraries))

@[simp]
theorem visited_enter (system : FileSystem) (state : ResolutionState) (project : Path)
    (sources libraries : List Path) :
    (state.enter system project sources libraries).visited = project :: state.visited :=
  rfl

@[simp]
theorem graph_enter (system : FileSystem) (state : ResolutionState) (project : Path)
    (sources libraries : List Path) :
    (state.enter system project sources libraries).graph = state.graph.addProject project :=
  rfl

/-! ## References and roots -/

theorem wellFormed_addReference {state : ResolutionState} (h : state.WellFormed)
    (source target : Path) : (state.addReference source target).WellFormed :=
  ⟨h.visited, ProjectGraph.wellFormed_addReference h.graph source target, h.sources, h.references⟩

theorem grows_addReference {state : ResolutionState} (h : state.WellFormed)
    (source target : Path) : state.Grows (state.addReference source target) where
  visited _ := id
  projects _ hother := ProjectGraph.has_addReference.2 (Or.inl hother)
  edges _ _ hedge := (ProjectGraph.refers_addReference h.graph).2 (Or.inl hedge)
  sources _ := id
  references _ := id

theorem wellFormed_addRoot {state : ResolutionState} (h : state.WellFormed) (project : Path) :
    (state.addRoot project).WellFormed :=
  ⟨h.visited, ProjectGraph.wellFormed_addRoot h.graph project, h.sources, h.references⟩

theorem grows_addRoot {state : ResolutionState} (h : state.WellFormed) (project : Path) :
    state.Grows (state.addRoot project) where
  visited _ := id
  projects _ hother := ProjectGraph.has_addRoot.2 (Or.inl hother)
  edges _ _ hedge := (ProjectGraph.refers_addRoot h.graph).2 hedge
  sources _ := id
  references _ := id

end ResolutionState
end ProjectAssembler
