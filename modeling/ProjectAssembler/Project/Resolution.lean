import ProjectAssembler.FileSystem.PathSet
import ProjectAssembler.Project.Graph
import ProjectAssembler.Project.Contribution

/-!
# What a resolution collects

A resolution merges the contributions of projects into one set of sources, one set of libraries
and one graph.  While it is under way it also remembers which projects have been visited.

Main definitions: `Resolution`, `ResolutionState` with its operations, and `ResolveError`.

Main results: every operation says what it does to the visited projects and to the graph, such as
`ResolutionState.isVisited_visit`.
-/

namespace ProjectAssembler

/-- The merged contributions of projects. -/
structure Resolution where
  sources : PathSet
  references : PathSet
  graph : ProjectGraph
deriving DecidableEq, Repr

/-- The resolution of no project. -/
def Resolution.empty : Resolution :=
  ⟨.empty, .empty, .empty⟩

/-! ## Errors -/

/-- Why projects cannot be resolved. -/
inductive ResolveError where
  | descriptor (error : DescriptorError)
  | sources (error : SourceError)
  /-- Projects that reference each other in a circle; the first one is repeated at the end. -/
  | cycle (projects : List Path)
  | cancelled
deriving DecidableEq, Repr

namespace ResolveError

/-- How a project of a cycle is written: by its file name, if it has one. -/
def projectName (path : Path) : String :=
  path.fileName?.getD path.text

/-- The wording of an error. -/
def message : ResolveError → String
  | descriptor error => error.message
  | sources error => error.message
  | cycle projects =>
      "project reference cycle: " ++ " -> ".intercalate (projects.map projectName)
  | cancelled => "resolution was cancelled"

/-- What to do about an error. -/
def help? : ResolveError → Option String
  | descriptor error => error.help?
  | sources error => error.help?
  | cycle _ => some "Break the cycle by removing one of the project references"
  | cancelled => none

/-- The code that an error is known by. -/
def code : ResolveError → String
  | descriptor error => error.code
  | sources error => error.code
  | cycle _ => "wharf::resolve::cycle"
  | cancelled => "wharf::resolve::cancelled"

/-- Whether an error only tells that the work was called off. -/
def isCancelled : ResolveError → Bool
  | cancelled => true
  | _ => false

end ResolveError

/-! ## Resolutions under way -/

/-- A resolution under way. -/
structure ResolutionState where
  resolution : Resolution
  /-- The canonical paths of the projects visited, successfully or not. -/
  visited : List Path
deriving DecidableEq, Repr

namespace ResolutionState

/-- The state before any project has been visited. -/
def empty : ResolutionState :=
  ⟨.empty, []⟩

/-- Whether a project has been visited. -/
def isVisited (state : ResolutionState) (project : Path) : Bool :=
  state.visited.any (·.same project)

/-- Remember that a project has been visited. -/
def visit (state : ResolutionState) (project : Path) : ResolutionState :=
  { state with visited := project :: state.visited }

/-- The projects and references collected so far. -/
def graph (state : ResolutionState) : ProjectGraph :=
  state.resolution.graph

/-- Change the graph. -/
def withGraph (state : ResolutionState) (graph : ProjectGraph) : ResolutionState :=
  { state with resolution := { state.resolution with graph } }

/-- Add a project. -/
def addProject (state : ResolutionState) (project : Path) : ResolutionState :=
  state.withGraph (state.graph.addProject project)

/-- Add a reference between projects. -/
def addReference (state : ResolutionState) (source target : Path) : ResolutionState :=
  state.withGraph (state.graph.addReference source target)

/-- Add a project that was asked for. -/
def addRoot (state : ResolutionState) (project : Path) : ResolutionState :=
  state.withGraph (state.graph.addRoot project)

/-- Add sources and libraries. -/
def contribute (system : FileSystem) (state : ResolutionState) (sources libraries : List Path) :
    ResolutionState :=
  { state with
    resolution :=
      { state.resolution with
        sources := state.resolution.sources.extend system sources
        references := state.resolution.references.extend system libraries } }

@[simp]
theorem isVisited_visit (state : ResolutionState) (project other : Path) :
    (state.visit project).isVisited other = (project.same other || state.isVisited other) :=
  rfl

@[simp]
theorem visited_withGraph (state : ResolutionState) (graph : ProjectGraph) :
    (state.withGraph graph).visited = state.visited :=
  rfl

@[simp]
theorem visited_addProject (state : ResolutionState) (project : Path) :
    (state.addProject project).visited = state.visited :=
  rfl

@[simp]
theorem visited_addReference (state : ResolutionState) (source target : Path) :
    (state.addReference source target).visited = state.visited :=
  rfl

@[simp]
theorem visited_addRoot (state : ResolutionState) (project : Path) :
    (state.addRoot project).visited = state.visited :=
  rfl

@[simp]
theorem visited_contribute (system : FileSystem) (state : ResolutionState)
    (sources libraries : List Path) :
    (state.contribute system sources libraries).visited = state.visited :=
  rfl

@[simp]
theorem graph_visit (state : ResolutionState) (project : Path) :
    (state.visit project).graph = state.graph :=
  rfl

@[simp]
theorem graph_withGraph (state : ResolutionState) (graph : ProjectGraph) :
    (state.withGraph graph).graph = graph :=
  rfl

@[simp]
theorem graph_contribute (system : FileSystem) (state : ResolutionState)
    (sources libraries : List Path) :
    (state.contribute system sources libraries).graph = state.graph :=
  rfl

end ResolutionState
end ProjectAssembler
