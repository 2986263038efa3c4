import ProjectAssembler.Path.Basic

/-!
# The graph of projects

Projects are the nodes, numbered in the order in which they were added; an edge leads from a
project to one that it references.  Two paths with the same components are one project, which
keeps the text it was added with.

Main definitions: `ProjectGraph.addProject`, `ProjectGraph.addReference`, `ProjectGraph.addRoot` and
`ProjectGraph.references`.

Main results: `ProjectGraph.indexOf?_addProject_isSome` says that an added project is found, and
`ProjectGraph.addProject_of_mem` that adding a project again changes nothing.
-/

namespace ProjectAssembler

/-- The projects met in a resolution with their references. -/
structure ProjectGraph where
  /-- The projects; a project's number is its place. -/
  projects : List Path
  /-- The references between numbered projects, each once. -/
  edges : List (Nat × Nat)
  /-- The projects that were asked for, in the order of the request. -/
  roots : List Path
deriving DecidableEq, Repr

namespace ProjectGraph

/-- The graph without projects. -/
def empty : ProjectGraph :=
  ⟨[], [], []⟩

/-- The number of a project, if it has been added. -/
def indexOf? (graph : ProjectGraph) (path : Path) : Option Nat :=
  graph.projects.findIdx? (·.same path)

/-- Add a project unless it is present. -/
def addProject (graph : ProjectGraph) (path : Path) : ProjectGraph :=
  match graph.indexOf? path with
  | some _ => graph
  | none => { graph with projects := graph.projects ++ [path] }

/-- The number of a project after it has been added. -/
def numberOf (graph : ProjectGraph) (path : Path) : Nat :=
  (graph.indexOf? path).getD graph.projects.length

/-- Record that one project references another; both are added if they are not present. -/
def addReference (graph : ProjectGraph) (source target : Path) : ProjectGraph :=
  let first := graph.addProject source
  let both := first.addProject target
  let edge := (graph.numberOf source, first.numberOf target)
  if edge ∈ both.edges then both else { both with edges := both.edges ++ [edge] }

/-- Record a project that was asked for. -/
def addRoot (graph : ProjectGraph) (path : Path) : ProjectGraph :=
  let graph := graph.addProject path
  if graph.roots.any (·.same path) then graph
  else { graph with roots := graph.roots ++ [path] }

/-- The projects that a project references, in path order; none for an unknown project. -/
def references (graph : ProjectGraph) (path : Path) : List Path :=
  match graph.indexOf? path with
  | none => []
  | some number =>
      Path.sort (graph.edges.filterMap fun (source, target) =>
        if source = number then graph.projects[target]? else none)

/-- The number of projects. -/
def size (graph : ProjectGraph) : Nat :=
  graph.projects.length

@[simp]
theorem indexOf?_empty (path : Path) : empty.indexOf? path = none :=
  rfl

/-- Adding a project that is present changes nothing. -/
theorem addProject_of_mem {graph : ProjectGraph} {path : Path} {number : Nat}
    (h : graph.indexOf? path = some number) : graph.addProject path = graph := by
  simp [addProject, h]

/-- A project that has been added is found. -/
theorem indexOf?_addProject_isSome (graph : ProjectGraph) (path : Path) :
    ((graph.addProject path).indexOf? path).isSome = true := by
  unfold addProject
  split
  · rename_i h
    simp [h]
  · simp [indexOf?, Path.same]

@[simp]
theorem roots_addProject (graph : ProjectGraph) (path : Path) :
    (graph.addProject path).roots = graph.roots := by
  unfold addProject
  split <;> rfl

end ProjectGraph
end ProjectAssembler
