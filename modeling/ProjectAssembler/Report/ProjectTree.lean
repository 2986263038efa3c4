import ProjectAssembler.Path.FileName
import ProjectAssembler.Path.Lexical
import ProjectAssembler.Project.Graph

/-!
# The tree of projects

A graph of projects is shown as a tree: each project with the projects that it references below
it, one level deeper.  A project that has been shown before is marked and its references are not
repeated, unless repetition is asked for.

Main definitions:

* `TreeLine`: a line of the tree;
* `TreeDraft.collect`: the lines of several projects, one after the other;
* `ProjectGraph.branch`: the lines of one project;
* `ProjectGraph.tree`: the lines of all projects that were asked for.

Main results: `ProjectGraph.branch_of_seen` and `ProjectGraph.branch_of_fresh` say what a
project's lines are.
-/

namespace ProjectAssembler

/-- A line of the tree of projects. -/
structure TreeLine where
  depth : Nat
  project : Path
  /-- Whether the project was shown before and its references are left out. -/
  repeated : Bool
deriving DecidableEq, Repr

/-- Lines that have been written, with the projects that have been shown. -/
structure TreeDraft where
  lines : List TreeLine
  seen : List Path
deriving DecidableEq, Repr

/-- The lines of projects one after the other, given those of each single project. -/
def TreeDraft.collect (branchOf : Path → List Path → TreeDraft) :
    (projects seen : List Path) → TreeDraft
  | [], seen => ⟨[], seen⟩
  | project :: rest, seen =>
      let first := branchOf project seen
      let more := collect branchOf rest first.seen
      ⟨first.lines ++ more.lines, more.seen⟩

namespace ProjectGraph

/-- Whether a project is among those that have been shown. -/
def isSeen (seen : List Path) (project : Path) : Bool :=
  seen.any (·.same project)

/-- The lines of a project down to a number of levels, given the projects that have been shown,
and the projects shown afterwards. -/
def branch (graph : ProjectGraph) (repeating : Bool) :
    (levels depth : Nat) → (project : Path) → (seen : List Path) → TreeDraft
  | 0, _, _, seen => ⟨[], seen⟩
  | levels + 1, depth, project, seen =>
      if isSeen seen project && !repeating then ⟨[⟨depth, project, true⟩], seen⟩
      else
        let start := if isSeen seen project then seen else project :: seen
        let below :=
          TreeDraft.collect (branch graph repeating levels (depth + 1)) (graph.references project)
            start
        ⟨⟨depth, project, false⟩ :: below.lines, below.seen⟩

/-- The number of levels that show everything: without a circle of references a branch passes each
project at most once, and one further line may repeat a project. -/
def levels (graph : ProjectGraph) (maxDepth : Option Nat) : Nat :=
  match maxDepth with
  | some maxDepth => min (maxDepth + 1) (graph.size + 1)
  | none => graph.size + 1

/-- The lines of all projects that were asked for, down to a depth if one is given. -/
def tree (graph : ProjectGraph) (maxDepth : Option Nat) (repeating : Bool) : List TreeLine :=
  (TreeDraft.collect (graph.branch repeating (graph.levels maxDepth) 0) graph.roots []).lines

/-- A project that has been shown gets a single marked line. -/
theorem branch_of_seen {graph : ProjectGraph} {seen : List Path} {project : Path}
    (h : isSeen seen project = true) (levels depth : Nat) :
    graph.branch false (levels + 1) depth project seen = ⟨[⟨depth, project, true⟩], seen⟩ := by
  simp [branch, h]

/-- A project that has not been shown gets an unmarked line with the lines of its references
below. -/
theorem branch_of_fresh {graph : ProjectGraph} {repeating : Bool} {seen : List Path}
    {project : Path}
    (h : isSeen seen project = false) (levels depth : Nat) :
    graph.branch repeating (levels + 1) depth project seen =
      let below :=
        TreeDraft.collect (graph.branch repeating levels (depth + 1)) (graph.references project)
          (project :: seen)
      ⟨⟨depth, project, false⟩ :: below.lines, below.seen⟩ := by
  simp [branch, h]

end ProjectGraph

namespace TreeLine

/-- The beginning of a line at a depth. -/
def lead : Nat → String
  | 0 => ""
  | depth + 1 => String.join (List.replicate depth "│   ") ++ "├── "

/-- The text of a line: the name of the project and where it is, as seen from a directory. -/
def text (directory : Path) (line : TreeLine) : String :=
  lead line.depth ++ line.project.stem?.getD "" ++ " (" ++
    (Path.relativeTo directory line.project).text ++ ")" ++ if line.repeated then " (*)" else ""

end TreeLine
end ProjectAssembler
