import ProjectAssembler.Proofs.Project.GraphCalls

/-!
# Graphs with an index

A graph of projects can be kept as three things: a store of numbered nodes with the edges between
them, an index from projects to numbers, and the list of roots.  Calls change several of them at
once.  Whatever store is used, as long as its nodes are numbered in turn and its edges are kept once
each, the three stay in step, and what is seen of them is what is seen of the graph of projects.

Main definitions:

* `NodeStore` and `NodeStore.Lawful`: the operations of a store and their laws;
* `IndexedGraph`: a store with an index and roots, and `IndexedGraph.view`, what is seen of it;
* `IndexedGraph.Mirrors`: a graph with an index that is in step with a graph of projects.

Main results:

* `IndexedGraph.Mirrors.afterCall`: one call keeps both in step;
* `IndexedGraph.view_eq_and_refines`: what is seen after calls is what the calls say.
-/

namespace ProjectAssembler

/-! ## Stores of nodes -/

/-- The operations of a store of numbered nodes, which hold paths, and of edges between them. -/
structure NodeStore (Store : Type) where
  empty : Store
  /-- A node is added, and its number is answered. -/
  addNode : Store → Path → Store × Nat
  /-- An edge is added, unless there is one between the same nodes. -/
  updateEdge : Store → Nat → Nat → Store
  nodeCount : Store → Nat
  path? : Store → Nat → Option Path
  /-- The numbers that the edges from a node lead to, in some order. -/
  targets : Store → Nat → List Nat

namespace NodeStore

/-- The laws of a store: nodes are numbered in turn and keep their paths, and an edge that is
updated is there afterwards, once. -/
structure Lawful {Store : Type} (nodes : NodeStore Store) : Prop where
  nodeCount_empty : nodes.nodeCount nodes.empty = 0
  path?_empty : ∀ i, nodes.path? nodes.empty i = none
  targets_empty : ∀ i, nodes.targets nodes.empty i = []
  number_addNode : ∀ store path, (nodes.addNode store path).2 = nodes.nodeCount store
  nodeCount_addNode : ∀ store path,
    nodes.nodeCount (nodes.addNode store path).1 = nodes.nodeCount store + 1
  path?_addNode : ∀ store path i, nodes.path? (nodes.addNode store path).1 i =
    if i = nodes.nodeCount store then some path else nodes.path? store i
  targets_addNode : ∀ store path i,
    nodes.targets (nodes.addNode store path).1 i = nodes.targets store i
  nodeCount_updateEdge : ∀ store a b, a < nodes.nodeCount store → b < nodes.nodeCount store →
    nodes.nodeCount (nodes.updateEdge store a b) = nodes.nodeCount store
  path?_updateEdge : ∀ store a b i, a < nodes.nodeCount store → b < nodes.nodeCount store →
    nodes.path? (nodes.updateEdge store a b) i = nodes.path? store i
  mem_targets_updateEdge : ∀ store a b i j,
    a < nodes.nodeCount store → b < nodes.nodeCount store →
      (j ∈ nodes.targets (nodes.updateEdge store a b) i ↔
        j ∈ nodes.targets store i ∨ i = a ∧ j = b)
  nodup_targets_updateEdge : ∀ store a b,
    a < nodes.nodeCount store → b < nodes.nodeCount store →
      (∀ i, (nodes.targets store i).Nodup) →
        ∀ i, (nodes.targets (nodes.updateEdge store a b) i).Nodup

end NodeStore

/-! ## The graph -/

/-- A store of nodes with the numbers of the projects in it and the roots. -/
structure IndexedGraph (Store : Type) where
  store : Store
  /-- The numbers of the projects; an entry hides those behind it. -/
  index : List (Path × Nat)
  roots : List Path

namespace IndexedGraph

variable {Store : Type} (nodes : NodeStore Store)

/-- The graph without projects. -/
def empty : IndexedGraph Store :=
  ⟨nodes.empty, [], []⟩

/-- The number of a project, if the index has one. -/
def number? (graph : IndexedGraph Store) (path : Path) : Option Nat :=
  (graph.index.find? (·.1.same path)).map (·.2)

/-- Add a project unless the index has it, and answer its number. -/
def addProject (graph : IndexedGraph Store) (path : Path) : IndexedGraph Store × Nat :=
  match graph.number? path with
  | some number => (graph, number)
  | none =>
      let (store, number) := nodes.addNode graph.store path
      ({ graph with store := store, index := (path, number) :: graph.index }, number)

/-- Record that one project references another; both are added if they are not present. -/
def addReference (graph : IndexedGraph Store) (source target : Path) : IndexedGraph Store :=
  let (first, i) := graph.addProject nodes source
  let (both, j) := first.addProject nodes target
  { both with store := nodes.updateEdge both.store i j }

/-- Record a project that was asked for. -/
def addRoot (graph : IndexedGraph Store) (path : Path) : IndexedGraph Store :=
  let graph := (graph.addProject nodes path).1
  if graph.roots.any (·.same path) then graph
  else { graph with roots := graph.roots ++ [path] }

/-- The projects that a project references, in path order; none for an unknown project. -/
def references (graph : IndexedGraph Store) (path : Path) : List Path :=
  match graph.number? path with
  | none => []
  | some number =>
      Path.sort ((nodes.targets graph.store number).filterMap (nodes.path? graph.store))

/-- The number of projects. -/
def size (graph : IndexedGraph Store) : Nat :=
  nodes.nodeCount graph.store

/-- The graph after a call. -/
def afterCall (graph : IndexedGraph Store) : GraphCall → IndexedGraph Store
  | .project path => (graph.addProject nodes path).1
  | .reference source target => graph.addReference nodes source target
  | .root path => graph.addRoot nodes path

/-- The number that a call answers, if it asks for one. -/
def answer? (graph : IndexedGraph Store) (call : GraphCall) : Option Nat :=
  call.project?.map fun path => (graph.addProject nodes path).2

/-- The graph after calls on the empty one. -/
def afterCalls (calls : List GraphCall) : IndexedGraph Store :=
  calls.foldl (afterCall nodes) (empty nodes)

/-- The numbers that calls answer one after the other. -/
def answers (graph : IndexedGraph Store) : List GraphCall → List Nat
  | [] => []
  | call :: rest => (graph.answer? nodes call).toList ++ answers (graph.afterCall nodes call) rest

/-- What is seen of the graph after calls. -/
def view (calls : List GraphCall) : GraphView where
  answers := answers nodes (empty nodes) calls
  number? := (afterCalls nodes calls).number?
  size := (afterCalls nodes calls).size nodes
  roots := (afterCalls nodes calls).roots
  references := (afterCalls nodes calls).references nodes

/-! ## Staying in step -/

/-- Whether a graph with an index is in step with a graph of projects. -/
structure Mirrors (indexed : IndexedGraph Store) (graph : ProjectGraph) : Prop where
  count : nodes.nodeCount indexed.store = graph.projects.length
  path : ∀ i, nodes.path? indexed.store i = graph.projects[i]?
  number : ∀ project, indexed.number? project = graph.indexOf? project
  targets : ∀ i j, j ∈ nodes.targets indexed.store i ↔ (i, j) ∈ graph.edges
  nodup : ∀ i, (nodes.targets indexed.store i).Nodup
  roots : indexed.roots = graph.roots

namespace Mirrors

variable {nodes} {indexed : IndexedGraph Store} {graph : ProjectGraph}

theorem empty (hnodes : nodes.Lawful) : Mirrors nodes (empty nodes) ProjectGraph.empty where
  count := hnodes.nodeCount_empty
  path := hnodes.path?_empty
  number _ := rfl
  targets i j := by simp [IndexedGraph.empty, ProjectGraph.empty, hnodes.targets_empty]
  nodup i := by simp [IndexedGraph.empty, hnodes.targets_empty]
  roots := rfl

/-- A project is added to both, or to neither. -/
theorem addProject (hnodes : nodes.Lawful) (h : Mirrors nodes indexed graph) (project : Path) :
    Mirrors nodes (indexed.addProject nodes project).1 (graph.addProject project) := by
  unfold IndexedGraph.addProject ProjectGraph.addProject
  rw [h.number]
  cases hindex : graph.indexOf? project with
  | some number => exact h
  | none =>
      constructor
      · simp [hnodes.nodeCount_addNode, h.count]
      · intro i
        simp only [hnodes.path?_addNode, h.count, h.path]
        grind
      · -- The index is searched from its newest entry and the projects from the oldest; this makes
        -- no difference, since the new project is the same as none before it.
        intro other
        have hnumber := h.number other
        unfold IndexedGraph.number? ProjectGraph.indexOf? at hnumber ⊢
        simp only [List.find?_cons, List.findIdx?_append]
        cases hsame : project.same other with
        | true =>
            have hnone : graph.projects.findIdx? (·.same other) = none :=
              (ProjectGraph.indexOf?_congr graph hsame).symm.trans hindex
            simp [hnone, hsame, hnodes.number_addNode, h.count]
        | false => simp [hnumber, hsame]
      · intro i j
        simp only [hnodes.targets_addNode, h.targets]
      · intro i
        simp only [hnodes.targets_addNode]
        exact h.nodup i
      · exact h.roots

/-- Both answer the same number. -/
theorem number_addProject (hnodes : nodes.Lawful) (h : Mirrors nodes indexed graph)
    (project : Path) : (indexed.addProject nodes project).2 = graph.numberOf project := by
  unfold IndexedGraph.addProject ProjectGraph.numberOf
  rw [h.number]
  cases graph.indexOf? project with
  | some number => rfl
  | none => exact (hnodes.number_addNode _ _).trans h.count

/-- A reference is recorded in both. -/
theorem addReference (hnodes : nodes.Lawful) (h : Mirrors nodes indexed graph)
    (source target : Path) :
    Mirrors nodes (indexed.addReference nodes source target)
      (graph.addReference source target) := by
  have hfirst := h.addProject hnodes source
  have hboth := hfirst.addProject hnodes target
  have hi := h.number_addProject hnodes source
  have hj := hfirst.number_addProject hnodes target
  obtain ⟨own, hown, -⟩ := ProjectGraph.getElem?_numberOf graph source
  obtain ⟨other, hother, -⟩ := ProjectGraph.getElem?_numberOf (graph.addProject source) target
  -- Both numbers are of nodes when the edge is updated, as the laws of the store ask.
  have hilt := (List.getElem?_eq_some_iff.1 (ProjectGraph.getElem?_addProject hown target)).1
  have hjlt := (List.getElem?_eq_some_iff.1 hother).1
  rw [← hboth.count] at hilt hjlt
  unfold IndexedGraph.addReference
  simp only [hi, hj]
  constructor
  · rw [hnodes.nodeCount_updateEdge _ _ _ hilt hjlt, hboth.count,
      ProjectGraph.projects_addReference]
  · intro i
    rw [hnodes.path?_updateEdge _ _ _ _ hilt hjlt, hboth.path, ProjectGraph.projects_addReference]
  · intro project
    exact (hboth.number project).trans (ProjectGraph.indexOf?_of_projects_eq
      (ProjectGraph.projects_addReference graph source target) project).symm
  · intro i j
    rw [hnodes.mem_targets_updateEdge _ _ _ _ _ hilt hjlt, hboth.targets,
      ProjectGraph.mem_edges_addReference]
    simp
  · exact hnodes.nodup_targets_updateEdge _ _ _ hilt hjlt hboth.nodup
  · simpa using hboth.roots

/-- A root is recorded in both, or in neither. -/
theorem addRoot (hnodes : nodes.Lawful) (h : Mirrors nodes indexed graph) (project : Path) :
    Mirrors nodes (indexed.addRoot nodes project) (graph.addRoot project) := by
  have hadded := h.addProject hnodes project
  unfold IndexedGraph.addRoot ProjectGraph.addRoot
  simp only [hadded.roots]
  split
  · exact hadded
  · exact { hadded with roots := rfl }

/-- One call keeps both in step. -/
theorem afterCall (hnodes : nodes.Lawful) (h : Mirrors nodes indexed graph) (call : GraphCall) :
    Mirrors nodes (indexed.afterCall nodes call) (graph.afterCall call) := by
  cases call with
  | project path => exact h.addProject hnodes path
  | reference source target => exact h.addReference hnodes source target
  | root path => exact h.addRoot hnodes path

/-- Calls keep both in step. -/
theorem foldl_afterCall (hnodes : nodes.Lawful) (h : Mirrors nodes indexed graph)
    (calls : List GraphCall) :
    Mirrors nodes (calls.foldl (IndexedGraph.afterCall nodes) indexed)
      (calls.foldl ProjectGraph.afterCall graph) := by
  induction calls generalizing indexed graph with
  | nil => exact h
  | cons call rest ih => exact ih (h.afterCall hnodes call)

/-- Both answer the same numbers. -/
theorem answers_eq (hnodes : nodes.Lawful) (h : Mirrors nodes indexed graph)
    (calls : List GraphCall) : indexed.answers nodes calls = graph.answers calls := by
  induction calls generalizing indexed graph with
  | nil => rfl
  | cons call rest ih =>
      have hanswer : indexed.answer? nodes call = graph.answer? call := by
        unfold IndexedGraph.answer? ProjectGraph.answer?
        cases call.project? with
        | none => rfl
        | some path => exact congrArg some (h.number_addProject hnodes path)
      rw [IndexedGraph.answers, ProjectGraph.answers, hanswer, ih (h.afterCall hnodes call)]

/-- Both list the same references. -/
theorem references_eq (h : Mirrors nodes indexed graph) (hwell : graph.WellFormed)
    (project : Path) : indexed.references nodes project = graph.references project := by
  have hascending := ProjectGraph.ascending_references hwell project
  unfold IndexedGraph.references
  rw [h.number]
  cases hindex : graph.indexOf? project with
  | none => rw [ProjectGraph.references, hindex]
  | some number =>
      rw [ProjectGraph.references_of_indexOf? hindex] at hascending ⊢
      refine OrderedList.Ascending.eq_of_mem_iff (Path.ascending_sort ?_) hascending ?_
      · -- Different numbers are of different projects, so no target is listed twice.
        refine List.pairwise_filterMap.2 ((h.nodup number).imp fun {i j} hne p hp q hq => ?_)
        rw [h.path] at hp hq
        cases hsame : p.same q with
        | false => rfl
        | true => exact absurd (hwell.eq_of_same hp hq hsame) hne
      · intro listed
        simp only [Path.sort, List.mem_mergeSort, List.mem_filterMap, h.targets, h.path]
        constructor
        · rintro ⟨j, hedge, hlisted⟩
          exact ⟨(number, j), hedge, by simpa using hlisted⟩
        · rintro ⟨⟨i, j⟩, hedge, hlisted⟩
          by_cases hi : i = number
          · exact ⟨j, hi ▸ hedge, by simpa [hi] using hlisted⟩
          · simp [hi] at hlisted

end Mirrors

/-- What is seen of a graph with an index after calls is what is seen of the graph of projects. -/
theorem view_eq {nodes : NodeStore Store} (hnodes : nodes.Lawful) (calls : List GraphCall) :
    view nodes calls = ProjectGraph.view calls := by
  have hempty := Mirrors.empty hnodes
  have h : Mirrors nodes (afterCalls nodes calls) (ProjectGraph.afterCalls calls) :=
    hempty.foldl_afterCall hnodes calls
  rw [view, ProjectGraph.view, GraphView.mk.injEq]
  exact ⟨hempty.answers_eq hnodes calls, funext h.number, h.count, h.roots,
    funext (h.references_eq (ProjectGraph.tracks_afterCalls calls).wellFormed)⟩

/-- What is seen of a graph after calls is what the calls say, whether it is kept with an index or
not, and later calls change no number. -/
theorem view_eq_and_refines {nodes : NodeStore Store} (hnodes : nodes.Lawful)
    (calls : List GraphCall) :
    view nodes calls = ProjectGraph.view calls ∧ (view nodes calls).Refines calls ∧
      ∀ later path number, (view nodes calls).number? path = some number →
        (view nodes (calls ++ later)).number? path = some number := by
  simp only [view_eq hnodes]
  exact ⟨trivial, ProjectGraph.refines_view calls, fun later _ _ h =>
    ProjectGraph.indexOf?_afterCalls_append h later⟩

end IndexedGraph

/-! ## A store of lists -/

namespace NodeStore

/-- A store that lists the paths in turn and the edges with the newest first. -/
def lists : NodeStore (List Path × List (Nat × Nat)) where
  empty := ([], [])
  addNode store path := ((store.1 ++ [path], store.2), store.1.length)
  updateEdge store a b :=
    if store.2.contains (a, b) then store else (store.1, (a, b) :: store.2)
  nodeCount store := store.1.length
  path? store i := store.1[i]?
  targets store i := store.2.filterMap fun edge => if edge.1 = i then some edge.2 else none

theorem mem_targets_lists {store : List Path × List (Nat × Nat)} {i j : Nat} :
    j ∈ lists.targets store i ↔ (i, j) ∈ store.2 := by
  simp [lists]

theorem lawful_lists : lists.Lawful where
  nodeCount_empty := rfl
  path?_empty _ := rfl
  targets_empty _ := rfl
  number_addNode _ _ := rfl
  nodeCount_addNode _ _ := by simp [lists]
  path?_addNode store path i := by simp only [lists]; grind
  targets_addNode _ _ _ := rfl
  nodeCount_updateEdge store a b _ _ := by simp only [lists]; split <;> rfl
  path?_updateEdge store a b i _ _ := by simp only [lists]; split <;> rfl
  mem_targets_updateEdge store a b i j _ _ := by
    simp only [mem_targets_lists]
    simp only [lists]
    split
    · grind
    · simp only [List.mem_cons, Prod.mk.injEq]
      exact or_comm
  nodup_targets_updateEdge store a b _ _ h i := by
    simp only [lists] at h ⊢
    split
    · exact h i
    · rename_i hcontains
      have hnew : (a, b) ∉ store.2 := by simpa using hcontains
      by_cases ha : a = i
      · subst ha
        simpa [hnew] using h a
      · simpa [ha] using h i

end NodeStore

/-- Calls that mention two projects in several spellings. -/
def respelledCalls : List GraphCall :=
  [.reference ⟨"/b"⟩ ⟨"/a"⟩, .root ⟨"/./b"⟩, .reference ⟨"/b/"⟩ ⟨"//a"⟩, .project ⟨"/a"⟩]

theorem view_respelledCalls :
    NodeStore.lists.Lawful ∧
      IndexedGraph.view NodeStore.lists respelledCalls = ProjectGraph.view respelledCalls ∧
      (IndexedGraph.view NodeStore.lists respelledCalls).Refines respelledCalls ∧
      (IndexedGraph.view NodeStore.lists respelledCalls).answers = [1] ∧
      (IndexedGraph.view NodeStore.lists respelledCalls).size = 2 ∧
      (IndexedGraph.view NodeStore.lists respelledCalls).roots = [⟨"/./b"⟩] ∧
      (IndexedGraph.view NodeStore.lists (respelledCalls ++ [.root ⟨"/c"⟩])).number? ⟨"//a"⟩ =
        some 1 := by
  obtain ⟨hview, hrefines, hlater⟩ :=
    IndexedGraph.view_eq_and_refines NodeStore.lawful_lists respelledCalls
  exact ⟨NodeStore.lawful_lists, hview, hrefines, by decide, by decide, by decide,
    hlater [.root ⟨"/c"⟩] ⟨"//a"⟩ 1 (by decide)⟩

end ProjectAssembler
