import Mathlib.Algebra.GroupWithZero.Nat
import ProjectAssembler.Proofs.OrderedLists
import ProjectAssembler.Proofs.Path.Order
import ProjectAssembler.Proofs.Project.Graphs

/-!
# The lists of references

A graph lists the references of each project in path order, each once, and the lists of all projects
together have one entry for every reference of the graph.

Main results:

* `ProjectGraph.ascending_references`: a project's references are listed strictly in path order;
* `ProjectGraph.sum_length_references`: the lists have as many entries as there are references.
-/

namespace ProjectAssembler

/-- Sorted paths of which no two are the same come strictly one after the other. -/
theorem Path.ascending_sort {paths : List Path}
    (h : paths.Pairwise fun p q => p.same q = false) :
    OrderedList.Ascending Path.compare (Path.sort paths) := by
  have hordered : (Path.sort paths).Pairwise fun p q => (p.compare q != .gt) = true := by
    refine List.pairwise_mergeSort ?_ ?_ paths
    · intro p q r hpq hqr
      simp only [bne_iff_ne, Ordering.ne_gt_iff_isLE] at *
      exact Std.TransCmp.isLE_trans hpq hqr
    · intro p q
      have hswap : p.compare q = (q.compare p).swap := Std.OrientedCmp.eq_swap
      cases hqp : q.compare p <;> simp [hswap, hqp]
  have hdistinct : (Path.sort paths).Pairwise fun p q => p.same q = false := by
    refine ((List.mergeSort_perm paths _).pairwise_iff fun {p q} hpq => ?_).2 h
    rwa [Path.same_comm]
  refine (hordered.and hdistinct).imp fun {p q} hboth => ?_
  obtain ⟨hle, hne⟩ := hboth
  cases horder : p.compare q with
  | lt => rfl
  | eq =>
      rw [Path.compare_eq_iff_same.1 horder] at hne
      contradiction
  | gt => simp [horder] at hle

namespace ProjectGraph

variable {graph : ProjectGraph}

theorem references_of_indexOf? {project : Path} {number : Nat}
    (h : graph.indexOf? project = some number) :
    graph.references project = Path.sort (graph.edges.filterMap fun edge =>
      if edge.1 = number then graph.projects[edge.2]? else none) := by
  unfold references
  rw [h]

/-- The references of a project are listed strictly in path order. -/
theorem ascending_references (h : graph.WellFormed) (project : Path) :
    OrderedList.Ascending Path.compare (graph.references project) := by
  cases hindex : graph.indexOf? project with
  | none =>
      unfold references
      rw [hindex]
      exact OrderedList.ascending_nil
  | some number =>
      rw [references_of_indexOf? hindex]
      refine Path.ascending_sort (List.pairwise_filterMap.2 (h.edges_nodup.imp ?_))
      rintro ⟨i, j⟩ ⟨k, l⟩ hne p hp q hq
      by_cases hi : i = number
      · by_cases hk : k = number
        · simp only [hi, hk, if_true] at hp hq
          cases hsame : p.same q with
          | false => rfl
          | true =>
              have hjl : j = l := h.eq_of_same hp hq hsame
              exact absurd (by rw [hi, hk, hjl]) hne
        · simp [hk] at hq
      · simp [hi] at hp

/-- The list of a project's references has an entry for every edge from its number. -/
theorem length_references (h : graph.WellFormed) {project : Path} {number : Nat}
    (hindex : graph.indexOf? project = some number) :
    (graph.references project).length = graph.edges.countP (·.1 == number) := by
  rw [references_of_indexOf? hindex, Path.sort, List.length_mergeSort,
    List.length_filterMap_eq_countP]
  refine List.countP_congr fun edge hedge => ?_
  by_cases hsource : edge.1 = number
  · simp [hsource, List.getElem?_eq_getElem (h.bounded edge hedge).2]
  · simp [hsource]

/-- Edges counted by their sources, up to a number. -/
theorem sum_countP_range (edges : List (Nat × Nat)) (count : Nat) :
    ((List.range count).map fun number => edges.countP (·.1 == number)).sum =
      edges.countP (·.1 < count) := by
  have hsucc (number : Nat) : edges.countP (·.1 < number + 1) =
      edges.countP (·.1 < number) + edges.countP (·.1 == number) := by
    induction edges with
    | nil => rfl
    | cons edge rest ih =>
        simp only [List.countP_cons, ih, decide_eq_true_eq, beq_iff_eq]
        split <;> split <;> split <;> omega
  induction count with
  | zero => simp
  | succ count ih => rw [List.range_succ, List.map_append, List.sum_append, ih, hsucc]; simp

/-- The lists of all projects have as many entries as there are references. -/
theorem sum_length_references (h : graph.WellFormed) :
    (graph.projects.map fun project => (graph.references project).length).sum =
      graph.edges.length := by
  have hcounts : (graph.projects.map fun project => (graph.references project).length) =
      (List.range graph.projects.length).map fun number => graph.edges.countP (·.1 == number) := by
    refine List.ext_getElem (by simp) fun number hleft _ => ?_
    have hnumber : number < graph.projects.length := by simpa using hleft
    have hindex : graph.indexOf? graph.projects[number] = some number :=
      h.indexOf?_eq_some_iff.2 ⟨_, List.getElem?_eq_getElem hnumber, Path.same_refl _⟩
    simp only [List.getElem_map, List.getElem_range]
    exact length_references h hindex
  rw [hcounts, sum_countP_range, List.countP_eq_length]
  exact fun edge hedge => decide_eq_true (h.bounded edge hedge).1

end ProjectGraph
end ProjectAssembler
