import ProjectAssembler.Project.Graph
import ProjectAssembler.Proofs.Path.Spelling

/-!
# Projects and references in a graph

A graph numbers its projects and keeps references as pairs of numbers.  Seen from outside it is a
set of projects with a relation between them, both up to the equality of paths by components, and
every operation adds to them exactly what its name says.

Main definitions:

* `ProjectGraph.Has`, `ProjectGraph.Refers`: the projects and references of a graph;
* `ProjectGraph.WellFormed`: projects are distinct and references lead between projects.

Main results:

* `ProjectGraph.mem_references_iff`: what the list of a project's references holds;
* `ProjectGraph.has_addReference`, `ProjectGraph.refers_addReference` and their likes: what each
  operation adds;
* `ProjectGraph.wellFormed_addReference` and its likes: each operation keeps a graph well formed.
-/

namespace ProjectAssembler
namespace ProjectGraph

/-- Whether a graph has a project. -/
def Has (graph : ProjectGraph) (project : Path) : Prop :=
  ∃ own ∈ graph.projects, own.same project = true

/-- Whether a graph records that a project references another one. -/
def Refers (graph : ProjectGraph) (source target : Path) : Prop :=
  ∃ i j own other, (i, j) ∈ graph.edges ∧ graph.projects[i]? = some own ∧
    graph.projects[j]? = some other ∧ own.same source = true ∧ other.same target = true

/-- The projects of a graph are distinct, and every reference leads once from one project to
another. -/
structure WellFormed (graph : ProjectGraph) : Prop where
  distinct : graph.projects.Pairwise fun p q => p.same q = false
  edges_nodup : graph.edges.Nodup
  bounded : ∀ edge ∈ graph.edges,
    edge.1 < graph.projects.length ∧ edge.2 < graph.projects.length

theorem wellFormed_empty : empty.WellFormed :=
  ⟨List.Pairwise.nil, List.nodup_nil, by simp [empty]⟩

@[simp]
theorem not_has_empty (project : Path) : ¬ empty.Has project := by
  simp [Has, empty]

@[simp]
theorem not_refers_empty (source target : Path) : ¬ empty.Refers source target := by
  simp [Refers, empty]

/-! ## Numbers -/

/-- A number belongs to a project that is the same as the one asked for. -/
theorem exists_of_indexOf? {graph : ProjectGraph} {project : Path} {number : Nat}
    (h : graph.indexOf? project = some number) :
    ∃ own, graph.projects[number]? = some own ∧ own.same project = true := by
  obtain ⟨hnumber, hsame, -⟩ := List.findIdx?_eq_some_iff_getElem.1 h
  exact ⟨graph.projects[number], List.getElem?_eq_getElem hnumber, hsame⟩

/-- Without a number a graph does not have a project. -/
theorem indexOf?_eq_none_iff {graph : ProjectGraph} {project : Path} :
    graph.indexOf? project = none ↔ ¬ graph.Has project := by
  simp [indexOf?, Has, List.findIdx?_eq_none_iff]

/-- Projects at two places of a well-formed graph are the same only at one place. -/
theorem WellFormed.eq_of_same {graph : ProjectGraph} (h : graph.WellFormed) {i j : Nat}
    {own other : Path} (hi : graph.projects[i]? = some own) (hj : graph.projects[j]? = some other)
    (hsame : own.same other = true) : i = j := by
  obtain ⟨hilt, rfl⟩ := List.getElem?_eq_some_iff.1 hi
  obtain ⟨hjlt, rfl⟩ := List.getElem?_eq_some_iff.1 hj
  have hdistinct := List.pairwise_iff_getElem.1 h.distinct
  rcases Nat.lt_trichotomy i j with hlt | heq | hlt
  · rw [hdistinct i j hilt hjlt hlt] at hsame
    exact absurd hsame (by simp)
  · exact heq
  · rw [Path.same_comm, hdistinct j i hjlt hilt hlt] at hsame
    exact absurd hsame (by simp)

/-- The number of a project is the place where it is. -/
theorem WellFormed.indexOf?_eq_some_iff {graph : ProjectGraph} (h : graph.WellFormed)
    {project : Path} {number : Nat} :
    graph.indexOf? project = some number ↔
      ∃ own, graph.projects[number]? = some own ∧ own.same project = true := by
  constructor
  · exact exists_of_indexOf?
  · rintro ⟨own, hown, hsame⟩
    cases hindex : graph.indexOf? project with
    | none =>
        have hhas : graph.Has project := ⟨own, List.mem_of_getElem? hown, hsame⟩
        exact absurd hhas (indexOf?_eq_none_iff.1 hindex)
    | some other =>
        obtain ⟨found, hfound, hfoundSame⟩ := exists_of_indexOf? hindex
        rw [Path.same_comm] at hsame
        rw [h.eq_of_same hfound hown (Path.same_trans hfoundSame hsame)]

/-- What the list of a project's references holds. -/
theorem mem_references_iff {graph : ProjectGraph} (h : graph.WellFormed) {source target : Path} :
    target ∈ graph.references source ↔ target ∈ graph.projects ∧ graph.Refers source target := by
  unfold references
  constructor
  · intro hmem
    split at hmem
    · simp at hmem
    · rename_i number hnumber
      obtain ⟨own, hown, hsame⟩ := exists_of_indexOf? hnumber
      rw [Path.sort, List.mem_mergeSort, List.mem_filterMap] at hmem
      obtain ⟨⟨i, j⟩, hedge, htarget⟩ := hmem
      by_cases hi : i = number
      · simp only [hi, if_true] at htarget hedge
        exact ⟨List.mem_of_getElem? htarget,
          number, j, own, target, hedge, hown, htarget, hsame, Path.same_refl target⟩
      · simp [hi] at htarget
  · rintro ⟨hproject, i, j, own, other, hedge, hown, hother, hsource, htarget⟩
    have hnumber : graph.indexOf? source = some i := h.indexOf?_eq_some_iff.2 ⟨own, hown, hsource⟩
    obtain ⟨k, hk⟩ := List.mem_iff_getElem?.1 hproject
    have hkj : j = k := h.eq_of_same hother hk htarget
    rw [hnumber]
    simp only [Path.sort, List.mem_mergeSort, List.mem_filterMap]
    exact ⟨(i, j), hedge, by simp [hkj, hk]⟩

/-! ## Adding a project -/

/-- A project that is added comes last, unless it is present. -/
theorem addProject_eq (graph : ProjectGraph) (project : Path) :
    (graph.Has project ∧ graph.addProject project = graph) ∨
      (¬ graph.Has project ∧
        graph.addProject project = { graph with projects := graph.projects ++ [project] }) := by
  unfold addProject
  split
  · rename_i number hnumber
    obtain ⟨own, hown, hsame⟩ := exists_of_indexOf? hnumber
    exact Or.inl ⟨⟨own, List.mem_of_getElem? hown, hsame⟩, rfl⟩
  · rename_i hnone
    exact Or.inr ⟨indexOf?_eq_none_iff.1 hnone, rfl⟩

@[simp]
theorem edges_addProject (graph : ProjectGraph) (project : Path) :
    (graph.addProject project).edges = graph.edges := by
  unfold addProject
  split <;> rfl

/-- Projects keep their places when another one is added. -/
theorem getElem?_addProject {graph : ProjectGraph} {number : Nat} {own : Path}
    (h : graph.projects[number]? = some own) (project : Path) :
    (graph.addProject project).projects[number]? = some own := by
  rcases addProject_eq graph project with ⟨-, heq⟩ | ⟨-, heq⟩ <;> rw [heq]
  · exact h
  · obtain ⟨hlt, -⟩ := List.getElem?_eq_some_iff.1 h
    simpa [List.getElem?_append_left hlt] using h

theorem mem_projects_addProject {graph : ProjectGraph} {project other : Path}
    (h : other ∈ (graph.addProject project).projects) :
    other ∈ graph.projects ∨ other = project := by
  rcases addProject_eq graph project with ⟨-, heq⟩ | ⟨-, heq⟩ <;> rw [heq] at h
  · exact Or.inl h
  · simpa using h

/-- A graph has the project that is added, and no other new one. -/
theorem has_addProject {graph : ProjectGraph} {project other : Path} :
    (graph.addProject project).Has other ↔ graph.Has other ∨ project.same other = true := by
  rcases addProject_eq graph project with ⟨⟨own, hown, hsame⟩, heq⟩ | ⟨-, heq⟩ <;> rw [heq]
  · constructor
    · exact Or.inl
    · rintro (h | h)
      · exact h
      · exact ⟨own, hown, Path.same_trans hsame h⟩
  · simp [Has, or_and_right, exists_or]

/-- Adding a project adds no reference. -/
theorem refers_addProject {graph : ProjectGraph} (h : graph.WellFormed)
    {project source target : Path} :
    (graph.addProject project).Refers source target ↔ graph.Refers source target := by
  constructor
  · rintro ⟨i, j, own, other, hedge, hown, hother, hsource, htarget⟩
    rw [edges_addProject] at hedge
    obtain ⟨hi, hj⟩ := h.bounded _ hedge
    rw [getElem?_addProject (List.getElem?_eq_getElem hi)] at hown
    rw [getElem?_addProject (List.getElem?_eq_getElem hj)] at hother
    rw [← Option.some.inj hown] at hsource
    rw [← Option.some.inj hother] at htarget
    exact ⟨i, j, graph.projects[i], graph.projects[j], hedge, List.getElem?_eq_getElem hi,
      List.getElem?_eq_getElem hj, hsource, htarget⟩
  · rintro ⟨i, j, own, other, hedge, hown, hother, hsource, htarget⟩
    exact ⟨i, j, own, other, by simpa using hedge, getElem?_addProject hown project,
      getElem?_addProject hother project, hsource, htarget⟩

theorem wellFormed_addProject {graph : ProjectGraph} (h : graph.WellFormed) (project : Path) :
    (graph.addProject project).WellFormed := by
  rcases addProject_eq graph project with ⟨-, heq⟩ | ⟨hnew, heq⟩ <;> rw [heq]
  · exact h
  · refine ⟨?_, h.edges_nodup, ?_⟩
    · apply List.pairwise_append.2
      refine ⟨h.distinct, List.pairwise_singleton _ _, ?_⟩
      intro own hown last hlast
      rw [List.mem_singleton.1 hlast]
      simpa using fun hsame => hnew ⟨own, hown, hsame⟩
    · intro edge hedge
      obtain ⟨hfirst, hsecond⟩ := h.bounded edge hedge
      simp only [List.length_append, List.length_singleton]
      omega

/-- The number of an added project. -/
theorem getElem?_numberOf (graph : ProjectGraph) (project : Path) :
    ∃ own, (graph.addProject project).projects[graph.numberOf project]? = some own ∧
      own.same project = true := by
  unfold addProject numberOf
  cases hindex : graph.indexOf? project with
  | none => exact ⟨project, by simp, Path.same_refl project⟩
  | some number => simpa using exists_of_indexOf? hindex

/-! ## Adding a reference -/

/-- The graph that has both projects of a reference before it is recorded. -/
theorem projects_addReference (graph : ProjectGraph) (source target : Path) :
    (graph.addReference source target).projects =
      ((graph.addProject source).addProject target).projects := by
  unfold addReference
  simp only
  split <;> rfl

/-- The references recorded are the ones before and the one that is added. -/
theorem mem_edges_addReference {graph : ProjectGraph} {source target : Path} {edge : Nat × Nat} :
    edge ∈ (graph.addReference source target).edges ↔
      edge ∈ graph.edges ∨
        edge = (graph.numberOf source, (graph.addProject source).numberOf target) := by
  unfold addReference
  simp only [edges_addProject]
  split
  · rename_i hmem
    simp only [edges_addProject]
    constructor
    · exact Or.inl
    · rintro (h | rfl)
      · exact h
      · exact hmem
  · simp

theorem mem_projects_addReference {graph : ProjectGraph} {source target other : Path}
    (h : other ∈ (graph.addReference source target).projects) :
    other ∈ graph.projects ∨ other = source ∨ other = target := by
  rw [projects_addReference] at h
  rcases mem_projects_addProject h with h | h
  · rcases mem_projects_addProject h with h | h
    · exact Or.inl h
    · exact Or.inr (Or.inl h)
  · exact Or.inr (Or.inr h)

/-- A graph has the projects of an added reference, and no other new one. -/
theorem has_addReference {graph : ProjectGraph} {source target other : Path} :
    (graph.addReference source target).Has other ↔
      graph.Has other ∨ source.same other = true ∨ target.same other = true := by
  have hprojects : (graph.addReference source target).Has other ↔
      ((graph.addProject source).addProject target).Has other := by
    simp only [Has, projects_addReference]
  rw [hprojects, has_addProject, has_addProject, or_assoc]

/-- A graph records the reference that is added, and no other new one. -/
theorem refers_addReference {graph : ProjectGraph} (h : graph.WellFormed)
    {source target first second : Path} :
    (graph.addReference source target).Refers first second ↔
      graph.Refers first second ∨ source.same first = true ∧ target.same second = true := by
  have hfirst : (graph.addProject source).WellFormed := wellFormed_addProject h source
  have hboth : ((graph.addProject source).addProject target).WellFormed :=
    wellFormed_addProject hfirst target
  obtain ⟨ownSource, hownSource, hsource⟩ := getElem?_numberOf graph source
  obtain ⟨ownTarget, hownTarget, htarget⟩ := getElem?_numberOf (graph.addProject source) target
  have hownSource' := getElem?_addProject hownSource target
  have hold : graph.Refers first second ↔
      ((graph.addProject source).addProject target).Refers first second := by
    rw [refers_addProject hfirst, refers_addProject h]
  rw [hold]
  simp only [Refers, projects_addReference, mem_edges_addReference, edges_addProject]
  constructor
  · rintro ⟨i, j, own, other, hedge | hedge, hown, hother, hown', hother'⟩
    · exact Or.inl ⟨i, j, own, other, hedge, hown, hother, hown', hother'⟩
    · obtain ⟨rfl, rfl⟩ := Prod.mk.inj hedge
      rw [hownSource'] at hown
      rw [hownTarget] at hother
      rw [← Option.some.inj hown, Path.same_comm] at hown'
      rw [← Option.some.inj hother, Path.same_comm] at hother'
      rw [Path.same_comm] at hsource htarget
      rw [Path.same_comm] at hown' hother'
      exact Or.inr ⟨Path.same_trans hsource hown', Path.same_trans htarget hother'⟩
  · rintro (⟨i, j, own, other, hedge, hown, hother, hown', hother'⟩ | ⟨hsame, hsame'⟩)
    · exact ⟨i, j, own, other, Or.inl hedge, hown, hother, hown', hother'⟩
    · exact ⟨_, _, ownSource, ownTarget, Or.inr rfl, hownSource', hownTarget,
        Path.same_trans hsource hsame, Path.same_trans htarget hsame'⟩

theorem wellFormed_addReference {graph : ProjectGraph} (h : graph.WellFormed)
    (source target : Path) : (graph.addReference source target).WellFormed := by
  have hboth : ((graph.addProject source).addProject target).WellFormed :=
    wellFormed_addProject (wellFormed_addProject h source) target
  obtain ⟨ownSource, hownSource, -⟩ := getElem?_numberOf graph source
  obtain ⟨ownTarget, hownTarget, -⟩ := getElem?_numberOf (graph.addProject source) target
  have hownSource' := getElem?_addProject hownSource target
  refine ⟨?_, ?_, ?_⟩
  · rw [projects_addReference]
    exact hboth.distinct
  · unfold addReference
    simp only [edges_addProject]
    split
    · exact hboth.edges_nodup
    · rename_i hnew
      apply List.nodup_append.2
      refine ⟨h.edges_nodup, by simp, ?_⟩
      rintro edge hedge last hlast rfl
      exact hnew (List.mem_singleton.1 hlast ▸ hedge)
  · intro edge hedge
    rw [projects_addReference]
    rcases mem_edges_addReference.1 hedge with hedge | rfl
    · exact hboth.bounded edge (by simpa using hedge)
    · exact ⟨(List.getElem?_eq_some_iff.1 hownSource').1,
        (List.getElem?_eq_some_iff.1 hownTarget).1⟩

@[simp]
theorem roots_addReference (graph : ProjectGraph) (source target : Path) :
    (graph.addReference source target).roots = graph.roots := by
  unfold addReference
  simp only
  split <;> simp

/-! ## Adding a root -/

/-- Apart from the roots, adding a root is adding a project. -/
theorem addRoot_eq (graph : ProjectGraph) (project : Path) :
    (graph.addRoot project).projects = (graph.addProject project).projects ∧
      (graph.addRoot project).edges = (graph.addProject project).edges := by
  unfold addRoot
  simp only
  split <;> exact ⟨rfl, rfl⟩

/-- A root comes last, unless it has been asked for before. -/
theorem roots_addRoot (graph : ProjectGraph) (project : Path) :
    (graph.addRoot project).roots =
      if graph.roots.any (·.same project) then graph.roots else graph.roots ++ [project] := by
  unfold addRoot
  simp only [roots_addProject]
  split <;> simp

theorem has_addRoot {graph : ProjectGraph} {project other : Path} :
    (graph.addRoot project).Has other ↔ graph.Has other ∨ project.same other = true := by
  rw [← has_addProject]
  simp only [Has, (addRoot_eq graph project).1]

theorem refers_addRoot {graph : ProjectGraph} (h : graph.WellFormed)
    {project source target : Path} :
    (graph.addRoot project).Refers source target ↔ graph.Refers source target := by
  have hadded : (graph.addProject project).Refers source target ↔ graph.Refers source target :=
    refers_addProject h
  rw [← hadded]
  simp only [Refers, (addRoot_eq graph project).1, (addRoot_eq graph project).2]

theorem wellFormed_addRoot {graph : ProjectGraph} (h : graph.WellFormed) (project : Path) :
    (graph.addRoot project).WellFormed := by
  have hadded := wellFormed_addProject h project
  obtain ⟨hprojects, hedges⟩ := addRoot_eq graph project
  exact ⟨hprojects ▸ hadded.distinct, hedges ▸ hadded.edges_nodup,
    hprojects ▸ hedges ▸ hadded.bounded⟩

end ProjectGraph
end ProjectAssembler
