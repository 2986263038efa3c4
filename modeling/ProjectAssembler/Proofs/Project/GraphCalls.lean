import Mathlib.Data.List.Forall2
import ProjectAssembler.Proofs.FirstOccurrences
import ProjectAssembler.Proofs.Project.ReferenceLists

/-!
# Graphs built by calls

A graph is built from the empty one by calls that add projects, references and roots in any order
and as often as they like.  Whatever the calls, the graph has the projects that they mention, the
references that they record and the roots that they name, all up to the equality of paths by
components, and a project keeps the number that it was given first.

Main definitions:

* `GraphCall`: a call, and what it mentions and records;
* `GraphView`: what can be seen of a graph after some calls, with the numbers that they answered;
* `GraphView.Refines`: whether that is what the calls say;
* `ProjectGraph.afterCalls` and `ProjectGraph.view`: the graph after calls and what is seen of it.

Main results:

* `ProjectGraph.Tracks.snoc`: what one more call adds to a graph;
* `ProjectGraph.indexOf?_afterCalls_append`: later calls change no number;
* `ProjectGraph.refines_view`: what is seen of a graph is what the calls say.
-/

namespace ProjectAssembler

/-! ## Calls -/

/-- A call that builds up a graph. -/
inductive GraphCall where
  | project (path : Path)
  | reference (source target : Path)
  | root (path : Path)
deriving DecidableEq, Repr

namespace GraphCall

/-- The projects that a call mentions. -/
def mentioned : GraphCall → List Path
  | project path => [path]
  | reference source target => [source, target]
  | root path => [path]

/-- The project whose number a call asks for. -/
def project? : GraphCall → Option Path
  | project path => some path
  | _ => none

/-- The reference that a call records. -/
def reference? : GraphCall → Option (Path × Path)
  | reference source target => some (source, target)
  | _ => none

/-- The root that a call names. -/
def root? : GraphCall → Option Path
  | root path => some path
  | _ => none

end GraphCall

/-! ## Views -/

/-- What can be seen of a graph. -/
structure GraphView where
  /-- The numbers that were answered when projects were added. -/
  answers : List Nat
  number? : Path → Option Nat
  size : Nat
  roots : List Path
  references : Path → List Path

/-- Whether what is seen of a graph is what calls say.  A project that is added is answered the
number that it has in the end; the projects that are mentioned have a number, which they share with
the same projects and no other; the size counts the projects that are mentioned; the roots are
listed at their first calls, and have numbers; and the references of a project are listed strictly
in path order, each that is recorded for it and no other. -/
structure GraphView.Refines (view : GraphView) (calls : List GraphCall) : Prop where
  answered : List.Forall₂ (fun path number => view.number? path = some number)
    (calls.filterMap GraphCall.project?) view.answers
  known_iff : ∀ path, (∃ number, view.number? path = some number) ↔
    ∃ other ∈ calls.flatMap GraphCall.mentioned, other.same path = true
  number_iff : ∀ path other number, view.number? path = some number →
    (view.number? other = some number ↔ path.same other = true)
  size : view.size = ((calls.flatMap GraphCall.mentioned).map Path.components).toFinset.card
  roots : FirstOccurrences Path.components (calls.filterMap GraphCall.root?) view.roots
  roots_known : ∀ root ∈ view.roots, ∃ number, view.number? root = some number
  ascending : ∀ path, OrderedList.Ascending Path.compare (view.references path)
  references_iff : ∀ path target,
    (∃ listed ∈ view.references path, listed.same target = true) ↔
      ∃ recorded ∈ calls.filterMap GraphCall.reference?,
        recorded.1.same path = true ∧ recorded.2.same target = true
  unknown : ∀ path, view.number? path = none → view.references path = []

namespace ProjectGraph

/-! ## Running calls -/

/-- The graph after a call. -/
def afterCall (graph : ProjectGraph) : GraphCall → ProjectGraph
  | .project path => graph.addProject path
  | .reference source target => graph.addReference source target
  | .root path => graph.addRoot path

/-- The graph after calls on the empty one. -/
def afterCalls (calls : List GraphCall) : ProjectGraph :=
  calls.foldl afterCall empty

/-- The number that a call answers, if it asks for one. -/
def answer? (graph : ProjectGraph) (call : GraphCall) : Option Nat :=
  call.project?.map graph.numberOf

/-- The numbers that calls answer one after the other. -/
def answers (graph : ProjectGraph) : List GraphCall → List Nat
  | [] => []
  | call :: rest => (graph.answer? call).toList ++ answers (graph.afterCall call) rest

/-- What is seen of the graph after calls. -/
def view (calls : List GraphCall) : GraphView where
  answers := answers empty calls
  number? := (afterCalls calls).indexOf?
  size := (afterCalls calls).size
  roots := (afterCalls calls).roots
  references := (afterCalls calls).references

theorem afterCalls_snoc (calls : List GraphCall) (call : GraphCall) :
    afterCalls (calls ++ [call]) = (afterCalls calls).afterCall call := by
  rw [afterCalls, List.foldl_append]
  rfl

theorem answers_append (graph : ProjectGraph) (calls later : List GraphCall) :
    graph.answers (calls ++ later) =
      graph.answers calls ++ (calls.foldl afterCall graph).answers later := by
  induction calls generalizing graph with
  | nil => rfl
  | cons call rest ih => rw [List.cons_append, answers, answers, ih, List.append_assoc]; rfl

/-! ## Numbers -/

/-- The same projects have the same number. -/
theorem indexOf?_congr (graph : ProjectGraph) {path other : Path} (h : path.same other = true) :
    graph.indexOf? path = graph.indexOf? other := by
  have hsame : (fun own : Path => own.same path) = fun own => own.same other := by
    funext own
    rw [Path.same, beq_iff_eq] at h
    rw [Path.same, Path.same, h]
  rw [indexOf?, indexOf?, hsame]

/-- A project that is added has the number that is answered. -/
theorem indexOf?_addProject_self (graph : ProjectGraph) (path : Path) :
    (graph.addProject path).indexOf? path = some (graph.numberOf path) := by
  unfold addProject numberOf
  cases hindex : graph.indexOf? path with
  | some number => exact hindex
  | none =>
      unfold indexOf? at hindex ⊢
      simp [List.findIdx?_append, hindex, Path.same_refl]

theorem indexOf?_addProject {graph : ProjectGraph} {path : Path} {number : Nat}
    (h : graph.indexOf? path = some number) (other : Path) :
    (graph.addProject other).indexOf? path = some number := by
  rcases addProject_eq graph other with ⟨-, heq⟩ | ⟨-, heq⟩ <;> rw [heq]
  · exact h
  · unfold indexOf? at h ⊢
    rw [List.findIdx?_append, h, Option.some_or]

/-- Numbers depend on the projects of a graph alone. -/
theorem indexOf?_of_projects_eq {graph other : ProjectGraph}
    (h : graph.projects = other.projects) (path : Path) :
    graph.indexOf? path = other.indexOf? path := by
  rw [indexOf?, indexOf?, h]

/-- No call changes a number. -/
theorem indexOf?_afterCall {graph : ProjectGraph} {path : Path} {number : Nat}
    (h : graph.indexOf? path = some number) (call : GraphCall) :
    (graph.afterCall call).indexOf? path = some number := by
  cases call with
  | project other => exact indexOf?_addProject h other
  | reference source target =>
      exact (indexOf?_of_projects_eq (projects_addReference graph source target) path).trans
        (indexOf?_addProject (indexOf?_addProject h source) target)
  | root other =>
      exact (indexOf?_of_projects_eq (addRoot_eq graph other).1 path).trans
        (indexOf?_addProject h other)

/-- Later calls change no number. -/
theorem indexOf?_afterCalls_append {calls : List GraphCall} {path : Path} {number : Nat}
    (h : (afterCalls calls).indexOf? path = some number) (later : List GraphCall) :
    (afterCalls (calls ++ later)).indexOf? path = some number := by
  induction later using List.reverseRecOn with
  | nil => rwa [List.append_nil]
  | append_singleton before call ih =>
      rw [← List.append_assoc, afterCalls_snoc]
      exact indexOf?_afterCall ih call

/-- Every answer is the number that the project has in the end. -/
theorem forall₂_answers (calls : List GraphCall) :
    List.Forall₂ (fun path number => (afterCalls calls).indexOf? path = some number)
      (calls.filterMap GraphCall.project?) (answers empty calls) := by
  induction calls using List.reverseRecOn with
  | nil => exact List.Forall₂.nil
  | append_singleton before call ih =>
      have hbefore := ih.imp fun _ _ hnumber => indexOf?_afterCalls_append hnumber [call]
      have hlast : List.Forall₂
          (fun path number => (afterCalls (before ++ [call])).indexOf? path = some number)
          ([call].filterMap GraphCall.project?) (answers (afterCalls before) [call]) := by
        rw [afterCalls_snoc]
        cases call with
        | project path =>
            exact List.Forall₂.cons (indexOf?_addProject_self _ path) List.Forall₂.nil
        | reference source target => exact List.Forall₂.nil
        | root path => exact List.Forall₂.nil
      rw [List.filterMap_append, answers_append]
      exact List.rel_append hbefore hlast

/-! ## What a graph keeps track of -/

/-- Whether a graph holds what calls mention, record and name. -/
structure Tracks (graph : ProjectGraph) (calls : List GraphCall) : Prop where
  wellFormed : graph.WellFormed
  projects : FirstOccurrences Path.components (calls.flatMap GraphCall.mentioned) graph.projects
  roots : FirstOccurrences Path.components (calls.filterMap GraphCall.root?) graph.roots
  refers_iff : ∀ source target, graph.Refers source target ↔
    ∃ recorded ∈ calls.filterMap GraphCall.reference?,
      recorded.1.same source = true ∧ recorded.2.same target = true

/-- A project that is added is listed at its first occurrence. -/
theorem firstOccurrences_addProject {graph : ProjectGraph} {all : List Path}
    (h : FirstOccurrences Path.components all graph.projects) (path : Path) :
    FirstOccurrences Path.components (all ++ [path]) (graph.addProject path).projects := by
  rcases addProject_eq graph path with ⟨⟨own, hown, hsame⟩, heq⟩ | ⟨hnew, heq⟩ <;> rw [heq]
  · exact h.snoc_known ⟨own, hown, by simpa [Path.same] using hsame⟩
  · refine h.snoc_new fun own hown hkey => hnew ⟨own, hown, ?_⟩
    simpa [Path.same] using hkey

/-- A root that is added is listed at its first occurrence. -/
theorem firstOccurrences_addRoot {graph : ProjectGraph} {all : List Path}
    (h : FirstOccurrences Path.components all graph.roots) (path : Path) :
    FirstOccurrences Path.components (all ++ [path]) (graph.addRoot path).roots := by
  rw [roots_addRoot]
  split
  · rename_i hknown
    obtain ⟨own, hown, hsame⟩ := List.any_eq_true.1 hknown
    exact h.snoc_known ⟨own, hown, by simpa [Path.same] using hsame⟩
  · rename_i hnew
    refine h.snoc_new fun own hown hkey => hnew (List.any_eq_true.2 ⟨own, hown, ?_⟩)
    simpa [Path.same] using hkey

namespace Tracks

variable {graph : ProjectGraph} {calls : List GraphCall}

theorem empty : ProjectGraph.empty.Tracks [] where
  wellFormed := wellFormed_empty
  projects := FirstOccurrences.nil
  roots := FirstOccurrences.nil
  refers_iff := by simp

/-- What one more call adds to a graph. -/
theorem snoc (h : graph.Tracks calls) (call : GraphCall) :
    (graph.afterCall call).Tracks (calls ++ [call]) := by
  have hroots : (calls ++ [call]).filterMap GraphCall.root? =
      calls.filterMap GraphCall.root? ++ call.root?.toList := by
    rw [List.filterMap_append]
    cases hroot : call.root? <;> simp [hroot]
  cases call with
  | project path =>
      constructor
      · exact wellFormed_addProject h.wellFormed path
      · rw [List.flatMap_append]
        exact firstOccurrences_addProject h.projects path
      · rw [hroots]
        simpa [GraphCall.root?, afterCall] using h.roots
      · intro source target
        rw [List.filterMap_append, afterCall, refers_addProject h.wellFormed, h.refers_iff]
        simp [GraphCall.reference?, List.filterMap_cons]
  | reference source target =>
      constructor
      · exact wellFormed_addReference h.wellFormed source target
      · rw [List.flatMap_append, afterCall, projects_addReference]
        simpa [GraphCall.mentioned] using
          firstOccurrences_addProject (firstOccurrences_addProject h.projects source) target
      · rw [hroots]
        simpa [GraphCall.root?, afterCall] using h.roots
      · intro first second
        rw [List.filterMap_append, afterCall, refers_addReference h.wellFormed, h.refers_iff]
        simp [GraphCall.reference?, or_and_right, exists_or]
  | root path =>
      constructor
      · exact wellFormed_addRoot h.wellFormed path
      · rw [List.flatMap_append, afterCall, (addRoot_eq graph path).1]
        exact firstOccurrences_addProject h.projects path
      · rw [hroots]
        exact firstOccurrences_addRoot h.roots path
      · intro source target
        rw [List.filterMap_append, afterCall, refers_addRoot h.wellFormed, h.refers_iff]
        simp [GraphCall.reference?, List.filterMap_cons]

/-- Projects have a number exactly if they are mentioned. -/
theorem exists_indexOf?_iff (h : graph.Tracks calls) (path : Path) :
    (∃ number, graph.indexOf? path = some number) ↔
      ∃ other ∈ calls.flatMap GraphCall.mentioned, other.same path = true := by
  have hhas : (∃ number, graph.indexOf? path = some number) ↔ graph.Has path := by
    rw [← Option.isSome_iff_exists, ← Option.ne_none_iff_isSome, Ne, indexOf?_eq_none_iff, not_not]
  rw [hhas]
  constructor
  · rintro ⟨own, hown, hsame⟩
    exact ⟨own, h.projects.mem hown, hsame⟩
  · rintro ⟨other, hother, hsame⟩
    obtain ⟨own, hown, hkey⟩ := h.projects.complete other hother
    exact ⟨own, hown, by rw [Path.same, hkey]; exact hsame⟩

/-- Projects share a number exactly if they are the same. -/
theorem indexOf?_eq_some_iff_same {path : Path} {number : Nat}
    (hpath : graph.indexOf? path = some number) (other : Path) :
    graph.indexOf? other = some number ↔ path.same other = true := by
  constructor
  · intro hother
    obtain ⟨own, hown, hsame⟩ := exists_of_indexOf? hpath
    obtain ⟨found, hfound, hsame'⟩ := exists_of_indexOf? hother
    obtain rfl := Option.some.inj (hown.symm.trans hfound)
    rw [Path.same_comm] at hsame
    exact Path.same_trans hsame hsame'
  · intro hsame
    rw [← indexOf?_congr graph hsame, hpath]

/-- Roots are projects. -/
theorem exists_indexOf?_of_mem_roots (h : graph.Tracks calls) {root : Path}
    (hroot : root ∈ graph.roots) : ∃ number, graph.indexOf? root = some number := by
  obtain ⟨call, hcall, hnamed⟩ := List.mem_filterMap.1 (h.roots.mem hroot)
  refine (h.exists_indexOf?_iff root).2 ⟨root, List.mem_flatMap.2 ⟨call, hcall, ?_⟩,
    Path.same_refl root⟩
  cases call with
  | project path => cases hnamed
  | reference source target => cases hnamed
  | root path =>
      obtain rfl := Option.some.inj hnamed
      exact List.mem_singleton.2 rfl

/-- The references that are listed are those that are recorded. -/
theorem exists_mem_references_iff (h : graph.Tracks calls) (path target : Path) :
    (∃ listed ∈ graph.references path, listed.same target = true) ↔
      ∃ recorded ∈ calls.filterMap GraphCall.reference?,
        recorded.1.same path = true ∧ recorded.2.same target = true := by
  rw [← h.refers_iff]
  simp only [mem_references_iff h.wellFormed]
  constructor
  · rintro ⟨listed, ⟨-, i, j, own, other, hedge, hown, hother, hsource, htarget⟩, hsame⟩
    exact ⟨i, j, own, other, hedge, hown, hother, hsource, Path.same_trans htarget hsame⟩
  · rintro ⟨i, j, own, other, hedge, hown, hother, hsource, htarget⟩
    exact ⟨other, ⟨List.mem_of_getElem? hother, i, j, own, other, hedge, hown, hother, hsource,
      Path.same_refl other⟩, htarget⟩

end Tracks

theorem tracks_afterCalls (calls : List GraphCall) : (afterCalls calls).Tracks calls := by
  induction calls using List.reverseRecOn with
  | nil => exact Tracks.empty
  | append_singleton before call ih => rw [afterCalls_snoc]; exact ih.snoc call

/-- What is seen of a graph is what the calls say. -/
theorem refines_view (calls : List GraphCall) : (view calls).Refines calls := by
  have h := tracks_afterCalls calls
  exact {
    answered := forall₂_answers calls
    known_iff := h.exists_indexOf?_iff
    number_iff := fun _ other _ hpath => Tracks.indexOf?_eq_some_iff_same hpath other
    size := h.projects.card_toFinset.symm
    roots := h.roots
    roots_known := fun _ => h.exists_indexOf?_of_mem_roots
    ascending := ascending_references h.wellFormed
    references_iff := h.exists_mem_references_iff
    unknown := fun path hnone => by
      rw [show (view calls).references path = (afterCalls calls).references path from rfl,
        references, show (afterCalls calls).indexOf? path = none from hnone] }

end ProjectGraph
end ProjectAssembler
