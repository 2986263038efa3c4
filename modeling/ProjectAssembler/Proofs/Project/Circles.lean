import Mathlib.Data.List.Chain
import Mathlib.Data.List.TakeWhile
import Mathlib.Logic.Relation
import ProjectAssembler.Proofs.Project.Traversal

/-!
# Circles of references

The open projects of a traversal reference one another in turn, so a project that is met while it
is open closes a circle, and the circle that an error names is one of the declared references.

Main definitions:

* `FileSystem.IsCircle`: projects that reference one another in a circle;
* `Resolver.Leads`: the open projects lead to a project.

Main results:

* `Resolver.isCircle_of_cycle`: the circle that an error names is a circle;
* `FileSystem.IsCircle.exists_transGen`: a project of a circle leads back to itself.
-/

namespace ProjectAssembler

/-- Projects that reference one another in a circle: the first one is repeated at the end, and no
other one is. -/
structure FileSystem.IsCircle (system : FileSystem) (projects : List Path) : Prop where
  closed : ∃ project rest, projects = project :: rest ++ [project] ∧ (project :: rest).Nodup
  canonical : ∀ project ∈ projects, project.IsCanonical
  linked : projects.IsChain system.References

/-- A project of a circle leads back to itself. -/
theorem FileSystem.IsCircle.exists_transGen {system : FileSystem} {projects : List Path}
    (h : system.IsCircle projects) :
    ∃ project ∈ projects, Relation.TransGen system.References project project := by
  obtain ⟨project, rest, rfl, -⟩ := h.closed
  refine ⟨project, by simp, ?_⟩
  have hlinked := h.linked
  rw [List.cons_append, List.isChain_cons] at hlinked
  obtain ⟨hfirst, hrest⟩ := hlinked
  have hne : rest ++ [project] ≠ [] := by simp
  have hnext := hfirst _ (List.head?_eq_some_head hne)
  have hreaches := List.relationReflTransGen_of_exists_isChain _ hrest hne
  rw [List.getLast_append_singleton] at hreaches
  exact Relation.TransGen.head' hnext hreaches

namespace Resolver

/-- The open projects, of which the outermost comes last, reference one another in turn, and the
innermost references a project. -/
structure Leads (resolver : Resolver) (opened : List Path) (project : Path) : Prop where
  distinct : opened.Nodup
  linked : (opened.reverse ++ [project]).IsChain resolver.system.References

variable {resolver : Resolver}

/-- Without open projects nothing leads to a project. -/
theorem leads_nil (project : Path) : resolver.Leads [] project :=
  ⟨List.nodup_nil, List.isChain_singleton project⟩

/-- Once a project has been opened, the open projects lead to each of its references. -/
theorem Leads.step {opened : List Path} {project target : Path}
    (h : resolver.Leads opened project) (hfresh : project ∉ opened)
    (hreference : resolver.system.References project target) :
    resolver.Leads (project :: opened) target where
  distinct := List.nodup_cons.2 ⟨hfresh, h.distinct⟩
  linked := by
    rw [List.reverse_cons]
    refine h.linked.append (List.isChain_singleton target) ?_
    intro last hlast first hfirst
    have hlast : project = last := by simpa using hlast
    have hfirst : target = first := by simpa using hfirst
    rwa [← hlast, ← hfirst]

/-- Open canonical projects that lead to one of them contain a circle. -/
theorem Leads.isCircle {opened : List Path} {project : Path} (h : resolver.Leads opened project)
    (hopened : ∀ other ∈ opened, other.IsCanonical) (hproject : project.IsCanonical)
    (hmem : project ∈ opened) : resolver.system.IsCircle (cycleAt opened project) := by
  have hsuffix := List.dropWhile_suffix (l := opened.reverse) (fun other => !other.same project)
  have hne : opened.reverse.dropWhile (fun other => !other.same project) ≠ [] := by
    intro hnil
    have hdropped := List.dropWhile_eq_nil_iff.1 hnil project (List.mem_reverse.2 hmem)
    simp at hdropped
  have hhead := List.head_dropWhile_not (fun other : Path => !other.same project) hne
  unfold cycleAt
  cases hcycle : opened.reverse.dropWhile (fun other => !other.same project) with
  | nil => exact absurd hcycle hne
  | cons first rest =>
      rw [hcycle] at hsuffix
      have hcanonical : ∀ other ∈ first :: rest, other.IsCanonical := fun other hother =>
        hopened other (List.mem_reverse.1 (hsuffix.subset hother))
      have hsame : first.same project = true := by
        simpa [hcycle] using hhead
      have hfirst : first = project :=
        ((hcanonical first List.mem_cons_self).same_iff hproject).1 hsame
      subst hfirst
      refine ⟨⟨first, rest, rfl, ?_⟩, ?_, ?_⟩
      · exact hsuffix.sublist.nodup (List.nodup_reverse.2 h.distinct)
      · intro other hother
        rcases List.mem_append.1 hother with hother | hother
        · exact hcanonical other hother
        · rw [List.mem_singleton.1 hother]
          exact hproject
      · obtain ⟨before, hbefore⟩ := hsuffix
        have hlinked := h.linked
        rw [← hbefore, List.append_assoc] at hlinked
        exact hlinked.right_of_append

/-- The circle that an error names is a circle of declared references. -/
theorem isCircle_of_cycle (hnamed : resolver.system.WellNamed) {opened : List Path}
    (hopened : ∀ other ∈ opened, other.IsCanonical) {path : Path} {state : ResolutionState}
    (hstate : state.WellFormed)
    (hleads : ∀ project, resolver.system.canonical path = .ok project →
      resolver.Leads opened project)
    {projects : List Path}
    (h : (resolver.resolveProject opened path state).1 = .error (.cycle projects)) :
    resolver.system.IsCircle projects := by
  refine ((traversal_induction hnamed
    (fun opened path _ outcome =>
      (∀ project, resolver.system.canonical path = .ok project → resolver.Leads opened project) →
      ∀ projects, outcome.1 = .error (.cycle projects) → resolver.system.IsCircle projects)
    (fun opened _ references _ outcome =>
      (∀ reference ∈ references, ∀ target, resolver.system.canonical reference = .ok target →
        resolver.Leads opened target) →
      ∀ projects, outcome.1 = .error (.cycle projects) → resolver.system.IsCircle projects)
    ?_ ?_ ?_ ?_ ?_ ?_ ?_ ?_ ?_ ?_).1 opened path state hopened hstate).2.2 hleads projects h
  · intro _ _ _ _ _ _ herror
    simp at herror
  · intro _ _ _ _ _ _ _ herror
    simp at herror
  · intro opened path _ project hpath hspelled hopened hmem hleads projects herror
    simp only [Except.error.injEq, ResolveError.cycle.injEq] at herror
    rw [← herror]
    exact (hleads project hpath).isCircle hopened hspelled hmem
  · intro _ _ _ _ _ _ _ _ _ herror
    simp at herror
  · intro _ _ _ _ _ _ _ _ _ herror
    simp at herror
  · intro _ _ _ _ _ _ _ _ _ _ _ herror
    simp at herror
  · intro opened path state project descriptor sources result after hasked hload hsources hgrows
      hreferences hleads projects herror
    cases result with
    | ok => simp [Except.map] at herror
    | error error =>
        apply hreferences _ projects (by simpa [Except.map] using herror)
        intro reference hreference target htarget
        exact (hleads project hasked.canonical).step hasked.not_opened
          ⟨descriptor, reference, hload, hreference, htarget⟩
  · intro _ _ _ _ _ herror
    simp at herror
  · intro opened project reference rest state error after hproject hleads projects herror
    exact hproject (hleads reference List.mem_cons_self) projects (by simpa using herror)
  · intro opened project reference rest state target after outcome hspelled hafter hgrows hproject
      hrest hleads projects herror
    exact hrest (fun other hother => hleads other (List.mem_cons_of_mem _ hother)) projects herror

end Resolver
end ProjectAssembler
