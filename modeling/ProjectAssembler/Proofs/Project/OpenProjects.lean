import ProjectAssembler.Proofs.Project.Closure
import ProjectAssembler.Proofs.Project.Sessions

/-!
# The open projects of a context

Calls that are made on one context share the projects that are open, as they share what has been
collected.  A project is put on top of the open ones before its descriptor is resolved and is taken
off again whatever the outcome, so every call finds the open projects as the call before has found
them.  A project that stayed open by mistake would later be taken for the beginning of a circle.

Resolving on a context is written here as it proceeds, without a reason why it comes to an end: it
is given fuel, one unit for each call inside of another, and has no outcome when that runs out.  A
call comes to an end when it has the same outcome with any amount of fuel that is large enough.

Main definitions:

* `Ends`: whether a computation with fuel comes to an end with an outcome;
* `ResolutionContext`: what has been collected, with the projects that are open;
* `Resolver.resolveIn`: resolving a project on a context;
* `ResolutionState.Recorded`: the graph holds visited projects only;
* `ResolveCall.contextAfter`: the context after a history of calls.

Main results:

* `Resolver.resolveIn_eq`: a call on a context comes to an end, its outcome is that of
  `Resolver.resolveProject`, and the open projects are afterwards what they were before;
* `Resolver.recorded_resolveProject`: a project is visited before it gets into the graph;
* `ResolveCall.outcome_on_context`: what every call of a sequence keeps, and that the circles which
  it reports are circles.
-/

namespace ProjectAssembler

/-- Whether a computation that is given fuel comes to an end with an outcome: it has the outcome
with any amount of fuel that is large enough. -/
def Ends {α : Type} (run : Nat → Option α) (outcome : α) : Prop :=
  ∃ enough, ∀ fuel, enough < fuel → run fuel = some outcome

namespace Ends

variable {α β : Type} {run : Nat → Option α} {outcome : α}

theorem of_eq (h : ∀ fuel, run fuel = some outcome) : Ends run outcome :=
  ⟨0, fun fuel _ => h fuel⟩

/-- The first unit of fuel may be taken off. -/
theorem of_succ (h : Ends (fun fuel => run (fuel + 1)) outcome) : Ends run outcome := by
  obtain ⟨enough, h⟩ := h
  refine ⟨enough + 1, fun fuel hfuel => ?_⟩
  obtain ⟨fuel, rfl⟩ := Nat.exists_eq_succ_of_ne_zero (Nat.ne_zero_of_lt hfuel)
  exact h fuel (Nat.lt_of_succ_lt_succ hfuel)

/-- Computations one after the other share the fuel. -/
theorem bind {next : α → Nat → Option β} {last : β} (h : Ends run outcome)
    (hnext : Ends (next outcome) last) :
    Ends (fun fuel => (run fuel).bind fun first => next first fuel) last := by
  obtain ⟨enough, h⟩ := h
  obtain ⟨more, hnext⟩ := hnext
  refine ⟨max enough more, fun fuel hfuel => ?_⟩
  obtain ⟨hfirst, hlast⟩ := Nat.max_lt.1 hfuel
  change (run fuel).bind _ = _
  rw [h fuel hfirst, Option.bind_some, hnext fuel hlast]

theorem unique {other : α} (h : Ends run outcome) (hother : Ends run other) : outcome = other := by
  obtain ⟨enough, h⟩ := h
  obtain ⟨more, hother⟩ := hother
  have hfuel := Nat.lt_succ_self (max enough more)
  obtain ⟨hfirst, hsecond⟩ := Nat.max_lt.1 hfuel
  exact Option.some.inj ((h _ hfirst).symm.trans (hother _ hsecond))

end Ends

/-- A resolution under way with the projects that are open, innermost first. -/
structure ResolutionContext where
  state : ResolutionState
  opened : List Path

namespace ResolutionContext

/-- The context before any call. -/
def empty : ResolutionContext :=
  ⟨.empty, []⟩

/-- Change what has been collected. -/
def update (context : ResolutionContext) (change : ResolutionState → ResolutionState) :
    ResolutionContext :=
  { context with state := change context.state }

/-- Open a project. -/
def push (context : ResolutionContext) (project : Path) : ResolutionContext :=
  { context with opened := project :: context.opened }

/-- Close the project that was opened last. -/
def pop (context : ResolutionContext) : ResolutionContext :=
  { context with opened := context.opened.tail }

end ResolutionContext

namespace Resolver

mutual

/-- Resolve the project at a path on a context. -/
def resolveIn (resolver : Resolver) (path : Path) (context : ResolutionContext) :
    (fuel : Nat) → Option (Except ResolveError Path × ResolutionContext)
  | 0 => none
  | fuel + 1 =>
      if resolver.cancelled then some (.error .cancelled, context)
      else
        match resolver.system.canonical path with
        | .error cause => some (.error (.descriptor (.read path cause)), context)
        | .ok project =>
            if FileSystem.isOpened context.opened project then
              some (.error (.cycle (cycleAt context.opened project)), context)
            else if context.state.isVisited project then some (.ok project, context)
            else
              let visited := context.update (·.visit project)
              match resolver.system.loadDescriptor project with
              | .error error => some (.error (.descriptor error), visited)
              | .ok descriptor => do
                  let added := visited.update (·.addProject project)
                  let (result, after) ←
                    resolveDescriptorIn resolver project descriptor (added.push project) fuel
                  some (result.map fun _ => project, after.pop)

/-- Take over what a project contributes by itself and resolve its references. -/
def resolveDescriptorIn (resolver : Resolver) (project : Path) (descriptor : Descriptor)
    (context : ResolutionContext) :
    (fuel : Nat) → Option (Except ResolveError Unit × ResolutionContext)
  | 0 => none
  | fuel + 1 =>
      match descriptor.sources resolver.system with
      | .error error => some (.error (.sources error), context)
      | .ok sources =>
          let libraries := descriptor.libraries resolver.system resolver.platform
          resolveReferencesIn resolver project descriptor.projectReferences
            (context.update (·.contribute resolver.system sources libraries)) fuel

/-- Resolve references of a project one after the other, up to the first error. -/
def resolveReferencesIn (resolver : Resolver) (project : Path) (references : List Path)
    (context : ResolutionContext) :
    (fuel : Nat) → Option (Except ResolveError Unit × ResolutionContext)
  | 0 => none
  | fuel + 1 =>
      match references with
      | [] => some (.ok (), context)
      | reference :: rest => do
          match ← resolveIn resolver reference context fuel with
          | (.error error, after) => some (.error error, after)
          | (.ok target, after) =>
              resolveReferencesIn resolver project rest
                (after.update (·.addReference project target)) fuel

end

variable {resolver : Resolver}

/-! ## The open projects are left as they were -/

/-- The descriptor of a project is resolved when its references are, on a context in which the
project is open. -/
theorem resolveIn_of_descriptor {path project : Path} {opened : List Path}
    {state : ResolutionState} {descriptor : Descriptor} {sources : List Path}
    {result : Except ResolveError Unit} {after : ResolutionState}
    (hactive : ¬ resolver.cancelled = true)
    (hpath : resolver.system.canonical path = .ok project)
    (hclosed : ¬ FileSystem.isOpened opened project = true)
    (hfresh : ¬ state.isVisited project = true)
    (hload : resolver.system.loadDescriptor project = .ok descriptor)
    (hsources : descriptor.sources resolver.system = .ok sources)
    (hreferences : Ends (resolver.resolveReferencesIn project descriptor.projectReferences
      ⟨state.enter resolver.system project sources
        (descriptor.libraries resolver.system resolver.platform), project :: opened⟩)
      (result, ⟨after, project :: opened⟩)) :
    Ends (resolver.resolveIn path ⟨state, opened⟩)
      (result.map fun _ => project, ⟨after, opened⟩) := by
  have hdescriptor : Ends (resolver.resolveDescriptorIn project descriptor
      ⟨(state.visit project).addProject project, project :: opened⟩)
      (result, ⟨after, project :: opened⟩) := by
    refine .of_succ ?_
    simp only [resolveDescriptorIn, hsources]
    exact hreferences
  refine .of_succ ?_
  simp only [resolveIn, if_neg hactive, hpath, if_neg hclosed, if_neg hfresh, hload]
  exact hdescriptor.bind (.of_eq fun _ => rfl)

/-- A call on a context comes to an end.  Its outcome is that of a call while the same projects are
open, and it leaves the open projects as it found them. -/
theorem resolveIn_eq (path : Path) (context : ResolutionContext) :
    Ends (resolver.resolveIn path context)
      ((resolver.resolveProject context.opened path context.state).1,
        ⟨(resolver.resolveProject context.opened path context.state).2, context.opened⟩) := by
  refine (resolveProject.mutual_induct_unfolding resolver
    (fun opened path state outcome => Ends (resolver.resolveIn path ⟨state, opened⟩)
      (outcome.1, ⟨outcome.2, opened⟩))
    (fun opened project references state outcome =>
      Ends (resolver.resolveReferencesIn project references ⟨state, opened⟩)
        (outcome.1, ⟨outcome.2, opened⟩))
    ?_ ?_ ?_ ?_ ?_ ?_ ?_ ?_ ?_ ?_ ?_).1 context.opened path context.state
  · intro opened path state hcancelled
    refine .of_succ (.of_eq fun fuel => ?_)
    rw [resolveIn, if_pos hcancelled]
  · intro opened path state hactive cause hpath
    refine .of_succ (.of_eq fun fuel => ?_)
    rw [resolveIn, if_neg hactive, hpath]
  · intro opened path state hactive project hpath hopened
    refine .of_succ (.of_eq fun fuel => ?_)
    rw [resolveIn, if_neg hactive, hpath]
    simp only [if_pos hopened]
  · intro opened path state hactive project hpath hclosed hvisited
    refine .of_succ (.of_eq fun fuel => ?_)
    rw [resolveIn, if_neg hactive, hpath]
    simp only [if_neg hclosed, if_pos hvisited]
  · intro opened path state hactive project hpath hclosed hfresh visited error hload
    refine .of_succ (.of_eq fun fuel => ?_)
    rw [resolveIn, if_neg hactive, hpath]
    simp only [if_neg hclosed, if_neg hfresh, hload]
    rfl
  · intro opened path state hactive project hpath hclosed hfresh visited descriptor hload added
      error hsources
    have hdescriptor : Ends (resolver.resolveDescriptorIn project descriptor
        ⟨(state.visit project).addProject project, project :: opened⟩)
        (.error (.sources error), ⟨(state.visit project).addProject project, project :: opened⟩) := by
      refine .of_succ (.of_eq fun fuel => ?_)
      rw [resolveDescriptorIn, hsources]
    refine .of_succ ?_
    simp only [resolveIn, if_neg hactive, hpath, if_neg hclosed, if_neg hfresh, hload]
    exact hdescriptor.bind (.of_eq fun _ => rfl)
  · intro opened path state hactive project hpath hclosed hfresh visited descriptor hload added
      sources hsources libraries inside error after hrun ih
    rw [hrun] at ih
    exact resolveIn_of_descriptor hactive hpath hclosed hfresh hload hsources ih
  · intro opened path state hactive project hpath hclosed hfresh visited descriptor hload added
      sources hsources libraries inside after hrun ih
    rw [hrun] at ih
    exact resolveIn_of_descriptor hactive hpath hclosed hfresh hload hsources ih
  · intro opened project state
    refine .of_succ (.of_eq fun fuel => ?_)
    rw [resolveReferencesIn]
  · intro opened project state reference rest error after hrun ih
    rw [hrun] at ih
    refine .of_succ ?_
    simp only [resolveReferencesIn]
    exact ih.bind (.of_eq fun _ => rfl)
  · intro opened project state reference rest target after hrun ih ihRest
    rw [hrun] at ih
    refine .of_succ ?_
    simp only [resolveReferencesIn]
    exact ih.bind ihRest

end Resolver

/-! ## Projects are visited before they get into the graph -/

/-- The graph holds visited projects only. -/
def ResolutionState.Recorded (state : ResolutionState) : Prop :=
  ∀ project ∈ state.graph.projects, project ∈ state.visited

namespace ResolutionState

theorem recorded_empty : empty.Recorded :=
  fun _ hproject => absurd hproject List.not_mem_nil

theorem Recorded.visit {state : ResolutionState} (h : state.Recorded) (project : Path) :
    (state.visit project).Recorded :=
  fun other hother => List.mem_cons_of_mem project (h other hother)

theorem Recorded.addProject {state : ResolutionState} (h : state.Recorded) {project : Path}
    (hproject : project ∈ state.visited) : (state.addProject project).Recorded := by
  intro other hother
  rcases ProjectGraph.mem_projects_addProject hother with hother | rfl
  · exact h other hother
  · exact hproject

theorem Recorded.addReference {state : ResolutionState} (h : state.Recorded) {source target : Path}
    (hsource : source ∈ state.visited) (htarget : target ∈ state.visited) :
    (state.addReference source target).Recorded := by
  intro other hother
  rcases ProjectGraph.mem_projects_addReference hother with hother | rfl | rfl
  · exact h other hother
  · exact hsource
  · exact htarget

end ResolutionState

namespace Resolver

variable {resolver : Resolver}

/-- Whatever the outcome, a call puts only visited projects into the graph, and it answers with a
visited project. -/
theorem recorded_resolveProject (hnamed : resolver.system.WellNamed) {opened : List Path}
    (hopened : ∀ other ∈ opened, other.IsCanonical) (path : Path) {state : ResolutionState}
    (hstate : state.WellFormed) (h : state.Recorded) :
    (resolver.resolveProject opened path state).2.Recorded := by
  refine (((traversal_induction hnamed
    (fun _ _ state outcome => (∀ other ∈ state.visited, other ∈ outcome.2.visited) ∧
      (∀ target, outcome.1 = .ok target → target ∈ outcome.2.visited) ∧
      (state.Recorded → outcome.2.Recorded))
    (fun _ project _ state outcome => (∀ other ∈ state.visited, other ∈ outcome.2.visited) ∧
      (project ∈ state.visited → state.Recorded → outcome.2.Recorded))
    ?_ ?_ ?_ ?_ ?_ ?_ ?_ ?_ ?_ ?_).1 opened path state hopened hstate).2.2).2.2 h
  · intro _ _ _ _
    exact ⟨fun _ => id, by simp, id⟩
  · intro _ _ _ _ _
    exact ⟨fun _ => id, by simp, id⟩
  · intro _ _ _ _ _ _ _ _
    exact ⟨fun _ => id, by simp, id⟩
  · intro _ _ _ project _ _ hvisited
    refine ⟨fun _ => id, ?_, id⟩
    intro target hok
    rwa [← Except.ok.inj hok]
  · intro _ _ _ project _ _ _
    exact ⟨fun _ => List.mem_cons_of_mem project, by simp, fun hrecorded => hrecorded.visit project⟩
  · intro _ _ _ project _ _ _ _ _
    exact ⟨fun _ => List.mem_cons_of_mem project, by simp,
      fun hrecorded => (hrecorded.visit project).addProject List.mem_cons_self⟩
  · intro _ _ _ project _ _ result after _ _ _ _ hreferences
    obtain ⟨hkept, hrecorded⟩ := hreferences
    refine ⟨fun other hother => hkept other (List.mem_cons_of_mem project hother), ?_, ?_⟩
    · intro target hok
      cases result with
      | error error => simp [Except.map] at hok
      | ok =>
          rw [← Except.ok.inj hok]
          exact hkept project List.mem_cons_self
    · intro hbefore
      exact hrecorded List.mem_cons_self ((hbefore.visit project).addProject List.mem_cons_self)
  · intro _ _ _
    exact ⟨fun _ => id, fun _ => id⟩
  · intro _ _ _ _ _ _ _ hstopped
    exact ⟨hstopped.1, fun _ => hstopped.2.2⟩
  · intro _ project _ _ _ target _ _ _ _ _ hcontinued hrest
    obtain ⟨hkept, hanswer, hrecorded⟩ := hcontinued
    refine ⟨fun other hother => hrest.1 other (hkept other hother), ?_⟩
    intro hproject hbefore
    have hmem := hkept project hproject
    exact hrest.2 hmem ((hrecorded hbefore).addReference hmem (hanswer target rfl))

end Resolver

/-! ## Sequences of calls -/

namespace ResolveCall

/-- The context after calls, of which the latest comes first. -/
def contextAfter : (history : List ResolveCall) → (fuel : Nat) → Option ResolutionContext
  | [], _ => some .empty
  | call :: earlier, fuel => do
      let context ← contextAfter earlier fuel
      let (_, after) ← call.resolver.resolveIn call.path context fuel
      some after

/-- After any history no project is open, and the collected state is that after the history. -/
theorem contextAfter_eq (history : List ResolveCall) :
    Ends (contextAfter history) ⟨stateAfter history, []⟩ := by
  induction history with
  | nil => exact .of_eq fun _ => rfl
  | cons call earlier ih =>
      have hcall := call.resolver.resolveIn_eq call.path ⟨stateAfter earlier, []⟩
      exact ih.bind (hcall.bind (.of_eq fun _ => rfl))

/-- After any history the graph holds visited projects only. -/
theorem recorded_stateAfter {history : List ResolveCall}
    (hnamed : ∀ call ∈ history, call.resolver.system.WellNamed) :
    (stateAfter history).Recorded := by
  induction history with
  | nil => exact ResolutionState.recorded_empty
  | cons call earlier ih =>
      obtain ⟨hcall, hearlier⟩ := List.forall_mem_cons.1 hnamed
      exact Resolver.recorded_resolveProject hcall (List.forall_mem_nil _) call.path
        (wellFormed_stateAfter hearlier) (ih hearlier)

/-- Every call on a context comes to an end and leaves the open projects exactly as it found them.
After any history of calls, whatever their outcomes and whatever has changed in between, a further
call only adds to what has been collected, keeps every project of the graph among the visited ones,
and reports nothing as a circle of references that is none. -/
theorem outcome_on_context :
    (∀ (resolver : Resolver) (path : Path) (context : ResolutionContext), ∃ answer after,
      Ends (resolver.resolveIn path context) (answer, after) ∧
        after.opened = context.opened) ∧
    ∀ (history : List ResolveCall) (call : ResolveCall),
      (∀ other ∈ call :: history, other.resolver.system.WellNamed) →
      ∃ context answer after, Ends (contextAfter history) context ∧
        Ends (call.resolver.resolveIn call.path context) (answer, after) ∧
        context.state.Grows after.state ∧
        after.state.graph.roots = context.state.graph.roots ∧
        (∀ project ∈ after.state.graph.projects, project ∈ after.state.visited) ∧
        ∀ projects, answer = .error (.cycle projects) → call.resolver.system.IsCircle projects := by
  refine ⟨fun resolver path context => ⟨_, _, resolver.resolveIn_eq path context, rfl⟩, ?_⟩
  intro history call hnamed
  obtain ⟨hcall, hhistory⟩ := List.forall_mem_cons.1 hnamed
  have hstate := wellFormed_stateAfter hhistory
  obtain ⟨-, hgrows⟩ :=
    Resolver.grows_resolveProject hcall (List.forall_mem_nil _) call.path hstate
  refine ⟨_, _, _, contextAfter_eq history, call.resolver.resolveIn_eq call.path _, hgrows, ?_,
    ?_, ?_⟩
  · exact Resolver.roots_resolveProject hcall (List.forall_mem_nil _) call.path hstate
  · exact Resolver.recorded_resolveProject hcall (List.forall_mem_nil _) call.path hstate
      (recorded_stateAfter hhistory)
  · intro projects hcycle
    exact Resolver.isCircle_of_cycle hcall (List.forall_mem_nil _) hstate
      (fun project _ => Resolver.leads_nil project) hcycle

/-! ## A circle after a broken descriptor -/

/-- The text of a descriptor that references one project. -/
def linkText (target : String) : String :=
  "<Project ToolsVersion=\"4\"><ProjectReference Include=\"" ++ target ++ "\"/></Project>"

/-- A call for one of two libraries that reference each other. -/
def ringCall : ResolveCall :=
  ⟨⟨.flat [("lib", linkText "util"), ("util", linkText "lib")], ⟨⟨"/packages"⟩, none⟩, false⟩,
    ⟨"/lib"⟩⟩

theorem loadDescriptor_ring_lib : ringCall.resolver.system.loadDescriptor ⟨"/lib"⟩ =
    .ok (FileSystem.plainDescriptor ⟨"/lib"⟩ [⟨"/util"⟩]) :=
  (FileSystem.loadDescriptor_flat "lib" rfl (by decide) (by decide) (by decide)).trans
    (by decide +kernel)

theorem loadDescriptor_ring_util : ringCall.resolver.system.loadDescriptor ⟨"/util"⟩ =
    .ok (FileSystem.plainDescriptor ⟨"/util"⟩ [⟨"/lib"⟩]) :=
  (FileSystem.loadDescriptor_flat "util" rfl (by decide) (by decide) (by decide)).trans
    (by decide +kernel)

theorem canonical_ring_lib : ringCall.resolver.system.canonical ⟨"/lib"⟩ = .ok ⟨"/lib"⟩ :=
  FileSystem.canonical_flat "lib" rfl (by decide) (by decide) (by decide)

theorem canonical_ring_util : ringCall.resolver.system.canonical ⟨"/util"⟩ = .ok ⟨"/util"⟩ :=
  FileSystem.canonical_flat "util" rfl (by decide) (by decide) (by decide)

/-- A project whose only reference cannot be resolved cannot be resolved either. -/
theorem resolveIn_of_link {resolver : Resolver} {project reference : Path} {opened : List Path}
    {state : ResolutionState} {error : ResolveError} (hactive : resolver.cancelled = false)
    (hpath : resolver.system.canonical project = .ok project)
    (hclosed : FileSystem.isOpened opened project = false)
    (hfresh : state.isVisited project = false)
    (hload : resolver.system.loadDescriptor project =
      .ok (FileSystem.plainDescriptor project [reference]))
    (hreference : ∀ inside : ResolutionState, inside.visited = project :: state.visited →
      ∃ after, Ends (resolver.resolveIn reference ⟨inside, project :: opened⟩)
        (.error error, ⟨after, project :: opened⟩)) :
    ∃ after, Ends (resolver.resolveIn project ⟨state, opened⟩)
      (.error error, ⟨after, opened⟩) := by
  obtain ⟨after, hafter⟩ := hreference (state.enter resolver.system project []
    ((FileSystem.plainDescriptor project [reference]).libraries resolver.system resolver.platform))
    rfl
  have hreferences : Ends (resolver.resolveReferencesIn project [reference]
      ⟨state.enter resolver.system project []
        ((FileSystem.plainDescriptor project [reference]).libraries resolver.system
          resolver.platform), project :: opened⟩)
      (.error error, ⟨after, project :: opened⟩) := by
    refine .of_succ ?_
    simp only [Resolver.resolveReferencesIn]
    exact hafter.bind (.of_eq fun _ => rfl)
  have hrun := Resolver.resolveIn_of_descriptor (Bool.eq_false_iff.1 hactive) hpath
    (Bool.eq_false_iff.1 hclosed) (Bool.eq_false_iff.1 hfresh) hload
    (FileSystem.sources_plainDescriptor _ _ _) hreferences
  exact ⟨after, hrun⟩

/-- The two libraries form a circle. -/
theorem resolveIn_ringCall {state : ResolutionState} (hlib : state.isVisited ⟨"/lib"⟩ = false)
    (hutil : state.isVisited ⟨"/util"⟩ = false) :
    ∃ after, Ends (ringCall.resolver.resolveIn ⟨"/lib"⟩ ⟨state, []⟩)
      (.error (.cycle [⟨"/lib"⟩, ⟨"/util"⟩, ⟨"/lib"⟩]), ⟨after, []⟩) := by
  refine resolveIn_of_link rfl canonical_ring_lib rfl hlib loadDescriptor_ring_lib ?_
  intro inside hinside
  refine resolveIn_of_link rfl canonical_ring_util (by decide) ?_ loadDescriptor_ring_util ?_
  · rw [ResolutionState.isVisited, hinside, List.any_cons, Bool.or_eq_false_iff]
    exact ⟨by decide, hutil⟩
  · intro innermost _
    refine ⟨innermost, .of_succ (.of_eq fun fuel => ?_)⟩
    have hopened : FileSystem.isOpened [⟨"/util"⟩, ⟨"/lib"⟩] ⟨"/lib"⟩ = true := by decide
    have hcycle : Resolver.cycleAt [⟨"/util"⟩, ⟨"/lib"⟩] ⟨"/lib"⟩ =
        [⟨"/lib"⟩, ⟨"/util"⟩, ⟨"/lib"⟩] := by decide
    rw [Resolver.resolveIn, if_neg (by decide), canonical_ring_lib]
    simp only [hopened, if_true, hcycle]

/-- After a call that has found a malformed descriptor, a call for libraries that reference each
other reports their circle. -/
theorem circle_after_brokenCall :
    (∀ other ∈ [ringCall, brokenCall], other.resolver.system.WellNamed) ∧
      ringCall.resolver.system.IsCircle [⟨"/lib"⟩, ⟨"/util"⟩, ⟨"/lib"⟩] ∧
      ∃ context answer after, Ends (contextAfter [brokenCall]) context ∧
        Ends (ringCall.resolver.resolveIn ⟨"/lib"⟩ context) (answer, after) ∧
        answer = .error (.cycle [⟨"/lib"⟩, ⟨"/util"⟩, ⟨"/lib"⟩]) ∧
        after.opened = context.opened ∧ context.state.Grows after.state ∧
        ∀ project ∈ after.state.graph.projects, project ∈ after.state.visited := by
  have hnamed : ∀ other ∈ [ringCall, brokenCall], other.resolver.system.WellNamed := by
    simp [ringCall, brokenCall, FileSystem.wellNamed_flat]
  obtain ⟨-, hcalls⟩ := outcome_on_context
  obtain ⟨context, answer, after, hcontext, hcall, hgrows, -, hrecorded, hcircle⟩ :=
    hcalls [brokenCall] ringCall hnamed
  obtain ⟨error, hbroken⟩ := run_brokenCall
  have hstate : stateAfter [brokenCall] = ResolutionState.empty.visit ⟨"/app"⟩ :=
    congrArg Prod.snd hbroken
  have hlib : (stateAfter [brokenCall]).isVisited ⟨"/lib"⟩ = false := by
    rw [hstate]
    decide
  have hutil : (stateAfter [brokenCall]).isVisited ⟨"/util"⟩ = false := by
    rw [hstate]
    decide
  obtain ⟨found, hfound⟩ := resolveIn_ringCall hlib hutil
  obtain rfl : ⟨stateAfter [brokenCall], []⟩ = context := (contextAfter_eq _).unique hcontext
  obtain ⟨hanswer, hafter⟩ := Prod.mk.inj (hcall.unique hfound)
  exact ⟨hnamed, hcircle _ hanswer, _, answer, after, hcontext, hcall, hanswer, by rw [hafter],
    hgrows, hrecorded⟩

end ResolveCall
end ProjectAssembler
