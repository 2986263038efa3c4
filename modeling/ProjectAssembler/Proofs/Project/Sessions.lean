import ProjectAssembler.Proofs.Project.Acyclicity
import ProjectAssembler.Proofs.Project.Interruption

/-!
# Several calls on one state

A state outlives the call that it was made for: projects may be resolved into it one after the
other, whether or not the calls before have succeeded, and files may change in between.  A call that
succeeds resolves all that it visits.  A call that fails leaves the projects visited that it was
still resolving, and a later call takes them for resolved.

Main definitions:

* `ResolveCall.stateAfter`: the state after a history of calls;
* `ResolveCall.Visits`: the call of a history that visits a project;
* `ResolveCall.Resolved`: a project has been resolved into the state after a history;
* `ResolveCall.LeftBehind`: a project was visited by a call that failed and had not settled it.

Main results:

* `ResolveCall.resolved_of_visited`: what has been visited and was not left behind is resolved;
* `ResolveCall.leftBehind_of_failed`: a failed call leaves its project behind;
* `ResolveCall.LeftBehind.not_resolved`: what was left behind is never resolved;
* `ResolveCall.resolved_iff_not_leftBehind`: after a call that succeeds all that is reached has been
  resolved exactly when nothing of it was left behind, and what a failed call has left behind is
  answered without contributing anything.
-/

namespace ProjectAssembler

/-- A call to resolve the project at a path, with the surroundings in which it is made. -/
structure ResolveCall where
  resolver : Resolver
  path : Path

namespace ResolveCall

/-- The answer of a call that is made in a state, with the state afterwards. -/
def run (call : ResolveCall) (state : ResolutionState) :
    Except ResolveError Path × ResolutionState :=
  call.resolver.resolveProject [] call.path state

/-- The state after calls, of which the latest comes first. -/
def stateAfter : List ResolveCall → ResolutionState
  | [] => .empty
  | call :: earlier => (call.run (stateAfter earlier)).2

/-- The call of a history that visits a project, with the calls before it. -/
structure Visits (history : List ResolveCall) (call : ResolveCall) (earlier : List ResolveCall)
    (project : Path) : Prop where
  made : call :: earlier <:+ history
  fresh : project ∉ (stateAfter earlier).visited
  visited : project ∈ (stateAfter (call :: earlier)).visited

/-- What a project's descriptor says is what it said before, and its references lead where they
led. -/
structure Unchanged (before now : Resolver) (project : Path) : Prop where
  descriptor : now.system.loadDescriptor project = before.system.loadDescriptor project
  references : ∀ descriptor, before.system.loadDescriptor project = .ok descriptor →
    ∀ reference ∈ descriptor.projectReferences,
      now.system.canonical reference = before.system.canonical reference

/-- A project has been resolved into the state after a history: the call that visited it has merged
its own sources and libraries and followed its references, and its descriptor still says the
same. -/
def Resolved (history : List ResolveCall) (now : Resolver) (project : Path) : Prop :=
  ∃ call earlier, Visits history call earlier project ∧
    call.resolver.Settled (stateAfter history) project ∧ Unchanged call.resolver now project

/-- A project was visited by a call that failed, and it was not settled when the call ended or its
descriptor says something else since. -/
def LeftBehind (history : List ResolveCall) (now : Resolver) (project : Path) : Prop :=
  ∃ call earlier error, Visits history call earlier project ∧
    (call.run (stateAfter earlier)).1 = .error error ∧
    ¬ (call.resolver.Settled (stateAfter (call :: earlier)) project ∧
      Unchanged call.resolver now project)

/-! ## Histories -/

/-- The state after any history is in good order. -/
theorem wellFormed_stateAfter {history : List ResolveCall}
    (hnamed : ∀ call ∈ history, call.resolver.system.WellNamed) :
    (stateAfter history).WellFormed := by
  induction history with
  | nil => exact ResolutionState.wellFormed_empty
  | cons call earlier ih =>
      obtain ⟨hcall, hearlier⟩ := List.forall_mem_cons.1 hnamed
      exact (Resolver.grows_resolveProject hcall (List.forall_mem_nil _) call.path
        (ih hearlier)).1

/-- Later calls lose nothing. -/
theorem grows_stateAfter {history earlier : List ResolveCall}
    (hnamed : ∀ call ∈ history, call.resolver.system.WellNamed) (h : earlier <:+ history) :
    (stateAfter earlier).Grows (stateAfter history) := by
  induction history with
  | nil =>
      rw [List.suffix_nil.1 h]
      exact .refl _
  | cons call rest ih =>
      obtain ⟨hcall, hrest⟩ := List.forall_mem_cons.1 hnamed
      rcases List.suffix_cons_iff.1 h with rfl | h
      · exact .refl _
      · exact (ih hrest h).trans (Resolver.grows_resolveProject hcall (List.forall_mem_nil _)
          call.path (wellFormed_stateAfter hrest)).2

/-- The calls up to one of a history are made where working directories are properly named. -/
theorem named_of_made {history : List ResolveCall}
    (hnamed : ∀ call ∈ history, call.resolver.system.WellNamed) {call : ResolveCall}
    {earlier : List ResolveCall} (h : call :: earlier <:+ history) :
    call.resolver.system.WellNamed ∧ ∀ other ∈ earlier, other.resolver.system.WellNamed :=
  List.forall_mem_cons.1 fun other hother => hnamed other (h.subset hother)

/-- What a call leaves after the calls before it. -/
theorem leaves_run {call : ResolveCall} {earlier : List ResolveCall}
    (hcall : call.resolver.system.WellNamed)
    (hearlier : ∀ other ∈ earlier, other.resolver.system.WellNamed) :
    call.resolver.Leaves [] call.path (stateAfter earlier) (call.run (stateAfter earlier)) :=
  Resolver.leaves_resolveProject hcall (List.forall_mem_nil _) call.path
    (wellFormed_stateAfter hearlier)

/-- A project that has been visited was visited by one of the calls. -/
theorem exists_visits {history : List ResolveCall} {project : Path}
    (h : project ∈ (stateAfter history).visited) :
    ∃ call earlier, Visits history call earlier project := by
  induction history with
  | nil => simp [stateAfter, ResolutionState.empty] at h
  | cons call earlier ih =>
      by_cases hbefore : project ∈ (stateAfter earlier).visited
      · obtain ⟨other, rest, hvisits⟩ := ih hbefore
        exact ⟨other, rest, hvisits.made.trans (List.suffix_cons call earlier), hvisits.fresh,
          hvisits.visited⟩
      · exact ⟨call, earlier, List.suffix_refl _, hbefore, h⟩

/-- Of two calls that visit a project the one is not made before the other. -/
theorem Visits.eq_of_suffix {history : List ResolveCall}
    (hnamed : ∀ call ∈ history, call.resolver.system.WellNamed) {first second : ResolveCall}
    {earlier rest : List ResolveCall} {project : Path} (h : Visits history first earlier project)
    (h' : Visits history second rest project) (hsuffix : first :: earlier <:+ second :: rest) :
    first = second ∧ earlier = rest := by
  rcases List.suffix_cons_iff.1 hsuffix with heq | hbefore
  · exact List.cons.inj heq
  · obtain ⟨-, hrest⟩ := named_of_made hnamed h'.made
    exact absurd ((grows_stateAfter hrest hbefore).visited project h.visited) h'.fresh

/-- Only one call of a history visits a project. -/
theorem Visits.unique {history : List ResolveCall}
    (hnamed : ∀ call ∈ history, call.resolver.system.WellNamed) {first second : ResolveCall}
    {earlier rest : List ResolveCall} {project : Path} (h : Visits history first earlier project)
    (h' : Visits history second rest project) : first = second ∧ earlier = rest := by
  rcases List.suffix_or_suffix_of_suffix h.made h'.made with hsuffix | hsuffix
  · exact h.eq_of_suffix hnamed h' hsuffix
  · obtain ⟨hcall, hrest⟩ := h'.eq_of_suffix hnamed h hsuffix
    exact ⟨hcall.symm, hrest.symm⟩

/-- Nothing changes without a change. -/
theorem Unchanged.refl (resolver : Resolver) (project : Path) :
    Unchanged resolver resolver project :=
  ⟨rfl, fun _ _ _ _ => rfl⟩

/-- A project whose descriptor has not changed references what it referenced before. -/
theorem Unchanged.references_of {before now : Resolver} {project target : Path}
    (h : Unchanged before now project) (hreference : now.system.References project target) :
    before.system.References project target := by
  obtain ⟨descriptor, reference, hload, hmem, htarget⟩ := hreference
  have hbefore : before.system.loadDescriptor project = .ok descriptor := by
    rw [← h.descriptor]
    exact hload
  refine ⟨descriptor, reference, hbefore, hmem, ?_⟩
  rwa [← h.references descriptor hbefore reference hmem]

/-! ## Calls that succeed -/

/-- What a successful call visits is settled, also after later calls. -/
theorem Visits.settled {history : List ResolveCall}
    (hnamed : ∀ call ∈ history, call.resolver.system.WellNamed) {call : ResolveCall}
    {earlier : List ResolveCall} {project answer : Path}
    (h : Visits history call earlier project)
    (hok : (call.run (stateAfter earlier)).1 = .ok answer) :
    call.resolver.Settled (stateAfter history) project := by
  obtain ⟨hcall, hearlier⟩ := named_of_made hnamed h.made
  obtain ⟨-, -, -, hcovers⟩ := Resolver.covers_resolveProject hcall (List.forall_mem_nil _)
    (wellFormed_stateAfter hearlier) hok
  exact (hcovers.settled project h.visited h.fresh).mono (grows_stateAfter hnamed h.made)

/-- What has been visited and was not left behind is resolved, as long as descriptors that
successful calls have resolved do not change. -/
theorem resolved_of_visited {history : List ResolveCall}
    (hnamed : ∀ call ∈ history, call.resolver.system.WellNamed) {now : Resolver} {project : Path}
    (hvisited : project ∈ (stateAfter history).visited)
    (hunchanged : ∀ call earlier answer, Visits history call earlier project →
      (call.run (stateAfter earlier)).1 = .ok answer → Unchanged call.resolver now project)
    (hkept : ¬ LeftBehind history now project) : Resolved history now project := by
  obtain ⟨call, earlier, hvisits⟩ := exists_visits hvisited
  refine ⟨call, earlier, hvisits, ?_⟩
  cases hanswer : (call.run (stateAfter earlier)).1 with
  | ok answer =>
      exact ⟨hvisits.settled hnamed hanswer, hunchanged call earlier answer hvisits hanswer⟩
  | error error =>
      by_contra hnot
      refine hkept ⟨call, earlier, error, hvisits, hanswer, ?_⟩
      rintro ⟨hsettled, hsame⟩
      exact hnot ⟨hsettled.mono (grows_stateAfter hnamed hvisits.made), hsame⟩

/-- What is reached after a successful call has been resolved if nothing of it was left behind. -/
theorem resolved_of_reaches {history : List ResolveCall} {call : ResolveCall}
    (hnamed : ∀ other ∈ call :: history, other.resolver.system.WellNamed) {project : Path}
    (hok : (call.run (stateAfter history)).1 = .ok project)
    (hunchanged : ∀ target,
      Relation.ReflTransGen call.resolver.system.References project target →
      ∀ other earlier answer, Visits history other earlier target →
        (other.run (stateAfter earlier)).1 = .ok answer →
        Unchanged other.resolver call.resolver target)
    (hkept : ∀ target, Relation.ReflTransGen call.resolver.system.References project target →
      ¬ LeftBehind (call :: history) call.resolver target)
    {target : Path}
    (hreaches : Relation.ReflTransGen call.resolver.system.References project target) :
    Resolved (call :: history) call.resolver target := by
  have hresolved : ∀ other,
      Relation.ReflTransGen call.resolver.system.References project other →
      other ∈ (stateAfter (call :: history)).visited →
      Resolved (call :: history) call.resolver other := by
    intro other hother hvisited
    refine resolved_of_visited hnamed hvisited ?_ (hkept other hother)
    intro maker earlier answer hvisits hanswer
    rcases List.suffix_cons_iff.1 hvisits.made with heq | hmade
    · rw [(List.cons.inj heq).1]
      exact .refl call.resolver other
    · exact hunchanged other hother maker earlier answer ⟨hmade, hvisits.fresh, hvisits.visited⟩
        hanswer
  obtain ⟨hcall, hhistory⟩ := List.forall_mem_cons.1 hnamed
  induction hreaches with
  | refl =>
      obtain ⟨-, -, hvisited, -⟩ := Resolver.covers_resolveProject hcall (List.forall_mem_nil _)
        (wellFormed_stateAfter hhistory) hok
      exact hresolved project .refl hvisited
  | @tail middle last hbefore hreference ih =>
      obtain ⟨maker, earlier, -, hsettled, hsame⟩ := ih
      have hfollowed := hsettled.followed (hsame.references_of hreference)
      exact hresolved last (hbefore.tail hreference) hfollowed.2

/-! ## Calls that fail -/

/-- After any history the graph records references between visited projects only. -/
theorem linked_stateAfter {history : List ResolveCall}
    (hnamed : ∀ call ∈ history, call.resolver.system.WellNamed) :
    (stateAfter history).Linked := by
  induction history with
  | nil => exact ResolutionState.linked_empty
  | cons call earlier ih =>
      obtain ⟨hcall, hearlier⟩ := List.forall_mem_cons.1 hnamed
      exact (leaves_run hcall hearlier).visiting.linked (ih hearlier)

/-- Later calls record no new references of a project that has been visited. -/
theorem refers_of_later {history earlier : List ResolveCall}
    (hnamed : ∀ call ∈ history, call.resolver.system.WellNamed) (h : earlier <:+ history)
    {source target : Path} (hvisited : source ∈ (stateAfter earlier).visited)
    (hedge : (stateAfter history).graph.Refers source target) :
    (stateAfter earlier).graph.Refers source target := by
  induction history with
  | nil =>
      rw [List.suffix_nil.1 h]
      exact hedge
  | cons call rest ih =>
      obtain ⟨hcall, hrest⟩ := List.forall_mem_cons.1 hnamed
      rcases List.suffix_cons_iff.1 h with rfl | h
      · exact hedge
      · have hbefore := (grows_stateAfter hrest h).visited source hvisited
        exact ih hrest h ((leaves_run hcall hrest).kept source hbefore target hedge)

/-- What the call that visited a project has not settled is never settled by later calls. -/
theorem Visits.settled_of_later {history : List ResolveCall}
    (hnamed : ∀ call ∈ history, call.resolver.system.WellNamed) {call : ResolveCall}
    {earlier : List ResolveCall} {project : Path} (h : Visits history call earlier project)
    (hsettled : call.resolver.Settled (stateAfter history) project) :
    call.resolver.Settled (stateAfter (call :: earlier)) project := by
  obtain ⟨hcall, hearlier⟩ := named_of_made hnamed h.made
  have hmade : ∀ other ∈ call :: earlier, other.resolver.system.WellNamed :=
    List.forall_mem_cons.2 ⟨hcall, hearlier⟩
  have hleaves := leaves_run hcall hearlier
  have hspelled := (wellFormed_stateAfter hmade).visited project h.visited
  obtain ⟨descriptor, sources, hmerged, hfollowed⟩ := hsettled
  refine ⟨descriptor, sources, hleaves.visiting.merged project h.visited h.fresh descriptor sources
    hmerged.loads hmerged.finds, ?_⟩
  intro reference hreference
  obtain ⟨target, htarget, hedge, -⟩ := hfollowed reference hreference
  have hbefore := refers_of_later hnamed h.made h.visited hedge
  have hcanonical := FileSystem.isCanonical_of_canonical hcall htarget
  exact ⟨target, htarget, hbefore,
    (linked_stateAfter hmade project target hspelled hcanonical hbefore).2⟩

/-- What was left behind is not resolved. -/
theorem LeftBehind.not_resolved {history : List ResolveCall}
    (hnamed : ∀ call ∈ history, call.resolver.system.WellNamed) {now : Resolver} {project : Path}
    (h : LeftBehind history now project) : ¬ Resolved history now project := by
  obtain ⟨call, earlier, error, hvisits, -, hnot⟩ := h
  rintro ⟨other, rest, hvisits', hsettled, hsame⟩
  obtain ⟨rfl, rfl⟩ := hvisits.unique hnamed hvisits'
  exact hnot ⟨hvisits'.settled_of_later hnamed hsettled, hsame⟩

/-- A failed call that was not called off leaves behind the project that its path leads to. -/
theorem leftBehind_of_failed {history : List ResolveCall}
    (hnamed : ∀ call ∈ history, call.resolver.system.WellNamed) {failed : ResolveCall}
    {earlier : List ResolveCall} {error : ResolveError} (hmade : failed :: earlier <:+ history)
    (hfailed : (failed.run (stateAfter earlier)).1 = .error error)
    (hactive : failed.resolver.cancelled = false) {project : Path}
    (hpath : failed.resolver.system.canonical failed.path = .ok project) (now : Resolver) :
    LeftBehind history now project := by
  obtain ⟨hcall, hearlier⟩ := named_of_made hnamed hmade
  obtain ⟨hfresh, hvisited, hunsettled⟩ :=
    (leaves_run hcall hearlier).stopped error hfailed hactive project hpath List.not_mem_nil
  refine ⟨failed, earlier, error, ⟨hmade, hfresh, hvisited⟩, hfailed, ?_⟩
  rintro ⟨hsettled, -⟩
  exact hunsettled (linked_stateAfter hearlier) hsettled

/-- A call for a project that has been visited succeeds and does nothing. -/
theorem run_of_visited {call : ResolveCall} {state : ResolutionState}
    (hnamed : call.resolver.system.WellNamed) (hstate : state.WellFormed) {project : Path}
    (hpath : call.resolver.system.canonical call.path = .ok project)
    (hactive : call.resolver.cancelled = false) (hvisited : project ∈ state.visited) :
    call.run state = (.ok project, state) := by
  have hspelled := FileSystem.isCanonical_of_canonical hnamed hpath
  have hknown : state.isVisited project = true :=
    (ResolutionState.isVisited_iff hstate hspelled).2 hvisited
  have hclosed : FileSystem.isOpened [] project = false := rfl
  unfold run Resolver.resolveProject
  simp only [hactive, Bool.false_eq_true, if_false]
  split
  · rename_i cause hmissing
    rw [hpath] at hmissing
    exact absurd hmissing (by simp)
  · rename_i found hfound
    rw [← Except.ok.inj (hpath.symm.trans hfound), hclosed, hknown]
    simp

/-- A call that was called off, or whose path means nothing, does nothing. -/
theorem run_of_idle {call : ResolveCall} (state : ResolutionState)
    (h : call.resolver.cancelled = true ∨
      ∃ cause, call.resolver.system.canonical call.path = .error cause) :
    (call.run state).2 = state := by
  unfold run
  by_cases hcancelled : call.resolver.cancelled = true
  · rw [Resolver.resolveProject_of_cancelled hcancelled]
  · rcases h with h | ⟨cause, hmissing⟩
    · exact absurd h hcancelled
    · rw [Resolver.resolveProject_of_missing (by simpa using hcancelled) hmissing]

/-- A call for an unreadable project that is met for the first time only leaves it visited. -/
theorem run_of_unreadable {call : ResolveCall} {state : ResolutionState} {project : Path}
    {error : DescriptorError} (hactive : call.resolver.cancelled = false)
    (hpath : call.resolver.system.canonical call.path = .ok project)
    (hfresh : state.isVisited project = false)
    (hload : call.resolver.system.loadDescriptor project = .error error) :
    call.run state = (.error (.descriptor error), state.visit project) := by
  have hclosed : FileSystem.isOpened [] project = false := rfl
  unfold run Resolver.resolveProject
  simp only [hactive, Bool.false_eq_true, if_false]
  split
  · rename_i cause hmissing
    rw [hpath] at hmissing
    exact absurd hmissing (by simp)
  · rename_i found hfound
    rw [← Except.ok.inj (hpath.symm.trans hfound), hclosed, hfresh, hload]
    simp

/-! ## Exactly when calls resolve what they answer -/

/-- After a call that succeeds, whatever is reached has been resolved exactly when nothing of it was
left behind by a call that failed; descriptors that successful calls have resolved must not have
changed.  A call that failed has done nothing if it was called off or if its path meant nothing;
otherwise it has left its project behind, and every later call for the same project succeeds
without contributing anything and leaves the project unresolved. -/
theorem resolved_iff_not_leftBehind {history : List ResolveCall}
    (hnamed : ∀ call ∈ history, call.resolver.system.WellNamed) :
    (∀ (call : ResolveCall) (project : Path), call.resolver.system.WellNamed →
      (call.run (stateAfter history)).1 = .ok project →
      (∀ target, Relation.ReflTransGen call.resolver.system.References project target →
        ∀ other earlier answer, Visits history other earlier target →
          (other.run (stateAfter earlier)).1 = .ok answer →
          Unchanged other.resolver call.resolver target) →
      ((∀ target, Relation.ReflTransGen call.resolver.system.References project target →
          Resolved (call :: history) call.resolver target) ↔
        ∀ target, Relation.ReflTransGen call.resolver.system.References project target →
          ¬ LeftBehind (call :: history) call.resolver target)) ∧
    ∀ (failed : ResolveCall) (earlier : List ResolveCall) (error : ResolveError),
      failed :: earlier <:+ history → (failed.run (stateAfter earlier)).1 = .error error →
      (stateAfter (failed :: earlier) = stateAfter earlier ∧
        (failed.resolver.cancelled = true ∨
          ∃ cause, failed.resolver.system.canonical failed.path = .error cause)) ∨
      ∃ project, failed.resolver.system.canonical failed.path = .ok project ∧
        ∀ call : ResolveCall, call.resolver.system.WellNamed → call.resolver.cancelled = false →
          call.resolver.system.canonical call.path = .ok project →
          call.run (stateAfter history) = (.ok project, stateAfter history) ∧
            LeftBehind (call :: history) call.resolver project ∧
            ¬ Resolved (call :: history) call.resolver project := by
  refine ⟨?_, ?_⟩
  · intro call project hcall hok hunchanged
    have hall : ∀ other ∈ call :: history, other.resolver.system.WellNamed :=
      List.forall_mem_cons.2 ⟨hcall, hnamed⟩
    constructor
    · intro hresolved target hreaches hleft
      exact hleft.not_resolved hall (hresolved target hreaches)
    · intro hkept target hreaches
      exact resolved_of_reaches hall hok hunchanged hkept hreaches
  · intro failed earlier error hmade hfailed
    by_cases hidle : failed.resolver.cancelled = true ∨
        ∃ cause, failed.resolver.system.canonical failed.path = .error cause
    · exact Or.inl ⟨run_of_idle _ hidle, hidle⟩
    · rw [not_or] at hidle
      have hactive : failed.resolver.cancelled = false := by simpa using hidle.1
      cases hpath : failed.resolver.system.canonical failed.path with
      | error cause => exact absurd ⟨cause, hpath⟩ hidle.2
      | ok project =>
          refine Or.inr ⟨project, rfl, ?_⟩
          intro call hcall hcallActive hcallPath
          have hall : ∀ other ∈ call :: history, other.resolver.system.WellNamed :=
            List.forall_mem_cons.2 ⟨hcall, hnamed⟩
          have hleft : LeftBehind (call :: history) call.resolver project :=
            leftBehind_of_failed hall (hmade.trans (List.suffix_cons call history)) hfailed hactive
              hpath call.resolver
          obtain ⟨_, _, _, hvisits, -, -⟩ :=
            leftBehind_of_failed hnamed hmade hfailed hactive hpath call.resolver
          have hvisited : project ∈ (stateAfter history).visited :=
            (grows_stateAfter hnamed hvisits.made).visited project hvisits.visited
          exact ⟨run_of_visited hcall (wellFormed_stateAfter hnamed) hcallPath hcallActive hvisited,
            hleft, hleft.not_resolved hall⟩

/-! ## Calls on small file systems -/

/-- A call for the application of a fork. -/
def forkCall : ResolveCall :=
  ⟨⟨.fork "lib" "util", ⟨⟨"/packages"⟩, none⟩, false⟩, ⟨"/app"⟩⟩

/-- A call that finds a malformed descriptor. -/
def brokenCall : ResolveCall :=
  ⟨⟨.flat [("app", "<Project")], ⟨⟨"/packages"⟩, none⟩, false⟩, ⟨"/app"⟩⟩

/-- The same call after the descriptor has been repaired. -/
def repairedCall : ResolveCall :=
  ⟨⟨.flat [("app", "<Project ToolsVersion=\"4\"/>")], ⟨⟨"/packages"⟩, none⟩, false⟩, ⟨"/app"⟩⟩

theorem canonical_brokenCall :
    brokenCall.resolver.system.canonical ⟨"/app"⟩ = .ok ⟨"/app"⟩ :=
  FileSystem.canonical_flat "app" rfl (by decide) (by decide) (by decide)

theorem canonical_repairedCall :
    repairedCall.resolver.system.canonical ⟨"/app"⟩ = .ok ⟨"/app"⟩ :=
  FileSystem.canonical_flat "app" rfl (by decide) (by decide) (by decide)

/-- The malformed descriptor cannot be read, and its project stays visited. -/
theorem run_brokenCall : ∃ error,
    brokenCall.run .empty = (.error (.descriptor error), ResolutionState.empty.visit ⟨"/app"⟩) := by
  have hload : ∃ error,
      brokenCall.resolver.system.loadDescriptor ⟨"/app"⟩ = .error error := by
    have hflat : brokenCall.resolver.system.loadDescriptor ⟨"/app"⟩ =
        Descriptor.parse ⟨"/app"⟩ "<Project" :=
      FileSystem.loadDescriptor_flat "app" rfl (by decide) (by decide) (by decide)
    rw [hflat]
    cases hparse : Descriptor.parse ⟨"/app"⟩ "<Project" with
    | error error => exact ⟨error, rfl⟩
    | ok descriptor =>
        have hnot : (Descriptor.parse ⟨"/app"⟩ "<Project").isOk = false := by decide +kernel
        rw [hparse] at hnot
        exact absurd hnot (by simp [Except.isOk, Except.toBool])
  obtain ⟨error, herror⟩ := hload
  exact ⟨error, run_of_unreadable rfl canonical_brokenCall rfl herror⟩

/-- After a call that has failed, a call on the repaired descriptor succeeds although its project is
not in the graph. -/
theorem not_resolved_repairedCall :
    (∃ error, (brokenCall.run (stateAfter [])).1 = .error error) ∧
      (repairedCall.run (stateAfter [brokenCall])).1 = .ok ⟨"/app"⟩ ∧
      ¬ (stateAfter [repairedCall, brokenCall]).graph.Has ⟨"/app"⟩ ∧
      ¬ Resolved [repairedCall, brokenCall] repairedCall.resolver ⟨"/app"⟩ := by
  obtain ⟨error, hbroken⟩ := run_brokenCall
  have hstate : stateAfter [brokenCall] = ResolutionState.empty.visit ⟨"/app"⟩ :=
    congrArg Prod.snd hbroken
  have hwellFormed : (stateAfter [brokenCall]).WellFormed :=
    wellFormed_stateAfter (by simp [brokenCall, FileSystem.wellNamed_flat])
  have hrepaired : repairedCall.run (stateAfter [brokenCall]) =
      (.ok ⟨"/app"⟩, stateAfter [brokenCall]) := by
    refine run_of_visited (FileSystem.wellNamed_flat _) hwellFormed canonical_repairedCall rfl ?_
    rw [hstate]
    exact List.mem_cons_self
  have hend : stateAfter [repairedCall, brokenCall] = ResolutionState.empty.visit ⟨"/app"⟩ :=
    (congrArg Prod.snd hrepaired).trans hstate
  have hmissing : ¬ (stateAfter [repairedCall, brokenCall]).graph.Has ⟨"/app"⟩ := by
    rw [hend]
    exact ProjectGraph.not_has_empty _
  refine ⟨⟨_, congrArg Prod.fst hbroken⟩, congrArg Prod.fst hrepaired, hmissing, ?_⟩
  rintro ⟨call, earlier, -, ⟨descriptor, sources, hmerged, -⟩, -⟩
  exact hmissing hmerged.listed

/-- The application of a fork is resolved. -/
theorem run_forkCall : (forkCall.run (stateAfter [])).1 = .ok ⟨"/app"⟩ := by
  have hnamed : forkCall.resolver.system.WellNamed := FileSystem.wellNamed_flat _
  obtain ⟨resolution, hassembled⟩ := Resolver.exists_assembleProjects hnamed rfl
    FileSystem.intact_fork Resolver.acyclic_fork
  have hroots := (Resolver.resolveRoots_of_assembleProjects hassembled).1
  unfold Resolver.resolveRoots at hroots
  unfold run
  rcases hrun : forkCall.resolver.resolveProject [] ⟨"/app"⟩ .empty with ⟨error | project, after⟩
  · simp [hrun] at hroots
  · have hok : (forkCall.resolver.resolveProject [] ⟨"/app"⟩ .empty).1 = .ok project := by rw [hrun]
    obtain ⟨hcanonical, -⟩ := Resolver.covers_resolveProject hnamed (List.forall_mem_nil _)
      ResolutionState.wellFormed_empty hok
    have heq := Except.ok.inj (hcanonical.symm.trans (FileSystem.canonical_app "lib" "util"))
    rw [← heq]
    exact congrArg Prod.fst hrun

/-- Whatever the application of a fork reaches is resolved by a call for it; a broken descriptor
that has been repaired is answered without being read. -/
theorem resolved_forkCall_and_run_repairedCall :
    (∀ target, Relation.ReflTransGen forkCall.resolver.system.References ⟨"/app"⟩ target →
      Resolved [forkCall] forkCall.resolver target) ∧
    repairedCall.run (stateAfter [brokenCall]) = (.ok ⟨"/app"⟩, stateAfter [brokenCall]) := by
  refine ⟨?_, ?_⟩
  · refine ((resolved_iff_not_leftBehind (List.forall_mem_nil _)).1 forkCall ⟨"/app"⟩
      (FileSystem.wellNamed_flat _) run_forkCall ?_).2 ?_
    · intro target _ other earlier answer hvisits
      exact absurd (List.suffix_nil.1 hvisits.made) (by simp)
    · rintro target - ⟨call, earlier, error, hvisits, herror, -⟩
      rcases List.suffix_cons_iff.1 hvisits.made with heq | hmade
      · obtain ⟨rfl, rfl⟩ := List.cons.inj heq
        rw [run_forkCall] at herror
        exact absurd herror (by simp)
      · exact absurd (List.suffix_nil.1 hmade) (by simp)
  · obtain ⟨error, hbroken⟩ := run_brokenCall
    have hnamed : ∀ call ∈ [brokenCall], call.resolver.system.WellNamed := by
      simp [brokenCall, FileSystem.wellNamed_flat]
    rcases (resolved_iff_not_leftBehind hnamed).2 brokenCall [] (.descriptor error)
      (List.suffix_refl _) (congrArg Prod.fst hbroken) with ⟨-, hidle | ⟨cause, hmissing⟩⟩ | hlater
    · exact absurd hidle (by decide)
    · exact absurd (canonical_brokenCall.symm.trans hmissing) (by simp)
    · obtain ⟨project, hpath, hcalls⟩ := hlater
      rw [← Except.ok.inj (canonical_brokenCall.symm.trans hpath)] at hcalls
      exact (hcalls repairedCall (FileSystem.wellNamed_flat _) rfl canonical_repairedCall).1

end ResolveCall
end ProjectAssembler
