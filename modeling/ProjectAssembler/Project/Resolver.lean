import ProjectAssembler.FileSystem.Locations
import ProjectAssembler.Project.Resolution

/-!
# Resolving projects

Projects are resolved depth first.  A project contributes when it is visited for the first time; a
project that is met again while it is still open closes a circle of references, and one that is
met again later contributes nothing more.  Whatever was collected before an error stays collected.

Main definitions:

* `Resolver`: the surroundings of a resolution;
* `Resolver.resolveProject`: a project with everything that it references;
* `Resolver.assembleProjects`: the resolution of several projects;
* `Resolver.assembleDirectory`: the sources below a directory without any descriptor.

Main results:

* `Resolver.resolveProject_of_cancelled`: nothing is collected once the work is called off;
* `Resolver.resolveProject_of_opened`: a project that is still open closes a cycle.
-/

namespace ProjectAssembler

/-- The surroundings in which projects are resolved. -/
structure Resolver where
  system : FileSystem
  platform : Platform
  /-- Whether the work has been called off. -/
  cancelled : Bool

namespace Resolver

/-- The projects of the circle that a project closes which is still open.  The open projects are
given innermost first. -/
def cycleAt (opened : List Path) (project : Path) : List Path :=
  opened.reverse.dropWhile (fun other => !other.same project) ++ [project]

mutual

/-- Resolve the project at a path while others, given innermost first, are open.  The answer is the
canonical path of its descriptor. -/
def resolveProject (resolver : Resolver) (opened : List Path) (path : Path)
    (state : ResolutionState) : Except ResolveError Path × ResolutionState :=
  if resolver.cancelled then (.error .cancelled, state)
  else
    match _hproject : resolver.system.canonical path with
    | .error cause => (.error (.descriptor (.read path cause)), state)
    | .ok project =>
        if _hopened : FileSystem.isOpened opened project = true then
          (.error (.cycle (cycleAt opened project)), state)
        else if state.isVisited project then (.ok project, state)
        else
          let state := state.visit project
          match resolver.system.loadDescriptor project with
          | .error error => (.error (.descriptor error), state)
          | .ok descriptor =>
              let state := state.addProject project
              match descriptor.sources resolver.system with
              | .error error => (.error (.sources error), state)
              | .ok sources =>
                  let libraries := descriptor.libraries resolver.system resolver.platform
                  let state := state.contribute resolver.system sources libraries
                  match resolveReferences resolver (project :: opened) project
                    descriptor.projectReferences state with
                  | (.error error, state) => (.error error, state)
                  | (.ok (), state) => (.ok project, state)
termination_by (resolver.system.unopened opened, 0)
decreasing_by
  apply Prod.Lex.left
  exact FileSystem.unopened_cons_lt (FileSystem.mem_places_of_canonical _hproject)
    (by simpa using _hopened)

/-- Resolve the references of a project one after the other, up to the first error. -/
def resolveReferences (resolver : Resolver) (opened : List Path) (project : Path)
    (references : List Path) (state : ResolutionState) :
    Except ResolveError Unit × ResolutionState :=
  match references with
  | [] => (.ok (), state)
  | reference :: rest =>
      match resolveProject resolver opened reference state with
      | (.error error, state) => (.error error, state)
      | (.ok target, state) =>
          resolveReferences resolver opened project rest (state.addReference project target)
termination_by (resolver.system.unopened opened, references.length + 1)

end

/-! ## Several projects -/

/-- Resolve projects that were asked for, up to the first error. -/
def resolveRoots (resolver : Resolver) (roots : List Path) (state : ResolutionState) :
    Except ResolveError Unit × ResolutionState :=
  match roots with
  | [] => (.ok (), state)
  | root :: rest =>
      match resolver.resolveProject [] root state with
      | (.error error, state) => (.error error, state)
      | (.ok project, state) => resolver.resolveRoots rest (state.addRoot project)

/-- The merged resolution of projects. -/
def assembleProjects (resolver : Resolver) (roots : List Path) : Except ResolveError Resolution :=
  match resolver.resolveRoots roots .empty with
  | (.error error, _) => .error error
  | (.ok (), state) => .ok state.resolution

/-- The sources below a directory, without libraries and projects. -/
def assembleDirectory (resolver : Resolver) (directory : Path) : Except ResolveError Resolution :=
  if resolver.cancelled then .error .cancelled
  else
    match resolver.system.discover directory with
    | .error error => .error (.sources error)
    | .ok sources =>
        .ok { Resolution.empty with sources := PathSet.empty.extend resolver.system sources }

/-! ## First laws -/

/-- Once the work is called off nothing is collected. -/
theorem resolveProject_of_cancelled {resolver : Resolver} (h : resolver.cancelled = true)
    (opened : List Path) (path : Path) (state : ResolutionState) :
    resolver.resolveProject opened path state = (.error .cancelled, state) := by
  unfold resolveProject
  simp [h]

/-- A path that means nothing cannot be resolved. -/
theorem resolveProject_of_missing {resolver : Resolver} {path : Path} {cause : AccessError}
    (hactive : resolver.cancelled = false) (h : resolver.system.canonical path = .error cause)
    (opened : List Path) (state : ResolutionState) :
    resolver.resolveProject opened path state =
      (.error (.descriptor (.read path cause)), state) := by
  unfold resolveProject
  simp only [hactive, Bool.false_eq_true, if_false]
  split
  · rename_i cause' h'
    rw [h] at h'
    rw [Except.error.inj h']
  · rename_i project h'
    rw [h] at h'
    exact absurd h' (by simp)

/-- A project that is still open closes a cycle. -/
theorem resolveProject_of_opened {resolver : Resolver} {path project : Path} {opened : List Path}
    (hactive : resolver.cancelled = false) (h : resolver.system.canonical path = .ok project)
    (hopened : FileSystem.isOpened opened project = true) (state : ResolutionState) :
    resolver.resolveProject opened path state =
      (.error (.cycle (cycleAt opened project)), state) := by
  unfold resolveProject
  simp only [hactive, Bool.false_eq_true, if_false]
  split
  · rename_i cause h'
    rw [h] at h'
    exact absurd h' (by simp)
  · rename_i project' h'
    rw [h] at h'
    rw [← Except.ok.inj h']
    simp [hopened]

@[simp]
theorem resolveReferences_nil (resolver : Resolver) (opened : List Path) (project : Path)
    (state : ResolutionState) :
    resolver.resolveReferences opened project [] state = (.ok (), state) := by
  unfold resolveReferences
  rfl

end Resolver
end ProjectAssembler
