import ProjectAssembler.Proofs.Report.CompleteTrees

/-!
# Trees down to a depth

A line of a tree with a depth stands for a way of as many references from a root, so the tree shows
nothing that is further away from all roots than the depth.  It may show less: a project whose first
line is at the depth has nothing below it, and nothing is below its other lines either because they
are marked, although some of them may be less deep.

Main definitions:

* `ProjectGraph.ReachedIn`: a number of references leads from a root to a project;
* `ProjectGraph.IsTreeTo`: lines are a tree of a graph down to a depth;
* `ProjectGraph.IsCutOff`: the only line of a project that is not marked is too deep.

Main results:

* `ProjectGraph.isTreeTo_of_shows`: the lines down to a depth are such a tree, and all that is as
  near as the depth is shown exactly when the references of projects that are cut off are;
* `Program.runTree_depth_of_assembled`: what the tree command writes when a depth is given.
-/

namespace ProjectAssembler
namespace ProjectGraph

open TreeLine

variable {graph : ProjectGraph}

/-- So many references lead from a root to a project. -/
inductive ReachedIn (graph : ProjectGraph) : Nat → Path → Prop where
  | root {project : Path} (hroot : project ∈ graph.roots) : ReachedIn graph 0 project
  | step {count : Nat} {source target : Path} (hsource : ReachedIn graph count source)
      (htarget : target ∈ graph.references source) : ReachedIn graph (count + 1) target

/-- The line of a project that is not marked is at the end of the depth although fewer references
lead to the project. -/
def IsCutOff (graph : ProjectGraph) (depth : Nat) (lines : List TreeLine) (project : Path) : Prop :=
  (∃ line ∈ lines, line.project = project ∧ line.repeated = false ∧ line.depth = depth) ∧
    ∃ count < depth, graph.ReachedIn count project

/-- Lines show a graph down to a depth. -/
structure IsTreeTo (graph : ProjectGraph) (depth : Nat) (lines : List TreeLine) : Prop where
  /-- The lines of the upper level are those of the roots, in their order. -/
  roots : (lines.filter (·.depth == 0)).map TreeLine.project = graph.roots
  /-- No line is below the depth, and a line is as deep as a way of references to its project. -/
  within : ∀ line ∈ lines, line.depth ≤ depth ∧ graph.ReachedIn line.depth line.project
  /-- A line is marked exactly when its project has a line before it. -/
  marked : EachPlace (fun before line _ =>
    line.repeated = true ↔ ∃ earlier ∈ before, earlier.project = line.project) lines
  /-- One level below a line its project's references are listed, unless the line is marked or at
  the end of the depth. -/
  listed : EachPlace (fun _ line after => line.directlyBelow after =
    if line.repeated || line.depth == depth then [] else graph.references line.project) lines
  /-- All projects that are as near as the depth are shown exactly when the references of those
  that are cut off are shown. -/
  complete : (∀ count ≤ depth, ∀ project, graph.ReachedIn count project →
      ∃ line ∈ lines, line.project = project) ↔
    ∀ project, graph.IsCutOff depth lines project → ∀ target ∈ graph.references project,
      ∃ line ∈ lines, line.project = target

/-- Lines are as deep as the ways of references to their projects are long. -/
theorem Shows.reachedIn {maxDepth : Option Nat} {depth : Nat} {projects seen shown : List Path}
    {lines : List TreeLine} (h : Shows graph maxDepth depth projects seen lines shown)
    (hprojects : ∀ project ∈ projects, graph.ReachedIn depth project) :
    ∀ line ∈ lines, graph.ReachedIn line.depth line.project := by
  induction h with
  | done => simp
  | beyond _ _ ih => exact ih (List.forall_mem_cons.1 hprojects).2
  | again _ _ _ ih =>
      obtain ⟨hproject, hrest⟩ := List.forall_mem_cons.1 hprojects
      exact List.forall_mem_cons.2 ⟨hproject, ih hrest⟩
  | first _ _ _ _ ihinner ihrest =>
      obtain ⟨hproject, hrest⟩ := List.forall_mem_cons.1 hprojects
      have hinner := ihinner fun target htarget => hproject.step htarget
      exact List.forall_mem_cons.2 ⟨hproject, List.forall_mem_append.2 ⟨hinner, ihrest hrest⟩⟩

theorem isBeyond_succ_of_le {depth limit : Nat} (h : depth ≤ limit) :
    isBeyond (some limit) (depth + 1) = (depth == limit) := by
  rw [Bool.eq_iff_iff]
  simp only [isBeyond, Option.any_some, decide_eq_true_eq, beq_iff_eq]
  omega

/-- All that is as near as a depth is shown when the references of projects that are cut off are:
what leads to a project on a shortest way is shown, and above the depth unless it is cut off. -/
theorem Shows.exists_of_reachedIn (h : graph.WellFormed)
    (hroots : ∀ root ∈ graph.roots, root ∈ graph.projects) {depth : Nat} {lines : List TreeLine}
    {shown : List Path} (hshows : Shows graph (some depth) 0 graph.roots [] lines shown)
    (hcut : ∀ project, graph.IsCutOff depth lines project → ∀ target ∈ graph.references project,
      ∃ line ∈ lines, line.project = target)
    {count : Nat} (hcount : count ≤ depth) {project : Path}
    (hproject : graph.ReachedIn count project) : ∃ line ∈ lines, line.project = project := by
  induction hproject with
  | root hroot =>
      have hheads : (lines.filter (·.depth == 0)).map TreeLine.project = graph.roots :=
        hshows.heads rfl
      rw [← hheads] at hroot
      obtain ⟨line, hline, hproject⟩ := List.mem_map.1 hroot
      exact ⟨line, (List.mem_filter.1 hline).1, hproject⟩
  | @step count source target hsource htarget ih =>
      obtain ⟨other, hother, rfl⟩ := ih (Nat.le_of_succ_le hcount)
      obtain ⟨line, hline, hfirst, hsame⟩ :=
        exists_unmarked (hshows.marked_iff h hroots) hother
      have hle : line.depth ≤ depth := by
        have hshown : isBeyond (some depth) line.depth = false := (hshows.depth_le line hline).2
        simpa [isBeyond] using hshown
      rcases Nat.lt_or_eq_of_le hle with hlt | heq
      · have hmore : isBeyond (some depth) (line.depth + 1) = false := by
          rw [isBeyond_succ_of_le hle, beq_eq_false_iff_ne]
          exact Nat.ne_of_lt hlt
        exact hshows.exists_of_mem_references hline hfirst hmore (hsame ▸ htarget)
      · exact hcut other.project ⟨⟨line, hline, hsame, hfirst, heq⟩, count, hcount, hsource⟩ target
          htarget

/-- The lines down to a depth are a tree down to it. -/
theorem isTreeTo_of_shows (h : graph.WellFormed)
    (hroots : ∀ root ∈ graph.roots, root ∈ graph.projects) {depth : Nat} {lines : List TreeLine}
    {shown : List Path} (hshows : Shows graph (some depth) 0 graph.roots [] lines shown) :
    graph.IsTreeTo depth lines := by
  have hwithin : ∀ line ∈ lines, line.depth ≤ depth ∧ graph.ReachedIn line.depth line.project := by
    intro line hline
    have hshown : isBeyond (some depth) line.depth = false := (hshows.depth_le line hline).2
    refine ⟨by simpa [isBeyond] using hshown, ?_⟩
    exact hshows.reachedIn (fun _ hroot => .root hroot) line hline
  refine ⟨hshows.heads rfl, hwithin, hshows.marked_iff h hroots, ?_, ?_, ?_⟩
  · intro before line after heq
    have hline : line ∈ lines := heq ▸ List.mem_append_right _ List.mem_cons_self
    rw [← isBeyond_succ_of_le (hwithin line hline).1]
    exact hshows.listed_below before line after heq
  · rintro hall project ⟨-, count, hcount, hreached⟩ target htarget
    exact hall (count + 1) hcount target (hreached.step htarget)
  · exact fun hcut count hcount project hreached =>
      hshows.exists_of_reachedIn h hroots hcut hcount hreached

end ProjectGraph

/-! ## A shortcut -/

/-- The lines of a graph of the projects with the shortcut, down to depth two. -/
theorem ProjectGraph.tree_shortcut {graph : ProjectGraph} (h : graph.WellFormed)
    (hroots : graph.roots = [⟨"/a"⟩])
    (hgraph : ∀ entry ∈ FileSystem.shortcutProjects,
      entry.1 ∈ graph.projects ∧ graph.references entry.1 = entry.2) :
    graph.tree (some 2) false = [⟨0, ⟨"/a"⟩, false⟩, ⟨1, ⟨"/b"⟩, false⟩, ⟨2, ⟨"/c"⟩, false⟩,
      ⟨1, ⟨"/c"⟩, true⟩] := by
  simp only [FileSystem.shortcutProjects, List.forall_mem_cons, List.not_mem_nil, false_imp_iff,
    implies_true, and_true] at hgraph
  obtain ⟨⟨ha, hreferencesA⟩, ⟨-, hreferencesB⟩, ⟨-, hreferencesC⟩, -⟩ := hgraph
  obtain ⟨shown, hshows⟩ := ProjectGraph.shows_tree h
    (by simpa [hroots] using ⟨⟨"/a"⟩, ha, Path.same_refl _⟩) (some 2)
  rw [hroots] at hshows
  have hbelowC : ProjectGraph.Shows graph (some 2) 3 [⟨"/d"⟩] [⟨"/c"⟩, ⟨"/b"⟩, ⟨"/a"⟩] []
      [⟨"/c"⟩, ⟨"/b"⟩, ⟨"/a"⟩] := .beyond rfl .done
  have hagain : ProjectGraph.Shows graph (some 2) 1 [⟨"/c"⟩] [⟨"/c"⟩, ⟨"/b"⟩, ⟨"/a"⟩]
      [⟨1, ⟨"/c"⟩, true⟩] [⟨"/c"⟩, ⟨"/b"⟩, ⟨"/a"⟩] := .again rfl (by decide) .done
  rw [← hreferencesC] at hbelowC
  have hbelowB := ProjectGraph.Shows.first rfl (by decide) hbelowC .done
  rw [← hreferencesB] at hbelowB
  have hbelowA := ProjectGraph.Shows.first rfl (by decide) hbelowB hagain
  rw [← hreferencesA] at hbelowA
  exact (hshows.unique (.first rfl rfl hbelowA .done)).1

namespace Program

/-- What the tree command writes down to a depth about projects that are assembled is a tree of
their graph down to that depth. -/
theorem runTree_depth_of_assembled {program : Program} (hnamed : program.system.WellNamed)
    (options : CommonOptions) (projects : List Path) (depth : Nat) (directory : Path)
    {resolution : Resolution}
    (h : (program.compiler directory options).resolver.assembleProjects
      (projects.map directory.join) = .ok resolution) :
    ∃ lines texts,
      List.Forall₂ (TreeLine.Prints directory) lines texts ∧
      program.runTree options ⟨projects, some depth, false⟩ directory =
        ⟨0, String.join (texts.map (· ++ "\n")), none⟩ ∧
      resolution.graph.IsTreeTo depth lines := by
  obtain ⟨hok, hresolution⟩ := Resolver.resolveRoots_of_assembleProjects h
  have hclosure : (program.compiler directory options).resolver.IsClosure
      (projects.map directory.join) resolution :=
    hresolution ▸ Resolver.isClosure_of_resolveRoots hnamed hok
  have hroots := hclosure.reached.1
  obtain ⟨shown, hshows⟩ := ProjectGraph.shows_tree hclosure.wellFormed
    (fun root hroot => ⟨root, hroots root hroot, Path.same_refl root⟩) (some depth)
  refine ⟨_, _, TreeLine.forall₂_prints_iff.2 rfl, ?_,
    ProjectGraph.isTreeTo_of_shows hclosure.wellFormed hroots hshows⟩
  simp only [runTree, h, success, textOfLines]

/-- The tree of the shortcut down to depth two. -/
theorem isTreeTo_shortcut :
    ∃ resolution, (Program.compiler ⟨.shortcut, ⟨none, none, none, none⟩⟩ ⟨"/"⟩
        ⟨false, none, none⟩).resolver.assembleProjects ([⟨"a"⟩].map (Path.join ⟨"/"⟩)) =
          .ok resolution ∧
      ∃ lines texts,
        List.Forall₂ (TreeLine.Prints ⟨"/"⟩) lines texts ∧
        Program.runTree ⟨.shortcut, ⟨none, none, none, none⟩⟩ ⟨false, none, none⟩
          ⟨[⟨"a"⟩], some 2, false⟩ ⟨"/"⟩ = ⟨0, String.join (texts.map (· ++ "\n")), none⟩ ∧
        resolution.graph.IsTreeTo 2 lines := by
  obtain ⟨resolution, hresolution, -⟩ := exists_assembleProjects_shortcut
  exact ⟨resolution, hresolution, runTree_depth_of_assembled (FileSystem.wellNamed_flat _) _ _ 2 _
    hresolution⟩

/-- The last project of the chain is two references away from the root, but down to depth two it is
not shown: its only source is first met at that depth and marked where it is met again. -/
theorem runTree_shortcut :
    FileSystem.shortcut.Acyclic [⟨"/a"⟩] ∧
    ∃ resolution, (Program.compiler ⟨.shortcut, ⟨none, none, none, none⟩⟩ ⟨"/"⟩
        ⟨false, none, none⟩).resolver.assembleProjects ([⟨"a"⟩].map (Path.join ⟨"/"⟩)) =
          .ok resolution ∧
      resolution.graph.ReachedIn 2 ⟨"/d"⟩ ∧
      Program.runTree ⟨.shortcut, ⟨none, none, none, none⟩⟩ ⟨false, none, none⟩
          ⟨[⟨"a"⟩], some 2, false⟩ ⟨"/"⟩ =
        success ["a (a)", "├── b (b)", "│   ├── c (c)", "├── c (c) (*)"] := by
  obtain ⟨resolution, hresolution, hformed, hroots, hgraph⟩ := exists_assembleProjects_shortcut
  have hlines := ProjectGraph.tree_shortcut hformed hroots hgraph
  have hreached : resolution.graph.ReachedIn 2 ⟨"/d"⟩ := by
    have hreferencesA := (hgraph (⟨"/a"⟩, [⟨"/b"⟩, ⟨"/c"⟩]) (by decide)).2
    have hreferencesC := (hgraph (⟨"/c"⟩, [⟨"/d"⟩]) (by decide)).2
    have hfirst : resolution.graph.ReachedIn 0 ⟨"/a"⟩ := .root (by simp [hroots])
    have hsecond : resolution.graph.ReachedIn 1 ⟨"/c"⟩ := hfirst.step (by simp [hreferencesA])
    exact hsecond.step (by simp [hreferencesC])
  refine ⟨FileSystem.acyclic_shortcut, resolution, hresolution, hreached, ?_⟩
  simp only [runTree, hresolution, hlines]
  decide

end Program
end ProjectAssembler
