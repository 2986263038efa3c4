import ProjectAssembler.CommandLine.Run
import ProjectAssembler.Proofs.Project.Closure
import ProjectAssembler.Proofs.Project.ReferenceLists
import ProjectAssembler.Proofs.Report.TreeLines

/-!
# Trees without a depth

Where no depth is asked for, the tree of projects shows everything: a line for every root and a line
for every reference.  Each project has one line that is not marked, the first one, and its
references stand below that line, in path order.

Main definitions:

* `ProjectGraph.IsTree`: lines show a whole graph;
* `TreeLine.Prints`: what is printed for a line.

Main results:

* `ProjectGraph.Shows.length_lines`: there is a line for every project and for every reference of a
  project with an unmarked line;
* `ProjectGraph.isTree_of_shows`: the lines of a graph that its roots reach are a tree of it;
* `Program.runTree_of_assembled`: what the tree command writes about projects that are assembled.
-/

namespace ProjectAssembler
namespace TreeLine

variable {lines : List TreeLine}

/-- A relation to all the lines before holds pairwise. -/
theorem EachPlace.pairwise {related : TreeLine → TreeLine → Prop}
    (h : EachPlace (fun before line _ => ∀ earlier ∈ before, related earlier line) lines) :
    lines.Pairwise related := by
  induction lines with
  | nil => exact List.Pairwise.nil
  | cons first rest ih =>
      refine List.pairwise_cons.2 ⟨fun line hline => ?_, ih fun before line after heq => ?_⟩
      · obtain ⟨before, after, heq⟩ := List.append_of_mem hline
        exact h (first :: before) line after (by rw [heq]; rfl) first List.mem_cons_self
      · intro earlier hearlier
        exact h (first :: before) line after (by rw [heq]; rfl) earlier
          (List.mem_cons_of_mem _ hearlier)

/-- A project that has a line has a first one. -/
theorem exists_first_line {line : TreeLine} (hline : line ∈ lines) :
    ∃ before first after, lines = before ++ first :: after ∧ first.project = line.project ∧
      ∀ earlier ∈ before, earlier.project ≠ line.project := by
  have hsome : (lines.find? (·.project == line.project)).isSome = true :=
    List.find?_isSome.2 ⟨line, hline, beq_self_eq_true _⟩
  obtain ⟨first, hfirst⟩ := Option.isSome_iff_exists.1 hsome
  obtain ⟨hproject, before, after, heq, hbefore⟩ := List.find?_eq_some_iff_append.1 hfirst
  refine ⟨before, first, after, heq, eq_of_beq hproject, fun earlier hearlier => ?_⟩
  simpa using hbefore earlier hearlier

/-- What is listed below a line has a line after it. -/
theorem exists_of_mem_directlyBelow {line : TreeLine} {after : List TreeLine} {project : Path}
    (h : project ∈ line.directlyBelow after) : ∃ next ∈ after, next.project = project := by
  obtain ⟨next, hnext, rfl⟩ := List.mem_map.1 h
  exact ⟨next, (List.takeWhile_sublist _).subset (List.mem_filter.1 hnext).1, rfl⟩

/-! ## Printed lines -/

/-- How a project is called in a line: its name, and where it is as seen from a directory. -/
def label (directory project : Path) : String :=
  project.stem?.getD "" ++ " (" ++ (Path.relativeTo directory project).text ++ ")"

/-- What is printed for a line, as seen from a directory. -/
inductive Prints (directory : Path) : TreeLine → String → Prop where
  /-- A line of the upper level is the label of its project. -/
  | upper (project : Path) : Prints directory ⟨0, project, false⟩ (label directory project)
  /-- Before the label of a line below there is a branch, and a bar for each level above it but the
  upper one. -/
  | lower (depth : Nat) (project : Path) : Prints directory ⟨depth + 1, project, false⟩
      (String.join (List.replicate depth "│   ") ++ "├── " ++ label directory project)
  /-- A line that repeats a project ends with a mark. -/
  | again {depth : Nat} {project : Path} {text : String}
      (h : Prints directory ⟨depth, project, false⟩ text) :
      Prints directory ⟨depth, project, true⟩ (text ++ " (*)")

/-- One text is printed for a line, and it is the text of the line. -/
theorem prints_iff {directory : Path} {line : TreeLine} {printed : String} :
    Prints directory line printed ↔ line.text directory = printed := by
  have hfirst : ∀ depth project, Prints directory ⟨depth, project, false⟩
      (text directory ⟨depth, project, false⟩) := by
    intro depth project
    cases depth with
    | zero => simpa [text, lead, label, String.append_assoc] using Prints.upper project
    | succ depth => simpa [text, lead, label, String.append_assoc] using Prints.lower depth project
  constructor
  · intro h
    induction h with
    | upper project => simp [text, lead, label, String.append_assoc]
    | lower depth project => simp [text, lead, label, String.append_assoc]
    | again _ ih => simpa [text] using congrArg (· ++ " (*)") ih
  · rintro rfl
    obtain ⟨depth, project, repeated⟩ := line
    cases repeated with
    | false => exact hfirst depth project
    | true => simpa [text] using Prints.again (hfirst depth project)

theorem forall₂_prints_iff {directory : Path} {texts : List String} :
    List.Forall₂ (Prints directory) lines texts ↔ lines.map (text directory) = texts := by
  induction lines generalizing texts with
  | nil => simp [eq_comm]
  | cons line lines ih =>
      cases texts with
      | nil => simp
      | cons printed texts => rw [List.forall₂_cons, prints_iff, ih, List.map_cons, List.cons.injEq]

end TreeLine

namespace ProjectGraph

open TreeLine

variable {graph : ProjectGraph}

/-- Lines show a whole graph. -/
structure IsTree (graph : ProjectGraph) (lines : List TreeLine) : Prop where
  /-- The lines of the upper level are those of the roots, in their order. -/
  roots : (lines.filter (·.depth == 0)).map TreeLine.project = graph.roots
  /-- A line is marked exactly when its project has a line before it. -/
  marked : EachPlace (fun before line _ =>
    line.repeated = true ↔ ∃ earlier ∈ before, earlier.project = line.project) lines
  /-- One level below a line its project's references are listed, unless the line is marked. -/
  listed : EachPlace (fun _ line after =>
    line.directlyBelow after = if line.repeated then [] else graph.references line.project) lines
  /-- References are listed strictly in path order. -/
  ordered : ∀ project, OrderedList.Ascending Path.compare (graph.references project)
  /-- Every project has exactly one line that is not marked. -/
  expanded : ((lines.filter (!·.repeated)).map TreeLine.project).Perm graph.projects
  /-- There is a line for every root and a line for every reference, and no other one. -/
  length : lines.length = graph.roots.length + graph.edges.length

/-- Without a depth there is a line for every project and a line for every reference of a project
that has an unmarked line. -/
theorem Shows.length_lines {depth : Nat} {projects seen shown : List Path} {lines : List TreeLine}
    (h : Shows graph none depth projects seen lines shown) :
    lines.length = projects.length +
      (((lines.filter (!·.repeated)).map TreeLine.project).map
        fun project => (graph.references project).length).sum := by
  induction h with
  | done => rfl
  | beyond hdepth => contradiction
  | again _ _ _ ih =>
      simp only [List.length_cons, List.filter_cons, Bool.not_true, Bool.false_eq_true, if_false,
        ih]
      omega
  | first _ _ _ _ ihinner ihrest =>
      simp only [List.length_cons, List.length_append, List.filter_cons, List.filter_append,
        Bool.not_false, if_true, List.map_cons, List.map_append, List.sum_cons, List.sum_append,
        ihinner, ihrest]
      omega

/-- The lines of a graph's projects are lines of projects of the graph. -/
theorem Shows.mem_projects (hformed : graph.WellFormed) {maxDepth : Option Nat} {depth : Nat}
    {projects seen shown : List Path} {lines : List TreeLine}
    (h : Shows graph maxDepth depth projects seen lines shown)
    (hprojects : ∀ project ∈ projects, project ∈ graph.projects) :
    ∀ line ∈ lines, line.project ∈ graph.projects := by
  induction h with
  | done => simp
  | beyond _ _ ih => exact ih (List.forall_mem_cons.1 hprojects).2
  | again _ _ _ ih =>
      obtain ⟨hproject, hrest⟩ := List.forall_mem_cons.1 hprojects
      exact List.forall_mem_cons.2 ⟨hproject, ih hrest⟩
  | first _ _ _ _ ihinner ihrest =>
      obtain ⟨hproject, hrest⟩ := List.forall_mem_cons.1 hprojects
      refine List.forall_mem_cons.2
        ⟨hproject, List.forall_mem_append.2 ⟨ihinner fun target htarget => ?_, ihrest hrest⟩⟩
      exact ((mem_references_iff hformed).1 htarget).1

/-- Projects of a well-formed graph that are the same are equal. -/
theorem WellFormed.same_iff (h : graph.WellFormed) {p q : Path} (hp : p ∈ graph.projects)
    (hq : q ∈ graph.projects) : p.same q = true ↔ p = q := by
  refine ⟨fun hsame => ?_, fun heq => heq ▸ Path.same_refl p⟩
  obtain ⟨i, hi⟩ := List.mem_iff_getElem?.1 hp
  obtain ⟨j, hj⟩ := List.mem_iff_getElem?.1 hq
  have hij : i = j := h.eq_of_same hi hj hsame
  rw [hij, hj] at hi
  exact (Option.some.inj hi).symm

theorem WellFormed.nodup_projects (h : graph.WellFormed) : graph.projects.Nodup := by
  refine h.distinct.imp fun {p q} hpq heq => ?_
  rw [heq, Path.same_refl] at hpq
  contradiction

/-! ## The lines of all roots -/

section Roots

variable {maxDepth : Option Nat} {lines : List TreeLine} {shown : List Path}

/-- A line of a root or of what is below it is marked exactly when its project has a line before. -/
theorem Shows.marked_iff (h : graph.WellFormed)
    (hroots : ∀ root ∈ graph.roots, root ∈ graph.projects)
    (hshows : Shows graph maxDepth 0 graph.roots [] lines shown) :
    EachPlace (fun before line _ =>
      line.repeated = true ↔ ∃ earlier ∈ before, earlier.project = line.project) lines := by
  have hprojects : ∀ line ∈ lines, line.project ∈ graph.projects := hshows.mem_projects h hroots
  intro before line after heq
  have hline : line.project ∈ graph.projects :=
    hprojects line (heq ▸ List.mem_append_right _ List.mem_cons_self)
  have hbefore : ∀ earlier ∈ before, earlier.project ∈ graph.projects :=
    fun earlier hearlier => hprojects earlier (heq ▸ List.mem_append_left _ hearlier)
  have hplace : line.repeated = true ↔
      isSeen [] line.project = true ∨ AreShowing before line.project :=
    hshows.marked before line after heq
  rw [hplace]
  constructor
  · rintro (hseen | ⟨earlier, hearlier, hsame⟩)
    · contradiction
    · exact ⟨earlier, hearlier, (h.same_iff (hbefore earlier hearlier) hline).1 hsame⟩
  · rintro ⟨earlier, hearlier, hproject⟩
    exact Or.inr ⟨earlier, hearlier, hproject ▸ Path.same_refl _⟩

/-- One level below a line its project's references are listed, unless the line is marked or nothing
more is shown below it. -/
theorem Shows.listed_below (hshows : Shows graph maxDepth 0 graph.roots [] lines shown) :
    EachPlace (fun _ line after => line.directlyBelow after =
      if line.repeated || isBeyond maxDepth (line.depth + 1) then []
      else graph.references line.project) lines := by
  intro before line after heq
  have hplace : line.directlyBelow (after ++ []) =
      if line.repeated || isBeyond maxDepth (line.depth + 1) then []
      else graph.references line.project :=
    hshows.listed before line after heq [] (by simp)
  rwa [List.append_nil] at hplace

/-- A project that has a line has one that is not marked. -/
theorem exists_unmarked
    (hmarked : EachPlace (fun before line _ =>
      line.repeated = true ↔ ∃ earlier ∈ before, earlier.project = line.project) lines)
    {line : TreeLine} (hline : line ∈ lines) :
    ∃ first ∈ lines, first.repeated = false ∧ first.project = line.project := by
  obtain ⟨before, first, after, heq, hproject, hfresh⟩ := exists_first_line hline
  have hplace : first.repeated = true ↔ ∃ earlier ∈ before, earlier.project = first.project :=
    hmarked before first after heq
  refine ⟨first, heq ▸ List.mem_append_right _ List.mem_cons_self, ?_, hproject⟩
  rw [← Bool.not_eq_true, hplace]
  rintro ⟨earlier, hearlier, hsame⟩
  exact hfresh earlier hearlier (hsame.trans hproject)

/-- A reference has a line when its source has an unmarked one that is not at the end of the depth
that is shown. -/
theorem Shows.exists_of_mem_references
    (hshows : Shows graph maxDepth 0 graph.roots [] lines shown) {line : TreeLine}
    (hline : line ∈ lines) (hfirst : line.repeated = false)
    (hdepth : isBeyond maxDepth (line.depth + 1) = false) {target : Path}
    (htarget : target ∈ graph.references line.project) : ∃ next ∈ lines, next.project = target := by
  obtain ⟨before, after, heq⟩ := List.append_of_mem hline
  have hbelow : line.directlyBelow after =
      if line.repeated || isBeyond maxDepth (line.depth + 1) then []
      else graph.references line.project :=
    hshows.listed_below before line after heq
  rw [hfirst, hdepth, Bool.or_false, if_neg Bool.false_ne_true] at hbelow
  obtain ⟨next, hnext, hproject⟩ := exists_of_mem_directlyBelow (hbelow ▸ htarget)
  exact ⟨next, heq ▸ List.mem_append_right _ (List.mem_cons_of_mem _ hnext), hproject⟩

/-- No project has two lines that are not marked. -/
theorem nodup_unmarked
    (hmarked : EachPlace (fun before line _ =>
      line.repeated = true ↔ ∃ earlier ∈ before, earlier.project = line.project) lines) :
    ((lines.filter (!·.repeated)).map TreeLine.project).Nodup := by
  have hpairs : lines.Pairwise fun earlier line =>
      line.repeated = false → earlier.project ≠ line.project := by
    refine EachPlace.pairwise (hmarked.imp ?_)
    intro before line _ hiff earlier hearlier hfirst hsame
    rw [hiff.2 ⟨earlier, hearlier, hsame⟩] at hfirst
    contradiction
  refine List.pairwise_map.2 (List.pairwise_filter.2 (hpairs.imp fun {p q} hne _ hq => ?_))
  exact hne (by simpa using hq)

end Roots

/-- Without a depth all that the roots reach has a line that is not marked. -/
theorem Shows.exists_unmarked_of_reached (h : graph.WellFormed)
    (hroots : ∀ root ∈ graph.roots, root ∈ graph.projects) {lines : List TreeLine}
    {shown : List Path} (hshows : Shows graph none 0 graph.roots [] lines shown)
    {root project : Path} (hroot : root ∈ graph.roots)
    (hreaches : Relation.ReflTransGen (fun source target => target ∈ graph.references source)
      root project) :
    ∃ line ∈ lines, line.repeated = false ∧ line.project = project := by
  have hmarked := hshows.marked_iff h hroots
  induction hreaches with
  | refl =>
      have hheads : (lines.filter (·.depth == 0)).map TreeLine.project = graph.roots :=
        hshows.heads rfl
      rw [← hheads] at hroot
      obtain ⟨line, hline, rfl⟩ := List.mem_map.1 hroot
      exact exists_unmarked hmarked (List.mem_filter.1 hline).1
  | tail _ hreference ih =>
      obtain ⟨line, hline, hfirst, rfl⟩ := ih
      obtain ⟨next, hnext, rfl⟩ := hshows.exists_of_mem_references hline hfirst rfl hreference
      exact exists_unmarked hmarked hnext

/-- The lines of a graph that its roots reach are a tree of it. -/
theorem isTree_of_shows (h : graph.WellFormed)
    (hroots : ∀ root ∈ graph.roots, root ∈ graph.projects)
    (hreached : ∀ project ∈ graph.projects, ∃ root ∈ graph.roots,
      Relation.ReflTransGen (fun source target => target ∈ graph.references source) root project)
    {lines : List TreeLine} {shown : List Path}
    (hshows : Shows graph none 0 graph.roots [] lines shown) : graph.IsTree lines := by
  have hmarked := hshows.marked_iff h hroots
  have hexpanded : ((lines.filter (!·.repeated)).map TreeLine.project).Perm graph.projects := by
    refine (List.perm_ext_iff_of_nodup (nodup_unmarked hmarked) h.nodup_projects).2
      fun project => ⟨?_, ?_⟩
    · intro hmem
      obtain ⟨line, hline, rfl⟩ := List.mem_map.1 hmem
      exact hshows.mem_projects h hroots line (List.mem_filter.1 hline).1
    · intro hproject
      obtain ⟨root, hroot, hreaches⟩ := hreached project hproject
      obtain ⟨line, hline, hfirst, rfl⟩ :=
        hshows.exists_unmarked_of_reached h hroots hroot hreaches
      exact List.mem_map_of_mem (List.mem_filter.2 ⟨hline, by simp [hfirst]⟩)
  refine ⟨hshows.heads rfl, hmarked, ?_, ascending_references h, hexpanded, ?_⟩
  · refine hshows.listed_below.imp fun _ line after hplace => ?_
    simpa [isBeyond] using hplace
  · rw [hshows.length_lines, (hexpanded.map _).sum_nat, sum_length_references h]

end ProjectGraph

/-! ## Projects that are assembled -/

/-- The projects of paths are what the paths mean. -/
theorem FileSystem.mem_of_forall₂_canonical {system : FileSystem} {paths projects : List Path}
    (h : List.Forall₂ (fun path project => system.canonical path = .ok project) paths projects)
    (project : Path) :
    project ∈ projects ↔ ∃ path ∈ paths, system.canonical path = .ok project := by
  induction h with
  | nil => simp
  | cons hfirst _ ih =>
      rw [List.mem_cons, List.exists_mem_cons_iff, ih, hfirst, Except.ok.injEq, eq_comm]

/-- The roots of what is assembled are among its projects, and references lead from them to all
others. -/
theorem Resolver.IsClosure.reached {resolver : Resolver} {roots : List Path}
    {resolution : Resolution} (h : resolver.IsClosure roots resolution) :
    (∀ root ∈ resolution.graph.roots, root ∈ resolution.graph.projects) ∧
      ∀ project ∈ resolution.graph.projects, ∃ root ∈ resolution.graph.roots,
        Relation.ReflTransGen (fun source target => target ∈ resolution.graph.references source)
          root project := by
  have hmem : ∀ root, root ∈ resolution.graph.roots ↔
      ∃ path ∈ roots, resolver.system.canonical path = .ok root := by
    obtain ⟨asked, hasked, hrooted⟩ := h.rooted
    intro root
    rw [hrooted, List.mem_eraseDups, FileSystem.mem_of_forall₂_canonical hasked]
  refine ⟨fun root hroot => ?_, fun project hproject => ?_⟩
  · obtain ⟨path, hpath, hcanonical⟩ := (hmem root).1 hroot
    exact (h.projects root).2 (FileSystem.reachable_of_root hpath hcanonical)
  · have hreaches : project ∈ resolution.graph.projects ∧ ∃ root ∈ resolution.graph.roots,
        Relation.ReflTransGen (fun source target => target ∈ resolution.graph.references source)
          root project := by
      refine ((h.projects project).1 hproject).induction (fun project =>
        project ∈ resolution.graph.projects ∧ ∃ root ∈ resolution.graph.roots,
          Relation.ReflTransGen (fun source target => target ∈ resolution.graph.references source)
            root project) ?_ ?_
      · intro path hpath project hcanonical
        exact ⟨(h.projects project).2 (FileSystem.reachable_of_root hpath hcanonical), project,
          (hmem project).2 ⟨path, hpath, hcanonical⟩, .refl⟩
      · rintro source target ⟨hsource, root, hroot, hreaches⟩ hreference
        have htarget : target ∈ resolution.graph.references source :=
          (h.edges source hsource target).2 hreference
        exact ⟨((ProjectGraph.mem_references_iff h.wellFormed).1 htarget).1, root, hroot,
          hreaches.tail htarget⟩
    exact hreaches.2

namespace Program

/-- What the tree command writes about projects that are assembled are the lines of a tree of their
graph, each as it is printed and ended by a line feed; the lines come about without any bound on
their depth. -/
theorem runTree_of_assembled {program : Program} (hnamed : program.system.WellNamed)
    (options : CommonOptions) (projects : List Path) (directory : Path) {resolution : Resolution}
    (h : (program.compiler directory options).resolver.assembleProjects
      (projects.map directory.join) = .ok resolution) :
    ∃ lines shown texts,
      ProjectGraph.Shows resolution.graph none 0 resolution.graph.roots [] lines shown ∧
      List.Forall₂ (TreeLine.Prints directory) lines texts ∧
      program.runTree options ⟨projects, none, false⟩ directory =
        ⟨0, String.join (texts.map (· ++ "\n")), none⟩ ∧
      resolution.graph.IsTree lines := by
  obtain ⟨hok, hresolution⟩ := Resolver.resolveRoots_of_assembleProjects h
  have hclosure : (program.compiler directory options).resolver.IsClosure
      (projects.map directory.join) resolution :=
    hresolution ▸ Resolver.isClosure_of_resolveRoots hnamed hok
  obtain ⟨hroots, hreached⟩ := hclosure.reached
  obtain ⟨shown, hshows⟩ := ProjectGraph.shows_tree hclosure.wellFormed
    (fun root hroot => ⟨root, hroots root hroot, Path.same_refl root⟩) none
  refine ⟨_, shown, _, hshows, TreeLine.forall₂_prints_iff.2 rfl, ?_,
    ProjectGraph.isTree_of_shows hclosure.wellFormed hroots hreached hshows⟩
  simp only [runTree, h, success, textOfLines]

end Program

/-! ## A shortcut -/

namespace FileSystem

/-- Projects with what they reference: a chain of four with a shortcut from the first one to the
third one. -/
def shortcutProjects : List (Path × List Path) :=
  [(⟨"/a"⟩, [⟨"/b"⟩, ⟨"/c"⟩]), (⟨"/b"⟩, [⟨"/c"⟩]), (⟨"/c"⟩, [⟨"/d"⟩]), (⟨"/d"⟩, [])]

/-- The descriptors of a chain of projects with a shortcut. -/
def shortcut : FileSystem :=
  flat [("a", forkText "b" "c"),
    ("b", "<Project ToolsVersion=\"4\"><ProjectReference Include=\"c\"/></Project>"),
    ("c", "<Project ToolsVersion=\"4\"><ProjectReference Include=\"d\"/></Project>"),
    ("d", "<Project ToolsVersion=\"4\"/>")]

theorem canonical_shortcut :
    ∀ entry ∈ shortcutProjects, shortcut.canonical entry.1 = .ok entry.1 := by
  simp only [shortcutProjects, List.forall_mem_cons, List.not_mem_nil, false_imp_iff, implies_true,
    and_true]
  refine ⟨?_, ?_, ?_, ?_⟩
  · exact canonical_flat "a" rfl (by decide) (by decide) (by decide)
  · exact canonical_flat "b" rfl (by decide) (by decide) (by decide)
  · exact canonical_flat "c" rfl (by decide) (by decide) (by decide)
  · exact canonical_flat "d" rfl (by decide) (by decide) (by decide)

theorem loadDescriptor_shortcut : ∀ entry ∈ shortcutProjects,
    shortcut.loadDescriptor entry.1 = .ok (plainDescriptor entry.1 entry.2) := by
  simp only [shortcutProjects, List.forall_mem_cons, List.not_mem_nil, false_imp_iff, implies_true,
    and_true]
  refine ⟨?_, ?_, ?_, ?_⟩
  · exact (loadDescriptor_flat "a" rfl (by decide) (by decide) (by decide)).trans
      (by decide +kernel)
  · exact (loadDescriptor_flat "b" rfl (by decide) (by decide) (by decide)).trans
      (by decide +kernel)
  · exact (loadDescriptor_flat "c" rfl (by decide) (by decide) (by decide)).trans
      (by decide +kernel)
  · exact (loadDescriptor_flat "d" rfl (by decide) (by decide) (by decide)).trans
      (by decide +kernel)

/-- What is referenced has an entry of its own. -/
theorem exists_mem_shortcutProjects : ∀ entry ∈ shortcutProjects, ∀ target ∈ entry.2,
    ∃ other ∈ shortcutProjects, other.1 = target := by
  decide

theorem references_shortcut {entry : Path × List Path} (hentry : entry ∈ shortcutProjects)
    (target : Path) : shortcut.References entry.1 target ↔ target ∈ entry.2 := by
  have hload := loadDescriptor_shortcut entry hentry
  have hcanonical : ∀ reference ∈ entry.2, shortcut.canonical reference = .ok reference := by
    intro reference hreference
    obtain ⟨other, hother, rfl⟩ := exists_mem_shortcutProjects entry hentry reference hreference
    exact canonical_shortcut other hother
  constructor
  · rintro ⟨descriptor, reference, hdescriptor, hreference, htarget⟩
    rw [← Except.ok.inj (hload.symm.trans hdescriptor)] at hreference
    rwa [← Except.ok.inj ((hcanonical reference hreference).symm.trans htarget)]
  · exact fun htarget => ⟨_, target, hload, htarget, hcanonical target htarget⟩

theorem intact_shortcut : shortcut.Intact [⟨"/a"⟩] := by
  refine intact_of_closed (shortcutProjects.map (·.1)) ?_ ?_
  · simp only [List.mem_singleton, forall_eq]
    exact ⟨⟨"/a"⟩, by decide, canonical_shortcut (⟨"/a"⟩, [⟨"/b"⟩, ⟨"/c"⟩]) (by decide)⟩
  · intro project hproject
    obtain ⟨entry, hentry, rfl⟩ := List.mem_map.1 hproject
    refine ⟨_, [], loadDescriptor_shortcut entry hentry, sources_plainDescriptor _ _ _, ?_⟩
    intro reference hreference
    obtain ⟨other, hother, rfl⟩ := exists_mem_shortcutProjects entry hentry reference hreference
    exact ⟨other.1, List.mem_map_of_mem hother, canonical_shortcut other hother⟩

theorem exists_entry_of_reachable {project : Path} (h : shortcut.Reachable [⟨"/a"⟩] project) :
    ∃ entry ∈ shortcutProjects, entry.1 = project := by
  refine h.induction (fun project => ∃ entry ∈ shortcutProjects, entry.1 = project) ?_ ?_
  · intro root hroot project hpath
    rw [List.mem_singleton.1 hroot,
      canonical_shortcut (⟨"/a"⟩, [⟨"/b"⟩, ⟨"/c"⟩]) (by decide)] at hpath
    exact ⟨(⟨"/a"⟩, [⟨"/b"⟩, ⟨"/c"⟩]), by decide, Except.ok.inj hpath⟩
  · rintro project target ⟨entry, hentry, rfl⟩ hreference
    exact exists_mem_shortcutProjects entry hentry target
      ((references_shortcut hentry target).1 hreference)

theorem reachable_shortcut :
    ∀ entry ∈ shortcutProjects, shortcut.Reachable [⟨"/a"⟩] entry.1 := by
  have hstep : ∀ entry ∈ shortcutProjects, ∀ target ∈ entry.2,
      shortcut.Reachable [⟨"/a"⟩] entry.1 → shortcut.Reachable [⟨"/a"⟩] target :=
    fun entry hentry target htarget hreachable =>
      hreachable.step ((references_shortcut hentry target).2 htarget)
  have ha : shortcut.Reachable [⟨"/a"⟩] ⟨"/a"⟩ := reachable_of_root List.mem_cons_self
    (canonical_shortcut (⟨"/a"⟩, [⟨"/b"⟩, ⟨"/c"⟩]) (by decide))
  have hb : shortcut.Reachable [⟨"/a"⟩] ⟨"/b"⟩ :=
    hstep (⟨"/a"⟩, [⟨"/b"⟩, ⟨"/c"⟩]) (by decide) _ (by decide) ha
  have hc : shortcut.Reachable [⟨"/a"⟩] ⟨"/c"⟩ :=
    hstep (⟨"/b"⟩, [⟨"/c"⟩]) (by decide) _ (by decide) hb
  have hd : shortcut.Reachable [⟨"/a"⟩] ⟨"/d"⟩ :=
    hstep (⟨"/c"⟩, [⟨"/d"⟩]) (by decide) _ (by decide) hc
  simp [shortcutProjects, ha, hb, hc, hd]

/-- References lead on in the order of the names. -/
theorem acyclic_shortcut : shortcut.Acyclic [⟨"/a"⟩] := by
  have hnext : ∀ entry ∈ shortcutProjects, ∀ target ∈ entry.2, entry.1.text < target.text := by
    decide
  have hstep : ∀ source target, shortcut.Reachable [⟨"/a"⟩] source →
      shortcut.References source target → source.text < target.text := by
    intro source target hreachable hreference
    obtain ⟨entry, hentry, rfl⟩ := exists_entry_of_reachable hreachable
    exact hnext entry hentry target ((references_shortcut hentry target).1 hreference)
  intro project hreachable hcircle
  have hafter : ∀ target, Relation.TransGen shortcut.References project target →
      shortcut.Reachable [⟨"/a"⟩] target ∧ project.text < target.text := by
    intro target hleads
    induction hleads with
    | single hreference => exact ⟨hreachable.step hreference, hstep _ _ hreachable hreference⟩
    | tail _ hreference ih =>
        exact ⟨ih.1.step hreference, String.lt_trans ih.2 (hstep _ _ ih.1 hreference)⟩
  exact String.lt_irrefl _ (hafter project hcircle).2

end FileSystem

/-- The lines of a graph of the projects with the shortcut. -/
theorem ProjectGraph.shows_shortcut {graph : ProjectGraph} (hroots : graph.roots = [⟨"/a"⟩])
    (hgraph : ∀ entry ∈ FileSystem.shortcutProjects,
      entry.1 ∈ graph.projects ∧ graph.references entry.1 = entry.2) :
    Shows graph none 0 graph.roots [] [⟨0, ⟨"/a"⟩, false⟩, ⟨1, ⟨"/b"⟩, false⟩, ⟨2, ⟨"/c"⟩, false⟩,
      ⟨3, ⟨"/d"⟩, false⟩, ⟨1, ⟨"/c"⟩, true⟩] [⟨"/d"⟩, ⟨"/c"⟩, ⟨"/b"⟩, ⟨"/a"⟩] := by
  simp only [FileSystem.shortcutProjects, List.forall_mem_cons, List.not_mem_nil, false_imp_iff,
    implies_true, and_true] at hgraph
  obtain ⟨⟨-, hreferencesA⟩, ⟨-, hreferencesB⟩, ⟨-, hreferencesC⟩, ⟨-, hreferencesD⟩⟩ := hgraph
  have hbelowD : Shows graph none 4 (graph.references ⟨"/d"⟩) [⟨"/d"⟩, ⟨"/c"⟩, ⟨"/b"⟩, ⟨"/a"⟩] []
      [⟨"/d"⟩, ⟨"/c"⟩, ⟨"/b"⟩, ⟨"/a"⟩] := by
    rw [hreferencesD]
    exact .done
  have hbelowC : Shows graph none 3 [⟨"/d"⟩] [⟨"/c"⟩, ⟨"/b"⟩, ⟨"/a"⟩] [⟨3, ⟨"/d"⟩, false⟩]
      [⟨"/d"⟩, ⟨"/c"⟩, ⟨"/b"⟩, ⟨"/a"⟩] := .first rfl (by decide) hbelowD .done
  rw [← hreferencesC] at hbelowC
  have hbelowB := Shows.first rfl (by decide) hbelowC .done
  rw [← hreferencesB] at hbelowB
  have hagain : Shows graph none 1 [⟨"/c"⟩] [⟨"/d"⟩, ⟨"/c"⟩, ⟨"/b"⟩, ⟨"/a"⟩]
      [⟨1, ⟨"/c"⟩, true⟩] _ := .again rfl (by decide) .done
  have hbelowA := Shows.first rfl (by decide) hbelowB hagain
  rw [← hreferencesA] at hbelowA
  rw [hroots]
  exact .first rfl rfl hbelowA .done

namespace Program

/-- The projects with the shortcut are assembled, and their graph has what their descriptors
reference. -/
theorem exists_assembleProjects_shortcut :
    ∃ resolution, (Program.compiler ⟨.shortcut, ⟨none, none, none, none⟩⟩ ⟨"/"⟩
        ⟨false, none, none⟩).resolver.assembleProjects ([⟨"a"⟩].map (Path.join ⟨"/"⟩)) =
          .ok resolution ∧
      resolution.graph.WellFormed ∧ resolution.graph.roots = [⟨"/a"⟩] ∧
      ∀ entry ∈ FileSystem.shortcutProjects, entry.1 ∈ resolution.graph.projects ∧
        resolution.graph.references entry.1 = entry.2 := by
  have hnamed : FileSystem.shortcut.WellNamed := FileSystem.wellNamed_flat _
  have hroots : [⟨"a"⟩].map (Path.join ⟨"/"⟩) = [⟨"/a"⟩] := by decide
  have hassembled : ∃ resolution, (Program.compiler ⟨.shortcut, ⟨none, none, none, none⟩⟩ ⟨"/"⟩
      ⟨false, none, none⟩).resolver.assembleProjects [⟨"/a"⟩] = .ok resolution :=
    Resolver.exists_assembleProjects hnamed rfl FileSystem.intact_shortcut
      FileSystem.acyclic_shortcut
  obtain ⟨resolution, hresolution⟩ := hassembled
  obtain ⟨hok, heq⟩ := Resolver.resolveRoots_of_assembleProjects hresolution
  have hclosure := heq ▸ Resolver.isClosure_of_resolveRoots hnamed hok
  have hascending : ∀ entry ∈ FileSystem.shortcutProjects,
      OrderedList.Ascending Path.compare entry.2 := by
    unfold OrderedList.Ascending
    decide
  refine ⟨resolution, hroots ▸ hresolution, hclosure.wellFormed, ?_, fun entry hentry => ?_⟩
  · obtain ⟨projects, hprojects, hrooted⟩ := hclosure.rooted
    cases hprojects with
    | cons hfirst hrest =>
        cases hrest
        have hcanonical := FileSystem.canonical_shortcut (⟨"/a"⟩, [⟨"/b"⟩, ⟨"/c"⟩]) (by decide)
        rw [hrooted, ← Except.ok.inj (hcanonical.symm.trans hfirst)]
        rfl
  · have hproject : entry.1 ∈ resolution.graph.projects :=
      (hclosure.projects entry.1).2 (FileSystem.reachable_shortcut entry hentry)
    refine ⟨hproject, OrderedList.Ascending.eq_of_mem_iff
      (ProjectGraph.ascending_references hclosure.wellFormed _) (hascending entry hentry) ?_⟩
    intro target
    rw [hclosure.edges entry.1 hproject target]
    exact FileSystem.references_shortcut hentry target

/-- The tree of the shortcut: the third project has its references below its first line, two levels
deep, and a marked line below the first project. -/
theorem runTree_whole_shortcut :
    ∃ resolution, (Program.compiler ⟨.shortcut, ⟨none, none, none, none⟩⟩ ⟨"/"⟩
        ⟨false, none, none⟩).resolver.assembleProjects ([⟨"a"⟩].map (Path.join ⟨"/"⟩)) =
          .ok resolution ∧
      ∃ lines,
        List.Forall₂ (TreeLine.Prints ⟨"/"⟩) lines
          ["a (a)", "├── b (b)", "│   ├── c (c)", "│   │   ├── d (d)", "├── c (c) (*)"] ∧
        Program.runTree ⟨.shortcut, ⟨none, none, none, none⟩⟩ ⟨false, none, none⟩
          ⟨[⟨"a"⟩], none, false⟩ ⟨"/"⟩ = ⟨0, "a (a)\n├── b (b)\n│   ├── c (c)\n│   │   ├── d (d)\n" ++
            "├── c (c) (*)\n", none⟩ ∧
        resolution.graph.IsTree lines := by
  obtain ⟨resolution, hresolution, -, hroots, hgraph⟩ := exists_assembleProjects_shortcut
  obtain ⟨lines, shown, texts, hshows, hprints, houtput, htree⟩ :=
    runTree_of_assembled (FileSystem.wellNamed_flat _) _ _ _ hresolution
  obtain ⟨rfl, -⟩ := hshows.unique (ProjectGraph.shows_shortcut hroots hgraph)
  have htexts : texts = ["a (a)", "├── b (b)", "│   ├── c (c)", "│   │   ├── d (d)",
      "├── c (c) (*)"] := by
    rw [← TreeLine.forall₂_prints_iff.1 hprints]
    decide
  subst htexts
  exact ⟨resolution, hresolution, _, hprints, houtput.trans (by decide), htree⟩

end Program
end ProjectAssembler
