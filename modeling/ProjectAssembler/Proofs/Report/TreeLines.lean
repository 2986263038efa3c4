import ProjectAssembler.Proofs.Project.Graphs
import ProjectAssembler.Report.ProjectTree

/-!
# The lines of the tree of projects

The lines of projects come about one project after the other: a project that has been shown gets a
marked line, any other one a line with the lines of its references below.  Nothing in this bounds
the number of levels but the depth that was asked for, and the bound that the tree is computed with
is never the reason for an end: on the way down there is always a further project that has not been
shown.

Main definitions:

* `ProjectGraph.Shows`: how the lines of projects come about;
* `TreeLine.EachPlace`: what holds of every line with the lines before it and after it;
* `TreeLine.directlyBelow`: the projects that are listed one level below a line.

Main results:

* `ProjectGraph.shows_tree`: the lines of the tree come about in this way;
* `ProjectGraph.Shows.heads`: the lines on the upper level are those of the projects, in their
  order;
* `ProjectGraph.Shows.marked`: a line is marked exactly when its project has been shown before;
* `ProjectGraph.Shows.listed`: below a line that is not marked its project's references are listed.
-/

namespace ProjectAssembler
namespace TreeLine

/-! ## Lines among others -/

/-- What holds of every line of a list together with the lines before it and after it. -/
def EachPlace (holds : List TreeLine → TreeLine → List TreeLine → Prop) (lines : List TreeLine) :
    Prop :=
  ∀ before line after, lines = before ++ line :: after → holds before line after

/-- The projects that are listed one level below a line, given the lines after it. -/
def directlyBelow (line : TreeLine) (after : List TreeLine) : List Path :=
  ((after.takeWhile fun next => line.depth < next.depth).filter
    fun next => next.depth == line.depth + 1).map project

/-- Whether lines show a project. -/
def AreShowing (lines : List TreeLine) (project : Path) : Prop :=
  ∃ line ∈ lines, line.project.same project = true

variable {holds : List TreeLine → TreeLine → List TreeLine → Prop} {lines more : List TreeLine}

theorem eachPlace_nil : EachPlace holds [] :=
  fun _ _ _ h => absurd h.symm (List.append_ne_nil_of_right_ne_nil _ (List.cons_ne_nil _ _))

theorem eachPlace_cons {first : TreeLine} (hfirst : holds [] first lines)
    (hrest : EachPlace (fun before => holds (first :: before)) lines) :
    EachPlace holds (first :: lines) := by
  intro before line after h
  cases before with
  | nil =>
      obtain ⟨rfl, rfl⟩ := List.cons.inj h
      exact hfirst
  | cons head before =>
      obtain ⟨rfl, heq⟩ := List.cons.inj h
      exact hrest before line after heq

theorem eachPlace_append
    (hlines : EachPlace (fun before line after => holds before line (after ++ more)) lines)
    (hmore : EachPlace (fun before => holds (lines ++ before)) more) :
    EachPlace holds (lines ++ more) := by
  intro before line after h
  rcases List.append_eq_append_iff.1 h with ⟨between, rfl, heq⟩ | ⟨between, rfl, heq⟩
  · exact hmore between line after heq
  · cases between with
    | nil =>
        rw [List.nil_append] at heq
        have hplace := hmore [] line after heq.symm
        rwa [List.append_nil, List.append_nil] at hplace
    | cons head between =>
        obtain ⟨rfl, rfl⟩ := List.cons.inj heq
        exact hlines before line between rfl

theorem EachPlace.imp {holds' : List TreeLine → TreeLine → List TreeLine → Prop}
    (h : EachPlace holds lines)
    (himp : ∀ before line after, holds before line after → holds' before line after) :
    EachPlace holds' lines :=
  fun before line after heq => himp before line after (h before line after heq)

@[simp]
theorem not_areShowing_nil (project : Path) : ¬ AreShowing [] project := by
  simp [AreShowing]

@[simp]
theorem areShowing_cons {line : TreeLine} {project : Path} :
    AreShowing (line :: lines) project ↔
      line.project.same project = true ∨ AreShowing lines project := by
  simp [AreShowing]

@[simp]
theorem areShowing_append {project : Path} :
    AreShowing (lines ++ more) project ↔ AreShowing lines project ∨ AreShowing more project := by
  simp [AreShowing, or_and_right, exists_or]

end TreeLine

namespace ProjectGraph

open TreeLine

variable {graph : ProjectGraph} {maxDepth : Option Nat}

/-! ## How lines come about -/

/-- Whether a depth is below the depth that the tree is shown to. -/
def isBeyond (maxDepth : Option Nat) (depth : Nat) : Bool :=
  maxDepth.any (· < depth)

/-- How the lines of projects at a depth come about, given the projects that have been shown before,
and which projects have been shown afterwards. -/
inductive Shows (graph : ProjectGraph) (maxDepth : Option Nat) :
    Nat → (projects seen : List Path) → (lines : List TreeLine) → (shown : List Path) → Prop where
  | done {depth : Nat} {seen : List Path} : Shows graph maxDepth depth [] seen [] seen
  /-- Below the depth that is shown nothing is shown. -/
  | beyond {depth : Nat} {project : Path} {rest seen : List Path} {lines : List TreeLine}
      {shown : List Path} (hdepth : isBeyond maxDepth depth = true)
      (hrest : Shows graph maxDepth depth rest seen lines shown) :
      Shows graph maxDepth depth (project :: rest) seen lines shown
  /-- A project that has been shown gets a marked line. -/
  | again {depth : Nat} {project : Path} {rest seen : List Path} {lines : List TreeLine}
      {shown : List Path} (hdepth : isBeyond maxDepth depth = false)
      (hseen : isSeen seen project = true)
      (hrest : Shows graph maxDepth depth rest seen lines shown) :
      Shows graph maxDepth depth (project :: rest) seen (⟨depth, project, true⟩ :: lines) shown
  /-- A project that has not been shown gets a line with the lines of its references below. -/
  | first {depth : Nat} {project : Path} {rest seen between : List Path}
      {inner lines : List TreeLine} {shown : List Path} (hdepth : isBeyond maxDepth depth = false)
      (hfresh : isSeen seen project = false)
      (hinner : Shows graph maxDepth (depth + 1) (graph.references project) (project :: seen) inner
        between)
      (hrest : Shows graph maxDepth depth rest between lines shown) :
      Shows graph maxDepth depth (project :: rest) seen
        (⟨depth, project, false⟩ :: (inner ++ lines)) shown

theorem isSeen_congr {seen : List Path} {p q : Path} (h : p.same q = true) :
    isSeen seen p = isSeen seen q := by
  have hhalf {p q : Path} (h : p.same q = true) (hseen : isSeen seen p = true) :
      isSeen seen q = true := by
    obtain ⟨own, hown, hsame⟩ := List.any_eq_true.1 hseen
    exact List.any_eq_true.2 ⟨own, hown, Path.same_trans hsame h⟩
  rw [Bool.eq_iff_iff]
  exact ⟨hhalf h, hhalf (Path.same_comm p q ▸ h)⟩

namespace Shows

variable {depth : Nat} {projects seen shown : List Path} {lines : List TreeLine}

/-- What has been shown afterwards is what was shown before and what the lines show. -/
theorem isSeen_iff (h : Shows graph maxDepth depth projects seen lines shown) (project : Path) :
    isSeen shown project = true ↔ isSeen seen project = true ∨ AreShowing lines project := by
  induction h with
  | done => simp
  | beyond _ _ ih => exact ih
  | again _ hseen _ ih =>
      rw [ih, areShowing_cons]
      constructor
      · rintro (h | h)
        · exact Or.inl h
        · exact Or.inr (Or.inr h)
      · rintro (h | h | h)
        · exact Or.inl h
        · exact Or.inl (isSeen_congr h ▸ hseen)
        · exact Or.inr h
  | @first _ other _ seen _ _ _ _ _ _ _ _ ihinner ihrest =>
      have hcons : isSeen (other :: seen) project = true ↔
          other.same project = true ∨ isSeen seen project = true := by
        simp [isSeen]
      simp only [ihrest, ihinner, hcons, areShowing_cons, areShowing_append, or_assoc, or_left_comm]

/-- The lines of projects are determined by what has been shown before. -/
theorem unique {lines' : List TreeLine} {shown' : List Path}
    (h : Shows graph maxDepth depth projects seen lines shown)
    (h' : Shows graph maxDepth depth projects seen lines' shown') :
    lines = lines' ∧ shown = shown' := by
  induction h generalizing lines' shown' with
  | done =>
      cases h'
      exact ⟨rfl, rfl⟩
  | beyond hdepth _ ih =>
      cases h' with
      | beyond _ hrest => exact ih hrest
      | again hshown | first hshown => simp [hdepth] at hshown
  | again hdepth hseen _ ih =>
      cases h' with
      | beyond hbeyond => simp [hdepth] at hbeyond
      | again _ _ hrest => exact ⟨by rw [(ih hrest).1], (ih hrest).2⟩
      | first _ hfresh => simp [hseen] at hfresh
  | first hdepth hfresh _ _ ihinner ihrest =>
      cases h' with
      | beyond hbeyond => simp [hdepth] at hbeyond
      | again _ hseen => simp [hfresh] at hseen
      | first _ _ hinner hrest =>
          obtain ⟨rfl, rfl⟩ := ihinner hinner
          obtain ⟨rfl, rfl⟩ := ihrest hrest
          exact ⟨rfl, rfl⟩

/-! ## Depths -/

/-- Lines are at the depth of their projects or below, but not beyond the depth that is shown. -/
theorem depth_le (h : Shows graph maxDepth depth projects seen lines shown) :
    ∀ line ∈ lines, depth ≤ line.depth ∧ isBeyond maxDepth line.depth = false := by
  induction h with
  | done => simp
  | beyond _ _ ih => exact ih
  | again hdepth _ _ ih => exact List.forall_mem_cons.2 ⟨⟨Nat.le_refl _, hdepth⟩, ih⟩
  | first hdepth _ _ _ ihinner ihrest =>
      refine List.forall_mem_cons.2 ⟨⟨Nat.le_refl _, hdepth⟩, List.forall_mem_append.2 ⟨?_, ihrest⟩⟩
      intro line hline
      exact ⟨Nat.le_of_succ_le (ihinner line hline).1, (ihinner line hline).2⟩

/-- The first line is at the depth of the projects. -/
theorem head?_depth (h : Shows graph maxDepth depth projects seen lines shown) :
    ∀ line ∈ lines.head?, line.depth = depth := by
  induction h with
  | done => simp
  | beyond _ _ ih => exact ih
  | again => simp
  | first => simp

/-- Below the depth that is shown there are no lines. -/
theorem eq_nil_of_isBeyond (h : Shows graph maxDepth depth projects seen lines shown)
    (hdepth : isBeyond maxDepth depth = true) : lines = [] := by
  induction h with
  | done => rfl
  | beyond _ _ ih => exact ih hdepth
  | again hshown => simp [hshown] at hdepth
  | first hshown => simp [hshown] at hdepth

/-- The lines on the upper level are those of the projects, in their order. -/
theorem heads (h : Shows graph maxDepth depth projects seen lines shown)
    (hdepth : isBeyond maxDepth depth = false) :
    (lines.filter (·.depth == depth)).map TreeLine.project = projects := by
  induction h with
  | done => rfl
  | beyond hbeyond => simp [hbeyond] at hdepth
  | again _ _ _ ih => simp [ih hdepth]
  | @first depth _ _ _ _ inner lines _ _ _ hinner _ _ ihrest =>
      have hlower : inner.filter (·.depth == depth) = [] := by
        refine List.filter_eq_nil_iff.2 fun line hline => ?_
        have := (hinner.depth_le line hline).1
        simp only [beq_iff_eq]
        omega
      simp [hlower, ihrest hdepth]

/-- The lines of projects end what stands below a line above them. -/
theorem takeWhile_append (h : Shows graph maxDepth depth projects seen lines shown)
    {tail : List TreeLine} (htail : ∀ next ∈ tail.head?, next.depth ≤ depth) :
    (lines ++ tail).takeWhile (fun next => depth < next.depth) = [] := by
  have hends {lines : List TreeLine} (hhead : ∀ next ∈ lines.head?, next.depth ≤ depth) :
      lines.takeWhile (fun next => depth < next.depth) = [] := by
    cases lines with
    | nil => rfl
    | cons next lines =>
        have := hhead next rfl
        rw [List.takeWhile_cons_of_neg]
        simpa using this
  cases lines with
  | nil => exact hends htail
  | cons line lines =>
      refine hends fun next hnext => ?_
      exact Nat.le_of_eq (h.head?_depth next hnext)

/-! ## Marks and references -/

/-- A line is marked exactly when its project has been shown before. -/
theorem marked (h : Shows graph maxDepth depth projects seen lines shown) :
    EachPlace (fun before line _ => line.repeated = true ↔
      isSeen seen line.project = true ∨ AreShowing before line.project) lines := by
  induction h with
  | done => exact eachPlace_nil
  | beyond _ _ ih => exact ih
  | again _ hseen _ ih =>
      refine eachPlace_cons (by simp [hseen]) (ih.imp fun before line _ hplace => ?_)
      rw [hplace, areShowing_cons]
      constructor
      · rintro (h | h)
        · exact Or.inl h
        · exact Or.inr (Or.inr h)
      · rintro (h | h | h)
        · exact Or.inl h
        · exact Or.inl (isSeen_congr h ▸ hseen)
        · exact Or.inr h
  | @first _ project _ seen _ inner _ _ _ hfresh hinner _ ihinner ihrest =>
      have hcons (other : Path) : isSeen (project :: seen) other = true ↔
          project.same other = true ∨ isSeen seen other = true := by
        simp [isSeen]
      refine eachPlace_cons (by simp [hfresh]) (eachPlace_append ?_ ?_)
      · refine ihinner.imp fun before line _ hplace => ?_
        simp only [hplace, hcons, areShowing_cons, or_assoc, or_left_comm]
      · refine ihrest.imp fun before line _ hplace => ?_
        simp only [hplace, hinner.isSeen_iff, hcons, areShowing_cons, areShowing_append, or_assoc,
          or_left_comm]

/-- One level below a line its project's references are listed in their order, unless the line is
marked or nothing more is shown below it. -/
theorem listed (h : Shows graph maxDepth depth projects seen lines shown) :
    EachPlace (fun _ line after => ∀ tail : List TreeLine,
      (∀ next ∈ tail.head?, next.depth ≤ depth) →
      line.directlyBelow (after ++ tail) =
        if line.repeated || isBeyond maxDepth (line.depth + 1) then []
        else graph.references line.project) lines := by
  induction h with
  | done => exact eachPlace_nil
  | beyond _ _ ih => exact ih
  | again _ _ hrest ih =>
      refine eachPlace_cons (fun tail htail => ?_) ih
      simp only [directlyBelow, hrest.takeWhile_append htail]
      rfl
  | @first depth project _ _ _ inner lines _ _ _ hinner hrest ihinner ihrest =>
      refine eachPlace_cons (fun tail htail => ?_) (eachPlace_append ?_ ihrest)
      · have hbelow : ∀ line ∈ inner, decide (depth < line.depth) = true :=
          fun line hline => decide_eq_true (hinner.depth_le line hline).1
        simp only [directlyBelow, List.append_assoc, List.takeWhile_append_of_pos hbelow,
          hrest.takeWhile_append htail, List.append_nil, Bool.false_or]
        cases hdepth : isBeyond maxDepth (depth + 1) with
        | true =>
            rw [hinner.eq_nil_of_isBeyond hdepth]
            rfl
        | false => exact hinner.heads hdepth
      · refine ihinner.imp fun _ line after hplace tail htail => ?_
        rw [List.append_assoc]
        refine hplace (lines ++ tail) fun next hnext => ?_
        cases lines with
        | nil => exact Nat.le_succ_of_le (htail next hnext)
        | cons line lines =>
            exact Nat.le_succ_of_le (Nat.le_of_eq (hrest.head?_depth next hnext))

end Shows

/-! ## The bound on the number of levels -/

/-- The number of projects that have not been shown. -/
def unshown (graph : ProjectGraph) (seen : List Path) : Nat :=
  (graph.projects.filter fun own => !isSeen seen own).length

theorem unshown_cons_lt {seen : List Path} {project : Path} (hproject : graph.Has project)
    (hfresh : isSeen seen project = false) :
    graph.unshown (project :: seen) < graph.unshown seen := by
  obtain ⟨own, hown, hsame⟩ := hproject
  have hfilter : (graph.projects.filter fun other => !isSeen (project :: seen) other) =
      (graph.projects.filter fun other => !isSeen seen other).filter
        fun other => !project.same other := by
    rw [List.filter_filter]
    simp [isSeen]
  unfold unshown
  rw [hfilter]
  refine List.length_filter_lt_length_iff_exists.2 ⟨own, List.mem_filter.2 ⟨hown, ?_⟩, ?_⟩
  · rw [isSeen_congr hsame, hfresh]
    rfl
  · rw [Path.same_comm, hsame]
    simp

theorem unshown_le {seen shown : List Path}
    (h : ∀ project, isSeen seen project = true → isSeen shown project = true) :
    graph.unshown shown ≤ graph.unshown seen := by
  unfold unshown
  rw [← List.countP_eq_length_filter, ← List.countP_eq_length_filter]
  refine List.countP_mono_left fun own _ hown => ?_
  cases hseen : isSeen seen own with
  | true => simp [h own hseen] at hown
  | false => rfl

/-- Whether so many levels at a depth are not the reason for an end: they end where the depth ends
that is shown, or there are more of them than projects that can still be shown, and so many projects
do not lead beyond that depth. -/
def Suffices (graph : ProjectGraph) (maxDepth : Option Nat) (levels depth : Nat)
    (seen : List Path) : Prop :=
  (∃ limit, maxDepth = some limit ∧ depth + levels = limit + 1) ∨
    graph.unshown seen < levels ∧
      ∀ limit, maxDepth = some limit → depth + graph.unshown seen ≤ limit

namespace Suffices

variable {levels depth : Nat} {seen shown : List Path}

theorem isBeyond_of_zero (h : graph.Suffices maxDepth 0 depth seen) :
    isBeyond maxDepth depth = true := by
  rcases h with ⟨limit, rfl, hlimit⟩ | ⟨hlevels, -⟩
  · simp only [isBeyond, Option.any_some, decide_eq_true_eq]
    omega
  · exact absurd hlevels (Nat.not_lt_zero _)

theorem not_isBeyond (h : graph.Suffices maxDepth (levels + 1) depth seen) :
    isBeyond maxDepth depth = false := by
  cases maxDepth with
  | none => rfl
  | some limit =>
      have hdepth : depth ≤ limit := by
        rcases h with ⟨_, heq, hlimit⟩ | ⟨-, hlimit⟩
        · obtain rfl := Option.some.inj heq
          omega
        · exact Nat.le_trans (Nat.le_add_right _ _) (hlimit limit rfl)
      simp only [isBeyond, Option.any_some, decide_eq_false_iff_not]
      omega

/-- One level below a project that is shown for the first time, one level less suffices. -/
theorem inside (h : graph.Suffices maxDepth (levels + 1) depth seen) {project : Path}
    (hproject : graph.Has project) (hfresh : isSeen seen project = false) :
    graph.Suffices maxDepth levels (depth + 1) (project :: seen) := by
  have hless : graph.unshown (project :: seen) < graph.unshown seen :=
    unshown_cons_lt hproject hfresh
  rcases h with ⟨limit, hlimit, hend⟩ | ⟨hlevels, hlimit⟩
  · exact Or.inl ⟨limit, hlimit, by omega⟩
  · refine Or.inr ⟨by omega, fun limit heq => ?_⟩
    have := hlimit limit heq
    omega

/-- What suffices still does when more projects have been shown. -/
theorem later (h : graph.Suffices maxDepth levels depth seen)
    (hshown : ∀ project, isSeen seen project = true → isSeen shown project = true) :
    graph.Suffices maxDepth levels depth shown := by
  have hless : graph.unshown shown ≤ graph.unshown seen := unshown_le hshown
  rcases h with hend | ⟨hlevels, hlimit⟩
  · exact Or.inl hend
  · refine Or.inr ⟨by omega, fun limit heq => ?_⟩
    have := hlimit limit heq
    omega

end Suffices

/-- What a graph lists as references are its projects. -/
theorem has_of_mem_references (h : graph.WellFormed) {project target : Path}
    (htarget : target ∈ graph.references project) : graph.Has target :=
  ⟨target, ((mem_references_iff h).1 htarget).1, Path.same_refl target⟩

/-- Where the number of levels suffices, the lines of projects come about as without it. -/
theorem shows_collect (h : graph.WellFormed) {levels depth : Nat} {projects seen : List Path}
    (hprojects : ∀ project ∈ projects, graph.Has project)
    (hlevels : graph.Suffices maxDepth levels depth seen) :
    Shows graph maxDepth depth projects seen
      (TreeDraft.collect (graph.branch false levels depth) projects seen).lines
      (TreeDraft.collect (graph.branch false levels depth) projects seen).seen := by
  induction levels generalizing depth projects seen with
  | zero =>
      induction projects with
      | nil => exact .done
      | cons project rest ih =>
          exact .beyond hlevels.isBeyond_of_zero (ih (List.forall_mem_cons.1 hprojects).2)
  | succ levels ihlevels =>
      induction projects generalizing seen with
      | nil => exact .done
      | cons project rest ihrest =>
          obtain ⟨hproject, hrest⟩ := List.forall_mem_cons.1 hprojects
          cases hseen : isSeen seen project with
          | true =>
              simp only [TreeDraft.collect, branch_of_seen hseen]
              exact .again hlevels.not_isBeyond hseen (ihrest hrest hlevels)
          | false =>
              have hreferences : ∀ target ∈ graph.references project, graph.Has target :=
                fun target htarget => has_of_mem_references h htarget
              have hinner := ihlevels hreferences (hlevels.inside hproject hseen)
              have hlater : graph.Suffices maxDepth (levels + 1) depth _ :=
                hlevels.later fun other hother =>
                  (hinner.isSeen_iff other).2 (Or.inl (by
                    rw [isSeen, List.any_cons, Bool.or_eq_true]
                    exact Or.inr hother))
              simp only [TreeDraft.collect, branch_of_fresh hseen]
              exact .first hlevels.not_isBeyond hseen hinner (ihrest hrest hlater)

/-- The lines of the tree come about without a bound on the number of levels, whatever references
the graph has. -/
theorem shows_tree (h : graph.WellFormed) (hroots : ∀ root ∈ graph.roots, graph.Has root)
    (maxDepth : Option Nat) :
    ∃ shown, Shows graph maxDepth 0 graph.roots [] (graph.tree maxDepth false) shown := by
  have hunshown : graph.unshown [] = graph.size := by
    have hall : (graph.projects.filter fun own => !isSeen [] own) = graph.projects :=
      List.filter_eq_self.2 fun _ _ => rfl
    rw [unshown, hall, size]
  have hlevels : graph.Suffices maxDepth (graph.levels maxDepth) 0 [] := by
    cases maxDepth with
    | none => exact Or.inr ⟨by rw [levels, hunshown]; exact Nat.lt_succ_self _, by simp⟩
    | some limit =>
        rcases Nat.le_total (limit + 1) (graph.size + 1) with hle | hle
        · exact Or.inl ⟨limit, rfl, by rw [levels]; omega⟩
        · refine Or.inr ⟨?_, fun other heq => ?_⟩
          · rw [levels, hunshown]
            omega
          · obtain rfl := Option.some.inj heq
            omega
  exact ⟨_, shows_collect h hroots hlevels⟩

end ProjectGraph
end ProjectAssembler
