import ProjectAssembler.Proofs.Sources.Wildcards

/-!
# The order and the extent of a walk

What a walk meets is what names lead to from its beginning, through directories none of which is
pruned and without passing a link.  A directory is met before what lies in it, and everything in an
entry comes before everything in an entry with a greater name, so the paths that are met ascend
component by component.  A walk from a directory fails only where one below has a path that is too
long to be read.

Main definitions:

* `Path.below`: a path continued by names;
* `FileSystem.KeptBelow`: whether a directory and all below it are well kept;
* `FileSystem.ShortBelow`: whether the directories below one have paths that can be read.

Main results:

* `FileSystem.mem_walk_iff_descend`: what a walk meets;
* `FileSystem.ascending_walk`: the order in which it is met;
* `FileSystem.readDirectory_below`: what names lead to from a directory;
* `FileSystem.walkable_iff_shortBelow` and `FileSystem.exists_of_visits_error`: when a walk fails;
* `FileSystem.mem_sourcesAmong_iff`: the sources among what is met;
* `FileSystem.discover_ascending`: the sources that are discovered, and where a walk for them fails.
-/

namespace ProjectAssembler

/-! ## Paths continued by names -/

namespace Path

/-- A path continued by names. -/
def below (path : Path) (names : List String) : Path :=
  names.foldl child path

@[simp]
theorem below_nil (path : Path) : path.below [] = path :=
  rfl

@[simp]
theorem below_cons (path : Path) (name : String) (names : List String) :
    path.below (name :: names) = (path.child name).below names :=
  rfl

/-- A path continued by names has the names as further components. -/
theorem components_below {names : List String} (h : ∀ name ∈ names, IsName name) (path : Path) :
    (path.below names).components = path.components ++ names.map .name := by
  induction names generalizing path with
  | nil => simp
  | cons name names ih =>
      obtain ⟨hname, hnames⟩ := List.forall_mem_cons.1 h
      rw [below_cons, ih hnames, components_child hname, List.map_cons, List.append_assoc,
        List.singleton_append]

/-- A continued path is not shorter. -/
theorem utf8ByteSize_le_child (path : Path) {name : String}
    (hname : isAbsolute ⟨name⟩ = false) :
    path.text.utf8ByteSize ≤ (path.child name).text.utf8ByteSize := by
  obtain ⟨rest, hrest⟩ : ∃ rest, (path.child name).text = path.text ++ rest :=
    exists_text_join path hname
  rw [hrest, String.utf8ByteSize_append]
  exact Nat.le_add_right _ _

/-- A path continued by names is not shorter. -/
theorem utf8ByteSize_le_below (path : Path) {names : List String}
    (hnames : ∀ name ∈ names, IsName name) :
    path.text.utf8ByteSize ≤ (path.below names).text.utf8ByteSize := by
  induction names generalizing path with
  | nil => exact Nat.le_refl _
  | cons name names ih =>
      obtain ⟨hname, hnames⟩ := List.forall_mem_cons.1 hnames
      exact (utf8ByteSize_le_child path (isAbsolute_of_isName hname)).trans (ih _ hnames)

/-- Common components make no difference to the order. -/
theorem compareComponents_append (common first second : List Component) :
    compareComponents (common ++ first) (common ++ second) = compareComponents first second := by
  induction common with
  | nil => rfl
  | cons component common ih =>
      rw [List.cons_append, List.cons_append, compareComponents, Component.compare_eq_iff.2 rfl]
      exact ih

/-- A path comes before those that continue it. -/
theorem compare_below_of_cons {name : String} {names : List String}
    (h : ∀ other ∈ name :: names, IsName other) (path : Path) :
    path.compare (path.below (name :: names)) = .lt := by
  have happend := compareComponents_append path.components [] ((name :: names).map .name)
  rw [List.append_nil, ← components_below h] at happend
  exact happend

/-- Paths that continue a path by different names first come in the order of these names. -/
theorem compare_below_of_lt {name other : String} {names others : List String}
    (hnames : ∀ each ∈ name :: names, IsName each) (hothers : ∀ each ∈ other :: others, IsName each)
    (h : Ord.compare name other = .lt) (path : Path) :
    (path.below (name :: names)).compare (path.below (other :: others)) = .lt := by
  rw [compare, components_below hnames, components_below hothers, compareComponents_append,
    List.map_cons, List.map_cons, compareComponents, Component.compare, h]

end Path

namespace FileSystem

variable {system : FileSystem} {entries : Entries}

/-! ## Well kept directories -/

/-- Whether a directory and all directories below it are well kept. -/
def KeptBelow (entries : Entries) : Prop :=
  ∀ location inner, (Node.directory entries).descend? location = some (.directory inner) →
    WellKept inner

namespace KeptBelow

theorem wellKept (h : KeptBelow entries) : WellKept entries :=
  h [] entries (Node.descend?_nil _)

/-- The directories in a directory are well kept too. -/
theorem child (h : KeptBelow entries) {name : String} {inner : Entries}
    (hentry : (name, .directory inner) ∈ entries) : KeptBelow inner := by
  intro location deeper hdeeper
  refine h (name :: location) deeper ?_
  rw [Node.descend?, h.wellKept.lookup hentry]
  exact hdeeper

/-- What holds of a directory if it holds of those in it holds of every well kept directory. -/
theorem induction {motive : (entries : Entries) → KeptBelow entries → Prop}
    (step : ∀ entries (h : KeptBelow entries),
      (∀ name inner (hentry : (name, Node.directory inner) ∈ entries),
        motive inner (h.child hentry)) → motive entries h)
    (entries : Entries) (h : KeptBelow entries) : motive entries h := by
  refine step entries h fun name inner hentry => ?_
  have hsmaller : sizeOf inner < sizeOf entries := by
    have hmem := List.sizeOf_lt_of_mem hentry
    simp only [Prod.mk.sizeOf_spec, Node.directory.sizeOf_spec] at hmem
    omega
  exact induction step inner (h.child hentry)
termination_by sizeOf entries

/-- Names lead on through entries. -/
theorem descend?_cons_iff (h : KeptBelow entries) {name : String} {names : List String}
    {node : Node} : (Node.directory entries).descend? (name :: names) = some node ↔
      ∃ first, (name, first) ∈ entries ∧ first.descend? names = some node := by
  rw [Node.descend?]
  constructor
  · intro hdescend
    split at hdescend
    · rename_i first hlookup
      obtain ⟨before, after, rfl, -⟩ := List.lookup_eq_some_iff.1 hlookup
      exact ⟨first, List.mem_append_right _ List.mem_cons_self, hdescend⟩
    · contradiction
  · rintro ⟨first, hentry, hfirst⟩
    rw [h.wellKept.lookup hentry]
    exact hfirst

/-- The names that lead to something are proper. -/
theorem isName_of_descend? (h : KeptBelow entries) {names : List String} {node : Node}
    (hnames : (Node.directory entries).descend? names = some node) :
    ∀ name ∈ names, Path.IsName name := by
  induction names generalizing entries with
  | nil => exact nofun
  | cons name names ih =>
      obtain ⟨first, hentry, hfirst⟩ := h.descend?_cons_iff.1 hnames
      refine List.forall_mem_cons.2 ⟨(h.wellKept.named _ hentry).1, ?_⟩
      cases first with
      | directory inner => exact ih (h.child hentry) hfirst
      | file text =>
          cases names with
          | nil => exact nofun
          | cons other names => cases hfirst
      | link target =>
          cases names with
          | nil => exact nofun
          | cons other names => cases hfirst

end KeptBelow

/-- The directory at a path of a well formed file system is well kept with all below it. -/
theorem keptBelow_of_find? (hsystem : system.WellFormed) {path : Path}
    (h : system.find? path = some (.directory entries)) : KeptBelow entries := by
  unfold find? at h
  split at h
  · rename_i place _
    cases place with
    | removed =>
        obtain rfl := Node.directory.inj (Option.some.inj h)
        intro location inner hinner
        cases location with
        | nil =>
            obtain rfl := Node.directory.inj (Option.some.inj hinner)
            exact wellKept_nil
        | cons name names => cases hinner
    | standing there =>
        intro location inner hinner
        refine hsystem (there ++ location) inner ?_
        rw [node?, Node.descend?_append]
        exact (congrArg (·.bind (·.descend? location)) h).trans hinner
  · contradiction

/-! ## What a walk meets -/

/-- A walk meets what names lead to through directories that are not pruned. -/
theorem mem_walk_iff_descend (h : KeptBelow entries) {path : Path} {visit : Visit} :
    visit ∈ (Node.directory entries).walk path ↔
      ∃ names name, (Node.directory entries).descend? (names ++ [name]) = some visit.node ∧
        (∀ each ∈ names, Path.isBuildOutput each = false) ∧
        visit.node.isPruned name = false ∧ visit.path = path.below (names ++ [name]) := by
  induction entries, h using KeptBelow.induction generalizing path with
  | step entries h ih =>
      rw [mem_walk_directory h.wellKept]
      constructor
      · rintro ⟨name, node, hentry, hpruned, rfl | ⟨inner, rfl, hbelow⟩⟩
        · exact ⟨[], name, h.descend?_cons_iff.2 ⟨node, hentry, Node.descend?_nil node⟩, nofun,
            hpruned, rfl⟩
        · obtain ⟨names, last, hdescend, hnames, hlast, hpath⟩ := (ih name inner hentry).1 hbelow
          exact ⟨name :: names, last, h.descend?_cons_iff.2 ⟨_, hentry, hdescend⟩,
            List.forall_mem_cons.2 ⟨hpruned, hnames⟩, hlast, hpath⟩
      · rintro ⟨names, last, hdescend, hnames, hlast, hpath⟩
        cases names with
        | nil =>
            obtain ⟨node, hentry, hnode⟩ := h.descend?_cons_iff.1 hdescend
            rw [Node.descend?_nil, Option.some.injEq] at hnode
            subst hnode
            exact ⟨last, visit.node, hentry, hlast,
              Or.inl (congrArg (Visit.mk · visit.node) hpath)⟩
        | cons name names =>
            obtain ⟨node, hentry, hnode⟩ := h.descend?_cons_iff.1 hdescend
            obtain ⟨hname, hnames⟩ := List.forall_mem_cons.1 hnames
            cases node with
            | directory inner =>
                exact ⟨name, _, hentry, hname, Or.inr ⟨inner, rfl,
                  (ih name inner hentry).2 ⟨names, last, hnode, hnames, hlast, hpath⟩⟩⟩
            | file text => cases names <;> cases hnode
            | link target => cases names <;> cases hnode

/-! ## Directories that names lead to -/

section Below

variable {path : Path} {inner : Entries} {names : List String}

/-- Names lead to a directory from a directory alone. -/
theorem exists_directory_of_descend? {node : Node}
    (h : node.descend? names = some (.directory inner)) : ∃ entries, node = .directory entries := by
  cases node with
  | directory entries => exact ⟨entries, rfl⟩
  | file text => cases names <;> cases h
  | link target => cases names <;> cases h

/-- Names that lead to a directory inside of one can be read there, if the path is not too long. -/
theorem readDirectory_below (hsystem : system.WellFormed)
    (h : system.readDirectory path = .ok entries)
    (hdescend : (Node.directory entries).descend? names = some (.directory inner))
    (hlength : (path.below names).text.utf8ByteSize < pathLimit) :
    system.readDirectory (path.below names) = .ok inner := by
  have hkept := keptBelow_of_find? hsystem (readDirectory_eq_ok_iff.1 h)
  have hnames := hkept.isName_of_descend? hdescend
  induction names generalizing path entries with
  | nil =>
      obtain rfl := Node.directory.inj (Option.some.inj hdescend)
      exact h
  | cons name names ih =>
      obtain ⟨first, hentry, hfirst⟩ := hkept.descend?_cons_iff.1 hdescend
      obtain ⟨hname, hnames⟩ := List.forall_mem_cons.1 hnames
      obtain ⟨deeper, rfl⟩ := exists_directory_of_descend? hfirst
      have hshort : (path.child name).text.utf8ByteSize < pathLimit :=
        (Path.utf8ByteSize_le_below _ hnames).trans_lt hlength
      exact ih (readDirectory_child hsystem h hentry hshort) hfirst hlength (hkept.child hentry)
        hnames

end Below

/-! ## The order of a walk -/

/-- What is met at an entry of a directory lies below the entry. -/
theorem exists_below_of_mem_walk (h : KeptBelow entries) {path : Path} {name : String} {node : Node}
    (hentry : (name, node) ∈ entries) {visit : Visit}
    (hvisit : visit ∈ node.walk (path.child name)) :
    ∃ other names, (∀ each ∈ other :: names, Path.IsName each) ∧
      visit.path = (path.child name).below (other :: names) := by
  obtain ⟨inner, rfl, hbelow⟩ := mem_walk_iff_directory.1 hvisit
  have hinner := h.child hentry
  obtain ⟨names, last, hdescend, -, -, hpath⟩ := (mem_walk_iff_descend hinner).1 hbelow
  have hnames := hinner.isName_of_descend? hdescend
  obtain ⟨other, others, hlist⟩ := List.exists_cons_of_ne_nil
    (List.append_ne_nil_of_right_ne_nil names (List.cons_ne_nil last []))
  rw [hlist] at hnames hpath
  exact ⟨other, others, hnames, hpath⟩

/-- What is met at the entries of a directory lies below the directory by their names. -/
theorem exists_below_of_mem_walkEach (h : KeptBelow entries) {path : Path} {each : Visits}
    (heach : each ∈ walkEach path entries) {visit : Visit} (hvisit : visit ∈ each.2) :
    ∃ names, (∀ name ∈ each.1 :: names, Path.IsName name) ∧
      visit.path = path.below (each.1 :: names) := by
  rw [walkEach_eq_map] at heach
  obtain ⟨⟨name, node⟩, hentry, rfl⟩ := List.mem_map.1 heach
  have hname := (h.wellKept.named _ hentry).1
  dsimp only at hvisit ⊢
  split at hvisit
  · exact absurd hvisit List.not_mem_nil
  · rcases List.mem_cons.1 hvisit with rfl | hbelow
    · exact ⟨[], List.forall_mem_singleton.2 hname, rfl⟩
    · obtain ⟨other, names, hnames, hpath⟩ := exists_below_of_mem_walk h hentry hbelow
      exact ⟨other :: names, List.forall_mem_cons.2 ⟨hname, hnames⟩, hpath⟩

/-- What a walk meets ascends: a directory comes before what lies in it, and what lies in different
entries comes in the order of their names. -/
theorem ascending_walk (h : KeptBelow entries) (path : Path) :
    ((Node.directory entries).walk path).Pairwise fun a b => a.path.compare b.path = .lt := by
  induction entries, h using KeptBelow.induction generalizing path with
  | step entries h ih =>
      have hlist : OrderedList.ofList (fun a b : Visits => Ord.compare a.1 b.1) =
          OrderedList.ofList (compareOn Prod.fst) := rfl
      have hmem : ∀ each ∈ OrderedList.ofList (compareOn Prod.fst) (walkEach path entries),
          each ∈ walkEach path entries :=
        fun each heach => (mem_ofList heach).resolve_right List.not_mem_nil
      rw [Node.walk, arrange, hlist, List.pairwise_flatMap]
      constructor
      · intro each heach
        have hvisits := hmem each heach
        rw [walkEach_eq_map] at hvisits
        obtain ⟨⟨name, node⟩, hentry, rfl⟩ := List.mem_map.1 hvisits
        dsimp only
        split
        · exact List.Pairwise.nil
        · refine List.pairwise_cons.2 ⟨fun visit hvisit => ?_, ?_⟩
          · obtain ⟨other, names, hnames, hpath⟩ := exists_below_of_mem_walk h hentry hvisit
            rw [hpath]
            exact Path.compare_below_of_cons hnames _
          · cases node with
            | directory inner => exact ih name inner hentry _
            | file text => exact List.Pairwise.nil
            | link target => exact List.Pairwise.nil
      · refine (OrderedList.ascending_ofList _).imp_of_mem ?_
        intro first second hfirst hsecond hlt visit hvisit other hother
        obtain ⟨names, hnames, hpath⟩ := exists_below_of_mem_walkEach h (hmem _ hfirst) hvisit
        obtain ⟨others, hothers, hpath'⟩ := exists_below_of_mem_walkEach h (hmem _ hsecond) hother
        rw [hpath, hpath']
        exact Path.compare_below_of_lt hnames hothers hlt _

/-! ## The sources that are discovered -/

/-- Whether the directories that names lead to, through none that holds build output, have paths that
are short enough to be read. -/
def ShortBelow (root : Path) (entries : Entries) : Prop :=
  ∀ names inner, (Node.directory entries).descend? names = some (.directory inner) →
    (∀ each ∈ names, each ≠ "bin" ∧ each ≠ "obj") →
    (root.below names).text.utf8ByteSize < pathLimit

theorem isBuildOutput_eq_false_iff {name : String} :
    Path.isBuildOutput name = false ↔ name ≠ "bin" ∧ name ≠ "obj" := by
  simp [Path.isBuildOutput]

/-- A directory is met where names lead to it. -/
theorem mem_walk_directory_iff_descend (h : KeptBelow entries) {root place : Path}
    {inner : Entries} :
    ⟨place, .directory inner⟩ ∈ (Node.directory entries).walk root ↔
      ∃ names, names ≠ [] ∧ (Node.directory entries).descend? names = some (.directory inner) ∧
        (∀ each ∈ names, each ≠ "bin" ∧ each ≠ "obj") ∧ place = root.below names := by
  rw [mem_walk_iff_descend h]
  simp only [Node.isPruned, Node.isDirectory, Bool.true_and, ← isBuildOutput_eq_false_iff]
  constructor
  · rintro ⟨names, name, hdescend, hnames, hname, hplace⟩
    exact ⟨names ++ [name], List.append_ne_nil_of_right_ne_nil names (List.cons_ne_nil name []),
      hdescend, List.forall_mem_append.2 ⟨hnames, List.forall_mem_singleton.2 hname⟩, hplace⟩
  · rintro ⟨names, hne, hdescend, hnames, hplace⟩
    obtain ⟨front, last, rfl⟩ := (List.eq_nil_or_concat' names).resolve_left hne
    obtain ⟨hfront, hlast⟩ := List.forall_mem_append.1 hnames
    exact ⟨front, last, hdescend, hfront, hlast last (List.mem_singleton_self last), hplace⟩

/-- A walk can read everything below a directory exactly where no path is too long. -/
theorem walkable_iff_shortBelow (hsystem : system.WellFormed) {root : Path}
    (hread : system.readDirectory root = .ok entries) :
    Walkable system root entries ↔ ShortBelow root entries := by
  have hkept := keptBelow_of_find? hsystem (readDirectory_eq_ok_iff.1 hread)
  constructor
  · intro h names inner hdescend hnames
    by_cases hne : names = []
    · rw [hne]
      exact utf8ByteSize_lt_of_readDirectory hread
    · exact h.short _ ((mem_walk_directory_iff_descend hkept).2
        ⟨names, hne, hdescend, hnames, rfl⟩) rfl
  · intro h
    refine ⟨hread, fun ⟨place, node⟩ hvisit hkind => ?_⟩
    cases node with
    | file text => cases hkind
    | link target => cases hkind
    | directory inner =>
        obtain ⟨names, -, hdescend, hnames, rfl⟩ := (mem_walk_directory_iff_descend hkept).1 hvisit
        exact h names inner hdescend hnames

/-- A directory that a walk enters and cannot read has a path that is too long. -/
theorem long_of_mem_entered (hsystem : system.WellFormed) {root place : Path}
    (hread : system.readDirectory root = .ok entries) (hplace : place ∈ system.entered root)
    {cause : AccessError} (hfailed : system.readDirectory place = .error cause) :
    ∃ names inner, (Node.directory entries).descend? names = some (.directory inner) ∧
      place = root.below names ∧ pathLimit ≤ place.text.utf8ByteSize ∧ cause = .other := by
  have hkept := keptBelow_of_find? hsystem (readDirectory_eq_ok_iff.1 hread)
  rcases mem_entered_iff.1 hplace with rfl | ⟨inner, hmet⟩
  · rw [hread] at hfailed
    cases hfailed
  · rw [walk_of_readDirectory hread] at hmet
    obtain ⟨names, -, hdescend, -, rfl⟩ := (mem_walk_directory_iff_descend hkept).1 hmet
    have hlong : pathLimit ≤ (root.below names).text.utf8ByteSize := by
      by_contra hshort
      rw [readDirectory_below hsystem hread hdescend (Nat.lt_of_not_le hshort)] at hfailed
      cases hfailed
    rw [readDirectory_of_long hlong] at hfailed
    exact ⟨names, inner, hdescend, rfl, hlong, (Except.error.inj hfailed).symm⟩

/-- So a walk from a directory fails only at such a directory. -/
theorem exists_of_visits_error (hsystem : system.WellFormed) {root : Path}
    (hread : system.readDirectory root = .ok entries) {error : SourceError}
    (h : system.visits root = .error error) :
    ∃ names inner, (Node.directory entries).descend? names = some (.directory inner) ∧
      pathLimit ≤ (root.below names).text.utf8ByteSize ∧
      error = .walk root (root.below names) .other := by
  obtain ⟨place, hplace, cause, hfailed, rfl⟩ := exists_of_obstacle? (visits_eq_error_iff.1 h)
  obtain ⟨names, inner, hdescend, rfl, hlong, rfl⟩ :=
    long_of_mem_entered hsystem hread hplace hfailed
  exact ⟨names, inner, hdescend, hlong, rfl⟩

/-- The sources that a walk discovers are the regular files with the name of a source that names
lead to, without passing a link, through directories that hold no build output. -/
theorem mem_sourcesAmong_iff (h : KeptBelow entries) {root path : Path} :
    path ∈ sourcesAmong ((Node.directory entries).walk root) ↔ ∃ names name text,
      (Node.directory entries).descend? (names ++ [name]) = some (.file text) ∧
        (∀ each ∈ names, each ≠ "bin" ∧ each ≠ "obj") ∧
        path = root.below (names ++ [name]) ∧ Path.IsSourceName name := by
  have hsource : ∀ {names name node}, (Node.directory entries).descend? (names ++ [name]) =
      some node → ((root.below (names ++ [name])).isSource = true ↔ Path.IsSourceName name) := by
    intro names name node hdescend
    have hname : Path.IsName name := h.isName_of_descend? hdescend name (by simp)
    refine Path.isSource_iff ?_
    rw [Path.below, List.foldl_append]
    exact Path.fileName?_child hname
  simp only [← isBuildOutput_eq_false_iff]
  rw [sourcesAmong, List.mem_map]
  constructor
  · rintro ⟨⟨place, node⟩, hvisit, rfl⟩
    obtain ⟨hmet, hkind⟩ := List.mem_filter.1 hvisit
    obtain ⟨hfile, hnamed⟩ := Bool.and_eq_true_iff.1 hkind
    obtain ⟨names, name, hdescend, hnames, -, rfl⟩ := (mem_walk_iff_descend h).1 hmet
    cases node with
    | file text => exact ⟨names, name, text, hdescend, hnames, rfl, (hsource hdescend).1 hnamed⟩
    | directory inner => cases hfile
    | link target => cases hfile
  · rintro ⟨names, name, text, hdescend, hnames, rfl, hnamed⟩
    refine ⟨⟨_, .file text⟩, List.mem_filter.2 ⟨?_, ?_⟩, rfl⟩
    · exact (mem_walk_iff_descend h).2 ⟨names, name, hdescend, hnames, rfl, rfl⟩
    · exact Bool.and_eq_true_iff.2 ⟨rfl, (hsource hdescend).2 hnamed⟩

/-- The sources that are discovered below a directory ascend from one path to the next.  They are
the regular files with the extension of sources, in capital or small letters, that names lead to,
without passing a link, through directories that hold no build output; where the walk begins may
itself be a link to a directory, and its name makes no difference.  A walk fails only where a
directory below has a path that is too long to be read, and reports one of these. -/
theorem discover_ascending (hsystem : system.WellFormed) {root : Path}
    (hdirectory : system.isDirectory root = true) :
    ∃ entries, system.find? root = some (.directory entries) ∧
      (ShortBelow root entries → ∃ found, system.discover root = .ok found ∧
        OrderedList.Ascending Path.compare found ∧
        ∀ path, path ∈ found ↔ ∃ names name text,
          (Node.directory entries).descend? (names ++ [name]) = some (.file text) ∧
          (∀ each ∈ names, each ≠ "bin" ∧ each ≠ "obj") ∧
          path = root.below (names ++ [name]) ∧ Path.IsSourceName name) ∧
      (¬ ShortBelow root entries → ∃ names inner,
        (Node.directory entries).descend? names = some (.directory inner) ∧
        pathLimit ≤ (root.below names).text.utf8ByteSize ∧
        system.discover root = .error (.walk root (root.below names) .other)) := by
  obtain ⟨entries, hread⟩ := isDirectory_iff_readDirectory.1 hdirectory
  have hfind := readDirectory_eq_ok_iff.1 hread
  have hkept := keptBelow_of_find? hsystem hfind
  refine ⟨entries, hfind, fun hshort => ?_, fun hlong => ?_⟩
  · have hwalkable := (walkable_iff_shortBelow hsystem hread).2 hshort
    refine ⟨_, hwalkable.discover_eq hsystem, ?_, fun path => ?_⟩
    · rw [sourcesAmong, OrderedList.Ascending, List.pairwise_map, walk_of_readDirectory hread]
      exact (ascending_walk hkept root).sublist List.filter_sublist
    · rw [walk_of_readDirectory hread]
      exact mem_sourcesAmong_iff hkept
  · cases hvisits : system.visits root with
    | ok visits =>
        obtain ⟨others, hwalkable⟩ := walkable_of_visits hvisits
        obtain rfl := Except.ok.inj (hread.symm.trans hwalkable.read)
        exact absurd ((walkable_iff_shortBelow hsystem hread).1 hwalkable) hlong
    | error error =>
        obtain ⟨names, inner, hdescend, hsize, rfl⟩ :=
          exists_of_visits_error hsystem hread hvisits
        refine ⟨names, inner, hdescend, hsize, ?_⟩
        rw [discover, if_pos hdirectory, hvisits]
        rfl

theorem discover_ascending_link : linkedSources.WellFormed ∧
    linkedSources.isDirectory ⟨"/link"⟩ = true ∧
    ∃ found, linkedSources.discover ⟨"/link"⟩ = .ok found ∧
      OrderedList.Ascending Path.compare found ∧
      ∀ path, path ∈ found ↔ ∃ names name text,
        (Node.directory nestedSources).descend? (names ++ [name]) = some (.file text) ∧
        (∀ each ∈ names, each ≠ "bin" ∧ each ≠ "obj") ∧
        path = (⟨"/link"⟩ : Path).below (names ++ [name]) ∧ Path.IsSourceName name := by
  obtain ⟨entries, hfind, hfound, -⟩ :=
    discover_ascending wellFormed_linkedSources isDirectory_link
  obtain rfl := Node.directory.inj (Option.some.inj (find?_link.symm.trans hfind))
  exact ⟨wellFormed_linkedSources, isDirectory_link,
    hfound ((walkable_iff_shortBelow wellFormed_linkedSources readDirectory_link).1 walkable_link)⟩

end FileSystem
end ProjectAssembler
