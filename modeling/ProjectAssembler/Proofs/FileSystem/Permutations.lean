import ProjectAssembler.FileSystem.Listing
import ProjectAssembler.Proofs.FileSystem.PlainWays
import ProjectAssembler.Proofs.OrderedLists

/-!
# Orders of enumeration

An operating system enumerates the entries of a directory in whatever order it likes.  Two file
systems that differ in these orders only have the same entries at all locations, so every path means
the same in both, and what is listed in path order is the same as well.

Main definitions:

* `Node.Alike`: whether entries differ in the order of enumeration only;
* `FileSystem.Permuted`: whether file systems do.

Main results:

* `FileSystem.Permuted.followTrail_eq`: ways lead to the same locations;
* `FileSystem.Permuted.readDirectory_cases`: what is read of a directory;
* `FileSystem.Permuted.listFiles_eq`: what is listed in path order;
* `FileSystem.exists_permuted_readDirectory`: what is read of a directory can come in any order.
-/

namespace ProjectAssembler

/-- Whether two entries differ only in the order in which names are enumerated.  What is behind the
names is not looked at. -/
inductive Node.Alike : Node → Node → Prop
  | file (text : Option String) : Alike (.file text) (.file text)
  | link (target : Path) : Alike (.link target) (.link target)
  | directory {entries others : Entries} (names : (entries.map (·.1)).Perm (others.map (·.1))) :
      Alike (.directory entries) (.directory others)

/-- The trail without its innermost directory leads to the directory around that one. -/
theorem Trail.location_tail (trail : Trail) :
    Trail.location trail.tail = trail.location.dropLast := by
  rw [Trail.location, Trail.location, List.map_tail, List.dropLast_reverse]

namespace FileSystem

/-- Whether another file system differs only in the orders in which the entries of directories are
enumerated. -/
structure Permuted (system other : FileSystem) : Prop where
  workingDirectory : other.workingDirectory = system.workingDirectory
  alike : ∀ location, Option.Rel Node.Alike (system.node? location) (other.node? location)

variable {system other : FileSystem}

/-! ## Alike entries -/

theorem alike_refl (found : Option Node) : Option.Rel Node.Alike found found := by
  rcases found with _ | (text | entries | target)
  · exact .none
  · exact .some (.file text)
  · exact .some (.directory (List.Perm.refl _))
  · exact .some (.link target)

section Alike

variable {moved : Option Node}

theorem eq_none_of_alike (h : Option.Rel Node.Alike none moved) : moved = none := by
  cases h
  rfl

theorem eq_file_of_alike {text : Option String}
    (h : Option.Rel Node.Alike (some (.file text)) moved) : moved = some (.file text) := by
  cases h with
  | some halike => cases halike; rfl

theorem eq_link_of_alike {target : Path} (h : Option.Rel Node.Alike (some (.link target)) moved) :
    moved = some (.link target) := by
  cases h with
  | some halike => cases halike; rfl

theorem exists_directory_of_alike {entries : Entries}
    (h : Option.Rel Node.Alike (some (.directory entries)) moved) :
    ∃ others, moved = some (.directory others) ∧ (entries.map (·.1)).Perm (others.map (·.1)) := by
  cases h with
  | some halike =>
      cases halike with
      | directory hnames => exact ⟨_, rfl, hnames⟩

end Alike

namespace Permuted

/-! ## Following paths -/

section Trails

variable {trail moved : Trail}

/-- What corresponding trails hold under a name. -/
theorem lookup_entries (h : Permuted system other) (hstands : trail.Stands system.root)
    (hmoved : moved.Stands other.root) (hlocation : moved.location = trail.location)
    {step : String} {found : Option Node}
    (hentry : (trail.entries system.root).lookup step = found) :
    Option.Rel Node.Alike found ((moved.entries other.root).lookup step) := by
  rw [← hentry, FileSystem.lookup_entries hstands, FileSystem.lookup_entries hmoved, hlocation]
  exact h.alike _

/-- A way from corresponding trails leads to the same location. -/
theorem followTrail_eq (h : Permuted system other) {purpose : Purpose} {links : Nat}
    {way : List String} (hstands : trail.Stands system.root) (hmoved : moved.Stands other.root)
    (hlocation : moved.location = trail.location) :
    followTrail other purpose links moved way = followTrail system purpose links trail way := by
  have hlong : ∀ {trail moved : Trail}, moved.location = trail.location → ∀ step,
      purpose.tooLong moved step = purpose.tooLong trail step := by
    intro trail moved hlocation step
    simp [Purpose.tooLong, hlocation]
  fun_induction followTrail system purpose links trail way generalizing moved with
  | case1 => rw [followTrail_nil, hlocation]
  | case2 links trail step rest hstay ih =>
      rw [followTrail_stay hstay]
      exact ih hstands hmoved hlocation
  | case3 links trail rest hstay ih =>
      rw [followTrail_up]
      refine ih (Trail.stands_tail hstands) (Trail.stands_tail hmoved) ?_
      rw [Trail.location_tail, Trail.location_tail, hlocation]
  | case4 links trail step rest hstay hup hlength =>
      rw [followTrail, if_neg hstay, if_neg hup, hlong hlocation, if_pos hlength]
  | case5 links trail step rest hstay hup hlength hentry hmissing =>
      have hfound := eq_none_of_alike (h.lookup_entries hstands hmoved hlocation hentry)
      rw [followTrail, if_neg hstay, if_neg hup, hlong hlocation, if_neg hlength]
      simp only [hfound, if_pos hmissing, hlocation]
  | case6 links trail step rest hstay hup hlength hentry hmissing =>
      have hfound := eq_none_of_alike (h.lookup_entries hstands hmoved hlocation hentry)
      rw [followTrail, if_neg hstay, if_neg hup, hlong hlocation, if_neg hlength]
      simp only [hfound, if_neg hmissing]
  | case7 links trail step rest hstay hup hlength inner hentry ih =>
      obtain ⟨others, hothers, -⟩ :=
        exists_directory_of_alike (h.lookup_entries hstands hmoved hlocation hentry)
      rw [followTrail_enter hstay hup (by rwa [hlong hlocation]) hothers]
      refine ih ⟨hentry, hstands⟩ ⟨hothers, hmoved⟩ ?_
      rw [Trail.location_cons, Trail.location_cons, hlocation]
  | case8 links trail step hstay hup hlength text hentry =>
      have hfound := eq_file_of_alike (h.lookup_entries hstands hmoved hlocation hentry)
      rw [followTrail_file hstay hup (by rwa [hlong hlocation]) hfound, hlocation]
  | case9 links trail step rest hstay hup hlength text hentry hlast =>
      have hfound := eq_file_of_alike (h.lookup_entries hstands hmoved hlocation hentry)
      rw [followTrail, if_neg hstay, if_neg hup, hlong hlocation, if_neg hlength]
      simp only [hfound, if_neg hlast]
  | case10 links trail step rest hstay hup hlength target hentry hlast =>
      have hfound := eq_link_of_alike (h.lookup_entries hstands hmoved hlocation hentry)
      rw [followTrail, if_neg hstay, if_neg hup, hlong hlocation, if_neg hlength]
      simp only [hfound, if_pos hlast, hlocation]
  | case11 trail step rest hstay hup hlength target hentry hlast =>
      have hfound := eq_link_of_alike (h.lookup_entries hstands hmoved hlocation hentry)
      rw [followTrail, if_neg hstay, if_neg hup, hlong hlocation, if_neg hlength]
      simp only [hfound, if_neg hlast]
  | case12 trail step rest hstay hup hlength target hentry hlast links ih =>
      have hfound := eq_link_of_alike (h.lookup_entries hstands hmoved hlocation hentry)
      rw [followTrail, if_neg hstay, if_neg hup, hlong hlocation, if_neg hlength]
      simp only [hfound, if_neg hlast]
      by_cases habsolute : target.isAbsolute = true
      · simp only [dif_pos habsolute, if_pos habsolute] at ih ⊢
        exact ih trivial trivial rfl
      · simp only [dif_neg habsolute, if_neg habsolute] at ih ⊢
        exact ih hstands hmoved hlocation

/-- A trail can be continued by names in both file systems or in none. -/
theorem isSome_continue? (h : Permuted system other) {names : Location}
    (hstands : trail.Stands system.root) (hmoved : moved.Stands other.root)
    (hlocation : moved.location = trail.location) :
    (Trail.continue? other.root moved names).isSome =
      (Trail.continue? system.root trail names).isSome := by
  induction names generalizing trail moved with
  | nil => rfl
  | cons name rest ih =>
      unfold Trail.continue?
      rcases hentry : (trail.entries system.root).lookup name with _ | (text | inner | target)
      · rw [eq_none_of_alike (h.lookup_entries hstands hmoved hlocation hentry)]
      · rw [eq_file_of_alike (h.lookup_entries hstands hmoved hlocation hentry)]
      · obtain ⟨others, hothers, -⟩ :=
          exists_directory_of_alike (h.lookup_entries hstands hmoved hlocation hentry)
        rw [hothers]
        refine ih ⟨hentry, hstands⟩ ⟨hothers, hmoved⟩ ?_
        rw [Trail.location_cons, Trail.location_cons, hlocation]
      · rw [eq_link_of_alike (h.lookup_entries hstands hmoved hlocation hentry)]

end Trails

theorem follow_eq (h : Permuted system other) (purpose : Purpose) (links : Nat) (here : Location)
    (way : List String) :
    follow other purpose links here way = follow system purpose links here way := by
  have hroot : Trail.Stands system.root [] := trivial
  have hother : Trail.Stands other.root [] := trivial
  have hsome : (other.trailTo? here).isSome = (system.trailTo? here).isSome :=
    h.isSome_continue? hroot hother rfl
  unfold follow
  cases htrail : system.trailTo? here with
  | none =>
      rw [htrail, Option.isSome_none, Option.isSome_eq_false_iff,
        Option.isNone_iff_eq_none] at hsome
      rw [hsome]
  | some trail =>
      rw [htrail, Option.isSome_some] at hsome
      obtain ⟨moved, hmoved⟩ := Option.isSome_iff_exists.1 hsome
      rw [hmoved]
      refine h.followTrail_eq (stands_of_trailTo? htrail) (stands_of_trailTo? hmoved) ?_
      rw [Trail.location_of_continue? htrail, Trail.location_of_continue? hmoved]

/-- A path means the same place. -/
theorem resolve_eq (h : Permuted system other) (path : Path) :
    other.resolve path = system.resolve path := by
  simp only [resolve, resolveFor, followFrom, h.workingDirectory, h.follow_eq]

/-! ## What is at a path -/

theorem find?_alike (h : Permuted system other) (path : Path) :
    Option.Rel Node.Alike (system.find? path) (other.find? path) := by
  unfold find?
  rw [h.resolve_eq]
  cases system.resolve path with
  | error error => exact .none
  | ok place =>
      cases place with
      | standing location => exact h.alike location
      | removed => exact alike_refl _

theorem isDirectory_eq (h : Permuted system other) (path : Path) :
    other.isDirectory path = system.isDirectory path := by
  have hsame := h.find?_alike path
  unfold isDirectory
  generalize system.find? path = found at hsame
  generalize other.find? path = others at hsame
  cases hsame with
  | none => rfl
  | some halike => cases halike <;> rfl

/-- What is read of a directory has the same names, and alike entries under each of them. -/
theorem readDirectory_cases (h : Permuted system other) (path : Path) :
    (∃ error, system.readDirectory path = .error error ∧ other.readDirectory path = .error error) ∨
      ∃ entries others, system.readDirectory path = .ok entries ∧
        other.readDirectory path = .ok others ∧
        (entries.map (·.1)).Perm (others.map (·.1)) ∧
        ∀ name, Option.Rel Node.Alike (entries.lookup name) (others.lookup name) := by
  unfold readDirectory
  rw [h.resolve_eq]
  rcases system.resolve path with error | (location | _)
  · exact Or.inl ⟨error, rfl, rfl⟩
  · have hsame := h.alike location
    simp only [entryAt?]
    rcases hnode : system.node? location with _ | (text | entries | target) <;> rw [hnode] at hsame
    · rw [eq_none_of_alike hsame]
      exact Or.inl ⟨_, rfl, rfl⟩
    · rw [eq_file_of_alike hsame]
      exact Or.inl ⟨_, rfl, rfl⟩
    · obtain ⟨others, hothers, hnames⟩ := exists_directory_of_alike hsame
      rw [hothers]
      refine Or.inr ⟨entries, others, rfl, rfl, hnames, fun name => ?_⟩
      rw [lookup_of_node? hnode, lookup_of_node? hothers]
      exact h.alike _
    · rw [eq_link_of_alike hsame]
      exact Or.inl ⟨_, rfl, rfl⟩
  · exact Or.inr ⟨[], [], rfl, rfl, List.Perm.refl _, fun _ => .none⟩

end Permuted

/-! ## Listings -/

/-- The entries with the same names in another order are well kept too. -/
theorem WellKept.of_perm {entries others : Entries} (h : WellKept entries)
    (hnames : (entries.map (·.1)).Perm (others.map (·.1))) : WellKept others := by
  refine ⟨hnames.nodup_iff.1 h.distinct, fun entry hentry => ?_⟩
  have hmem : entry.1 ∈ entries.map (·.1) :=
    hnames.mem_iff.2 (List.mem_map.2 ⟨entry, hentry, rfl⟩)
  obtain ⟨same, hsame, heq⟩ := List.mem_map.1 hmem
  exact heq ▸ h.named same hsame

/-- The listed files of a well kept directory are those that are found under a name. -/
theorem mem_filesAmong {directory path : Path} {keep : Path → Bool} {entries : Entries}
    (hkept : WellKept entries) : path ∈ filesAmong directory keep entries ↔
      ∃ name text, entries.lookup name = some (.file text) ∧ keep (directory.child name) = true ∧
        path = directory.child name := by
  unfold filesAmong
  constructor
  · intro hpath
    obtain ⟨⟨name, node⟩, hentry, rfl⟩ := List.mem_map.1 hpath
    obtain ⟨hmem, hfile⟩ := List.mem_filter.1 hentry
    rw [Bool.and_eq_true] at hfile
    cases node with
    | file text => exact ⟨name, text, hkept.lookup hmem, hfile.2, rfl⟩
    | directory inner => exact absurd hfile.1 Bool.false_ne_true
    | link target => exact absurd hfile.1 Bool.false_ne_true
  · rintro ⟨name, text, hlookup, hkeep, rfl⟩
    obtain ⟨before, after, rfl, -⟩ := List.lookup_eq_some_iff.1 hlookup
    refine List.mem_map.2 ⟨(name, .file text), List.mem_filter.2 ⟨by simp, ?_⟩, rfl⟩
    simp [Node.isFile, hkeep]

/-- The files of a well kept directory have different paths. -/
theorem eq_of_compare_filesAmong {directory : Path} {keep : Path → Bool} {entries : Entries}
    (hkept : WellKept entries) : ∀ a ∈ filesAmong directory keep entries,
      ∀ b ∈ filesAmong directory keep entries, a.compare b = .eq → a = b := by
  intro a ha b hb heq
  obtain ⟨name, text, hname, -, rfl⟩ := (mem_filesAmong hkept).1 ha
  obtain ⟨later, content, hlater, -, rfl⟩ := (mem_filesAmong hkept).1 hb
  rw [Path.child_injective (hkept.isEntryName_of_lookup hname).1
    (hkept.isEntryName_of_lookup hlater).1 (Path.compare_eq_iff.1 heq)]

theorem Permuted.listFiles_eq (h : Permuted system other) (hsystem : system.WellFormed)
    (directory : Path) (keep : Path → Bool) :
    other.listFiles directory keep = system.listFiles directory keep := by
  unfold listFiles
  rcases h.readDirectory_cases directory with ⟨error, hread, hmoved⟩ |
    ⟨entries, others, hread, hmoved, hnames, hlookup⟩
  · rw [hread, hmoved]
  · have hkept := wellKept_of_readDirectory hsystem hread
    have hothers := hkept.of_perm hnames
    have hfile : ∀ {name text}, entries.lookup name = some (.file text) ↔
        others.lookup name = some (.file text) := by
      intro name text
      have hsame := hlookup name
      generalize entries.lookup name = found at hsame
      generalize others.lookup name = moved at hsame
      cases hsame with
      | none => exact Iff.rfl
      | some halike => cases halike <;> simp
    rw [hread, hmoved]
    dsimp only
    have hascending : ∀ paths, OrderedList.Ascending Path.compare
        (OrderedList.ofList Path.compare paths) := OrderedList.ascending_ofList
    refine congrArg Except.ok ((hascending _).eq_of_mem_iff (hascending _) fun path => ?_)
    rw [OrderedList.mem_ofList_iff (eq_of_compare_filesAmong hothers),
      OrderedList.mem_ofList_iff (eq_of_compare_filesAmong hkept), mem_filesAmong hothers,
      mem_filesAmong hkept]
    simp only [hfile]

/-! ## Enumerating in another order -/

/-- A well kept directory holds the same entries in any order. -/
theorem lookup_perm {entries others : Entries} (hkept : WellKept entries)
    (hperm : others.Perm entries) (name : String) : others.lookup name = entries.lookup name := by
  have hothers : WellKept others := hkept.of_perm (hperm.symm.map _)
  cases hlookup : entries.lookup name with
  | some node =>
      obtain ⟨before, after, hsplit, -⟩ := List.lookup_eq_some_iff.1 hlookup
      have hmem : (name, node) ∈ entries := by simp [hsplit]
      exact hothers.lookup (hperm.mem_iff.2 hmem)
  | none =>
      apply Option.eq_none_iff_forall_ne_some.2
      intro node hnode
      obtain ⟨before, after, hsplit, -⟩ := List.lookup_eq_some_iff.1 hnode
      have hmem : (name, node) ∈ others := by simp [hsplit]
      have hfound := hkept.lookup (hperm.mem_iff.1 hmem)
      rw [hlookup] at hfound
      cases hfound

/-- Names lead into an entry through the directory of the first one. -/
theorem exists_lookup_of_descend? {outer entries : Entries} {name : String} {rest : Location}
    (h : (Node.directory outer).descend? (name :: rest) = some (.directory entries)) :
    ∃ inner, outer.lookup name = some (.directory inner) ∧
      (Node.directory inner).descend? rest = some (.directory entries) := by
  unfold Node.descend? at h
  split at h
  · rename_i node hnode
    cases node with
    | directory inner => exact ⟨inner, hnode, h⟩
    | file text => cases rest <;> cases h
    | link target => cases rest <;> cases h
  · cases h

/-- An entry that is given a name anew does not change which names there are. -/
theorem map_fst_put_of_lookup {outer : Entries} {name : String} {node : Node} (replacement : Node)
    (h : outer.lookup name = some node) :
    (Entries.put name replacement outer).map (·.1) = outer.map (·.1) := by
  rcases WellKept.map_fst_put name replacement outer with hsame | ⟨hnew, -⟩
  · exact hsame
  · obtain ⟨before, after, hsplit, -⟩ := List.lookup_eq_some_iff.1 h
    exact absurd (by simp [hsplit]) hnew

/-- Where the entries of one directory are replaced by the same ones in another order, all entries
stay alike. -/
theorem alike_alter {location : Location} {outer entries others : Entries}
    (hdirectory : (Node.directory outer).descend? location = some (.directory entries))
    (hnames : (entries.map (·.1)).Perm (others.map (·.1)))
    (hlookup : ∀ name, others.lookup name = entries.lookup name) (place : Location) :
    Option.Rel Node.Alike ((Node.directory outer).descend? place)
      ((Node.directory (Entries.alter (fun _ => others) location outer)).descend? place) := by
  induction location generalizing outer place with
  | nil =>
      rw [Node.descend?_nil, Option.some.injEq, Node.directory.injEq] at hdirectory
      subst hdirectory
      cases place with
      | nil => exact .some (.directory hnames)
      | cons name rest =>
          rw [Entries.alter, Node.descend?, Node.descend?, hlookup]
          exact alike_refl _
  | cons name rest ih =>
      obtain ⟨inner, hinner, hrest⟩ := exists_lookup_of_descend? hdirectory
      rw [Entries.alter, hinner]
      dsimp only
      cases place with
      | nil =>
          refine .some (.directory ?_)
          rw [map_fst_put_of_lookup _ hinner]
      | cons first later =>
          rw [Node.descend?, Node.descend?, Entries.lookup_put]
          by_cases hfirst : first = name
          · subst hfirst
            rw [hinner, if_pos (beq_self_eq_true first)]
            exact ih hrest later
          · rw [if_neg (by simpa using hfirst)]
            exact alike_refl _

/-- The entries of a directory can come in any order. -/
theorem permuted_alter (hsystem : system.WellFormed) {location : Location}
    {entries others : Entries} (hdirectory : system.node? location = some (.directory entries))
    (hperm : others.Perm entries) : Permuted system (system.alter location fun _ => others) :=
  ⟨rfl, alike_alter hdirectory (hperm.symm.map _)
    (lookup_perm (hsystem location entries hdirectory) hperm)⟩

/-- What is at the location of a directory that was altered. -/
theorem node?_alter {location : Location} {entries : Entries} (others : Entries)
    (hdirectory : system.node? location = some (.directory entries)) :
    (system.alter location fun _ => others).node? location = some (.directory others) := by
  have hdescend : ∀ outer : Entries,
      (Node.directory outer).descend? location = some (.directory entries) →
        (Node.directory (Entries.alter (fun _ => others) location outer)).descend? location =
          some (.directory others) := by
    clear hdirectory
    induction location with
    | nil => exact fun _ _ => Node.descend?_nil _
    | cons name rest ih =>
        intro outer houter
        obtain ⟨inner, hinner, hrest⟩ := exists_lookup_of_descend? houter
        rw [Entries.alter, hinner]
        dsimp only
        rw [Node.descend?, Entries.lookup_put, if_pos (beq_self_eq_true name)]
        exact ih inner hrest
  exact hdescend system.root hdirectory

/-- What is read of a directory comes in any given order in some file system that differs only in
such orders. -/
theorem exists_permuted_readDirectory (hsystem : system.WellFormed) {path : Path}
    {entries others : Entries} (h : system.readDirectory path = .ok entries)
    (hperm : others.Perm entries) :
    ∃ other, Permuted system other ∧ other.readDirectory path = .ok others := by
  have hread := h
  unfold readDirectory at h
  split at h
  · cases h
  · rename_i place hplace
    split at h
    · rename_i found hfound
      obtain rfl := Except.ok.inj h
      cases place with
      | standing location =>
          have hpermuted := permuted_alter hsystem hfound hperm
          refine ⟨_, hpermuted, ?_⟩
          rw [readDirectory_eq_ok_iff, find?, hpermuted.resolve_eq, hplace]
          exact node?_alter others hfound
      | removed =>
          rw [entryAt?, Option.some.injEq, Node.directory.injEq] at hfound
          subst hfound
          rw [List.perm_nil] at hperm
          exact ⟨system, ⟨rfl, fun _ => alike_refl _⟩, hperm ▸ hread⟩
    · cases h
    · cases h

end FileSystem
end ProjectAssembler
