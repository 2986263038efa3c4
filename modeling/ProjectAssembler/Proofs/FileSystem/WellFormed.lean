import ProjectAssembler.Proofs.FileSystem.Changes

/-!
# Well formed file systems

In a file system that comes about by changes of the empty one, every directory holds proper names,
each of them once.  New names come from the steps of a path that can be asked for or of the target
of a link; what is put under them, or removed, leaves all other entries as they are.

Main definitions:

* `FileSystem.IsEntryName` and `FileSystem.WellKept`: what the names in a directory are;
* `FileSystem.WellFormed`: every directory of a file system is well kept;
* `FileSystem.IsSound` and `FileSystem.Sound`: moreover every link holds a target that can be asked
  for.

Main results:

* `FileSystem.isEntryName_of_mem_followTrail`: a way that is followed leads through names that
  entries have or can be given;
* `FileSystem.sound_writeFile`, `FileSystem.sound_remove` and their likes: changes keep a file
  system sound;
* `FileSystem.wellFormed_ofSnapshot?`: every file system that is described is well formed.
-/

namespace ProjectAssembler
namespace FileSystem

open ProjectAssembler.Path (IsName)

/-! ## Names in directories -/

/-- Whether a text can be the name of an entry: a name that is not too long and holds no null
character. -/
def IsEntryName (name : String) : Prop :=
  IsName name ∧ name.utf8ByteSize ≤ nameLimit ∧ '\x00' ∉ name.toList

instance (name : String) : Decidable (IsEntryName name) :=
  inferInstanceAs (Decidable (_ ∧ _ ∧ _))

/-- The names in a directory are proper, and no two entries have the same one. -/
structure WellKept (entries : Entries) : Prop where
  distinct : (entries.map (·.1)).Nodup
  named : ∀ entry ∈ entries, IsEntryName entry.1

/-- Every directory is well kept. -/
def WellFormed (system : FileSystem) : Prop :=
  ∀ location entries, system.node? location = some (.directory entries) → WellKept entries

theorem wellKept_nil : WellKept [] :=
  ⟨List.nodup_nil, nofun⟩

namespace WellKept

variable {entries : Entries} {name : String} {node : Node}

/-- An entry of a well kept directory is found under its name. -/
theorem lookup (h : WellKept entries) (hmem : (name, node) ∈ entries) :
    entries.lookup name = some node := by
  have hdistinct := h.distinct
  clear h
  induction entries with
  | nil => exact absurd hmem List.not_mem_nil
  | cons entry rest ih =>
      rw [List.map_cons, List.nodup_cons] at hdistinct
      rcases List.mem_cons.1 hmem with rfl | hrest
      · exact List.lookup_cons_self
      · have hne : (name == entry.1) = false := by
          rw [beq_eq_false_iff_ne]
          rintro rfl
          exact hdistinct.1 (List.mem_map.2 ⟨_, hrest, rfl⟩)
        rw [List.lookup_cons, hne]
        exact ih hrest hdistinct.2

/-- What is found in a well kept directory has a proper name. -/
theorem isEntryName_of_lookup (h : WellKept entries) (hlookup : entries.lookup name = some node) :
    IsEntryName name := by
  obtain ⟨before, after, rfl, -⟩ := List.lookup_eq_some_iff.1 hlookup
  exact h.named (name, node) (List.mem_append_right before List.mem_cons_self)

/-- Giving a name an entry adds the name at the end unless it is there. -/
theorem map_fst_put (name : String) (node : Node) (entries : Entries) :
    (Entries.put name node entries).map (·.1) = entries.map (·.1) ∨
      name ∉ entries.map (·.1) ∧
        (Entries.put name node entries).map (·.1) = entries.map (·.1) ++ [name] := by
  induction entries with
  | nil => exact Or.inr ⟨List.not_mem_nil, rfl⟩
  | cons entry rest ih =>
      obtain ⟨other, old⟩ := entry
      unfold Entries.put
      by_cases hother : name = other
      · subst hother
        exact Or.inl (by simp)
      · rw [if_neg (by simpa using hother), List.map_cons, List.map_cons]
        rcases ih with hsame | ⟨hnew, hlonger⟩
        · exact Or.inl (by rw [hsame])
        · refine Or.inr ⟨?_, by rw [hlonger, List.cons_append]⟩
          rw [List.mem_cons, not_or]
          exact ⟨hother, hnew⟩

/-- A directory is still well kept where a proper name is given an entry. -/
theorem put (h : WellKept entries) (hname : IsEntryName name) (node : Node) :
    WellKept (Entries.put name node entries) := by
  have hnames : ∀ other ∈ entries.map (·.1), IsEntryName other := List.forall_mem_map.2 h.named
  rcases map_fst_put name node entries with hsame | ⟨hnew, hlonger⟩
  · exact ⟨hsame ▸ h.distinct, List.forall_mem_map.1 (hsame ▸ hnames)⟩
  · refine ⟨?_, List.forall_mem_map.1 ?_⟩
    · rw [hlonger, List.nodup_append]
      refine ⟨h.distinct, List.pairwise_singleton _ _, fun other hother new hnew' heq => ?_⟩
      rw [List.mem_singleton.1 hnew'] at heq
      exact hnew (heq ▸ hother)
    · rw [hlonger]
      exact List.forall_mem_append.2 ⟨hnames, List.forall_mem_singleton.2 hname⟩

/-- A directory is still well kept where an entry is removed. -/
theorem remove (h : WellKept entries) (name : String) :
    WellKept (Entries.remove name entries) :=
  ⟨h.distinct.sublist (List.filter_sublist.map _),
    fun entry hentry => h.named entry (List.mem_filter.1 hentry).1⟩

end WellKept

/-! ## Sound entries -/

/-- Whether an entry is itself as a file system keeps it. -/
def IsProper : Node → Prop
  | .directory entries => WellKept entries
  | .link target => admissible target = true
  | .file _ => True

/-- Whether an entry and all below it are as a file system keeps them. -/
def IsSound (node : Node) : Prop :=
  ∀ location below, node.descend? location = some below → IsProper below

/-- Every entry is as a file system keeps it. -/
def Sound (system : FileSystem) : Prop :=
  IsSound (.directory system.root)

theorem Sound.wellFormed {system : FileSystem} (h : system.Sound) : system.WellFormed :=
  fun location _ hdirectory => h location _ hdirectory

section Entries

variable {entries : Entries} {name : String} {node : Node}

/-- A directory is sound if it is well kept and holds sound entries. -/
theorem isSound_directory_iff : IsSound (.directory entries) ↔
    WellKept entries ∧ ∀ name node, entries.lookup name = some node → IsSound node := by
  constructor
  · intro h
    refine ⟨h [] _ rfl, fun name node hlookup location below hbelow => ?_⟩
    exact h (name :: location) below (by simpa [Node.descend?, hlookup] using hbelow)
  · rintro ⟨hkept, hinner⟩ location below hbelow
    cases location with
    | nil =>
        rw [Node.descend?_nil] at hbelow
        exact Option.some.inj hbelow ▸ hkept
    | cons name rest =>
        unfold Node.descend? at hbelow
        split at hbelow
        · rename_i node hlookup
          exact hinner name node hlookup rest below hbelow
        · cases hbelow

/-- A directory is sound if it is well kept and all of its entries are sound. -/
theorem isSound_directory (hkept : WellKept entries) (h : ∀ entry ∈ entries, IsSound entry.2) :
    IsSound (.directory entries) := by
  refine isSound_directory_iff.2 ⟨hkept, fun name node hlookup => ?_⟩
  obtain ⟨before, after, rfl, -⟩ := List.lookup_eq_some_iff.1 hlookup
  exact h (name, node) (List.mem_append_right before List.mem_cons_self)

theorem isSound_newDirectory : IsSound (.directory []) :=
  isSound_directory wellKept_nil (List.forall_mem_nil _)

/-- What holds no entries is sound if it is proper. -/
theorem isSound_of_isProper (hproper : IsProper node) (hentries : node.isDirectory = false) :
    IsSound node := by
  intro location below hbelow
  cases location with
  | nil =>
      rw [Node.descend?_nil] at hbelow
      exact Option.some.inj hbelow ▸ hproper
  | cons name rest =>
      cases node with
      | directory entries => cases hentries
      | file text => cases hbelow
      | link target => cases hbelow

/-- A directory is still sound where a proper name is given a sound entry. -/
theorem isSound_put (h : IsSound (.directory entries)) (hname : IsEntryName name)
    (hnode : IsSound node) : IsSound (.directory (Entries.put name node entries)) := by
  rw [isSound_directory_iff] at h ⊢
  refine ⟨h.1.put hname node, fun other found hfound => ?_⟩
  rw [Entries.lookup_put] at hfound
  split at hfound
  · exact Option.some.inj hfound ▸ hnode
  · exact h.2 other found hfound

/-- A directory is still sound where an entry is removed. -/
theorem isSound_remove (h : IsSound (.directory entries)) (name : String) :
    IsSound (.directory (Entries.remove name entries)) := by
  rw [isSound_directory_iff] at h ⊢
  refine ⟨h.1.remove name, fun other found hfound => ?_⟩
  rw [Entries.lookup_remove] at hfound
  split at hfound
  · cases hfound
  · exact h.2 other found hfound

/-- A directory is still sound where one of the directories below it is changed to a sound one. -/
theorem isSound_alter {change : Entries → Entries} {location : Location}
    (hchange : ∀ inner, IsSound (.directory inner) → IsSound (.directory (change inner)))
    (h : IsSound (.directory entries)) :
    IsSound (.directory (Entries.alter change location entries)) := by
  induction location generalizing entries with
  | nil => exact hchange entries h
  | cons name rest ih =>
      unfold Entries.alter
      split
      · rename_i inner hlookup
        obtain ⟨hkept, hinner⟩ := isSound_directory_iff.1 h
        exact isSound_put h (hkept.isEntryName_of_lookup hlookup) (ih (hinner name _ hlookup))
      · exact h

end Entries

/-! ## Names on a way -/

section Ways

variable {system : FileSystem}

/-- The directory that a trail leads to is sound. -/
theorem Sound.isSound_entries (h : system.Sound) {trail : Trail}
    (hstands : trail.Stands system.root) : IsSound (.directory (trail.entries system.root)) := by
  intro location below hbelow
  refine h (trail.location ++ location) below ?_
  rw [Node.descend?_append]
  exact (congrArg (·.bind (·.descend? location)) (node?_of_stands hstands)).trans hbelow

/-- The directories that a way is inside of have proper names. -/
theorem Sound.isEntryName_of_mem_location (h : system.Sound) {trail : Trail}
    (hstands : trail.Stands system.root) : ∀ name ∈ trail.location, IsEntryName name := by
  induction trail with
  | nil => exact nofun
  | cons frame outer ih =>
      obtain ⟨hentry, houter⟩ := hstands
      have hkept := (isSound_directory_iff.1 (h.isSound_entries houter)).1
      rw [Trail.location_cons]
      exact List.forall_mem_append.2
        ⟨ih houter, List.forall_mem_singleton.2 (hkept.isEntryName_of_lookup hentry)⟩

/-- What a step may be where new names come about: it stays, leads up, or is a name, and holds no
null character. -/
def IsPlainStep (step : String) : Prop :=
  IsStep step ∧ '\x00' ∉ step.toList

/-- The steps of a path that can be asked for are plain. -/
theorem isPlainStep_of_mem_steps {path : Path} (h : admissible path = true) :
    ∀ step ∈ steps path, IsPlainStep step := by
  intro step hstep
  refine ⟨isStep_of_mem_steps hstep, fun hnull => ?_⟩
  obtain ⟨segment, hsegment, rfl⟩ := List.mem_map.1 hstep
  have hpath : '\x00' ∈ path.text.toList :=
    Text.subset_of_mem_splitOn hsegment (by simpa using hnull)
  simp [admissible, hpath] at h

/-- A way that begins in the directories of a sound file system leads through names that entries
have, or can be given. -/
theorem isEntryName_of_mem_followTrail (hsystem : system.Sound) {purpose : Purpose} {links : Nat}
    {trail : Trail} {way : List String} {there : Location} (hstands : trail.Stands system.root)
    (hway : ∀ step ∈ way, IsPlainStep step)
    (h : followTrail system purpose links trail way = .ok there) :
    ∀ name ∈ there, IsEntryName name := by
  -- Where the way ends at an entry, the location is that of the trail and the entry's name.
  have hlast : ∀ {trail : Trail} {step : String}, trail.Stands system.root → IsPlainStep step →
      isStay step ≠ true → step ≠ ".." → purpose.tooLong trail step ≠ true →
      ∀ name ∈ trail.location ++ [step], IsEntryName name := by
    intro trail step hstands hplain hstay hup hlong
    refine List.forall_mem_append.2 ⟨hsystem.isEntryName_of_mem_location hstands,
      List.forall_mem_singleton.2 ⟨hplain.1.isName hstay hup, ?_, hplain.2⟩⟩
    rw [Purpose.tooLong, ne_eq, Bool.not_eq_true, Bool.or_eq_false_iff, decide_eq_false_iff_not,
      Nat.not_lt] at hlong
    exact hlong.1
  fun_induction followTrail system purpose links trail way with
  | case1 =>
      rw [← Except.ok.inj h]
      exact hsystem.isEntryName_of_mem_location hstands
  | case2 links trail step rest hstay ih =>
      exact ih hstands (List.forall_mem_cons.1 hway).2 h
  | case3 links trail rest hstay ih =>
      exact ih (Trail.stands_tail hstands) (List.forall_mem_cons.1 hway).2 h
  | case4 => cases h
  | case5 links trail step rest hstay hup hlong hentry hmissing =>
      rw [← Except.ok.inj h]
      exact hlast hstands (List.forall_mem_cons.1 hway).1 hstay hup hlong
  | case6 => cases h
  | case7 links trail step rest hstay hup hlong inner hentry ih =>
      exact ih ⟨hentry, hstands⟩ (List.forall_mem_cons.1 hway).2 h
  | case8 links trail step hstay hup hlong text hentry =>
      rw [← Except.ok.inj h]
      exact hlast hstands (List.forall_mem_cons.1 hway).1 hstay hup hlong
  | case9 => cases h
  | case10 links trail step rest hstay hup hlong target hentry hfinal =>
      rw [← Except.ok.inj h]
      exact hlast hstands (List.forall_mem_cons.1 hway).1 hstay hup hlong
  | case11 => cases h
  | case12 trail step rest hstay hup hlong target hentry hfinal links ih =>
      -- The target of a link is such that its steps are plain too.
      have htarget : admissible target = true :=
        (isSound_directory_iff.1 (hsystem.isSound_entries hstands)).2 _ _ hentry [] _ rfl
      refine ih ?_ ?_ h
      · split
        · exact trivial
        · exact hstands
      · exact List.forall_mem_append.2
          ⟨isPlainStep_of_mem_steps htarget, (List.forall_mem_cons.1 hway).2⟩

/-- A way that begins at a location of a sound file system leads through such names. -/
theorem isEntryName_of_mem_follow (hsystem : system.Sound) {purpose : Purpose} {links : Nat}
    {here there : Location} {way : List String} (hway : ∀ step ∈ way, IsPlainStep step)
    (h : follow system purpose links here way = .ok there) : ∀ name ∈ there, IsEntryName name := by
  unfold follow at h
  split at h
  · rename_i trail htrail
    exact isEntryName_of_mem_followTrail hsystem (stands_of_trailTo? htrail) hway h
  · cases h

/-- A path leads to such names. -/
theorem isEntryName_of_mem_resolveFor (hsystem : system.Sound) {purpose : Purpose} {path : Path}
    {location : Location} (h : system.resolveFor purpose path = .ok (.standing location)) :
    ∀ name ∈ location, IsEntryName name := by
  obtain ⟨hadmissible, here, way, -, hway, hfollow⟩ := exists_follow_of_resolveFor h
  exact isEntryName_of_mem_follow hsystem
    (fun step hstep => isPlainStep_of_mem_steps hadmissible step (hway.subset hstep)) hfollow

end Ways

/-! ## Changes -/

section Changes

variable {system : FileSystem}

theorem sound_empty : empty.Sound :=
  isSound_newDirectory

/-- A file system is still sound where properly named entries come about. -/
theorem Sound.put (h : system.Sound) {location : Location} {node : Node}
    (hnames : ∀ name ∈ location, IsEntryName name) (hnode : IsSound node) :
    (system.put location node).Sound := by
  unfold FileSystem.put
  split
  · rename_i name hlast
    exact isSound_alter
      (fun _ hinner => isSound_put hinner (hnames name (List.mem_of_getLast? hlast)) hnode) h
  · exact h

theorem sound_makeWay (h : system.Sound) {here : Location} {way : List String}
    (hway : ∀ step ∈ way, IsPlainStep step) : (system.makeWay here way).1.Sound := by
  fun_induction makeWay system here way with
  | case1 => exact h
  | case2 system here step rest next hnext hdirectory ih =>
      exact ih h (List.forall_mem_cons.1 hway).2
  | case3 => exact h
  | case4 => exact h
  | case5 system here step rest error herror next hnext hfree ih =>
      obtain ⟨hstep, hrest⟩ := List.forall_mem_cons.1 hway
      refine ih (h.put ?_ isSound_newDirectory) hrest
      exact isEntryName_of_mem_follow h (List.forall_mem_singleton.2 hstep) hnext
  | case6 => exact h

theorem sound_makeDirectories (h : system.Sound) (path : Path) :
    (system.makeDirectories path).1.Sound := by
  unfold makeDirectories
  split
  · exact h
  · rename_i hmissing
    split
    · refine sound_makeWay h (isPlainStep_of_mem_steps ?_)
      -- What cannot be asked for is not just missing.
      cases hadmissible : admissible path with
      | true => rfl
      | false => simp [resolve, resolveFor, hadmissible] at hmissing
    · exact h
  · exact h

theorem sound_makeParent (h : system.Sound) (path : Path) : (system.makeParent path).1.Sound := by
  unfold makeParent
  split
  · exact sound_makeDirectories h _
  · exact h

theorem sound_writeFile (h : system.Sound) (path : Path) (text : Option String) :
    (system.writeFile path text).Sound := by
  have hparent := sound_makeParent h path
  unfold writeFile
  split
  · rename_i between hmake
    rwa [hmake] at hparent
  · rename_i between hmake
    rw [hmake] at hparent
    split
    · rename_i location hlocation
      split
      · exact hparent
      · exact hparent.put (isEntryName_of_mem_resolveFor hparent hlocation)
          (isSound_of_isProper trivial rfl)
    · exact hparent

theorem sound_makeLink (h : system.Sound) (path target : Path) :
    (system.makeLink path target).Sound := by
  have hparent := sound_makeParent h path
  unfold makeLink
  split
  · rename_i between hmake
    rwa [hmake] at hparent
  · rename_i between hmake
    rw [hmake] at hparent
    split
    · rename_i location hlocation
      split
      · exact hparent
      · rename_i hfree
        have htarget : admissible target = true := by
          simp only [Bool.or_eq_true, not_or] at hfree
          simpa using hfree.2
        exact hparent.put (isEntryName_of_mem_resolveFor hparent hlocation)
          (isSound_of_isProper htarget rfl)
    · exact hparent

theorem sound_remove (h : system.Sound) (path : Path) : (system.remove path).Sound := by
  unfold remove
  split
  · split
    · unfold removeAt
      split
      · exact isSound_alter (fun _ hinner => isSound_remove hinner _) h
      · exact h
    · exact isSound_alter (fun _ _ => isSound_newDirectory) h
  · exact h

/-- An entry of a snapshot leaves a file system sound. -/
theorem sound_addTo (h : system.Sound) (entry : SnapshotEntry) : (entry.addTo system).Sound := by
  cases entry with
  | directory path => exact sound_makeDirectories h path
  | file path text => exact sound_writeFile h path (some text)
  | bytes path => exact sound_writeFile h path none
  | link path target => exact sound_makeLink h path target
  | working path =>
      have hmade : (system.makeDirectory path).Sound := sound_makeDirectories h path
      simp only [SnapshotEntry.addTo]
      split
      · exact hmade
      · exact hmade

end Changes

/-- Every file system that a snapshot describes is well formed. -/
theorem wellFormed_ofSnapshot? {text : String} {system : FileSystem}
    (h : ofSnapshot? text = some system) : system.WellFormed := by
  obtain ⟨entries, -, rfl⟩ := Option.map_eq_some_iff.1 h
  have hrun : ∀ (entries : List SnapshotEntry) (start : FileSystem), start.Sound →
      (entries.foldl SnapshotEntry.addTo start).Sound := by
    intro entries
    induction entries with
    | nil => exact fun _ hstart => hstart
    | cons entry rest ih => exact fun start hstart => ih _ (sound_addTo hstart entry)
  exact (hrun entries empty sound_empty).wellFormed

end FileSystem
end ProjectAssembler
