import Mathlib.Data.List.Infix
import ProjectAssembler.Proofs.FileSystem.Descents

/-!
# Ways without links

Names that lead from the root without meeting a link lead exactly where they say.  The path that is
spelled from them is then its own canonical form, if it has one, and what it means is the entry at
the location.  A canonical path is spelled from such names, since what is known by its canonical
form is neither a link nor reached through one.

Main definition: `FileSystem.MeetsLink`.

Main results:

* `FileSystem.lookup_entries`: what a directory on a way holds is what is at the longer location;
* `FileSystem.canonical_ofNames_iff`: when the path spelled from names is its own canonical form;
* `FileSystem.exists_names_of_canonical`: canonical paths are spelled from names that meet no link;
* `FileSystem.find?_ofNames`: what the path spelled from names means.
-/

namespace ProjectAssembler

/-- A text that is joined from parts holds characters of the parts and of the separator. -/
theorem Text.mem_of_mem_intercalate {c : Char} {separator : List Char} {parts : List (List Char)}
    (h : c ∈ List.intercalate separator parts) : c ∈ separator ∨ ∃ part ∈ parts, c ∈ part := by
  induction parts with
  | nil => simp [List.intercalate] at h
  | cons part rest ih =>
      cases rest with
      | nil => exact Or.inr ⟨part, by simp, by simpa [List.intercalate] using h⟩
      | cons next rest =>
          have hjoined : List.intercalate separator (part :: next :: rest) =
              part ++ separator ++ List.intercalate separator (next :: rest) := by
            simp [List.intercalate]
          rw [hjoined, List.mem_append, List.mem_append] at h
          rcases h with (hpart | hseparator) | hrest
          · exact Or.inr ⟨part, by simp, hpart⟩
          · exact Or.inl hseparator
          · rcases ih hrest with hseparator | ⟨other, hother, hc⟩
            · exact Or.inl hseparator
            · exact Or.inr ⟨other, List.mem_cons_of_mem _ hother, hc⟩

namespace FileSystem

open ProjectAssembler.Path (IsName)

variable {system : FileSystem}

/-- Whether names that lead from the root pass a link or end at one. -/
def MeetsLink (system : FileSystem) (names : Location) : Prop :=
  ∃ front target, front <+: names ∧ system.node? front = some (.link target)

/-- Whether names meet a link is decided by looking at each place on the way. -/
theorem meetsLink_iff {names : Location} :
    system.MeetsLink names ↔
      ∃ front ∈ names.inits, (system.node? front).any Node.isLink = true := by
  constructor
  · rintro ⟨front, target, hfront, hnode⟩
    exact ⟨front, (List.mem_inits _ _).2 hfront, by rw [hnode]; rfl⟩
  · rintro ⟨front, hfront, hlink⟩
    obtain ⟨node, hnode, hkind⟩ := (Option.any_eq_true _ _).1 hlink
    cases node with
    | link target => exact ⟨front, target, (List.mem_inits _ _).1 hfront, hnode⟩
    | file text => cases hkind
    | directory entries => cases hkind

instance (system : FileSystem) (names : Location) : Decidable (system.MeetsLink names) :=
  decidable_of_iff _ meetsLink_iff.symm

/-- Names that lead to something other than a link meet none on the way. -/
theorem not_meetsLink_of_node? {names : Location} {node : Node}
    (hnode : system.node? names = some node) (hlink : node.isLink = false) :
    ¬ system.MeetsLink names := by
  rintro ⟨front, target, ⟨rest, rfl⟩, hfront⟩
  unfold node? at hnode hfront
  rw [Node.descend?_append, hfront, Option.bind_some] at hnode
  cases rest with
  | nil =>
      rw [Node.descend?_nil, Option.some.injEq] at hnode
      subst hnode
      simp [Node.isLink] at hlink
  | cons name rest => cases hnode

/-! ## Following names -/

/-- What a directory holds under a name is what is at its location continued by the name. -/
theorem lookup_of_node? {location : Location} {entries : Entries}
    (hdirectory : system.node? location = some (.directory entries)) (name : String) :
    entries.lookup name = system.node? (location ++ [name]) := by
  unfold node? at hdirectory ⊢
  rw [Node.descend?_append, hdirectory, Option.bind_some, Node.descend?]
  cases entries.lookup name with
  | none => rfl
  | some node => exact (Node.descend?_nil node).symm

/-- What the innermost directory of a trail holds is what is at its location continued. -/
theorem lookup_entries {trail : Trail} (hstands : trail.Stands system.root) (name : String) :
    (trail.entries system.root).lookup name = system.node? (trail.location ++ [name]) :=
  lookup_of_node? (node?_of_stands hstands) name

/-- A way by names that meet no link leads where the names say, if it leads anywhere. -/
theorem eq_of_followTrail_names {purpose : Purpose} {links : Nat} {trail : Trail}
    {names there : Location} (hstands : trail.Stands system.root)
    (hnames : ∀ name ∈ names, IsName name)
    (hlinks : ¬ system.MeetsLink (trail.location ++ names))
    (h : followTrail system purpose links trail names = .ok there) :
    there = trail.location ++ names := by
  induction names generalizing trail with
  | nil => simpa using h.symm
  | cons name rest ih =>
      obtain ⟨hname, hrest⟩ := List.forall_mem_cons.1 hnames
      have hstay := not_isStay_of_isName hname
      rw [followTrail, if_neg hstay, if_neg hname.2.2.1] at h
      by_cases hlong : purpose.tooLong trail name = true
      · rw [if_pos hlong] at h
        cases h
      · rw [if_neg hlong] at h
        split at h
        · split at h
          · rename_i hmissing
            rw [← Except.ok.inj h, hmissing.2]
          · cases h
        · rename_i inner hentry
          have hinner : Trail.Stands system.root ((name, inner) :: trail) := ⟨hentry, hstands⟩
          have hlonger := ih hinner hrest (by simpa using hlinks) h
          simpa using hlonger
        · split at h
          · rename_i hlast
            rw [← Except.ok.inj h, hlast]
          · cases h
        · rename_i target hentry
          rw [lookup_entries hstands] at hentry
          refine absurd ⟨trail.location ++ [name], target, ?_, hentry⟩ hlinks
          exact ⟨rest, by simp⟩

/-- A way by names that meet no link leads to the entry at their location, unless some name is too
long. -/
theorem followTrail_names {links : Nat} {trail : Trail} {names : Location} {node : Node}
    (hstands : trail.Stands system.root)
    (hnames : ∀ name ∈ names, IsName name ∧ name.utf8ByteSize ≤ nameLimit)
    (hlinks : ¬ system.MeetsLink (trail.location ++ names))
    (hnode : system.node? (trail.location ++ names) = some node) :
    followTrail system .existing links trail names = .ok (trail.location ++ names) := by
  induction names generalizing trail with
  | nil => simp
  | cons name rest ih =>
      obtain ⟨⟨hname, hlength⟩, hrest⟩ := List.forall_mem_cons.1 hnames
      have hstay := not_isStay_of_isName hname
      have hlong : ¬ Purpose.existing.tooLong trail name = true := by
        simpa [Purpose.tooLong, Purpose.existing] using hlength
      have hwhole : trail.location ++ name :: rest = trail.location ++ [name] ++ rest := by simp
      -- What is at the first name decides how the way goes on.
      have hfirst : ((system.node? (trail.location ++ [name])).bind (·.descend? rest)) =
          some node := by
        rw [hwhole] at hnode
        unfold node? at hnode ⊢
        rwa [Node.descend?_append] at hnode
      have hentry := lookup_entries hstands name
      cases hfound : system.node? (trail.location ++ [name]) with
      | none =>
          rw [hfound] at hfirst
          cases hfirst
      | some found =>
          rw [hfound] at hfirst hentry
          cases found with
          | directory inner =>
              have hinner : Trail.Stands system.root ((name, inner) :: trail) := ⟨hentry, hstands⟩
              rw [followTrail_enter hstay hname.2.2.1 hlong hentry]
              have hlonger := ih hinner hrest (by simpa using hlinks) (by simpa using hnode)
              simpa using hlonger
          | file text =>
              cases rest with
              | nil => exact followTrail_file hstay hname.2.2.1 hlong hentry
              | cons next rest => cases hfirst
          | link target =>
              refine absurd ⟨trail.location ++ [name], target, ?_, hfound⟩ hlinks
              exact ⟨rest, by simp⟩

/-- Where links at the end are followed and nothing may be missing, a way ends at something that is
no link. -/
theorem exists_node?_of_followTrail {purpose : Purpose} {links : Nat} {trail : Trail}
    {way : List String} {there : Location} (hlast : purpose.followLast = true)
    (hexists : purpose.mayBeMissing = false) (hstands : trail.Stands system.root)
    (h : followTrail system purpose links trail way = .ok there) :
    ∃ node, system.node? there = some node ∧ node.isLink = false := by
  fun_induction followTrail system purpose links trail way with
  | case1 links trail =>
      rw [← Except.ok.inj h]
      exact ⟨_, node?_of_stands hstands, rfl⟩
  | case2 links trail step rest hstay ih => exact ih hstands h
  | case3 links trail rest hstay ih => exact ih (Trail.stands_tail hstands) h
  | case4 => cases h
  | case5 links trail step rest hstay hup hlength hentry hmissing =>
      rw [hexists] at hmissing
      exact absurd hmissing.1 (by decide)
  | case6 => cases h
  | case7 links trail step rest hstay hup hlength inner hentry ih => exact ih ⟨hentry, hstands⟩ h
  | case8 links trail step hstay hup hlength text hentry =>
      rw [← Except.ok.inj h]
      exact ⟨_, node?_child (node?_of_stands hstands) hentry, rfl⟩
  | case9 => cases h
  | case10 links trail step rest hstay hup hlength target hentry hfinal =>
      rw [hlast] at hfinal
      exact absurd hfinal.1 (by decide)
  | case11 => cases h
  | case12 trail step rest hstay hup hlength target hentry hfinal links ih =>
      refine ih ?_ h
      split
      · exact trivial
      · exact hstands

/-! ## Paths spelled from names -/

/-- The way of a path that is spelled from names is by these names. -/
theorem followTrail_steps_ofNames {names : List String} (hnames : ∀ name ∈ names, IsName name)
    (purpose : Purpose) (links : Nat) (trail : Trail) :
    followTrail system purpose links trail (steps (Path.ofNames names)) =
      followTrail system purpose links trail names := by
  have hlead : isStay "" = true := by decide
  have hsteps : steps (Path.ofNames names) =
      "" :: (Text.splitOn '/' ("/".intercalate names).toList).map String.ofList := by
    simp [steps, Path.segments, Path.ofNames, Text.splitOn]
  rw [hsteps, followTrail_stay hlead]
  by_cases hempty : names = []
  · subst hempty
    exact followTrail_stay hlead
  · rw [Path.splitOn_intercalate_names hnames hempty, List.map_map]
    simp

theorem isAbsolute_ofNames (names : List String) : (Path.ofNames names).isAbsolute = true := by
  simp [Path.isAbsolute, Path.ofNames]

/-- What is known by a canonical path is found by following its way from where it begins. -/
theorem exists_follow_of_canonicalLocation {path : Path} {there : Location}
    (h : system.canonicalLocation path = .ok there) :
    ∃ origin, system.origin? path = some origin ∧
      follow system .spelling linkLimit origin (steps path) = .ok there := by
  unfold canonicalLocation at h
  split at h
  · cases h
  · split at h
    · cases h
    · split at h
      · rename_i origin horigin
        exact ⟨origin, horigin, h⟩
      · cases h

theorem canonical_eq_ok_iff {path canonical : Path} :
    system.canonical path = .ok canonical ↔
      ∃ there, system.canonicalLocation path = .ok there ∧ canonical = Path.ofNames there := by
  unfold FileSystem.canonical
  cases system.canonicalLocation path with
  | error error => simp [Except.map]
  | ok there => simp [Except.map, eq_comm]

/-- The canonical form of an absolute path is found by following its way from the root. -/
theorem canonical_of_followTrail {path : Path} {result : Except AccessError Location}
    (hnull : path.text.toList.contains '\x00' = false) (hempty : path.text.isEmpty = false)
    (habsolute : path.isAbsolute = true)
    (hway : followTrail system .spelling linkLimit [] (steps path) = result) :
    system.canonical path = result.map Path.ofNames := by
  rw [FileSystem.canonical, canonicalLocation, hnull, hempty, origin?, if_pos habsolute]
  simp [follow, trailTo?, Trail.continue?, hway]

/-- A canonical path is spelled from proper names that meet no link. -/
theorem exists_names_of_canonical (hsystem : system.WellNamed) {path canonical : Path}
    (h : system.canonical path = .ok canonical) :
    ∃ names, (∀ name ∈ names, IsName name) ∧ ¬ system.MeetsLink names ∧
      canonical = Path.ofNames names := by
  obtain ⟨there, hthere, rfl⟩ := canonical_eq_ok_iff.1 h
  obtain ⟨origin, horigin, hfollow⟩ := exists_follow_of_canonicalLocation hthere
  have hnames := isName_of_mem_follow (isName_of_mem_origin? hsystem horigin)
    (fun step => isStep_of_mem_steps) hfollow
  refine ⟨there, hnames, ?_, rfl⟩
  unfold follow at hfollow
  split at hfollow
  · rename_i trail htrail
    obtain ⟨node, hnode, hlink⟩ :=
      exists_node?_of_followTrail rfl rfl (stands_of_trailTo? htrail) hfollow
    exact not_meetsLink_of_node? hnode hlink
  · cases hfollow

/-- Where the path spelled from names has a canonical form, this is the path itself exactly if the
names meet no link. -/
theorem canonical_ofNames_iff {names : List String} (hnames : ∀ name ∈ names, IsName name)
    {canonical : Path} (h : system.canonical (Path.ofNames names) = .ok canonical) :
    canonical = Path.ofNames names ↔ ¬ system.MeetsLink names := by
  obtain ⟨there, hthere, rfl⟩ := canonical_eq_ok_iff.1 h
  obtain ⟨origin, horigin, hfollow⟩ := exists_follow_of_canonicalLocation hthere
  have hroot : Trail.Stands system.root [] := trivial
  obtain rfl : origin = [] := by simpa [origin?, isAbsolute_ofNames, eq_comm] using horigin
  have hway : followTrail system .spelling linkLimit [] names = .ok there := by
    rw [← followTrail_steps_ofNames hnames]
    exact hfollow
  constructor
  · intro hsame
    obtain ⟨node, hnode, hlink⟩ := exists_node?_of_followTrail rfl rfl hroot hway
    have hthereNames : ∀ name ∈ there, IsName name :=
      isName_of_mem_followTrail (by simp) (fun name hname => Or.inr (Or.inr (hnames name hname)))
        hway
    have hcomponents := congrArg Path.components hsame
    rw [Path.components_ofNames hthereNames, Path.components_ofNames hnames] at hcomponents
    obtain rfl := Path.names_injective (List.cons.inj hcomponents).2
    exact not_meetsLink_of_node? hnode hlink
  · intro hlinks
    rw [eq_of_followTrail_names hroot hnames hlinks hway]
    rfl

/-- An absolute path that can be asked for means what its way leads to from the root. -/
theorem find?_of_followTrail {path : Path} {there : Location} (hadmissible : admissible path = true)
    (habsolute : path.isAbsolute = true)
    (hway : followTrail system .existing linkLimit [] (steps path) = .ok there) :
    system.find? path = system.node? there := by
  have htext : path.text.isEmpty = false := by
    cases hempty : path.text.isEmpty with
    | false => rfl
    | true =>
        rw [String.isEmpty_iff] at hempty
        simp [Path.isAbsolute, hempty] at habsolute
  have hresolve : system.resolve path = .ok (.standing there) := by
    simp [resolve, resolveFor, hadmissible, htext, followFrom, habsolute, follow, trailTo?,
      Trail.continue?, hway, Except.map]
  rw [find?, hresolve]
  rfl

/-- What an absolute path means is where its way leads. -/
theorem exists_followTrail_of_find? {path : Path} {node : Node} (habsolute : path.isAbsolute = true)
    (h : system.find? path = some node) :
    ∃ there, followTrail system .existing linkLimit [] (steps path) = .ok there ∧
      system.node? there = some node := by
  unfold find? at h
  split at h
  · rename_i place hplace
    unfold resolve resolveFor at hplace
    split at hplace
    · cases hplace
    · split at hplace
      · cases hplace
      · rw [followFrom, if_pos habsolute] at hplace
        cases hway : followTrail system .existing linkLimit [] (steps path) with
        | error error => simp [follow, trailTo?, Trail.continue?, hway, Except.map] at hplace
        | ok there =>
            refine ⟨there, rfl, ?_⟩
            simp only [follow, trailTo?, Trail.continue?, hway, Except.map, Except.ok.injEq]
              at hplace
            rwa [← hplace] at h
  · cases h

/-- The path that is spelled from the names of entries means what is at their location, where the
names meet no link. -/
theorem find?_ofNames (names : List String) (hnames : ∀ name ∈ names, IsEntryName name)
    (hlength : (Path.ofNames names).text.utf8ByteSize < pathLimit)
    (hlinks : ¬ system.MeetsLink names) :
    system.find? (Path.ofNames names) = system.node? names := by
  have hroot : Trail.Stands system.root [] := trivial
  have hproper : ∀ name ∈ names, IsName name := fun name hname => (hnames name hname).1
  have habsolute := isAbsolute_ofNames names
  have hsteps : followTrail system .existing linkLimit [] (steps (Path.ofNames names)) =
      followTrail system .existing linkLimit [] names :=
    followTrail_steps_ofNames hproper .existing linkLimit []
  have hadmissible : admissible (Path.ofNames names) = true := by
    have hnull : '\x00' ∉ (Path.ofNames names).text.toList := by
      intro hmem
      have hjoined : '\x00' ∈ List.intercalate ['/'] (names.map String.toList) := by
        simpa [Path.ofNames, Path.toList_intercalate_names] using hmem
      rcases Text.mem_of_mem_intercalate hjoined with hslash | ⟨part, hpart, hinside⟩
      · exact absurd hslash (by decide)
      · obtain ⟨name, hname, rfl⟩ := List.mem_map.1 hpart
        exact (hnames name hname).2.2 hinside
    simp [admissible, hlength, hnull]
  cases hnode : system.node? names with
  | some node =>
      rw [← hnode]
      apply find?_of_followTrail hadmissible habsolute
      rw [hsteps]
      exact followTrail_names hroot
        (fun name hname => ⟨hproper name hname, (hnames name hname).2.1⟩) hlinks hnode
  | none =>
      apply Option.eq_none_iff_forall_ne_some.2
      intro node hfind
      obtain ⟨there, hway, hthere⟩ := exists_followTrail_of_find? habsolute hfind
      rw [hsteps] at hway
      rw [eq_of_followTrail_names hroot hproper hlinks hway] at hthere
      simp [hnode] at hthere

end FileSystem
end ProjectAssembler
