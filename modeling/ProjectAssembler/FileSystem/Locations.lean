import ProjectAssembler.FileSystem.Canonical

/-!
# The places of a file system

A file system has finitely many places.  Whatever a path means is one of them, so a search that
opens every place at most once comes to an end.

Main definitions:

* `FileSystem.locations`: the locations of all entries;
* `FileSystem.places`: their canonical paths;
* `FileSystem.unopened`: the number of places outside of a list.

Main results:

* `FileSystem.node?_of_canonicalLocation`: what a path means exists;
* `FileSystem.mem_places_of_canonical`: a canonical path is one of the places;
* `FileSystem.unopened_cons_lt`: opening a place leaves fewer of them.
-/

namespace ProjectAssembler

mutual

/-- The locations of an entry and of everything below it, relative to it. -/
def Node.locations : Node → List Location
  | .directory entries => [] :: locationsEach entries
  | _ => [[]]
termination_by structural node => node

/-- The locations of entries and of everything below them, relative to their directory. -/
def locationsEach : List (String × Node) → List Location
  | [] => []
  | (name, node) :: rest => node.locations.map (name :: ·) ++ locationsEach rest
termination_by structural entries => entries

end

theorem nil_mem_locations (node : Node) : [] ∈ node.locations := by
  cases node <;> simp [Node.locations]

/-- The locations below an entry of a directory are among those of the directory. -/
theorem mem_locationsEach {entries : Entries} {name : String} {node : Node} {location : Location}
    (hentry : entries.lookup name = some node) (h : location ∈ node.locations) :
    name :: location ∈ locationsEach entries := by
  induction entries with
  | nil => simp at hentry
  | cons entry rest ih =>
      obtain ⟨key, first⟩ := entry
      simp only [locationsEach, List.mem_append, List.mem_map, List.cons.injEq]
      by_cases hkey : name = key
      · subst hkey
        simp only [List.lookup_cons, beq_self_eq_true, Option.some.injEq] at hentry
        subst hentry
        exact Or.inl ⟨location, h, rfl, rfl⟩
      · have hfalse : (name == key) = false := by simpa using hkey
        simp only [List.lookup_cons, hfalse] at hentry
        exact Or.inr (ih hentry)

/-- Names that lead to something are a location. -/
theorem mem_locations_of_descend? {location : Location} {node : Node}
    (h : (node.descend? location).isSome = true) : location ∈ node.locations := by
  induction location generalizing node with
  | nil => exact nil_mem_locations node
  | cons name rest ih =>
      cases node with
      | directory entries =>
          cases hentry : entries.lookup name with
          | none => simp [Node.descend?, hentry] at h
          | some inner =>
              simp only [Node.descend?, hentry] at h
              simp only [Node.locations, List.mem_cons, reduceCtorEq, false_or]
              exact mem_locationsEach hentry (ih h)
      | file text => simp [Node.descend?] at h
      | link target => simp [Node.descend?] at h

namespace FileSystem

/-- The locations of all entries. -/
def locations (system : FileSystem) : List Location :=
  (Node.directory system.root).locations

/-- The canonical paths of all entries. -/
def places (system : FileSystem) : List Path :=
  system.locations.map Path.ofNames

/-- The location of something that exists is one of the locations. -/
theorem mem_locations {system : FileSystem} {location : Location}
    (h : (system.node? location).isSome = true) : location ∈ system.locations :=
  mem_locations_of_descend? h

/-! ## What a path means exists -/

/-- A way that begins in existing directories leads to something existing, unless the last name may
be missing. -/
theorem node?_of_followTrail {system : FileSystem} {purpose : Purpose} {links : Nat} {trail : Trail}
    {way : List String} {there : Location} (hpurpose : purpose.mayBeMissing = false)
    (hstands : trail.Stands system.root)
    (h : followTrail system purpose links trail way = .ok there) :
    (system.node? there).isSome = true := by
  fun_induction followTrail system purpose links trail way with
  | case1 => rw [← Except.ok.inj h, node?_of_stands hstands]; rfl
  | case2 links trail step rest hstay ih => exact ih hstands h
  | case3 links trail rest hstay ih => exact ih (Trail.stands_tail hstands) h
  | case4 => simp at h
  | case5 links trail step rest hstay hup hlength hentry hmissing => simp [hpurpose] at hmissing
  | case6 => simp at h
  | case7 links trail step rest hstay hup hlength inner hentry ih =>
      exact ih ⟨hentry, hstands⟩ h
  | case8 links trail step hstay hup hlength text hentry =>
      rw [← Except.ok.inj h, node?_child (node?_of_stands hstands) hentry]
      rfl
  | case9 => simp at h
  | case10 links trail step rest hstay hup hlength target hentry hlast =>
      rw [← Except.ok.inj h, node?_child (node?_of_stands hstands) hentry]
      rfl
  | case11 => simp at h
  | case12 trail step rest hstay hup hlength target hentry hlast links ih =>
      apply ih _ h
      split
      · trivial
      · exact hstands

/-- A way leads to something existing, unless the last name may be missing. -/
theorem node?_of_follow {system : FileSystem} {purpose : Purpose} {links : Nat}
    {here there : Location} {way : List String} (hpurpose : purpose.mayBeMissing = false)
    (h : follow system purpose links here way = .ok there) :
    (system.node? there).isSome = true := by
  unfold follow at h
  split at h
  · rename_i trail htrail
    exact node?_of_followTrail hpurpose (stands_of_trailTo? htrail) h
  · simp at h

/-- What a path means exists. -/
theorem node?_of_canonicalLocation {system : FileSystem} {path : Path} {location : Location}
    (h : system.canonicalLocation path = .ok location) :
    (system.node? location).isSome = true := by
  unfold canonicalLocation at h
  split at h
  · simp at h
  · split at h
    · simp at h
    · split at h
      · exact node?_of_follow rfl h
      · simp at h

/-- A canonical path is one of the places. -/
theorem mem_places_of_canonical {system : FileSystem} {path canonical : Path}
    (h : system.canonical path = .ok canonical) : canonical ∈ system.places := by
  unfold FileSystem.canonical at h
  cases hlocation : system.canonicalLocation path with
  | error error => simp [hlocation, Except.map] at h
  | ok location =>
      simp only [hlocation, Except.map, Except.ok.injEq] at h
      rw [← h]
      exact List.mem_map_of_mem (mem_locations (node?_of_canonicalLocation hlocation))

/-! ## Places that have not been opened -/

/-- Whether a path is in a list, by its components. -/
def isOpened (opened : List Path) (path : Path) : Bool :=
  opened.any (·.same path)

/-- The number of places outside of a list. -/
def unopened (system : FileSystem) (opened : List Path) : Nat :=
  (system.places.filter fun place => !isOpened opened place).length

/-- Opening a place that was not open leaves fewer of them. -/
theorem unopened_cons_lt {system : FileSystem} {opened : List Path} {place : Path}
    (hplace : place ∈ system.places) (hfresh : isOpened opened place = false) :
    system.unopened (place :: opened) < system.unopened opened := by
  have hsub : (system.places.filter fun other => !isOpened (place :: opened) other) =
      (system.places.filter fun other => !isOpened opened other).filter
        fun other => !place.same other := by
    rw [List.filter_filter]
    congr 1
    funext other
    simp [isOpened]
  unfold unopened
  rw [hsub]
  apply List.length_filter_lt_length_iff_exists.2
  exact ⟨place, List.mem_filter.2 ⟨hplace, by simp [hfresh]⟩, by simp [Path.same]⟩

end FileSystem
end ProjectAssembler
