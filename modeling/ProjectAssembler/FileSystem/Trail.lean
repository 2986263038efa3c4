import ProjectAssembler.FileSystem.Basic

/-!
# Trails

A way through a file system is inside of some directories at every moment.  A trail keeps them with
their entries, so that a name is looked up in the innermost one and `..` goes back to the one around
it without a search from the root.

Main definitions:

* `Trail`: the directories that a way is inside of;
* `Trail.location`: the location of the innermost one;
* `Trail.Stands`: each directory is an entry of the one around it;
* `FileSystem.trailTo?`: the trail to the directory at a location.

Main result: `FileSystem.node?_of_stands`, a trail that stands leads to its innermost directory.
-/

namespace ProjectAssembler

/-- The directories below the root that a way is inside of, innermost first, each with its name and
its entries. -/
abbrev Trail : Type :=
  List (String × Entries)

namespace Trail

/-- The location of the innermost directory. -/
def location (trail : Trail) : Location :=
  (trail.map (·.1)).reverse

/-- The entries of the innermost directory; those of the root if there is no other. -/
def entries (root : Entries) : Trail → Entries
  | [] => root
  | (_, inner) :: _ => inner

/-- Every directory is an entry of the one around it. -/
def Stands (root : Entries) : Trail → Prop
  | [] => True
  | (name, inner) :: outer =>
      (entries root outer).lookup name = some (.directory inner) ∧ Stands root outer

/-- A trail continued by the directories with given names, if all of them are there. -/
def continue? (root : Entries) (trail : Trail) : Location → Option Trail
  | [] => some trail
  | name :: rest =>
      match (entries root trail).lookup name with
      | some (.directory inner) => continue? root ((name, inner) :: trail) rest
      | _ => none

@[simp]
theorem location_nil : location [] = [] :=
  rfl

@[simp]
theorem location_cons (name : String) (inner : Entries) (outer : Trail) :
    location ((name, inner) :: outer) = location outer ++ [name] := by
  simp [location]

/-- A trail without its innermost directory still stands. -/
theorem stands_tail {root : Entries} {trail : Trail} (h : Stands root trail) :
    Stands root trail.tail := by
  cases trail with
  | nil => exact h
  | cons frame outer => exact h.2

/-- A trail that stands still stands when it is continued. -/
theorem stands_of_continue? {root : Entries} {trail longer : Trail} {names : Location}
    (hstands : Stands root trail) (h : continue? root trail names = some longer) :
    Stands root longer := by
  induction names generalizing trail with
  | nil => rw [← Option.some.inj h]; exact hstands
  | cons name rest ih =>
      unfold continue? at h
      split at h
      · rename_i inner heq
        have hlonger : Stands root ((name, inner) :: trail) := ⟨heq, hstands⟩
        exact ih hlonger h
      · simp at h

end Trail

namespace FileSystem

/-- The trail to the directory at a location, if there is one. -/
def trailTo? (system : FileSystem) (location : Location) : Option Trail :=
  Trail.continue? system.root [] location

/-- A trail to a location stands. -/
theorem stands_of_trailTo? {system : FileSystem} {location : Location} {trail : Trail}
    (h : system.trailTo? location = some trail) : trail.Stands system.root :=
  have hempty : Trail.Stands system.root [] := trivial
  Trail.stands_of_continue? hempty h

/-- An entry of a directory is at the directory's location continued by the entry's name. -/
theorem node?_child {system : FileSystem} {location : Location} {entries : Entries} {name : String}
    {node : Node} (hdirectory : system.node? location = some (.directory entries))
    (hentry : entries.lookup name = some node) : system.node? (location ++ [name]) = some node := by
  unfold node? at hdirectory ⊢
  rw [Node.descend?_append, hdirectory]
  simp [Node.descend?, hentry]

/-- A trail that stands leads to its innermost directory. -/
theorem node?_of_stands {system : FileSystem} {trail : Trail} (h : trail.Stands system.root) :
    system.node? trail.location = some (.directory (trail.entries system.root)) := by
  induction trail with
  | nil => simp [Trail.entries]
  | cons frame outer ih =>
      obtain ⟨name, inner⟩ := frame
      rw [Trail.location_cons]
      exact node?_child (ih h.2) h.1

end FileSystem
end ProjectAssembler
