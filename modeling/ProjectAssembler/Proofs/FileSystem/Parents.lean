import ProjectAssembler.Proofs.FileSystem.Descents

/-!
# The directory around an entry

A path that is continued by a name means something only if the path itself means a directory that
holds an entry of this name.  The way of the longer path takes all steps of the shorter one first,
and it is inside of a directory when it comes to the name.

Main results:

* `FileSystem.exists_follow_of_append`: a way that goes on to a name has come to a directory with an
  entry of this name;
* `FileSystem.exists_readDirectory_of_child`: the directory that a continued path needs.
-/

namespace ProjectAssembler
namespace FileSystem

open ProjectAssembler.Path (IsName)

variable {system : FileSystem}

/-! ## Ways that go on -/

/-- A name leads on only where there is an entry of this name. -/
theorem exists_lookup_of_followTrail {links : Nat} {trail : Trail} {name : String}
    {there : Location} (hname : IsName name)
    (h : followTrail system .existing links trail [name] = .ok there) :
    ∃ node, (trail.entries system.root).lookup name = some node := by
  cases hentry : (trail.entries system.root).lookup name with
  | some node => exact ⟨node, rfl⟩
  | none =>
      rw [followTrail, if_neg (not_isStay_of_isName hname), if_neg hname.2.2.1] at h
      by_cases hlong : Purpose.existing.tooLong trail name = true
      · rw [if_pos hlong] at h
        cases h
      · rw [if_neg hlong, hentry] at h
        simp [Purpose.existing] at h

/-- What is left of a way that goes on to a name after removed directories goes on to it too. -/
theorem exists_leaveRemoved_of_name {removed : Nat} {way : List String} {name : String}
    {left : Option (List String)} (hname : IsName name)
    (h : leaveRemoved removed (way ++ [name]) = .ok left) :
    ∃ front, left = some (front ++ [name]) ∧
      ∀ rest, leaveRemoved removed (way ++ rest) = .ok (some (front ++ rest)) := by
  rcases leaveRemoved_append removed way with ⟨front, hfront⟩ | ⟨deep, hdeep⟩ | ⟨error, herror⟩
  · rw [hfront, Except.ok.injEq] at h
    exact ⟨front, h.symm, hfront⟩
  · rw [hdeep, leaveRemoved, if_neg (not_isStay_of_isName hname), if_neg hname.2.2.1] at h
    cases h
  · rw [herror] at h
    cases h

/-- A way that goes on to a name has come to a directory with an entry of this name.  Steps that
stay there make no difference. -/
theorem exists_follow_of_append {here there : Location} {way tail : List String} {name : String}
    (htail : ∀ step ∈ tail, isStay step = true) (hname : IsName name)
    (h : follow system .existing linkLimit here (way ++ [name]) = .ok there) :
    ∃ location entries node, follow system .existing linkLimit here (way ++ tail) = .ok location ∧
      system.node? location = some (.directory entries) ∧ entries.lookup name = some node := by
  unfold follow at h ⊢
  cases htrail : system.trailTo? here with
  | none =>
      rw [htrail] at h
      cases h
  | some trail =>
      simp only [htrail] at h ⊢
      obtain ⟨links', trail', hstands, hrest⟩ :=
        exists_followTrail_append (stands_of_trailTo? htrail) (Or.inl (List.cons_ne_nil name [])) h
      rw [hrest .existing rfl _ (Or.inl rfl)] at h ⊢
      obtain ⟨node, hentry⟩ := exists_lookup_of_followTrail hname h
      exact ⟨trail'.location, _, node, followTrail_of_stay _ _ _ htail, node?_of_stands hstands,
        hentry⟩

/-- The same from the root or the working directory. -/
theorem exists_followFrom_of_append {absolute : Bool} {way tail : List String} {name : String}
    {place : Place} (htail : ∀ step ∈ tail, isStay step = true) (hname : IsName name)
    (h : followFrom system .existing absolute (way ++ [name]) = .ok place) :
    ∃ location entries node,
      followFrom system .existing absolute (way ++ tail) = .ok (.standing location) ∧
      system.node? location = some (.directory entries) ∧ entries.lookup name = some node := by
  have hplace : ∀ {result : Except AccessError Location} {place : Place},
      result.map Place.standing = .ok place → ∃ there, result = .ok there := by
    rintro (error | there) place hresult
    · cases hresult
    · exact ⟨there, rfl⟩
  unfold followFrom at h ⊢
  cases absolute with
  | true =>
      obtain ⟨there, hthere⟩ := hplace h
      obtain ⟨location, entries, node, hlocation, hdirectory⟩ :=
        exists_follow_of_append htail hname hthere
      exact ⟨location, entries, node, map_standing_eq_ok_iff.2 hlocation, hdirectory⟩
  | false =>
      simp only [Bool.false_eq_true, if_false] at h ⊢
      cases hleave : leaveRemoved system.workingDirectory.removed (way ++ [name]) with
      | error error =>
          rw [hleave] at h
          cases h
      | ok left =>
          obtain ⟨front, rfl, hfront⟩ := exists_leaveRemoved_of_name hname hleave
          rw [hleave] at h
          rw [hfront]
          obtain ⟨there, hthere⟩ := hplace h
          obtain ⟨location, entries, node, hlocation, hdirectory⟩ :=
            exists_follow_of_append htail hname hthere
          exact ⟨location, entries, node, map_standing_eq_ok_iff.2 hlocation, hdirectory⟩

/-! ## Continued paths -/

/-- A path can be asked for if it can be when it is continued. -/
theorem admissible_of_child {path : Path} {name : String} (hname : IsName name)
    (h : admissible (path.child name) = true) : admissible path = true := by
  obtain ⟨rest, hrest⟩ : ∃ rest, (path.child name).text = path.text ++ rest :=
    Path.exists_text_join path (Path.isAbsolute_of_isName hname)
  unfold admissible at h ⊢
  rw [hrest] at h
  simp only [String.utf8ByteSize_append, String.toList_append, Bool.and_eq_true, decide_eq_true_eq,
    Bool.not_eq_true', List.contains_eq_mem, decide_eq_false_iff_not, List.mem_append, not_or]
    at h ⊢
  exact ⟨by omega, h.2.1⟩

/-- Where a path continued by a name means something, the path is that of a directory with an entry
of this name. -/
theorem exists_readDirectory_of_child {path : Path} {name : String} {node : Node}
    (hname : IsName name) (hpath : path.text ≠ "")
    (h : system.find? (path.child name) = some node) :
    ∃ entries inner, system.readDirectory path = .ok entries ∧
      entries.lookup name = some inner := by
  unfold find? at h
  split at h
  · rename_i place hplace
    unfold resolve resolveFor at hplace
    split at hplace
    · cases hplace
    · rename_i hadmissible
      split at hplace
      · cases hplace
      · obtain ⟨way, tail, htail, hsteps, hchild⟩ := exists_steps_child path hname
        rw [hchild, Path.isAbsolute_child hname] at hplace
        obtain ⟨location, entries, inner, hlocation, hdirectory, hlookup⟩ :=
          exists_followFrom_of_append htail hname hplace
        have hshorter := admissible_of_child hname (by simpa using hadmissible)
        have hresolve : system.resolve path = .ok (.standing location) := by
          unfold resolve resolveFor
          rw [if_neg (by simp [hshorter]), if_neg (by simpa using hpath), hsteps]
          exact hlocation
        refine ⟨entries, inner, ?_, hlookup⟩
        rw [readDirectory_eq_ok_iff, find?, hresolve]
        exact hdirectory
  · cases h

end FileSystem
end ProjectAssembler
