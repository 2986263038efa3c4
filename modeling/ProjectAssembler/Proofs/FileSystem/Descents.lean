import ProjectAssembler.Proofs.FileSystem.WellFormed
import ProjectAssembler.Proofs.Path.Children

/-!
# Going down from a directory

A path that leads to a directory, continued by the name of a directory in it, leads to that one.
This holds however the path is spelled and whatever links it passes, because the way of the longer
path takes all steps of the shorter one first.

Main results:

* `FileSystem.followTrail_enter` and its likes: single steps of a way;
* `FileSystem.exists_followTrail_append`: a way to a directory can be continued from there;
* `FileSystem.exists_resolveFor_child` and `FileSystem.readDirectory_child`: what a continued path
  means, and what is read there.
-/

namespace ProjectAssembler
namespace FileSystem

open ProjectAssembler.Path (IsName)

/-! ## Steps of a way -/

section Steps

variable {system : FileSystem} {purpose : Purpose} {links : Nat} {trail : Trail} {step : String}
  {rest : List String}

/-- A name leads away from where it is looked up. -/
theorem not_isStay_of_isName {name : String} (hname : IsName name) : ¬ isStay name = true := by
  simp [isStay, hname.1, hname.2.1]

theorem followTrail_stay (hstay : isStay step = true) :
    followTrail system purpose links trail (step :: rest) =
      followTrail system purpose links trail rest := by
  rw [followTrail, if_pos hstay]

theorem followTrail_up :
    followTrail system purpose links trail (".." :: rest) =
      followTrail system purpose links trail.tail rest := by
  rw [followTrail, if_neg (by decide), if_pos rfl]

theorem followTrail_enter {inner : Entries} (hstay : ¬ isStay step = true) (hup : step ≠ "..")
    (hlong : ¬ purpose.tooLong trail step = true)
    (hentry : (trail.entries system.root).lookup step = some (.directory inner)) :
    followTrail system purpose links trail (step :: rest) =
      followTrail system purpose links ((step, inner) :: trail) rest := by
  rw [followTrail, if_neg hstay, if_neg hup, if_neg hlong]
  simp only [hentry]

theorem followTrail_link {target : Path} (hstay : ¬ isStay step = true) (hup : step ≠ "..")
    (hlong : ¬ purpose.tooLong trail step = true)
    (hentry : (trail.entries system.root).lookup step = some (.link target))
    (hfollow : purpose.followLast = true ∨ rest ≠ []) :
    followTrail system purpose (links + 1) trail (step :: rest) =
      followTrail system purpose links (if target.isAbsolute then [] else trail)
        (steps target ++ rest) := by
  have hpass : ¬ (purpose.followLast = false ∧ rest = []) := by
    rintro ⟨hstop, hlast⟩
    exact hfollow.elim (fun hgo => Bool.false_ne_true (hstop.symm.trans hgo)) (· hlast)
  rw [followTrail, if_neg hstay, if_neg hup, if_neg hlong]
  simp only [hentry, if_neg hpass]

theorem followTrail_missing (hstay : ¬ isStay step = true) (hup : step ≠ "..")
    (hlong : ¬ purpose.tooLong trail step = true)
    (hentry : (trail.entries system.root).lookup step = none)
    (hmissing : purpose.mayBeMissing = false) :
    followTrail system purpose links trail (step :: rest) = .error .notFound := by
  rw [followTrail, if_neg hstay, if_neg hup, if_neg hlong]
  simp [hentry, hmissing]

theorem followTrail_file {text : Option String} (hstay : ¬ isStay step = true) (hup : step ≠ "..")
    (hlong : ¬ purpose.tooLong trail step = true)
    (hentry : (trail.entries system.root).lookup step = some (.file text)) :
    followTrail system purpose links trail [step] = .ok (trail.location ++ [step]) := by
  rw [followTrail, if_neg hstay, if_neg hup, if_neg hlong]
  simp [hentry]

end Steps

/-! ## Continued ways -/

section Ways

variable {system : FileSystem}

/-- Steps that stay lead nowhere else. -/
theorem followTrail_of_stay (purpose : Purpose) (links : Nat) (trail : Trail)
    {way : List String} (h : ∀ step ∈ way, isStay step = true) :
    followTrail system purpose links trail way = .ok trail.location := by
  induction way with
  | nil => exact followTrail_nil system purpose links trail
  | cons step rest ih =>
      obtain ⟨hstep, hrest⟩ := List.forall_mem_cons.1 h
      rw [followTrail_stay hstep]
      exact ih hrest

/-- Unless the way is written out, a name is too long for one purpose if it is for another. -/
theorem tooLong_eq {purpose : Purpose} (hpurpose : purpose.writesOut = false) (trail : Trail)
    (name : String) : purpose.tooLong trail name = Purpose.existing.tooLong trail name := by
  rw [Purpose.tooLong, Purpose.tooLong, hpurpose]
  rfl

/-- A way that goes on after some steps, or ends at a directory there, is inside of a directory by
then, wherever else it might go from there and whatever it is followed for. -/
theorem exists_followTrail_append {links : Nat} {trail : Trail} {way more : List String}
    {there : Location} (hstands : trail.Stands system.root)
    (hmore : more ≠ [] ∨ ∃ entries, system.node? there = some (.directory entries))
    (h : followTrail system .existing links trail (way ++ more) = .ok there) :
    ∃ links' trail', trail'.Stands system.root ∧
      ∀ purpose : Purpose, purpose.writesOut = false → ∀ rest,
        purpose.followLast = true ∨ rest ≠ [] →
          followTrail system purpose links trail (way ++ rest) =
            followTrail system purpose links' trail' rest := by
  fun_induction followTrail system .existing links trail way with
  | case1 links trail => exact ⟨links, trail, hstands, fun _ _ _ _ => rfl⟩
  | case2 links trail step rest hstay ih =>
      simp only [List.cons_append, followTrail_stay hstay] at h ⊢
      exact ih hstands h
  | case3 links trail rest hstay ih =>
      simp only [List.cons_append, followTrail_up] at h ⊢
      exact ih (Trail.stands_tail hstands) h
  | case4 links trail step rest hstay hup hlong =>
      rw [List.cons_append, followTrail, if_neg hstay, if_neg hup, if_pos hlong] at h
      contradiction
  | case5 links trail step rest hstay hup hlong hentry hmissing =>
      exact absurd hmissing.1 Bool.false_ne_true
  | case6 links trail step rest hstay hup hlong hentry hmissing =>
      rw [List.cons_append, followTrail_missing hstay hup hlong hentry rfl] at h
      contradiction
  | case7 links trail step rest hstay hup hlong inner hentry ih =>
      rw [List.cons_append, followTrail_enter hstay hup hlong hentry] at h
      obtain ⟨links', trail', hstands', hrest⟩ := ih ⟨hentry, hstands⟩ h
      refine ⟨links', trail', hstands', fun purpose hpurpose more hmore => ?_⟩
      rw [← tooLong_eq hpurpose] at hlong
      rw [List.cons_append, followTrail_enter hstay hup hlong hentry]
      exact hrest purpose hpurpose more hmore
  | case8 links trail step hstay hup hlong text hentry =>
      -- Behind a file no way goes on, and a way that ends there leads to no directory.
      rw [List.cons_append, followTrail, if_neg hstay, if_neg hup, if_neg hlong] at h
      simp only [hentry, List.nil_append] at h
      split at h
      · rename_i hend
        obtain ⟨entries, hdirectory⟩ := hmore.resolve_left (not_not_intro hend)
        rw [← Except.ok.inj h, node?_child (node?_of_stands hstands) hentry] at hdirectory
        cases hdirectory
      · contradiction
  | case9 links trail step rest hstay hup hlong text hentry hrest =>
      rw [List.cons_append, followTrail, if_neg hstay, if_neg hup, if_neg hlong] at h
      simp [hentry, hrest] at h
  | case10 links trail step rest hstay hup hlong target hentry hfinal =>
      exact absurd hfinal.1 (Bool.false_ne_true ∘ Eq.symm)
  | case11 trail step rest hstay hup hlong target hentry hfinal =>
      rw [List.cons_append, followTrail, if_neg hstay, if_neg hup, if_neg hlong] at h
      simp [hentry, Purpose.existing] at h
  | case12 trail step rest hstay hup hlong target hentry hfinal links ih =>
      have hbegin : Trail.Stands system.root (if target.isAbsolute then [] else trail) := by
        split
        · exact trivial
        · exact hstands
      rw [List.cons_append, followTrail_link hstay hup hlong hentry (Or.inl rfl),
        ← List.append_assoc] at h
      obtain ⟨links', trail', hstands', hrest⟩ := ih hbegin h
      refine ⟨links', trail', hstands', fun purpose hpurpose more hmore => ?_⟩
      rw [← tooLong_eq hpurpose] at hlong
      have hpass : purpose.followLast = true ∨ rest ++ more ≠ [] :=
        hmore.imp_right (List.append_ne_nil_of_right_ne_nil rest)
      rw [List.cons_append, followTrail_link hstay hup hlong hentry hpass, ← List.append_assoc]
      exact hrest purpose hpurpose more hmore

/-- After some steps a way has left all removed directories, is still inside of one, or can go no
further, whatever comes then. -/
theorem leaveRemoved_append (removed : Nat) (way : List String) :
    (∃ front, ∀ rest, leaveRemoved removed (way ++ rest) = .ok (some (front ++ rest))) ∨
      (∃ deep, ∀ rest, leaveRemoved removed (way ++ rest) = leaveRemoved (deep + 1) rest) ∨
      ∃ error, ∀ rest, leaveRemoved removed (way ++ rest) = .error error := by
  fun_induction leaveRemoved removed way with
  | case1 way => exact Or.inl ⟨way, fun _ => leaveRemoved_zero _⟩
  | case2 removed => exact Or.inr (Or.inl ⟨removed, fun _ => rfl⟩)
  | case3 removed step rest hstay ih =>
      have hstep : ∀ more, leaveRemoved (removed + 1) (step :: rest ++ more) =
          leaveRemoved (removed + 1) (rest ++ more) := by
        intro more
        rw [List.cons_append, leaveRemoved, if_pos hstay]
      simpa only [hstep] using ih
  | case4 removed rest hstay ih =>
      have hstep : ∀ more, leaveRemoved (removed + 1) (".." :: rest ++ more) =
          leaveRemoved removed (rest ++ more) := by
        intro more
        rw [List.cons_append, leaveRemoved, if_neg hstay, if_pos rfl]
      simpa only [hstep] using ih
  | case5 removed step rest hstay hup =>
      refine Or.inr (Or.inr ⟨.notFound, fun more => ?_⟩)
      rw [List.cons_append, leaveRemoved, if_neg hstay, if_neg hup]

/-- Steps that stay do not leave a removed directory. -/
theorem leaveRemoved_of_stay (deep : Nat) {tail : List String}
    (htail : ∀ step ∈ tail, isStay step = true) : leaveRemoved (deep + 1) tail = .ok none := by
  induction tail with
  | nil => rfl
  | cons step rest ih =>
      obtain ⟨hstep, hrest⟩ := List.forall_mem_cons.1 htail
      rw [leaveRemoved, if_pos hstep]
      exact ih hrest

/-- What is left of a longer way after removed directories is what is left of the shorter one and
the rest.  Steps at the end that stay make no difference. -/
theorem exists_leaveRemoved_append {removed : Nat} {way tail left : List String}
    (htail : ∀ step ∈ tail, isStay step = true)
    (h : leaveRemoved removed (way ++ tail) = .ok (some left)) :
    ∃ front, left = front ++ tail ∧
      ∀ rest, leaveRemoved removed (way ++ rest) = .ok (some (front ++ rest)) := by
  rcases leaveRemoved_append removed way with ⟨front, hfront⟩ | ⟨deep, hdeep⟩ | ⟨error, herror⟩
  · rw [hfront, Except.ok.injEq, Option.some.injEq] at h
    exact ⟨front, h.symm, hfront⟩
  · rw [hdeep, leaveRemoved_of_stay deep htail] at h
    cases h
  · rw [herror] at h
    cases h

/-- From a trail to a directory the name of a directory in it leads there. -/
theorem followTrail_name {purpose : Purpose} {links : Nat} {trail : Trail} {name : String}
    {inner : Entries} (hpurpose : purpose.writesOut = false) (hname : IsEntryName name)
    (hentry : (trail.entries system.root).lookup name = some (.directory inner)) :
    followTrail system purpose links trail [name] = .ok (trail.location ++ [name]) := by
  obtain ⟨hproper, hlength, -⟩ := hname
  have hlong : ¬ purpose.tooLong trail name = true := by
    simpa [Purpose.tooLong, hpurpose] using hlength
  rw [followTrail_enter (not_isStay_of_isName hproper) hproper.2.2.1 hlong hentry, followTrail_nil,
    Trail.location_cons]

/-- A way to a directory, continued by the name of a directory in it. -/
theorem follow_append {purpose : Purpose} {here location : Location} {way tail : List String}
    {entries inner : Entries} {name : String} (hpurpose : purpose.writesOut = false)
    (htail : ∀ step ∈ tail, isStay step = true)
    (h : follow system .existing linkLimit here (way ++ tail) = .ok location)
    (hdirectory : system.node? location = some (.directory entries))
    (hname : IsEntryName name) (hentry : entries.lookup name = some (.directory inner)) :
    follow system purpose linkLimit here (way ++ [name]) = .ok (location ++ [name]) := by
  unfold follow at h ⊢
  cases htrail : system.trailTo? here with
  | none =>
      rw [htrail] at h
      contradiction
  | some trail =>
      simp only [htrail] at h ⊢
      obtain ⟨links', trail', hstands, hrest⟩ :=
        exists_followTrail_append (stands_of_trailTo? htrail) (Or.inr ⟨entries, hdirectory⟩) h
      rw [hrest .existing rfl tail (Or.inl rfl), followTrail_of_stay _ _ _ htail] at h
      obtain rfl := Except.ok.inj h
      have hentries := node?_of_stands hstands
      rw [hdirectory, Option.some.injEq, Node.directory.injEq] at hentries
      rw [hrest purpose hpurpose [name] (Or.inr (List.cons_ne_nil name [])),
        followTrail_name hpurpose hname (hentries ▸ hentry)]

/-- The way of a path to a directory, continued by the name of a directory in it. -/
theorem followFrom_append {purpose : Purpose} {absolute : Bool} {way tail : List String}
    {location : Location} {entries inner : Entries} {name : String}
    (hpurpose : purpose.writesOut = false) (htail : ∀ step ∈ tail, isStay step = true)
    (h : followFrom system .existing absolute (way ++ tail) = .ok (.standing location))
    (hdirectory : system.node? location = some (.directory entries))
    (hname : IsEntryName name) (hentry : entries.lookup name = some (.directory inner)) :
    followFrom system purpose absolute (way ++ [name]) = .ok (.standing (location ++ [name])) := by
  unfold followFrom at h ⊢
  cases absolute with
  | true =>
      exact map_standing_eq_ok_iff.2
        (follow_append hpurpose htail (map_standing_eq_ok_iff.1 h) hdirectory hname hentry)
  | false =>
      simp only [Bool.false_eq_true, if_false] at h ⊢
      split at h
      · cases h
      · cases h
      · rename_i left hleft
        obtain ⟨front, rfl, hfront⟩ := exists_leaveRemoved_append htail hleft
        rw [hfront]
        exact map_standing_eq_ok_iff.2
          (follow_append hpurpose htail (map_standing_eq_ok_iff.1 h) hdirectory hname hentry)

end Ways

/-! ## Continued paths -/

variable {system : FileSystem} {path : Path} {name : String}

/-- The way of a continued path. -/
theorem exists_steps_child (path : Path) (hname : IsName name) :
    ∃ way tail, (∀ step ∈ tail, isStay step = true) ∧ steps path = way ++ tail ∧
      steps (path.child name) = way ++ [name] := by
  obtain ⟨front, hfront, hchild⟩ := Path.exists_segments_child path hname
  have hsteps : steps (path.child name) = front.map String.ofList ++ [name] := by
    simp [steps, hchild]
  rcases hfront with hfront | hfront
  · exact ⟨front.map String.ofList, [], nofun, by simp [steps, hfront], hsteps⟩
  · exact ⟨front.map String.ofList, [""], by decide, by simp [steps, hfront], hsteps⟩

/-- A path continued by the name of an entry can be asked for if it is not too long. -/
theorem admissible_child (hpath : admissible path = true) (hname : IsEntryName name)
    (hlength : (path.child name).text.utf8ByteSize < pathLimit) :
    admissible (path.child name) = true := by
  have hnull : '\x00' ∉ (path.child name).text.toList := by
    simp only [admissible, Bool.and_eq_true, Bool.not_eq_true', List.contains_eq_mem,
      decide_eq_false_iff_not] at hpath
    unfold Path.child Path.join
    split
    · exact hname.2.2
    · split <;> simp [hpath.2, hname.2.2]
  simp [admissible, hlength, hnull]

/-- What a path to a directory means, continued by the name of a directory in it, whatever it is
asked for. -/
theorem resolveFor_child {purpose : Purpose} {location : Location} {entries inner : Entries}
    (hpurpose : purpose.writesOut = false) (h : system.resolve path = .ok (.standing location))
    (hdirectory : system.node? location = some (.directory entries))
    (hname : IsEntryName name) (hentry : entries.lookup name = some (.directory inner))
    (hlength : (path.child name).text.utf8ByteSize < pathLimit) :
    system.resolveFor purpose (path.child name) = .ok (.standing (location ++ [name])) := by
  unfold resolve at h
  unfold resolveFor at h ⊢
  split at h
  · contradiction
  · rename_i hadmissible
    split at h
    · contradiction
    · have hchild : admissible (path.child name) = true :=
        admissible_child (by simpa using hadmissible) hname hlength
      obtain ⟨way, tail, htail, hpath, hsteps⟩ := exists_steps_child path hname.1
      rw [hpath] at h
      rw [if_neg (by simp [hchild]), if_neg (by simpa using Path.text_child_ne hname.1),
        Path.isAbsolute_child hname.1, hsteps]
      exact followFrom_append hpurpose htail h hdirectory hname hentry

/-- What a path to a directory means. -/
theorem isDirectory_iff :
    system.isDirectory path = true ↔ ∃ entries, system.find? path = some (.directory entries) := by
  unfold isDirectory
  cases system.find? path with
  | none => simp
  | some node => cases node <;> simp [Node.isDirectory]

/-- A path that means nothing means no directory. -/
theorem isDirectory_of_none (h : system.find? path = none) : system.isDirectory path = false := by
  rw [isDirectory, h]
  rfl

/-- A directory is no regular file. -/
theorem isFile_of_isDirectory (h : system.isDirectory path = true) :
    system.isFile path = false := by
  obtain ⟨entries, hfind⟩ := isDirectory_iff.1 h
  rw [isFile, hfind]
  rfl

/-- A directory is read wherever a path leads to it. -/
theorem readDirectory_eq_ok_iff {entries : Entries} :
    system.readDirectory path = .ok entries ↔ system.find? path = some (.directory entries) := by
  unfold readDirectory find?
  cases system.resolve path with
  | error error => simp
  | ok place =>
      dsimp only
      split <;> simp_all

/-- A path leads to a directory if that can be read. -/
theorem isDirectory_iff_readDirectory :
    system.isDirectory path = true ↔ ∃ entries, system.readDirectory path = .ok entries := by
  simp only [isDirectory_iff, readDirectory_eq_ok_iff]

/-- What a path to a directory that can be read means, continued by the name of a directory in
it. -/
theorem exists_resolveFor_child (purpose : Purpose) (hpurpose : purpose.writesOut = false)
    (hsystem : system.WellFormed) {entries inner : Entries}
    (h : system.readDirectory path = .ok entries) (hentry : (name, .directory inner) ∈ entries)
    (hlength : (path.child name).text.utf8ByteSize < pathLimit) :
    ∃ location, system.resolveFor purpose (path.child name) = .ok (.standing location) ∧
      system.node? location = some (.directory inner) := by
  unfold readDirectory at h
  cases hresolve : system.resolve path with
  | error error =>
      rw [hresolve] at h
      cases h
  | ok place =>
      simp only [hresolve] at h
      split at h
      · rename_i found hfound
        obtain rfl := Except.ok.inj h
        cases place with
        | removed =>
            rw [entryAt?, Option.some.injEq, Node.directory.injEq] at hfound
            rw [← hfound] at hentry
            exact absurd hentry List.not_mem_nil
        | standing location =>
            have hkept : WellKept found := hsystem location found hfound
            have hlookup := hkept.lookup hentry
            exact ⟨location ++ [name], resolveFor_child hpurpose hresolve hfound
              (hkept.named _ hentry) hlookup hlength, node?_child hfound hlookup⟩
      · cases h
      · cases h

/-- What is read at a path to a directory, continued by the name of a directory in it. -/
theorem readDirectory_child (hsystem : system.WellFormed) {entries inner : Entries}
    (h : system.readDirectory path = .ok entries) (hentry : (name, .directory inner) ∈ entries)
    (hlength : (path.child name).text.utf8ByteSize < pathLimit) :
    system.readDirectory (path.child name) = .ok inner := by
  obtain ⟨location, hresolve, hinner⟩ :=
    exists_resolveFor_child .existing rfl hsystem h hentry hlength
  have hchild : system.resolve (path.child name) = .ok (.standing location) := hresolve
  rw [readDirectory, hchild]
  simp only [entryAt?, hinner]

/-- What is read at a path to a directory is well kept. -/
theorem wellKept_of_readDirectory (hsystem : system.WellFormed) {entries : Entries}
    (h : system.readDirectory path = .ok entries) : WellKept entries := by
  unfold readDirectory at h
  split at h
  · cases h
  · rename_i place hplace
    split at h
    · rename_i found hfound
      obtain rfl := Except.ok.inj h
      cases place with
      | removed =>
          rw [entryAt?, Option.some.injEq, Node.directory.injEq] at hfound
          subst hfound
          exact wellKept_nil
      | standing location => exact hsystem location found hfound
    · cases h
    · cases h

end FileSystem
end ProjectAssembler
