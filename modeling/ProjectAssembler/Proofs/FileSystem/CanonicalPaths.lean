import ProjectAssembler.FileSystem.Canonical
import ProjectAssembler.Proofs.Path.Spelling

/-!
# The spelling of canonical paths

The location that a path leads to consists of proper names, because every step of a way is a name,
stays, or leads up.  Canonical paths therefore have only one spelling.  Where relative paths begin
has to be known by proper names too, which every real working directory is.

Main definition: `FileSystem.WellNamed`.

Main results:

* `FileSystem.isName_of_mem_followTrail`: a way that is followed leads through proper names;
* `FileSystem.isCanonical_of_canonical`: the canonical path of something is spelled from names;
* `FileSystem.isNormal_normalPath`: the normal path of a file is in normal form.
-/

namespace ProjectAssembler

/-- A trail that is continued by names leads to its location continued by them. -/
theorem Trail.location_of_continue? {root : Entries} {trail longer : Trail} {names : Location}
    (h : Trail.continue? root trail names = some longer) :
    longer.location = trail.location ++ names := by
  induction names generalizing trail with
  | nil =>
      rw [← Option.some.inj h, List.append_nil]
  | cons name rest ih =>
      unfold Trail.continue? at h
      split at h
      · rw [ih h, Trail.location_cons, List.append_assoc, List.singleton_append]
      · simp at h

namespace FileSystem

open ProjectAssembler.Path (IsName)

/-- The working directory is known by proper names, as it is in every file system that comes about
by changes of the empty one. -/
def WellNamed (system : FileSystem) : Prop :=
  ∀ name ∈ system.workingDirectory.standing, IsName name

/-- Where the working directory stays, its names stay proper. -/
theorem WellNamed.of_eq {system changed : FileSystem} (h : system.WellNamed)
    (heq : changed.workingDirectory = system.workingDirectory) : changed.WellNamed := by
  unfold WellNamed
  rw [heq]
  exact h

/-- What a step of a way may be: it stays, leads up, or is a name. -/
def IsStep (step : String) : Prop :=
  isStay step = true ∨ step = ".." ∨ IsName step

/-- The steps of a path are such steps. -/
theorem isStep_of_mem_steps {path : Path} {step : String} (h : step ∈ steps path) :
    IsStep step := by
  by_cases hstay : isStay step = true
  · exact Or.inl hstay
  · by_cases hup : step = ".."
    · exact Or.inr (Or.inl hup)
    · exact Or.inr (Or.inr (Path.isName_of_mem_steps h (by simpa using hstay) hup))

/-- A step that neither stays nor leads up is a name. -/
theorem IsStep.isName {step : String} (h : IsStep step) (hstay : isStay step ≠ true)
    (hup : step ≠ "..") : IsName step := by
  rcases h with h | h | h
  · exact absurd h hstay
  · exact absurd h hup
  · exact h

/-- The location of a trail that is entered further. -/
theorem forall_mem_location_cons {name : String} {inner : Entries} {trail : Trail}
    (hname : IsName name) (htrail : ∀ other ∈ trail.location, IsName other) :
    ∀ other ∈ Trail.location ((name, inner) :: trail), IsName other := by
  intro other hother
  rw [Trail.location_cons] at hother
  rcases List.mem_append.1 hother with hother | hother
  · exact htrail other hother
  · rw [List.mem_singleton.1 hother]
    exact hname

/-- A way that begins in properly named directories leads through proper names. -/
theorem isName_of_mem_followTrail {system : FileSystem} {purpose : Purpose} {links : Nat}
    {trail : Trail} {way : List String} {there : Location}
    (htrail : ∀ name ∈ trail.location, IsName name) (hway : ∀ step ∈ way, IsStep step)
    (h : followTrail system purpose links trail way = .ok there) :
    ∀ name ∈ there, IsName name := by
  -- Where the way ends at an entry, the location is that of the trail and the entry's name.
  have hlast : ∀ (trail : Trail) (step : String), IsName step →
      (∀ name ∈ trail.location, IsName name) →
      ∀ name ∈ trail.location ++ [step], IsName name := by
    intro trail step hstep htrail name hname
    rcases List.mem_append.1 hname with hname | hname
    · exact htrail name hname
    · rw [List.mem_singleton.1 hname]
      exact hstep
  fun_induction followTrail system purpose links trail way with
  | case1 => rw [← Except.ok.inj h]; exact htrail
  | case2 links trail step rest hstay ih =>
      exact ih htrail (fun other hother => hway other (List.mem_cons_of_mem _ hother)) h
  | case3 links trail rest hstay ih =>
      apply ih _ (fun other hother => hway other (List.mem_cons_of_mem _ hother)) h
      intro name hname
      cases trail with
      | nil => simp at hname
      | cons frame outer =>
          apply htrail
          rw [Trail.location_cons]
          exact List.mem_append_left _ hname
  | case4 => simp at h
  | case5 links trail step rest hstay hup hlength hentry hmissing =>
      rw [← Except.ok.inj h]
      exact hlast trail step ((hway step (by simp)).isName hstay hup) htrail
  | case6 => simp at h
  | case7 links trail step rest hstay hup hlength inner hentry ih =>
      have hname : IsName step := (hway step (by simp)).isName hstay hup
      exact ih (forall_mem_location_cons hname htrail)
        (fun other hother => hway other (List.mem_cons_of_mem _ hother)) h
  | case8 links trail step hstay hup hlength text hentry =>
      rw [← Except.ok.inj h]
      exact hlast trail step ((hway step (by simp)).isName hstay hup) htrail
  | case9 => simp at h
  | case10 links trail step rest hstay hup hlength target hentry hfinal =>
      rw [← Except.ok.inj h]
      exact hlast trail step ((hway step (by simp)).isName hstay hup) htrail
  | case11 => simp at h
  | case12 trail step rest hstay hup hlength target hentry hfinal links ih =>
      apply ih _ _ h
      · split
        · simp
        · exact htrail
      · intro other hother
        rcases List.mem_append.1 hother with hother | hother
        · exact isStep_of_mem_steps hother
        · exact hway other (List.mem_cons_of_mem _ hother)

/-- A way that begins at a properly named location leads through proper names. -/
theorem isName_of_mem_follow {system : FileSystem} {purpose : Purpose} {links : Nat}
    {here there : Location} {way : List String} (hhere : ∀ name ∈ here, IsName name)
    (hway : ∀ step ∈ way, IsStep step) (h : follow system purpose links here way = .ok there) :
    ∀ name ∈ there, IsName name := by
  unfold follow at h
  split at h
  · rename_i trail htrail
    have hlocation : trail.location = here := by
      simpa using Trail.location_of_continue? htrail
    exact isName_of_mem_followTrail (by rwa [hlocation]) hway h
  · simp at h

/-- The origin of a path is properly named. -/
theorem isName_of_mem_origin? {system : FileSystem} (hsystem : system.WellNamed) {path : Path}
    {origin : Location} (h : system.origin? path = some origin) :
    ∀ name ∈ origin, IsName name := by
  unfold origin? at h
  split at h
  · rw [← Option.some.inj h]
    simp
  · unfold WorkingDirectory.location? at h
    split at h
    · rw [← Option.some.inj h]
      exact hsystem
    · simp at h

/-- The canonical path of something is spelled from names. -/
theorem isCanonical_of_canonical {system : FileSystem} (hsystem : system.WellNamed)
    {path canonical : Path} (h : system.canonical path = .ok canonical) :
    canonical.IsCanonical := by
  unfold FileSystem.canonical at h
  cases hlocation : system.canonicalLocation path with
  | error error => simp [hlocation, Except.map] at h
  | ok location =>
      simp only [hlocation, Except.map, Except.ok.injEq] at h
      refine ⟨location, ?_, h.symm⟩
      unfold canonicalLocation at hlocation
      split at hlocation
      · simp at hlocation
      · split at hlocation
        · simp at hlocation
        · split at hlocation
          · rename_i origin horigin
            exact isName_of_mem_follow (isName_of_mem_origin? hsystem horigin)
              (fun step => isStep_of_mem_steps) hlocation
          · simp at hlocation

/-- The normal path of a file is in normal form. -/
theorem isNormal_normalPath {system : FileSystem} (hsystem : system.WellNamed) (path : Path) :
    (system.normalPath path).IsNormal := by
  unfold normalPath
  split
  · rename_i canonical hcanonical
    exact (isCanonical_of_canonical hsystem hcanonical).isNormal
  · exact Path.isNormal_lexicalNormal _

end FileSystem
end ProjectAssembler
