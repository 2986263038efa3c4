import Mathlib.Data.List.Forall2
import ProjectAssembler.Packages.Cache
import ProjectAssembler.Proofs.FileSystem.Parents
import ProjectAssembler.Proofs.FileSystem.PlainWays
import ProjectAssembler.Proofs.Path.LowerCase

/-!
# Where packages are found

A package is found in a directory four names below the root of the cache, and these names are the
wanted ones up to case.  The path in lower case that is tried in between is in lower case from its
beginning on, so that the directory found there lies below the root in lower case, which may be
another one.  Libraries are files directly inside of the directory.

Main definition: `PackageCache.Matches`.

Main results:

* `PackageCache.exists_of_searchIgnoringCase`: what the search name by name finds;
* `PackageCache.directory?_placed`: where a package and its libraries are found.
-/

namespace ProjectAssembler

/-! ## Names up to ASCII case -/

namespace Path

/-- A text of characters below the letters is equal only to itself up to ASCII case. -/
theorem eq_of_equalIgnoringCase {name text : String} (htext : ∀ d ∈ text.toList, d.toNat < 65)
    (h : Text.equalIgnoringCase name text = true) : name = text := by
  have hlower : name.toList.map Char.toLower = text.toList.map Char.toLower := by
    simpa [Text.equalIgnoringCase, Text.asciiLower] using h
  have htextLower : text.toList.map Char.toLower = text.toList :=
    (List.map_congr_left fun d hd => Text.toLower_of_small (htext d hd)).trans (List.map_id _)
  have hnameLower : name.toList.map Char.toLower = name.toList := by
    refine (List.map_congr_left fun c hc => ?_).trans (List.map_id _)
    have himage : c.toLower ∈ text.toList := by
      rw [← htextLower, ← hlower]
      exact List.mem_map_of_mem hc
    exact (Text.eq_of_toLower rfl (htext _ himage)).symm
  apply String.toList_injective
  rw [← hnameLower, hlower, htextLower]

/-- What is equal to a name up to ASCII case is a name. -/
theorem isName_of_equalIgnoringCase {name wanted : String} (hwanted : IsName wanted)
    (h : Text.equalIgnoringCase name wanted = true) : IsName name := by
  obtain ⟨hempty, hdot, hdots, hslash⟩ := hwanted
  have hsame : ∀ text : String, (∀ d ∈ text.toList, d.toNat < 65) → name = text →
      wanted = text := by
    rintro text hsmall rfl
    exact eq_of_equalIgnoringCase hsmall (Text.equalIgnoringCase_symm h)
  refine ⟨?_, ?_, ?_, ?_⟩
  · exact fun heq => hempty (hsame "" (by simp) heq)
  · exact fun heq => hdot (hsame "." (by simp) heq)
  · exact fun heq => hdots (hsame ".." (by simp) heq)
  · intro hmem
    have hlower : name.toList.map Char.toLower = wanted.toList.map Char.toLower := by
      simpa [Text.equalIgnoringCase, Text.asciiLower] using h
    have hinside : ('/' : Char).toLower ∈ wanted.toList.map Char.toLower := by
      rw [← hlower]
      exact List.mem_map_of_mem hmem
    obtain ⟨c, hc, hcase⟩ := List.mem_map.1 hinside
    rw [Text.eq_of_toLower hcase (by decide)] at hc
    exact hslash hc

end Path

namespace PackageCache

open ProjectAssembler.Path (IsName)

variable {system : FileSystem}

/-- Whether names are the wanted ones up to ASCII case. -/
def Matches (found wanted : List String) : Prop :=
  List.Forall₂ (fun name other => Text.equalIgnoringCase name other = true) found wanted

/-- Names are the wanted ones if they are exactly these. -/
theorem matches_refl (names : List String) : Matches names names :=
  List.forall₂_same.2 fun name _ => Text.equalIgnoringCase_refl name

/-- Names that are the wanted ones up to ASCII case are proper if these are. -/
theorem Matches.isName {found wanted : List String} (h : Matches found wanted)
    (hwanted : ∀ name ∈ wanted, IsName name) : ∀ name ∈ found, IsName name := by
  induction h with
  | nil => exact nofun
  | cons hname hrest ih =>
      obtain ⟨hfirst, hothers⟩ := List.forall_mem_cons.1 hwanted
      exact List.forall_mem_cons.2
        ⟨Path.isName_of_equalIgnoringCase hfirst hname, ih hothers⟩

/-- The names that lead to a package are proper if its identity, version and framework are. -/
theorem isName_of_mem_names {id version framework : String} (hid : IsName (Text.trimString id))
    (hversion : IsName (Text.trimString version))
    (hframework : IsName (Text.trimString framework)) :
    ∀ name ∈ names id version framework, IsName name := by
  have hlibraries : IsName "lib" := by decide
  simp only [names, List.forall_mem_cons]
  exact ⟨Path.isName_lowercaseString hid, hversion, hlibraries, hframework, nofun⟩

/-! ## Paths below a root -/

theorem exactPath_cons (root : Path) (name : String) (rest : List String) :
    exactPath root (name :: rest) = exactPath (root.child name) rest :=
  rfl

/-- The components of a path below a root. -/
theorem components_exactPath {root : Path} {names : List String}
    (hnames : ∀ name ∈ names, IsName name) :
    (exactPath root names).components = root.components ++ names.map .name := by
  induction names generalizing root with
  | nil => simp [exactPath]
  | cons name rest ih =>
      obtain ⟨hname, hrest⟩ := List.forall_mem_cons.1 hnames
      rw [exactPath_cons, ih hrest, Path.components_child hname]
      simp

/-- The lower case of a path below a root. -/
theorem lowercase_exactPath {root : Path} {names : List String}
    (hnames : ∀ name ∈ names, IsName name) :
    (exactPath root names).lowercase =
      exactPath root.lowercase (names.map Text.lowercaseString) := by
  induction names generalizing root with
  | nil => rfl
  | cons name rest ih =>
      obtain ⟨hname, hrest⟩ := List.forall_mem_cons.1 hnames
      rw [exactPath_cons, ih hrest, Path.lowercase_child root hname, List.map_cons, exactPath_cons]

/-- What lies around a directory is a directory. -/
theorem isDirectory_of_exactPath {directory : Path} {names : List String}
    (hnames : ∀ name ∈ names, IsName name) (hdirectory : directory.text ≠ "")
    (h : system.isDirectory (exactPath directory names) = true) :
    system.isDirectory directory = true := by
  induction names generalizing directory with
  | nil => exact h
  | cons name rest ih =>
      obtain ⟨hname, hrest⟩ := List.forall_mem_cons.1 hnames
      have hinner := ih hrest (Path.text_child_ne hname) h
      obtain ⟨inner, hinner⟩ := FileSystem.isDirectory_iff.1 hinner
      obtain ⟨entries, -, hentries, -⟩ :=
        FileSystem.exists_readDirectory_of_child hname hdirectory hinner
      exact FileSystem.isDirectory_iff.2 ⟨entries, FileSystem.readDirectory_eq_ok_iff.1 hentries⟩

/-! ## The search name by name -/

/-- A step down leads to a directory whose name is the wanted one up to ASCII case. -/
theorem exists_of_descendIgnoringCase? {directory next : Path} {wanted : String}
    (h : descendIgnoringCase? system directory wanted = some next) :
    ∃ name, Text.equalIgnoringCase name wanted = true ∧ next = directory.child name ∧
      system.isDirectory next = true := by
  unfold descendIgnoringCase? at h
  by_cases hexact : system.isDirectory (directory.child wanted) = true
  · rw [if_pos hexact, Option.some.injEq] at h
    exact ⟨wanted, Text.equalIgnoringCase_refl wanted, h.symm, h ▸ hexact⟩
  · rw [if_neg hexact] at h
    split at h
    · rename_i entries hentries
      obtain ⟨⟨name, node⟩, hfound, rfl⟩ := Option.map_eq_some_iff.1 h
      have hchosen := List.find?_some hfound
      rw [Bool.and_eq_true] at hchosen
      exact ⟨name, hchosen.1, rfl, hchosen.2⟩
    · cases h

/-- The search ends below the directory it began in, by names that are the wanted ones up to ASCII
case. -/
theorem exists_of_searchIgnoringCase {directory found : Path} {names : List String}
    (h : searchIgnoringCase system directory names = some found) :
    ∃ others, Matches others names ∧ found = exactPath directory others := by
  induction names generalizing directory with
  | nil => exact ⟨[], .nil, (Option.some.inj h).symm⟩
  | cons wanted rest ih =>
      rw [searchIgnoringCase_cons] at h
      split at h
      · rename_i next hnext
        obtain ⟨name, hname, rfl, -⟩ := exists_of_descendIgnoringCase? hnext
        obtain ⟨others, hothers, rfl⟩ := ih h
        exact ⟨name :: others, .cons hname hothers, rfl⟩
      · cases h

/-- The search by at least one name ends at a directory. -/
theorem isDirectory_of_searchIgnoringCase {directory found : Path} {wanted : String}
    {rest : List String} (h : searchIgnoringCase system directory (wanted :: rest) = some found) :
    system.isDirectory found = true := by
  induction rest generalizing directory wanted with
  | nil =>
      rw [searchIgnoringCase_cons] at h
      split at h
      · rename_i next hnext
        obtain ⟨-, -, -, hdirectory⟩ := exists_of_descendIgnoringCase? hnext
        rwa [← Option.some.inj h]
      · cases h
  | cons other rest ih =>
      rw [searchIgnoringCase_cons] at h
      split at h
      · exact ih h
      · cases h

/-- The search goes straight to a directory that lies exactly where the names lead. -/
theorem searchIgnoringCase_of_exact {directory : Path} {names : List String}
    (hnames : ∀ name ∈ names, IsName name) (hdirectory : directory.text ≠ "")
    (h : system.isDirectory (exactPath directory names) = true) :
    searchIgnoringCase system directory names = some (exactPath directory names) := by
  induction names generalizing directory with
  | nil => rfl
  | cons wanted rest ih =>
      obtain ⟨hwanted, hrest⟩ := List.forall_mem_cons.1 hnames
      have hchild := isDirectory_of_exactPath hrest (Path.text_child_ne hwanted) h
      have hstep : descendIgnoringCase? system directory wanted = some (directory.child wanted) :=
        if_pos hchild
      rw [searchIgnoringCase_cons, hstep]
      exact ih hrest (Path.text_child_ne hwanted) h

/-! ## Packages -/

/-- The libraries of a package are what is listed in the directory where it is found. -/
theorem libraries_of_directory? {root directory : Path} {id version framework : String}
    {files : List Path} (h : directory? system root id version framework = some directory)
    (hfiles : system.listFiles directory Path.isLibrary = .ok files) :
    libraries system root id version framework = files := by
  unfold libraries
  split
  · rename_i hnone
    rw [hnone] at h
    cases h
  · rename_i found hfound
    rw [h, Option.some.injEq] at hfound
    subst hfound
    rw [hfiles]

/-- The libraries of a package are files directly inside of the directory where it is found. -/
theorem exists_of_mem_libraries {root library : Path} {id version framework : String}
    (h : library ∈ libraries system root id version framework) :
    ∃ directory, directory? system root id version framework = some directory ∧
      library.isLibrary = true ∧
      ∃ entries name text, system.readDirectory directory = .ok entries ∧
        (name, Node.file text) ∈ entries ∧ library = directory.child name := by
  unfold libraries at h
  split at h
  · exact absurd h List.not_mem_nil
  · rename_i directory hdirectory
    split at h
    · rename_i files hfiles
      exact ⟨directory, hdirectory, FileSystem.mem_listFiles hfiles h⟩
    · exact absurd h List.not_mem_nil

/-- The three places where a package is looked for. -/
theorem directory?_eq (root : Path) (id version framework : String) :
    directory? system root id version framework =
      if system.isDirectory (exactPath root (names id version framework)) then
        some (exactPath root (names id version framework))
      else if system.isDirectory (exactPath root (names id version framework)).lowercase then
        some (exactPath root (names id version framework)).lowercase
      else searchIgnoringCase system root (names id version framework) :=
  rfl

/-- A package is found in a directory below the root of the cache by names that are the wanted ones
up to ASCII case, or, if it is not exactly where it should be, in the directory whose path is that
one in lower case, the root included.  Its libraries are files directly inside of the directory. -/
theorem directory?_placed {root : Path} {id version framework : String}
    (hid : IsName (Text.trimString id)) (hversion : IsName (Text.trimString version))
    (hframework : IsName (Text.trimString framework)) :
    (∀ directory, directory? system root id version framework = some directory →
      system.isDirectory directory = true ∧
        ((∃ found, Matches found (names id version framework) ∧ (∀ name ∈ found, IsName name) ∧
            directory = exactPath root found) ∨
          system.isDirectory (exactPath root (names id version framework)) = false ∧
            directory =
              exactPath root.lowercase ((names id version framework).map Text.lowercaseString))) ∧
    ∀ library ∈ libraries system root id version framework,
      ∃ directory, directory? system root id version framework = some directory ∧
        library.isLibrary = true ∧
        ∃ entries name text, system.readDirectory directory = .ok entries ∧
          (name, Node.file text) ∈ entries ∧ library = directory.child name := by
  have hnames := isName_of_mem_names hid hversion hframework
  refine ⟨?_, fun library => exists_of_mem_libraries⟩
  intro directory h
  rw [directory?_eq] at h
  by_cases hexact : system.isDirectory (exactPath root (names id version framework)) = true
  · rw [if_pos hexact, Option.some.injEq] at h
    subst h
    exact ⟨hexact, Or.inl ⟨_, matches_refl _, hnames, rfl⟩⟩
  · rw [if_neg hexact] at h
    split at h
    · rename_i hlowered
      rw [lowercase_exactPath hnames] at h hlowered
      obtain rfl := Option.some.inj h
      exact ⟨hlowered, Or.inr ⟨Bool.eq_false_iff.2 hexact, rfl⟩⟩
    · obtain ⟨found, hfound, rfl⟩ := exists_of_searchIgnoringCase h
      exact ⟨isDirectory_of_searchIgnoringCase h,
        Or.inl ⟨found, hfound, hfound.isName hnames, rfl⟩⟩

/-! ## A package outside of the cache -/

/-- A cache in lower case that holds one package in one of its versions. -/
def lowerCache : FileSystem :=
  ⟨[("cache", .directory [("pkg", .directory
    [("1.0", .directory [("lib", .directory [("net", .directory [("P.dll", .file (some ""))])])]),
      ("2.0", .directory [])])])], ⟨[], 0⟩⟩

/-- The library directory of the package. -/
def lowerDirectory : Path :=
  ⟨"/cache/pkg/1.0/lib/net"⟩

theorem find?_lowerDirectory :
    lowerCache.find? lowerDirectory = some (.directory [("P.dll", .file (some ""))]) :=
  FileSystem.find?_ofNames ["cache", "pkg", "1.0", "lib", "net"] (by decide) (by decide)
    (by decide)

/-- With a root in another case the exact path means nothing, but the path in lower case does. -/
theorem directory?_lowerCache :
    directory? lowerCache ⟨"/Cache"⟩ "pkg" "1.0" "net" = some lowerDirectory := by
  have hnames : exactPath ⟨"/Cache"⟩ (names "pkg" "1.0" "net") = ⟨"/Cache/pkg/1.0/lib/net"⟩ := by
    decide
  have hlowered : Path.lowercase ⟨"/Cache/pkg/1.0/lib/net"⟩ = lowerDirectory := by decide
  have hmissing : lowerCache.find? ⟨"/Cache/pkg/1.0/lib/net"⟩ = none :=
    FileSystem.find?_ofNames ["Cache", "pkg", "1.0", "lib", "net"] (by decide) (by decide)
      (by decide)
  have hexact := Bool.eq_false_iff.1 (FileSystem.isDirectory_of_none hmissing)
  have hdirectory : lowerCache.isDirectory lowerDirectory = true :=
    FileSystem.isDirectory_iff.2 ⟨_, find?_lowerDirectory⟩
  rw [directory?_eq, hnames, hlowered, if_neg hexact, if_pos hdirectory]

theorem directory?_placed_lowerCache :
    IsName (Text.trimString "pkg") ∧ IsName (Text.trimString "1.0") ∧
      IsName (Text.trimString "net") ∧
    lowerCache.isDirectory lowerDirectory = true ∧
    ((∃ found, Matches found (names "pkg" "1.0" "net") ∧ (∀ name ∈ found, IsName name) ∧
        lowerDirectory = exactPath ⟨"/Cache"⟩ found) ∨
      lowerCache.isDirectory (exactPath ⟨"/Cache"⟩ (names "pkg" "1.0" "net")) = false ∧
        lowerDirectory = exactPath (Path.lowercase ⟨"/Cache"⟩)
          ((names "pkg" "1.0" "net").map Text.lowercaseString)) := by
  have hid : IsName (Text.trimString "pkg") := by decide
  have hversion : IsName (Text.trimString "1.0") := by decide
  have hframework : IsName (Text.trimString "net") := by decide
  exact ⟨hid, hversion, hframework,
    (directory?_placed hid hversion hframework).1 _ directory?_lowerCache⟩

/-- The version beside the other one, reached from inside of that one by a name that is `..` without
the white space around it. -/
theorem directory?_lowerCache_up :
    directory? lowerCache ⟨"/cache/pkg/2.0"⟩ " .. " "1.0" "net" =
      some ⟨"/cache/pkg/2.0/../1.0/lib/net"⟩ := by
  have hnames : exactPath ⟨"/cache/pkg/2.0"⟩ (names " .. " "1.0" "net") =
      ⟨"/cache/pkg/2.0/../1.0/lib/net"⟩ := by decide
  have hsteps : FileSystem.steps ⟨"/cache/pkg/2.0/../1.0/lib/net"⟩ =
      ["", "cache", "pkg", "2.0", "..", "1.0", "lib", "net"] := by decide
  have hway : FileSystem.followTrail lowerCache .existing FileSystem.linkLimit []
      (FileSystem.steps ⟨"/cache/pkg/2.0/../1.0/lib/net"⟩) =
        .ok ["cache", "pkg", "1.0", "lib", "net"] := by
    rw [hsteps, FileSystem.followTrail_stay (by decide),
      FileSystem.followTrail_enter (by decide) (by decide) (by decide) rfl,
      FileSystem.followTrail_enter (by decide) (by decide) (by decide) rfl,
      FileSystem.followTrail_enter (by decide) (by decide) (by decide) rfl,
      FileSystem.followTrail_up,
      FileSystem.followTrail_enter (by decide) (by decide) (by decide) rfl,
      FileSystem.followTrail_enter (by decide) (by decide) (by decide) rfl,
      FileSystem.followTrail_enter (by decide) (by decide) (by decide) rfl,
      FileSystem.followTrail_nil]
    rfl
  have hfound := FileSystem.find?_of_followTrail (by decide) (by decide) hway
  have hdirectory : lowerCache.isDirectory ⟨"/cache/pkg/2.0/../1.0/lib/net"⟩ = true := by
    rw [FileSystem.isDirectory, hfound]
    rfl
  simp [directory?, hnames, hdirectory]

/-- A package that is not below the root of the cache is found in a directory that differs in case,
and, with an identity that becomes `..`, in one beside the root. -/
theorem directory?_outside :
    directory? lowerCache ⟨"/Cache"⟩ "pkg" "1.0" "net" = some lowerDirectory ∧
    libraries lowerCache ⟨"/Cache"⟩ "pkg" "1.0" "net" = [⟨"/cache/pkg/1.0/lib/net/P.dll"⟩] ∧
    lowerCache.isDirectory ⟨"/Cache"⟩ = false ∧
    (∀ found, (∀ name ∈ found, IsName name) → lowerDirectory ≠ exactPath ⟨"/Cache"⟩ found) ∧
    IsName " .. " ∧
    directory? lowerCache ⟨"/cache/pkg/2.0"⟩ " .. " "1.0" "net" =
      some ⟨"/cache/pkg/2.0/../1.0/lib/net"⟩ ∧
    ∀ found, (∀ name ∈ found, IsName name) →
      (⟨"/cache/pkg/2.0/../1.0/lib/net"⟩ : Path) ≠ exactPath ⟨"/cache/pkg/2.0"⟩ found := by
  have hlist : lowerCache.listFiles lowerDirectory Path.isLibrary =
      .ok [⟨"/cache/pkg/1.0/lib/net/P.dll"⟩] := by
    have hread := FileSystem.readDirectory_eq_ok_iff.2 find?_lowerDirectory
    rw [FileSystem.listFiles, hread]
    decide
  have hlibraries : libraries lowerCache ⟨"/Cache"⟩ "pkg" "1.0" "net" =
      [⟨"/cache/pkg/1.0/lib/net/P.dll"⟩] :=
    libraries_of_directory? directory?_lowerCache hlist
  have hmissing : lowerCache.find? ⟨"/Cache"⟩ = none :=
    FileSystem.find?_ofNames ["Cache"] (by decide) (by decide) (by decide)
  have hname : IsName " .. " := by decide
  refine ⟨directory?_lowerCache, hlibraries, FileSystem.isDirectory_of_none hmissing, ?_, hname,
    directory?_lowerCache_up, ?_⟩
  · intro found hnames heq
    have hcomponents := congrArg Path.components heq
    have hroot : (⟨"/Cache"⟩ : Path).components = [.root, .name "Cache"] := by decide
    have hfound : lowerDirectory.components = [.root, .name "cache", .name "pkg", .name "1.0",
      .name "lib", .name "net"] := by decide
    rw [components_exactPath hnames, hroot, hfound] at hcomponents
    simp at hcomponents
  · intro found hnames heq
    have hcomponents := congrArg Path.components heq
    have hroot : (⟨"/cache/pkg/2.0"⟩ : Path).components =
      [.root, .name "cache", .name "pkg", .name "2.0"] := by decide
    have hfound : (⟨"/cache/pkg/2.0/../1.0/lib/net"⟩ : Path).components =
      [.root, .name "cache", .name "pkg", .name "2.0", .parent, .name "1.0", .name "lib",
        .name "net"] := by decide
    rw [components_exactPath hnames, hroot, hfound] at hcomponents
    cases found with
    | nil => simp at hcomponents
    | cons name rest => simp at hcomponents

end PackageCache
end ProjectAssembler
