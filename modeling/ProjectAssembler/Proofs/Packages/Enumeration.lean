import ProjectAssembler.Proofs.FileSystem.Permutations
import ProjectAssembler.Proofs.Packages.Placement

/-!
# Packages and the order of enumeration

Where no directory has the exact name, the search name by name takes the first one enumerated whose
name differs in case only.  If there are several of them, the order of enumeration decides where a
package is found, and whether it is found at all.  If there is at most one on every level that the
search comes to, or an exact one, the answer is the same for all orders.

Main definitions:

* `PackageCache.IsVariant`: whether a directory has a subdirectory under a name that is the wanted
  one up to case;
* `PackageCache.IsOpen`: whether the order of enumeration decides about a step;
* `PackageCache.IsContested`: whether it decides about some step of the search.

Main results:

* `PackageCache.descendIgnoringCase?_eq`: a step about which the order does not decide;
* `PackageCache.exists_permuted_ne`: an order in which the search does not find the same;
* `PackageCache.directory?_permuted`: when the answer is the same for all orders.
-/

namespace ProjectAssembler
namespace PackageCache

open ProjectAssembler.Path (IsName)

variable {system other : FileSystem} {directory : Path} {wanted : String}

/-! ## Variants of a name -/

/-- Whether a directory holds a directory under a name that is the wanted one up to ASCII case. -/
def IsVariant (system : FileSystem) (directory : Path) (wanted name : String) : Prop :=
  (∃ entries, system.readDirectory directory = .ok entries ∧ name ∈ entries.map (·.1)) ∧
    Text.equalIgnoringCase name wanted = true ∧ system.isDirectory (directory.child name) = true

/-- Whether the order of enumeration decides about a step down: there are several directories to
take, and none of them is the exact one. -/
def IsOpen (system : FileSystem) (directory : Path) (wanted : String) : Prop :=
  system.isDirectory (directory.child wanted) = false ∧
    ∃ first second, first ≠ second ∧ IsVariant system directory wanted first ∧
      IsVariant system directory wanted second

/-- Whether the order of enumeration decides about some step of the search. -/
def IsContested (system : FileSystem) : Path → List String → Prop
  | _, [] => False
  | directory, wanted :: rest =>
      IsOpen system directory wanted ∨
        ∃ next, descendIgnoringCase? system directory wanted = some next ∧
          IsContested system next rest

/-- Whether a name of an entry is taken in the place of the wanted one. -/
def accepts (system : FileSystem) (directory : Path) (wanted name : String) : Bool :=
  Text.equalIgnoringCase name wanted && system.isDirectory (directory.child name)

/-- The first match depends on the names of the entries only. -/
theorem firstMatch?_eq (entries : Entries) :
    firstMatch? system directory wanted entries =
      ((entries.map (·.1)).find? (accepts system directory wanted)).map directory.child := by
  rw [firstMatch?, List.find?_map, Option.map_map]
  rfl

theorem isVariant_iff {entries : Entries} {name : String}
    (h : system.readDirectory directory = .ok entries) :
    IsVariant system directory wanted name ↔
      name ∈ entries.map (·.1) ∧ accepts system directory wanted name = true := by
  unfold IsVariant accepts
  rw [h, Bool.and_eq_true]
  simp

/-- Without an exact directory a step leads to a variant of the wanted name. -/
theorem exists_isVariant {next : Path}
    (hexact : system.isDirectory (directory.child wanted) = false)
    (h : descendIgnoringCase? system directory wanted = some next) :
    ∃ name, IsVariant system directory wanted name ∧ next = directory.child name := by
  rw [descendIgnoringCase?, if_neg (by simp [hexact])] at h
  split at h
  · rename_i entries hentries
    rw [firstMatch?_eq] at h
    obtain ⟨name, hname, rfl⟩ := Option.map_eq_some_iff.1 h
    refine ⟨name, (isVariant_iff hentries).2 ⟨List.mem_of_find?_eq_some hname, ?_⟩, rfl⟩
    exact List.find?_some hname
  · cases h

/-- Without an exact directory the first entry is taken if it is a variant. -/
theorem descendIgnoringCase?_of_first {name : String} {node : Node} {rest : Entries}
    (hexact : system.isDirectory (directory.child wanted) = false)
    (hread : system.readDirectory directory = .ok ((name, node) :: rest))
    (haccepts : accepts system directory wanted name = true) :
    descendIgnoringCase? system directory wanted = some (directory.child name) := by
  rw [descendIgnoringCase?, if_neg (by simp [hexact]), hread]
  dsimp only
  rw [firstMatch?_eq, List.map_cons, List.find?_cons_of_pos haccepts]
  rfl

/-! ## Steps in another order -/

/-- If at most one element satisfies a test, it is found in any order. -/
theorem find?_perm {α : Type} {test : α → Bool} {first second : List α} (hperm : first.Perm second)
    (hunique : ∀ a ∈ first, ∀ b ∈ first, test a = true → test b = true → a = b) :
    second.find? test = first.find? test := by
  cases hfirst : first.find? test with
  | none =>
      rw [List.find?_eq_none] at hfirst ⊢
      exact fun a ha => hfirst a (hperm.mem_iff.2 ha)
  | some a =>
      have ha := List.mem_of_find?_eq_some hfirst
      have htest := List.find?_some hfirst
      cases hsecond : second.find? test with
      | none => exact absurd htest (List.find?_eq_none.1 hsecond a (hperm.mem_iff.1 ha))
      | some b =>
          have hb := hperm.mem_iff.2 (List.mem_of_find?_eq_some hsecond)
          rw [hunique a ha b hb htest (List.find?_some hsecond)]

theorem accepts_eq (h : system.Permuted other) :
    accepts other directory wanted = accepts system directory wanted := by
  funext name
  rw [accepts, accepts, h.isDirectory_eq]

/-- A step about which the order of enumeration does not decide is the same in any order. -/
theorem descendIgnoringCase?_eq (h : system.Permuted other)
    (hopen : ¬ IsOpen system directory wanted) :
    descendIgnoringCase? other directory wanted = descendIgnoringCase? system directory wanted := by
  rw [descendIgnoringCase?, descendIgnoringCase?, h.isDirectory_eq]
  by_cases hexact : system.isDirectory (directory.child wanted) = true
  · rw [if_pos hexact, if_pos hexact]
  · rw [if_neg hexact, if_neg hexact]
    rcases h.readDirectory_cases directory with ⟨error, hread, hmoved⟩ |
      ⟨entries, others, hread, hmoved, hnames, -⟩
    · rw [hread, hmoved]
    · rw [hread, hmoved]
      dsimp only
      rw [firstMatch?_eq, firstMatch?_eq, accepts_eq h]
      rw [find?_perm hnames]
      intro first hfirst second hsecond hfirstTest hsecondTest
      by_contra hne
      exact hopen ⟨Bool.eq_false_iff.2 hexact, first, second, hne,
        (isVariant_iff hread).2 ⟨hfirst, hfirstTest⟩,
        (isVariant_iff hread).2 ⟨hsecond, hsecondTest⟩⟩

/-- A search about which the order of enumeration does not decide finds the same in any order. -/
theorem searchIgnoringCase_eq (h : system.Permuted other) {names : List String}
    (hcontested : ¬ IsContested system directory names) :
    searchIgnoringCase other directory names = searchIgnoringCase system directory names := by
  induction names generalizing directory with
  | nil => rfl
  | cons wanted rest ih =>
      have hopen : ¬ IsOpen system directory wanted := fun hopen => hcontested (Or.inl hopen)
      rw [searchIgnoringCase_cons, searchIgnoringCase_cons, descendIgnoringCase?_eq h hopen]
      cases hnext : descendIgnoringCase? system directory wanted with
      | none => rfl
      | some next => exact ih fun hlater => hcontested (Or.inr ⟨next, hnext, hlater⟩)

/-! ## An order that makes a difference -/

/-- Every variant of a name is taken in some order of enumeration, if there is no exact one. -/
theorem exists_permuted_descend (hsystem : system.WellFormed) {name : String}
    (hexact : system.isDirectory (directory.child wanted) = false)
    (hname : IsVariant system directory wanted name) :
    ∃ other, system.Permuted other ∧
      descendIgnoringCase? other directory wanted = some (directory.child name) := by
  obtain ⟨entries, hentries, -⟩ := hname.1
  obtain ⟨hmem, haccepts⟩ := (isVariant_iff hentries).1 hname
  obtain ⟨⟨same, node⟩, hentry, rfl⟩ := List.mem_map.1 hmem
  obtain ⟨before, after, rfl⟩ := List.append_of_mem hentry
  -- The entry of the variant is moved to the front.
  obtain ⟨other, hother, hread⟩ := FileSystem.exists_permuted_readDirectory hsystem hentries
    List.perm_middle.symm
  refine ⟨other, hother, descendIgnoringCase?_of_first ?_ hread ?_⟩
  · rw [hother.isDirectory_eq, hexact]
  · rw [accepts_eq hother, haccepts]

/-- Where the order of enumeration decides about some step, the search does not find the same in all
orders. -/
theorem exists_permuted_ne (hsystem : system.WellFormed) {names : List String} {found : Path}
    (hnames : ∀ name ∈ names, IsName name) (hcontested : IsContested system directory names)
    (hfound : searchIgnoringCase system directory names = some found) :
    ∃ other, system.Permuted other ∧ searchIgnoringCase other directory names ≠ some found := by
  induction names generalizing directory with
  | nil => exact hcontested.elim
  | cons wanted rest ih =>
      obtain ⟨hwanted, hrest⟩ := List.forall_mem_cons.1 hnames
      by_cases hopen : IsOpen system directory wanted
      · obtain ⟨hexact, first, second, hne, hfirst, hsecond⟩ := hopen
        rw [searchIgnoringCase_cons] at hfound
        split at hfound
        · rename_i next hnext
          obtain ⟨chosen, hchosen, rfl⟩ := exists_isVariant hexact hnext
          -- One of the two variants is not the one that was taken.
          obtain ⟨name, hname, hother⟩ : ∃ name, IsVariant system directory wanted name ∧
              name ≠ chosen := by
            by_cases hsame : first = chosen
            · exact ⟨second, hsecond, fun heq => hne (hsame.trans heq.symm)⟩
            · exact ⟨first, hfirst, hsame⟩
          obtain ⟨other, hpermuted, hstep⟩ := exists_permuted_descend hsystem hexact hname
          refine ⟨other, hpermuted, fun hagain => ?_⟩
          rw [searchIgnoringCase_cons, hstep] at hagain
          have hproper := Path.isName_of_equalIgnoringCase hwanted hname.2.1
          have hchosenProper := Path.isName_of_equalIgnoringCase hwanted hchosen.2.1
          obtain ⟨others, hothers, rfl⟩ := exists_of_searchIgnoringCase hfound
          obtain ⟨later, hlater, hpath⟩ := exists_of_searchIgnoringCase hagain
          have hcomponents := congrArg Path.components hpath
          rw [components_exactPath (hothers.isName hrest),
            components_exactPath (hlater.isName hrest), Path.components_child hproper,
            Path.components_child hchosenProper] at hcomponents
          simp only [List.append_assoc, List.singleton_append, List.append_cancel_left_eq,
            List.cons.injEq, Path.Component.name.injEq] at hcomponents
          exact hother hcomponents.1.symm
        · cases hfound
      · rcases hcontested with hfirst | ⟨next, hnext, hlater⟩
        · exact absurd hfirst hopen
        · rw [searchIgnoringCase_cons, hnext] at hfound
          obtain ⟨other, hpermuted, hne⟩ := ih hrest hlater hfound
          refine ⟨other, hpermuted, ?_⟩
          rwa [searchIgnoringCase_cons, descendIgnoringCase?_eq hpermuted hopen, hnext]

/-! ## Packages -/

/-- A package that lies at the exact path or at the one in lower case is found there in any order,
and so is what the search finds if the order does not decide about it. -/
theorem directory?_eq_of_permuted (h : system.Permuted other) {root : Path}
    {id version framework : String}
    (hagree : system.isDirectory (exactPath root (names id version framework)) = true ∨
      system.isDirectory (exactPath root (names id version framework)).lowercase = true ∨
      ¬ IsContested system root (names id version framework)) :
    directory? other root id version framework = directory? system root id version framework := by
  rw [directory?_eq, directory?_eq, h.isDirectory_eq, h.isDirectory_eq]
  by_cases hexact : system.isDirectory (exactPath root (names id version framework)) = true
  · rw [if_pos hexact, if_pos hexact]
  · by_cases hlowered :
        system.isDirectory (exactPath root (names id version framework)).lowercase = true
    · rw [if_neg hexact, if_neg hexact, if_pos hlowered, if_pos hlowered]
    · have hcontested : ¬ IsContested system root (names id version framework) := by
        rcases hagree with hagree | hagree | hagree
        · exact absurd hagree hexact
        · exact absurd hagree hlowered
        · exact hagree
      rw [if_neg hexact, if_neg hexact, if_neg hlowered, if_neg hlowered,
        searchIgnoringCase_eq h hcontested]

/-- The libraries of a package are the same in any order if the package is found in the same
directory. -/
theorem libraries_eq_of_permuted (hsystem : system.WellFormed) (h : system.Permuted other)
    {root : Path} {id version framework : String}
    (hsame : directory? other root id version framework =
      directory? system root id version framework) :
    libraries other root id version framework = libraries system root id version framework := by
  unfold libraries
  rw [hsame]
  cases directory? system root id version framework with
  | none => rfl
  | some directory => simp only [h.listFiles_eq hsystem]

/-- Where and with which libraries a package is found does not depend on the order of enumeration if
it lies at the exact path or at the one in lower case, or if the order does not decide about any
step of the search.  Otherwise a package that is found in one order is not found there in every
order. -/
theorem directory?_permuted (hsystem : system.WellFormed) (root : Path)
    (id version framework : String) :
    ((system.isDirectory (exactPath root (names id version framework)) = true ∨
        system.isDirectory (exactPath root (names id version framework)).lowercase = true ∨
        ¬ IsContested system root (names id version framework)) →
      ∀ other, system.Permuted other →
        directory? other root id version framework = directory? system root id version framework ∧
        libraries other root id version framework =
          libraries system root id version framework) ∧
    (IsName (Text.trimString id) → IsName (Text.trimString version) →
      IsName (Text.trimString framework) →
      ∀ directory, directory? system root id version framework = some directory →
        (∀ other, system.Permuted other →
          directory? other root id version framework = some directory) →
        system.isDirectory (exactPath root (names id version framework)) = true ∨
          system.isDirectory (exactPath root (names id version framework)).lowercase = true ∨
          ¬ IsContested system root (names id version framework)) := by
  constructor
  · intro hagree other h
    have hsame := directory?_eq_of_permuted h hagree
    exact ⟨hsame, libraries_eq_of_permuted hsystem h hsame⟩
  · intro hid hversion hframework directory hfound hall
    by_contra hdisagree
    simp only [not_or, not_not] at hdisagree
    obtain ⟨hexact, hlowered, hcontested⟩ := hdisagree
    rw [directory?_eq, if_neg hexact, if_neg hlowered] at hfound
    obtain ⟨other, h, hne⟩ := exists_permuted_ne hsystem
      (isName_of_mem_names hid hversion hframework) hcontested hfound
    have hother := hall other h
    rw [directory?_eq, h.isDirectory_eq, h.isDirectory_eq, if_neg hexact, if_neg hlowered] at hother
    exact hne hother

/-! ## Two directories of one name -/

/-- The library directory of a package, and what leads to it from the directory of the package. -/
def versionEntries : Entries :=
  [("1.0", .directory [("lib", .directory [("net", .directory [])])])]

/-- A cache with two directories whose names differ in case only; the first one holds a package. -/
def variantCache : FileSystem :=
  ⟨[("cache", .directory [("MyPkg", .directory versionEntries), ("MYPKG", .directory [])])],
    ⟨[], 0⟩⟩

/-- The same cache, enumerated in the other order. -/
def swappedCache : FileSystem :=
  ⟨[("cache", .directory [("MYPKG", .directory []), ("MyPkg", .directory versionEntries)])],
    ⟨[], 0⟩⟩

theorem wellFormed_variantCache : variantCache.WellFormed := by
  have hempty : FileSystem.IsSound (.directory []) := FileSystem.isSound_newDirectory
  have hlib : FileSystem.IsSound (.directory [("net", .directory [])]) :=
    FileSystem.isSound_directory ⟨by decide, by decide⟩ (by simpa using hempty)
  have hversion : FileSystem.IsSound (.directory [("lib", .directory [("net", .directory [])])]) :=
    FileSystem.isSound_directory ⟨by decide, by decide⟩ (by simpa using hlib)
  have hpackage : FileSystem.IsSound (.directory versionEntries) :=
    FileSystem.isSound_directory ⟨by decide, by decide⟩ (by simpa [versionEntries] using hversion)
  have hcache : FileSystem.IsSound
      (.directory [("MyPkg", .directory versionEntries), ("MYPKG", .directory [])]) :=
    FileSystem.isSound_directory ⟨by decide, by decide⟩ (by simpa using ⟨hpackage, hempty⟩)
  have hroot : FileSystem.IsSound (.directory variantCache.root) :=
    FileSystem.isSound_directory ⟨by decide, by decide⟩ (by simpa [variantCache] using hcache)
  exact FileSystem.Sound.wellFormed hroot

theorem permuted_swappedCache : variantCache.Permuted swappedCache := by
  have hcache : variantCache.node? ["cache"] =
      some (.directory [("MyPkg", .directory versionEntries), ("MYPKG", .directory [])]) := rfl
  exact FileSystem.permuted_alter wellFormed_variantCache hcache (List.Perm.swap _ _ _)

/-- Neither the exact path of the package means anything nor the one in lower case, which is the
same, nor is there an exact directory on the first level. -/
theorem isDirectory_variantCache_exact :
    exactPath ⟨"/cache"⟩ (names "mypkg" "1.0" "net") = ⟨"/cache/mypkg/1.0/lib/net"⟩ ∧
    Path.lowercase ⟨"/cache/mypkg/1.0/lib/net"⟩ = ⟨"/cache/mypkg/1.0/lib/net"⟩ ∧
    variantCache.isDirectory ⟨"/cache/mypkg/1.0/lib/net"⟩ = false ∧
    variantCache.isDirectory (Path.child ⟨"/cache"⟩ "mypkg") = false := by
  have hmissing : variantCache.find? ⟨"/cache/mypkg/1.0/lib/net"⟩ = none :=
    FileSystem.find?_ofNames ["cache", "mypkg", "1.0", "lib", "net"] (by decide) (by decide)
      (by decide)
  have hchild : variantCache.find? (Path.child ⟨"/cache"⟩ "mypkg") = none :=
    FileSystem.find?_ofNames ["cache", "mypkg"] (by decide) (by decide) (by decide)
  exact ⟨by decide, by decide, FileSystem.isDirectory_of_none hmissing,
    FileSystem.isDirectory_of_none hchild⟩

/-- Without a directory at the exact path the package is found by the search. -/
theorem directory?_eq_search {system : FileSystem} (h : variantCache.Permuted system) :
    directory? system ⟨"/cache"⟩ "mypkg" "1.0" "net" =
      searchIgnoringCase system ⟨"/cache"⟩ ["mypkg", "1.0", "lib", "net"] := by
  have hnames : names "mypkg" "1.0" "net" = ["mypkg", "1.0", "lib", "net"] := by decide
  obtain ⟨hexact, hlowered, hmissing, -⟩ := isDirectory_variantCache_exact
  rw [directory?_eq, hexact, hlowered, h.isDirectory_eq, if_neg (by simp [hmissing]),
    if_neg (by simp [hmissing]), hnames]

theorem accepts_variantCache {name : String} (hname : name = "MyPkg" ∨ name = "MYPKG") :
    accepts variantCache ⟨"/cache"⟩ "mypkg" name = true := by
  have hfirst : variantCache.find? (Path.child ⟨"/cache"⟩ "MyPkg") =
      some (.directory versionEntries) :=
    FileSystem.find?_ofNames ["cache", "MyPkg"] (by decide) (by decide) (by decide)
  have hsecond : variantCache.find? (Path.child ⟨"/cache"⟩ "MYPKG") = some (.directory []) :=
    FileSystem.find?_ofNames ["cache", "MYPKG"] (by decide) (by decide) (by decide)
  rw [accepts, Bool.and_eq_true]
  rcases hname with rfl | rfl
  · exact ⟨by decide, FileSystem.isDirectory_iff.2 ⟨_, hfirst⟩⟩
  · exact ⟨by decide, FileSystem.isDirectory_iff.2 ⟨_, hsecond⟩⟩

theorem readDirectory_variantCache : variantCache.readDirectory ⟨"/cache"⟩ =
    .ok [("MyPkg", .directory versionEntries), ("MYPKG", .directory [])] :=
  FileSystem.readDirectory_eq_ok_iff.2
    (FileSystem.find?_ofNames ["cache"] (by decide) (by decide) (by decide))

/-- In the first order the directory with the package is taken. -/
theorem directory?_variantCache :
    directory? variantCache ⟨"/cache"⟩ "mypkg" "1.0" "net" = some ⟨"/cache/MyPkg/1.0/lib/net"⟩ := by
  have hstep := descendIgnoringCase?_of_first isDirectory_variantCache_exact.2.2.2
    readDirectory_variantCache (accepts_variantCache (Or.inl rfl))
  have hpath : exactPath (Path.child ⟨"/cache"⟩ "MyPkg") ["1.0", "lib", "net"] =
      ⟨"/cache/MyPkg/1.0/lib/net"⟩ := by decide
  have hfound : variantCache.find? ⟨"/cache/MyPkg/1.0/lib/net"⟩ = some (.directory []) :=
    FileSystem.find?_ofNames ["cache", "MyPkg", "1.0", "lib", "net"] (by decide) (by decide)
      (by decide)
  have hdirectory : variantCache.isDirectory
      (exactPath (Path.child ⟨"/cache"⟩ "MyPkg") ["1.0", "lib", "net"]) = true := by
    rw [hpath]
    exact FileSystem.isDirectory_iff.2 ⟨_, hfound⟩
  have hsame : variantCache.Permuted variantCache := ⟨rfl, fun _ => FileSystem.alike_refl _⟩
  rw [directory?_eq_search hsame, searchIgnoringCase_cons, hstep, ← hpath]
  exact searchIgnoringCase_of_exact (by decide) (by decide) hdirectory

/-- In the other order the empty directory is taken. -/
theorem directory?_swappedCache :
    directory? swappedCache ⟨"/cache"⟩ "mypkg" "1.0" "net" = none := by
  have h := permuted_swappedCache
  have hexact : swappedCache.isDirectory (Path.child ⟨"/cache"⟩ "mypkg") = false := by
    rw [h.isDirectory_eq]
    exact isDirectory_variantCache_exact.2.2.2
  have hread : swappedCache.readDirectory ⟨"/cache"⟩ =
      .ok [("MYPKG", .directory []), ("MyPkg", .directory versionEntries)] :=
    FileSystem.readDirectory_eq_ok_iff.2
      (FileSystem.find?_ofNames ["cache"] (by decide) (by decide) (by decide))
  have haccepts : accepts swappedCache ⟨"/cache"⟩ "mypkg" "MYPKG" = true := by
    rw [accepts_eq h]
    exact accepts_variantCache (Or.inr rfl)
  have hempty : swappedCache.readDirectory (Path.child ⟨"/cache"⟩ "MYPKG") = .ok [] :=
    FileSystem.readDirectory_eq_ok_iff.2
      (FileSystem.find?_ofNames ["cache", "MYPKG"] (by decide) (by decide) (by decide))
  have hmissing : swappedCache.find? (Path.child (Path.child ⟨"/cache"⟩ "MYPKG") "1.0") = none :=
    FileSystem.find?_ofNames ["cache", "MYPKG", "1.0"] (by decide) (by decide) (by decide)
  have hsecond :
      descendIgnoringCase? swappedCache (Path.child ⟨"/cache"⟩ "MYPKG") "1.0" = none := by
    rw [descendIgnoringCase?, FileSystem.isDirectory_of_none hmissing, hempty]
    rfl
  rw [directory?_eq_search h, searchIgnoringCase_cons,
    descendIgnoringCase?_of_first hexact hread haccepts]
  dsimp only
  rw [searchIgnoringCase_cons, hsecond]

theorem isContested_variantCache :
    IsContested variantCache ⟨"/cache"⟩ ["mypkg", "1.0", "lib", "net"] := by
  refine Or.inl ⟨isDirectory_variantCache_exact.2.2.2, "MyPkg", "MYPKG", by decide, ?_, ?_⟩
  · exact (isVariant_iff readDirectory_variantCache).2
      ⟨by decide, accepts_variantCache (Or.inl rfl)⟩
  · exact (isVariant_iff readDirectory_variantCache).2
      ⟨by decide, accepts_variantCache (Or.inr rfl)⟩

theorem exists_permuted_variantCache : variantCache.WellFormed ∧
    ¬ ∀ other, variantCache.Permuted other →
      directory? other ⟨"/cache"⟩ "mypkg" "1.0" "net" = some ⟨"/cache/MyPkg/1.0/lib/net"⟩ := by
  refine ⟨wellFormed_variantCache, fun hall => ?_⟩
  have hnames : names "mypkg" "1.0" "net" = ["mypkg", "1.0", "lib", "net"] := by decide
  obtain ⟨hexact, hlowered, hmissing, -⟩ := isDirectory_variantCache_exact
  have hagree := (directory?_permuted wellFormed_variantCache ⟨"/cache"⟩ "mypkg" "1.0" "net").2
    (by decide) (by decide) (by decide) _ directory?_variantCache hall
  rw [hexact, hlowered, hmissing, hnames] at hagree
  rcases hagree with h | h | h
  · exact Bool.false_ne_true h
  · exact Bool.false_ne_true h
  · exact h isContested_variantCache

/-- The same package is found in one order of enumeration and not found in the other. -/
theorem directory?_swapped : variantCache.Permuted swappedCache ∧
    directory? variantCache ⟨"/cache"⟩ "mypkg" "1.0" "net" = some ⟨"/cache/MyPkg/1.0/lib/net"⟩ ∧
    directory? swappedCache ⟨"/cache"⟩ "mypkg" "1.0" "net" = none :=
  ⟨permuted_swappedCache, directory?_variantCache, directory?_swappedCache⟩

end PackageCache
end ProjectAssembler
