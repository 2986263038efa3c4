import ProjectAssembler.Proofs.Packages.Placement

/-!
# Packages that are not found

The search name by name never goes back.  Where several directories differ in case only it takes one
of them, the exact one if there is one, and if the package lies below another one it is not found.
This is the only reason why a package that is in the cache is missed.

Main definitions:

* `PackageCache.LeadsOn`: whether names lead to a directory without regard to case;
* `PackageCache.IsMisled`: whether the search takes a directory that leads nowhere in the place of
  one that leads on.

Main results:

* `PackageCache.exists_descendIgnoringCase?`: a step is possible wherever names lead on;
* `PackageCache.searchIgnoringCase_eq_none_iff`: when the search fails;
* `PackageCache.directory?_eq_none_iff`: when a package that is in the cache is not found.
-/

namespace ProjectAssembler
namespace PackageCache

open ProjectAssembler.Path (IsName)

variable {system : FileSystem} {directory next : Path} {wanted name : String} {rest : List String}

/-- Whether names that are the wanted ones up to ASCII case lead from a directory to a directory. -/
def LeadsOn (system : FileSystem) (directory : Path) (names : List String) : Prop :=
  ∃ found, Matches found names ∧ system.isDirectory (exactPath directory found) = true

/-- Whether the search by names takes, on its way, a directory from which the remaining names do not
lead on, in the place of another one from which they do. -/
def IsMisled (system : FileSystem) : Path → List String → Prop
  | _, [] => False
  | directory, wanted :: rest =>
      ∃ next, descendIgnoringCase? system directory wanted = some next ∧
        ((¬ LeadsOn system next rest ∧
            ∃ name, Text.equalIgnoringCase name wanted = true ∧ directory.child name ≠ next ∧
              LeadsOn system (directory.child name) rest) ∨
          IsMisled system next rest)

/-! ## Chains of directories -/

theorem leadsOn_cons :
    LeadsOn system directory (wanted :: rest) ↔
      ∃ name, Text.equalIgnoringCase name wanted = true ∧
        LeadsOn system (directory.child name) rest := by
  constructor
  · rintro ⟨found, hfound, hdirectory⟩
    cases hfound with
    | cons hname hrest => exact ⟨_, hname, _, hrest, hdirectory⟩
  · rintro ⟨name, hname, others, hothers, hdirectory⟩
    exact ⟨name :: others, .cons hname hothers, hdirectory⟩

/-- Names lead on from a directory only. -/
theorem LeadsOn.isDirectory {names : List String} (h : LeadsOn system directory names)
    (hnames : ∀ name ∈ names, IsName name) (hdirectory : directory.text ≠ "") :
    system.isDirectory directory = true := by
  obtain ⟨found, hfound, hend⟩ := h
  exact isDirectory_of_exactPath (hfound.isName hnames) hdirectory hend

/-- What the search finds is where names lead on to. -/
theorem leadsOn_of_searchIgnoringCase {names : List String}
    (hdirectory : system.isDirectory directory = true)
    (h : searchIgnoringCase system directory names = some next) :
    LeadsOn system directory names := by
  obtain ⟨found, hfound, rfl⟩ := exists_of_searchIgnoringCase h
  cases names with
  | nil =>
      cases hfound with
      | nil => exact ⟨[], .nil, hdirectory⟩
  | cons wanted rest => exact ⟨found, hfound, isDirectory_of_searchIgnoringCase h⟩

/-! ## Steps of the search -/

/-- A directory whose name is the wanted one up to ASCII case makes a step possible. -/
theorem exists_descendIgnoringCase? (hwanted : IsName wanted) (hdirectory : directory.text ≠ "")
    (hname : Text.equalIgnoringCase name wanted = true)
    (hchild : system.isDirectory (directory.child name) = true) :
    ∃ next, descendIgnoringCase? system directory wanted = some next := by
  unfold descendIgnoringCase?
  by_cases hexact : system.isDirectory (directory.child wanted) = true
  · exact ⟨_, if_pos hexact⟩
  · obtain ⟨inner, hinner⟩ := FileSystem.isDirectory_iff.1 hchild
    obtain ⟨entries, node, hentries, hlookup⟩ := FileSystem.exists_readDirectory_of_child
      (Path.isName_of_equalIgnoringCase hwanted hname) hdirectory hinner
    obtain ⟨before, after, rfl, -⟩ := List.lookup_eq_some_iff.1 hlookup
    rw [if_neg hexact, hentries]
    apply Option.isSome_iff_exists.1
    dsimp only
    rw [firstMatch?, Option.isSome_map, List.find?_isSome]
    refine ⟨(name, node), by simp, ?_⟩
    rw [hname, hchild]
    rfl

/-- The search fails, where names lead on, exactly if it is misled. -/
theorem searchIgnoringCase_eq_none_iff {names : List String}
    (hnames : ∀ name ∈ names, IsName name) (hdirectory : directory.text ≠ "")
    (h : LeadsOn system directory names) :
    searchIgnoringCase system directory names = none ↔ IsMisled system directory names := by
  induction names generalizing directory with
  | nil => exact iff_of_false (Option.some_ne_none directory) id
  | cons wanted rest ih =>
      obtain ⟨hwanted, hrest⟩ := List.forall_mem_cons.1 hnames
      obtain ⟨name, hname, hleads⟩ := leadsOn_cons.1 h
      have hproper := Path.isName_of_equalIgnoringCase hwanted hname
      have hchild := hleads.isDirectory hrest (Path.text_child_ne hproper)
      obtain ⟨next, hnext⟩ := exists_descendIgnoringCase? hwanted hdirectory hname hchild
      obtain ⟨chosen, hchosen, hpath, hstep⟩ := exists_of_descendIgnoringCase? hnext
      have htext : next.text ≠ "" := by
        rw [hpath]
        exact Path.text_child_ne (Path.isName_of_equalIgnoringCase hwanted hchosen)
      have hsearch : searchIgnoringCase system directory (wanted :: rest) =
          searchIgnoringCase system next rest := by
        rw [searchIgnoringCase_cons, hnext]
      rw [hsearch]
      by_cases hon : LeadsOn system next rest
      · rw [ih hrest htext hon]
        constructor
        · exact fun hmisled => ⟨next, hnext, Or.inr hmisled⟩
        · rintro ⟨other, hother, hmisled⟩
          rw [hnext, Option.some.injEq] at hother
          subst hother
          rcases hmisled with ⟨hnowhere, -⟩ | hlater
          · exact absurd hon hnowhere
          · exact hlater
      · -- From a directory that leads nowhere nothing is found.
        have hnone : searchIgnoringCase system next rest = none := by
          apply Option.eq_none_iff_forall_ne_some.2
          intro found hfound
          exact hon (leadsOn_of_searchIgnoringCase hstep hfound)
        have hother : directory.child name ≠ next := by
          rintro rfl
          exact hon hleads
        exact iff_of_true hnone ⟨next, hnext, Or.inl ⟨hon, name, hname, hother, hleads⟩⟩

/-! ## Packages -/

/-- A package that lies below the root of the cache, up to ASCII case, is found unless it is neither
at the exact path nor at the one in lower case and the search is misled. -/
theorem directory?_eq_none_iff {root : Path} {id version framework : String}
    (hid : IsName (Text.trimString id)) (hversion : IsName (Text.trimString version))
    (hframework : IsName (Text.trimString framework)) (hroot : root.text ≠ "")
    (hpackage : LeadsOn system root (names id version framework)) :
    directory? system root id version framework = none ↔
      system.isDirectory (exactPath root (names id version framework)) = false ∧
      system.isDirectory (exactPath root (names id version framework)).lowercase = false ∧
      IsMisled system root (names id version framework) := by
  have hnames := isName_of_mem_names hid hversion hframework
  rw [directory?_eq, ← searchIgnoringCase_eq_none_iff hnames hroot hpackage]
  by_cases hexact : system.isDirectory (exactPath root (names id version framework)) = true
  · simp [hexact]
  · by_cases hlowered :
        system.isDirectory (exactPath root (names id version framework)).lowercase = true
    · simp [hexact, hlowered]
    · simp [hexact, hlowered]

/-! ## A package beside another one -/

/-- A cache with two directories whose names differ in case only, each with a version of its own. -/
def rivalCache : FileSystem :=
  ⟨[("cache", .directory
    [("mypkg", .directory [("1.0", .directory [])]),
      ("MyPkg", .directory [("2.0", .directory [("lib", .directory [("net", .directory [])])])])])],
    ⟨[], 0⟩⟩

theorem leadsOn_rivalCache : LeadsOn rivalCache ⟨"/cache"⟩ (names "mypkg" "2.0" "net") := by
  have hwanted : names "mypkg" "2.0" "net" = ["mypkg", "2.0", "lib", "net"] := by decide
  have hpath : exactPath ⟨"/cache"⟩ ["MyPkg", "2.0", "lib", "net"] =
      ⟨"/cache/MyPkg/2.0/lib/net"⟩ := by decide
  have hfound : rivalCache.find? ⟨"/cache/MyPkg/2.0/lib/net"⟩ = some (.directory []) :=
    FileSystem.find?_ofNames ["cache", "MyPkg", "2.0", "lib", "net"] (by decide) (by decide)
      (by decide)
  refine ⟨["MyPkg", "2.0", "lib", "net"], ?_, ?_⟩
  · rw [hwanted]
    exact .cons (by decide) (matches_refl _)
  · rw [hpath]
    exact FileSystem.isDirectory_iff.2 ⟨_, hfound⟩

/-- The search takes the directory with the exact name and finds only the other version there. -/
theorem searchIgnoringCase_rivalCache :
    searchIgnoringCase rivalCache ⟨"/cache"⟩ ["mypkg", "2.0", "lib", "net"] = none := by
  have hchild : Path.child ⟨"/cache"⟩ "mypkg" = ⟨"/cache/mypkg"⟩ := by decide
  have hversion : Path.child ⟨"/cache/mypkg"⟩ "2.0" = ⟨"/cache/mypkg/2.0"⟩ := by decide
  have hinside : rivalCache.find? ⟨"/cache/mypkg"⟩ = some (.directory [("1.0", .directory [])]) :=
    FileSystem.find?_ofNames ["cache", "mypkg"] (by decide) (by decide) (by decide)
  have hmissing : rivalCache.find? ⟨"/cache/mypkg/2.0"⟩ = none :=
    FileSystem.find?_ofNames ["cache", "mypkg", "2.0"] (by decide) (by decide) (by decide)
  have hfirst : descendIgnoringCase? rivalCache ⟨"/cache"⟩ "mypkg" = some ⟨"/cache/mypkg"⟩ := by
    rw [descendIgnoringCase?, hchild]
    exact if_pos (FileSystem.isDirectory_iff.2 ⟨_, hinside⟩)
  have hsecond : descendIgnoringCase? rivalCache ⟨"/cache/mypkg"⟩ "2.0" = none := by
    have hother : Text.equalIgnoringCase "1.0" "2.0" = false := by decide
    rw [descendIgnoringCase?, hversion, FileSystem.isDirectory_of_none hmissing,
      FileSystem.readDirectory_eq_ok_iff.2 hinside]
    simp [firstMatch?, hother]
  rw [searchIgnoringCase_cons, hfirst]
  dsimp only
  rw [searchIgnoringCase_cons, hsecond]

theorem directory?_rivalCache : directory? rivalCache ⟨"/cache"⟩ "mypkg" "2.0" "net" = none := by
  have hwanted : names "mypkg" "2.0" "net" = ["mypkg", "2.0", "lib", "net"] := by decide
  have hexact : exactPath ⟨"/cache"⟩ ["mypkg", "2.0", "lib", "net"] =
      ⟨"/cache/mypkg/2.0/lib/net"⟩ := by decide
  have hlowered : Path.lowercase ⟨"/cache/mypkg/2.0/lib/net"⟩ = ⟨"/cache/mypkg/2.0/lib/net"⟩ := by
    decide
  have hmissing : rivalCache.find? ⟨"/cache/mypkg/2.0/lib/net"⟩ = none :=
    FileSystem.find?_ofNames ["cache", "mypkg", "2.0", "lib", "net"] (by decide) (by decide)
      (by decide)
  have hnowhere := Bool.eq_false_iff.1 (FileSystem.isDirectory_of_none hmissing)
  rw [directory?_eq, hwanted, hexact, hlowered, if_neg hnowhere, if_neg hnowhere]
  exact searchIgnoringCase_rivalCache

theorem isMisled_rivalCache :
    IsName (Text.trimString "mypkg") ∧ IsName (Text.trimString "2.0") ∧
      IsName (Text.trimString "net") ∧ (⟨"/cache"⟩ : Path).text ≠ "" ∧
      LeadsOn rivalCache ⟨"/cache"⟩ (names "mypkg" "2.0" "net") ∧
    IsMisled rivalCache ⟨"/cache"⟩ (names "mypkg" "2.0" "net") := by
  have hid : IsName (Text.trimString "mypkg") := by decide
  have hversion : IsName (Text.trimString "2.0") := by decide
  have hframework : IsName (Text.trimString "net") := by decide
  have hroot : (⟨"/cache"⟩ : Path).text ≠ "" := by decide
  refine ⟨hid, hversion, hframework, hroot, leadsOn_rivalCache, ?_⟩
  exact ((directory?_eq_none_iff hid hversion hframework hroot leadsOn_rivalCache).1
    directory?_rivalCache).2.2

/-- A package lies in the cache up to case, and it is not found. -/
theorem directory?_missed :
    (∃ found, Matches found (names "mypkg" "2.0" "net") ∧
      rivalCache.isDirectory (exactPath ⟨"/cache"⟩ found) = true) ∧
    directory? rivalCache ⟨"/cache"⟩ "mypkg" "2.0" "net" = none :=
  ⟨leadsOn_rivalCache, directory?_rivalCache⟩

end PackageCache
end ProjectAssembler
