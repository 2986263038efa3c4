import Mathlib.Data.List.TakeWhile
import ProjectAssembler.Proofs.Sources.Segments
import ProjectAssembler.Proofs.Sources.Walks

/-!
# Wildcards and discovery

The sources below a directory are discovered by a walk, or selected by the pattern `**/*.cs`, which
lists the sources in every directory that a walk meets.  Both find the same files except where the
directory is itself reached through a link: the walk goes through the link, but the directories that
the pattern lists do not include the one behind it.

Main definitions:

* `Path.IsSourceName`: what the names of sources look like;
* `Pattern.sourceNames` and `Pattern.sourcePattern`: the pattern for all sources;
* `Pattern.IsSourceIn`: whether a path is that of a source among the entries of a directory;
* `Path.LiesIn`: whether a path is that of an entry of a directory;
* `FileSystem.linkedSources`: as an example, a directory with sources next to a link to it.

Main results:

* `Path.isSource_iff`: a path names a source if its file name is that of a source;
* `Pattern.accepts_sourceNames`: the names of sources match;
* `Pattern.exists_collect_iff`, `Pattern.mem_of_collect` and `Pattern.exists_of_collect_error`: what
  is collected from directories;
* `Pattern.expandFrom_anyDepth` and `Pattern.expandFrom_of_not_isDirectory`: how `**` goes on, and
  what a wildcard needs;
* `FileSystem.mem_discover_iff` and `FileSystem.mem_expand_iff`: what is found either way;
* `FileSystem.expand_eq_discover_iff`: where both find the same.
-/

namespace ProjectAssembler

/-! ## The names of sources -/

/-- What becomes a small letter of ASCII is the letter itself or its capital. -/
theorem Text.toLower_eq_iff {a small capital : Char} (hleast : 97 ≤ small.toNat)
    (hgreatest : small.toNat ≤ 122) (hcapital : capital.toNat + 32 = small.toNat) :
    a.toLower = small ↔ a = small ∨ a = capital := by
  by_cases hletter : 'A'.val ≤ a.val ∧ a.val ≤ 'Z'.val
  · have hbounds : 65 ≤ a.toNat ∧ a.toNat ≤ 90 :=
      ⟨UInt32.le_iff_toNat_le.1 hletter.1, UInt32.le_iff_toNat_le.1 hletter.2⟩
    have hnumber : a.toLower.toNat = a.toNat + 32 := by
      have hsum : a.toLower.toNat = (a.val + 32).toNat := congrArg Char.toNat (dif_pos hletter)
      have hval : a.val.toNat = a.toNat := rfl
      have hstep : (32 : UInt32).toNat = 32 := rfl
      rw [UInt32.toNat_add] at hsum
      omega
    rw [← Char.toNat_inj, ← Char.toNat_inj, ← Char.toNat_inj, hnumber]
    omega
  · have hsame : a.toLower = a := dif_neg hletter
    rw [hsame, iff_self_or]
    rintro rfl
    refine absurd ⟨UInt32.le_iff_toNat_le.2 ?_, UInt32.le_iff_toNat_le.2 ?_⟩ hletter
    · show 65 ≤ a.toNat
      omega
    · show a.toNat ≤ 90
      omega

namespace Path

/-- A file name with an extension consists of what is before the last dot, which is something, and
the extension. -/
theorem cutAtDot_eq_some_iff {name extension : String} :
    (cutAtDot name).2 = some extension ↔ ∃ stem, stem ≠ [] ∧
      name.toList = stem ++ '.' :: extension.toList ∧ '.' ∉ extension.toList := by
  constructor
  · intro h
    have hwhole := List.takeWhile_append_dropWhile (p := (· != '.')) (l := name.toList.reverse)
    unfold cutAtDot at h
    simp only at h
    split at h
    · contradiction
    · contradiction
    · rename_i dot stem hstem hdrop
      obtain rfl := Option.some.inj h
      have hdot : dot = '.' := by
        have hhead := List.head?_dropWhile_not (· != '.') name.toList.reverse
        rw [hdrop] at hhead
        simpa using hhead
      rw [hdrop, hdot] at hwhole
      have hname := congrArg List.reverse hwhole.symm
      rw [List.reverse_reverse] at hname
      refine ⟨stem.reverse, mt List.reverse_eq_nil_iff.1 hstem, hname.trans (by simp), ?_⟩
      intro hmem
      rw [String.toList_ofList, List.mem_reverse] at hmem
      simpa using List.mem_takeWhile_imp hmem
  · rintro ⟨stem, hne, hname, hdot⟩
    have hletters : ∀ c ∈ extension.toList.reverse, (c != '.') = true := by
      intro c hc
      rw [bne_iff_ne]
      rintro rfl
      exact hdot (List.mem_reverse.1 hc)
    have hreverse : name.toList.reverse = extension.toList.reverse ++ '.' :: stem.reverse := by
      simp [hname]
    obtain ⟨last, front, hstem⟩ := List.exists_cons_of_ne_nil (mt List.reverse_eq_nil_iff.1 hne)
    unfold cutAtDot
    simp only [hreverse, List.dropWhile_append_of_pos hletters,
      List.takeWhile_append_of_pos hletters]
    simp [hstem]

/-- Whether a name is that of a source: something, a dot, and the letters of the extension, capital
or small. -/
def IsSourceName (name : String) : Prop :=
  ∃ stem first second, stem ≠ [] ∧ name.toList = stem ++ ['.', first, second] ∧
    (first = 'c' ∨ first = 'C') ∧ (second = 's' ∨ second = 'S')

/-- The extension of sources in any letters. -/
theorem equalIgnoringCase_sourceExtension {extension : String} :
    Text.equalIgnoringCase extension sourceExtension = true ↔
      ∃ first second, extension.toList = [first, second] ∧
        (first = 'c' ∨ first = 'C') ∧ (second = 's' ∨ second = 'S') := by
  have hc : ∀ a : Char, a.toLower = 'c' ↔ a = 'c' ∨ a = 'C' :=
    fun _ => Text.toLower_eq_iff (by decide) (by decide) (by decide)
  have hs : ∀ a : Char, a.toLower = 's' ↔ a = 's' ∨ a = 'S' :=
    fun _ => Text.toLower_eq_iff (by decide) (by decide) (by decide)
  have hlower : Text.asciiLower sourceExtension.toList = ['c', 's'] := by decide
  rw [Text.equalIgnoringCase, hlower, beq_iff_eq, Text.asciiLower]
  simp only [← hc, ← hs]
  constructor
  · intro h
    obtain ⟨first, rest, hletters, hfirst, hrest⟩ := List.map_eq_cons_iff.1 h
    obtain ⟨second, others, rfl, hsecond, hothers⟩ := List.map_eq_cons_iff.1 hrest
    obtain rfl := List.map_eq_nil_iff.1 hothers
    exact ⟨first, second, hletters, hfirst, hsecond⟩
  · rintro ⟨first, second, hletters, hfirst, hsecond⟩
    rw [hletters, List.map_cons, List.map_cons, List.map_nil, hfirst, hsecond]

/-- A path names a source if its file name is that of a source. -/
theorem isSource_iff {path : Path} {name : String} (hname : path.fileName? = some name) :
    path.isSource = true ↔ IsSourceName name := by
  have hsource : path.isSource = true ↔ ∃ extension, (cutAtDot name).2 = some extension ∧
      Text.equalIgnoringCase extension sourceExtension = true := by
    rw [isSource, hasExtension, extension?, hname, Option.bind_some, Option.any_eq_true]
  simp only [hsource, cutAtDot_eq_some_iff, equalIgnoringCase_sourceExtension]
  constructor
  · rintro ⟨extension, ⟨stem, hstem, hwhole, -⟩, first, second, hletters, hfirst, hsecond⟩
    exact ⟨stem, first, second, hstem, hletters ▸ hwhole, hfirst, hsecond⟩
  · rintro ⟨stem, first, second, hstem, hwhole, hfirst, hsecond⟩
    refine ⟨String.ofList [first, second], ⟨stem, hstem, ?_, ?_⟩, first, second, ?_, hfirst,
      hsecond⟩
    · rw [hwhole, String.toList_ofList]
    · rcases hfirst with rfl | rfl <;> rcases hsecond with rfl | rfl <;> decide
    · rw [String.toList_ofList]

end Path

namespace Pattern

/-- The pattern for the names of all sources. -/
def sourceNames : Glob :=
  [.anyRun, .literal '.', .literal 'c', .literal 's']

/-- The pattern for all sources below a directory. -/
def sourcePattern : String :=
  "**/*.cs"

theorem ofText_sourcePattern (directory : Path) :
    ofText directory sourcePattern = (directory, [.anyDepth, .files (some sourceNames)]) := by
  have hpath : Path.ofDescriptor sourcePattern = ⟨sourcePattern⟩ := by decide
  have hcomponents : (⟨sourcePattern⟩ : Path).components = [.name "**", .name "*.cs"] := by decide
  have habsolute : (⟨sourcePattern⟩ : Path).isAbsolute = false := by decide
  have hdepth : Segment.ofName "**" = .anyDepth := Segment.ofName_eq_anyDepth_iff.2 (by decide)
  have hnames : Segment.ofName "*.cs" = .files (some sourceNames) :=
    Segment.ofName_eq_files_iff.2
      ⟨by decide, by decide, (Glob.parse?_of_plain (by decide)).trans (by decide)⟩
  unfold ofText
  rw [hpath]
  simp [habsolute, hcomponents, Segment.ofComponent?, hdepth, hnames]

/-- A pattern is expanded segment by segment from where it begins. -/
theorem expand_eq_expandFrom (system : FileSystem) (directory : Path) (pattern : String) :
    system.expand directory pattern =
      expandFrom system pattern true (ofText directory pattern).1 (ofText directory pattern).2 := by
  unfold FileSystem.expand
  generalize ofText directory pattern = start
  rfl

/-- The names of sources match the pattern for them. -/
theorem accepts_sourceNames {name : String} (h : Path.IsSourceName name) :
    sourceNames.accepts name.toList = true := by
  obtain ⟨stem, first, second, -, hname, hfirst, hsecond⟩ := h
  have hc : (Glob.Part.literal 'c').StandsFor first := by
    rcases hfirst with rfl | rfl
    · exact .itself
    · exact .otherCase (by decide) (by decide) (by decide)
  have hs : (Glob.Part.literal 's').StandsFor second := by
    rcases hsecond with rfl | rfl
    · exact .itself
    · exact .otherCase (by decide) (by decide) (by decide)
  rw [hname, Glob.accepts_iff_standsFor]
  exact .anyRun stem (.one .itself (.one hc (.one hs .nil)))

/-! ## Collecting from directories -/

section Collect

variable {found : Path → Except SourceError (List Path)} {directory : Path}
  {directories files : List Path} {error : SourceError}

@[simp]
theorem collect_nil : collect found [] = .ok [] :=
  rfl

theorem collect_cons : collect found (directory :: directories) =
    (found directory).bind fun here => (collect found directories).map (here ++ ·) := by
  rw [collect, List.mapM_cons]
  cases found directory with
  | error error => rfl
  | ok here =>
      unfold collect
      cases directories.mapM found <;> rfl

/-- Collecting from directories succeeds if none of them fails. -/
theorem exists_collect_iff :
    (∃ files, collect found directories = .ok files) ↔
      ∀ directory ∈ directories, ∃ here, found directory = .ok here := by
  induction directories with
  | nil => simp
  | cons directory rest ih =>
      rw [collect_cons, List.forall_mem_cons, ← ih]
      cases found directory with
      | error error => simp [Except.bind]
      | ok here => cases collect found rest <;> simp [Except.bind, Except.map]

/-- What is collected from directories is what each of them gives. -/
theorem mem_of_collect (h : collect found directories = .ok files) {file : Path} :
    file ∈ files ↔ ∃ directory ∈ directories, ∃ here, found directory = .ok here ∧
      file ∈ here := by
  induction directories generalizing files with
  | nil =>
      obtain rfl := Except.ok.inj h
      simp
  | cons directory rest ih =>
      rw [collect_cons] at h
      cases hhere : found directory with
      | error error => simp [hhere, Except.bind] at h
      | ok here =>
          cases hrest : collect found rest with
          | error error => simp [hhere, hrest, Except.bind, Except.map] at h
          | ok others =>
              simp only [hhere, hrest, Except.bind, Except.map, Except.ok.injEq] at h
              subst h
              rw [List.mem_append, ih hrest, List.exists_mem_cons_iff, hhere]
              simp

/-- Collecting from directories fails as one of them does. -/
theorem exists_of_collect_error (h : collect found directories = .error error) :
    ∃ directory ∈ directories, found directory = .error error := by
  induction directories with
  | nil => cases h
  | cons directory rest ih =>
      rw [collect_cons] at h
      cases hhere : found directory with
      | error other =>
          rw [hhere] at h
          exact ⟨directory, List.mem_cons_self, hhere.trans h⟩
      | ok here =>
          have hrest : collect found rest = .error error := by
            rw [hhere] at h
            cases hothers : collect found rest with
            | error other =>
                rw [hothers] at h
                exact h
            | ok others => simp [hothers, Except.bind, Except.map] at h
          obtain ⟨other, hother, hfailed⟩ := ih hrest
          exact ⟨other, List.mem_cons_of_mem _ hother, hfailed⟩

theorem collect_congr {other : Path → Except SourceError (List Path)}
    (h : ∀ directory ∈ directories, found directory = other directory) :
    collect found directories = collect other directories := by
  induction directories with
  | nil => rfl
  | cons directory rest ih =>
      obtain ⟨hdirectory, hrest⟩ := List.forall_mem_cons.1 h
      rw [collect_cons, collect_cons, hdirectory, ih hrest]

end Collect

/-! ## Sources in a directory -/

/-- Whether a path is that of a source among the entries of a directory. -/
def IsSourceIn (directory : Path) (entries : Entries) (path : Path) : Prop :=
  ∃ name text, (name, Node.file text) ∈ entries ∧ path = directory.child name ∧
    path.isSource = true

variable {system : FileSystem}

/-- The sources in a directory that can be read are listed. -/
theorem sourcesIn_of_readDirectory {directory : Path} {entries : Entries}
    (h : system.readDirectory directory = .ok entries) (keep : String → Bool) :
    sourcesIn system directory keep = .ok (OrderedList.ofList Path.compare
      (FileSystem.filesAmong directory (fun path => path.isSource && path.fileName?.any keep)
        entries)) := by
  rw [sourcesIn, FileSystem.listFiles, h]
  rfl

/-- A directory can be listed. -/
theorem exists_sourcesIn {directory : Path} (h : system.isDirectory directory = true)
    (keep : String → Bool) : ∃ files, sourcesIn system directory keep = .ok files := by
  obtain ⟨entries, hread⟩ := FileSystem.isDirectory_iff_readDirectory.1 h
  exact ⟨_, sourcesIn_of_readDirectory hread keep⟩

/-- The pattern for the names of sources stands for the sources among the entries of a directory. -/
theorem exists_expandFrom_sourceNames {directory : Path} {entries : Entries}
    (hkept : FileSystem.WellKept entries) (hread : system.readDirectory directory = .ok entries)
    (pattern : String) :
    ∃ files, expandFrom system pattern false directory [.files (some sourceNames)] = .ok files ∧
      ∀ path, path ∈ files ↔ IsSourceIn directory entries path := by
  have hfiles : ∀ {keep : Path → Bool}, ∀ a ∈ FileSystem.filesAmong directory keep entries,
      ∀ b ∈ FileSystem.filesAmong directory keep entries, a.compare b = .eq → a = b := by
    intro keep a ha b hb heq
    obtain ⟨first, hfirst, rfl⟩ := List.mem_map.1 ha
    obtain ⟨second, hsecond, rfl⟩ := List.mem_map.1 hb
    have hnames : first.1 = second.1 :=
      Path.child_injective (hkept.named first (List.mem_filter.1 hfirst).1).1
        (hkept.named second (List.mem_filter.1 hsecond).1).1 (Path.compare_eq_iff.1 heq)
    rw [hnames]
  have hdirectory : system.isDirectory directory = true :=
    FileSystem.isDirectory_iff_readDirectory.2 ⟨entries, hread⟩
  refine ⟨_, (if_pos hdirectory).trans (sourcesIn_of_readDirectory hread _), fun path => ?_⟩
  simp only [OrderedList.mem_ofList_iff hfiles]
  constructor
  · intro hpath
    obtain ⟨⟨name, node⟩, hentry, rfl⟩ := List.mem_map.1 hpath
    obtain ⟨hmem, hkeep⟩ := List.mem_filter.1 hentry
    simp only [Bool.and_eq_true] at hkeep
    cases node with
    | file text => exact ⟨name, text, hmem, rfl, hkeep.2.1⟩
    | directory inner => cases hkeep.1
    | link target => cases hkeep.1
  · rintro ⟨name, text, hmem, rfl, hsource⟩
    have hname : (directory.child name).fileName? = some name :=
      Path.fileName?_child (hkept.named _ hmem).1
    have haccepts := accepts_sourceNames ((Path.isSource_iff hname).1 hsource)
    refine List.mem_map.2 ⟨(name, .file text), List.mem_filter.2 ⟨hmem, ?_⟩, rfl⟩
    simp [Node.isFile, hsource, hname, haccepts]

/-- In a directory `**` goes on in each of the directories that a walk meets, whatever is left of the
pattern. -/
theorem expandFrom_anyDepth {directory : Path} (h : system.isDirectory directory = true)
    (pattern : String) (strict : Bool) (rest : List Segment) :
    expandFrom system pattern strict directory (.anyDepth :: rest) =
      (system.sourceDirectories directory).bind
        (collect fun below => expandFrom system pattern false below rest) := by
  cases rest with
  | cons segment rest => rw [expandFrom, if_pos h]
  | nil =>
      rw [expandFrom, if_pos h]
      cases hdirectories : system.sourceDirectories directory with
      | error error => rfl
      | ok directories =>
          -- At the end of the pattern the sources of each directory are taken.
          refine collect_congr fun below hbelow => ?_
          have hthere := FileSystem.isDirectory_of_mem_sourceDirectories hdirectories hbelow
          rw [expandFrom, reached, FileSystem.isFile_of_isDirectory hthere,
            if_neg Bool.false_ne_true, if_pos hthere]

/-- Where a wildcard meets no directory something is missing. -/
theorem expandFrom_of_not_isDirectory {pattern : String} {strict : Bool} {path : Path}
    {segment : Segment} (hsegment : ∀ name, segment ≠ .step name)
    (hdirectory : system.isDirectory path = false) (rest : List Segment) :
    expandFrom system pattern strict path (segment :: rest) = missing strict pattern path := by
  have hnot : ¬ system.isDirectory path = true := by simp [hdirectory]
  cases segment with
  | step name => exact absurd rfl (hsegment name)
  | files glob? => unfold expandFrom; exact if_neg hnot
  | anyDepth => unfold expandFrom; exact if_neg hnot

/-- The pattern for all sources selects the names of sources in the directories that a walk
meets. -/
theorem expand_sourcePattern {root : Path} (h : system.isDirectory root = true) :
    system.expand root sourcePattern = (system.sourceDirectories root).bind (collect fun directory =>
      expandFrom system sourcePattern false directory [.files (some sourceNames)]) := by
  rw [FileSystem.expand, ofText_sourcePattern]
  exact expandFrom_anyDepth h sourcePattern true _

end Pattern

/-- Whether a path is that of an entry of a directory. -/
def Path.LiesIn (directory path : Path) : Prop :=
  ∃ name, Path.IsName name ∧ path = directory.child name

namespace FileSystem

open Pattern (IsSourceIn sourcePattern)
open Walkable (Enters)

variable {system : FileSystem} {root : Path} {entries : Entries}

/-! ## Both ways -/

/-- A walk discovers the sources in the directories that it enters. -/
theorem mem_discover_iff (hsystem : system.WellFormed) (h : Walkable system root entries) :
    ∃ found, system.discover root = .ok found ∧ ∀ path, path ∈ found ↔
      ∃ met inner, Enters root entries met inner ∧ IsSourceIn met inner path := by
  refine ⟨_, h.discover_eq hsystem, fun path => ?_⟩
  rw [walk_of_readDirectory h.read, sourcesAmong, List.mem_map]
  constructor
  · rintro ⟨visit, hvisit, rfl⟩
    obtain ⟨hmet, hkind⟩ := List.mem_filter.1 hvisit
    rw [Bool.and_eq_true] at hkind
    obtain ⟨met, inner, name, henters, hentry, -, hpath⟩ := (h.mem_walk_iff hsystem).1 hmet
    cases hnode : visit.node with
    | file text => exact ⟨met, inner, henters, name, text, hnode ▸ hentry, hpath, hkind.2⟩
    | directory deeper => rw [hnode] at hkind; cases hkind.1
    | link target => rw [hnode] at hkind; cases hkind.1
  · rintro ⟨met, inner, henters, name, text, hentry, hpath, hsource⟩
    refine ⟨⟨path, .file text⟩, List.mem_filter.2 ⟨?_, by simp [Node.isFile, hsource]⟩, rfl⟩
    exact (h.mem_walk_iff hsystem).2 ⟨met, inner, name, henters, hentry, rfl, hpath⟩

/-- The pattern lists the sources in the directories that a walk meets, and in the first one unless
that is reached through a link. -/
theorem mem_expand_iff (hsystem : system.WellFormed) (h : Walkable system root entries) :
    ∃ expanded, system.expand root sourcePattern = .ok expanded ∧ ∀ path, path ∈ expanded ↔
      (system.isLink root = false ∧ IsSourceIn root entries path) ∨
        ∃ met inner, ⟨met, .directory inner⟩ ∈ (Node.directory entries).walk root ∧
          IsSourceIn met inner path := by
  have hwalk := walk_of_readDirectory h.read
  have hdirectory : system.isDirectory root = true :=
    isDirectory_iff_readDirectory.2 ⟨entries, h.read⟩
  have hlisted : ∀ directory inner, system.readDirectory directory = .ok inner →
      ∃ files, Pattern.expandFrom system sourcePattern false directory
        [.files (some Pattern.sourceNames)] = .ok files ∧
          ∀ path, path ∈ files ↔ IsSourceIn directory inner path :=
    fun directory inner hread => Pattern.exists_expandFrom_sourceNames
      (wellKept_of_readDirectory hsystem hread) hread sourcePattern
  have hmet : ∀ met inner, ⟨met, .directory inner⟩ ∈ system.walk root →
      system.readDirectory met = .ok inner :=
    fun met inner hvisit => h.readDirectory_visit hsystem (hwalk ▸ hvisit)
  obtain ⟨expanded, hexpanded⟩ : ∃ expanded, Pattern.collect (fun directory =>
      Pattern.expandFrom system sourcePattern false directory [.files (some Pattern.sourceNames)])
        (system.directoriesAmong root (system.walk root)) = .ok expanded := by
    refine Pattern.exists_collect_iff.2 fun directory hmem => ?_
    rcases mem_directoriesAmong_iff.1 hmem with ⟨rfl, -⟩ | ⟨inner, hvisit⟩
    · obtain ⟨files, hfiles, -⟩ := hlisted directory entries h.read
      exact ⟨files, hfiles⟩
    · obtain ⟨files, hfiles, -⟩ := hlisted directory inner (hmet directory inner hvisit)
      exact ⟨files, hfiles⟩
  refine ⟨expanded, ?_, fun path => ?_⟩
  · rw [Pattern.expand_sourcePattern hdirectory, h.sourceDirectories_eq hsystem]
    exact hexpanded
  rw [Pattern.mem_of_collect hexpanded, ← hwalk]
  constructor
  · rintro ⟨directory, hmem, here, hhere, hpath⟩
    rcases mem_directoriesAmong_iff.1 hmem with ⟨rfl, hlink⟩ | ⟨inner, hvisit⟩
    · obtain ⟨files, hfiles, hsources⟩ := hlisted directory entries h.read
      rw [← Except.ok.inj (hfiles.symm.trans hhere)] at hpath
      exact Or.inl ⟨hlink, (hsources path).1 hpath⟩
    · obtain ⟨files, hfiles, hsources⟩ := hlisted directory inner (hmet directory inner hvisit)
      rw [← Except.ok.inj (hfiles.symm.trans hhere)] at hpath
      exact Or.inr ⟨directory, inner, hvisit, (hsources path).1 hpath⟩
  · rintro (⟨hlink, hsource⟩ | ⟨met, inner, hvisit, hsource⟩)
    · obtain ⟨files, hfiles, hsources⟩ := hlisted root entries h.read
      exact ⟨root, mem_directoriesAmong_iff.2 (Or.inl ⟨rfl, hlink⟩), files, hfiles,
        (hsources path).2 hsource⟩
    · obtain ⟨files, hfiles, hsources⟩ := hlisted met inner (hmet met inner hvisit)
      exact ⟨met, mem_directoriesAmong_iff.2 (Or.inr ⟨inner, hvisit⟩), files, hfiles,
        (hsources path).2 hsource⟩

/-- The sources among the entries of a directory lie in it. -/
theorem liesIn_of_isSourceIn (hkept : WellKept entries) {path : Path}
    (h : IsSourceIn root entries path) : root.LiesIn path := by
  obtain ⟨name, text, hentry, rfl, -⟩ := h
  exact ⟨name, (hkept.named _ hentry).1, rfl⟩

/-- The sources in a directory that a walk meets lie deeper than in the one that it begins in. -/
theorem not_liesIn_of_mem_walk (hsystem : system.WellFormed) (h : Walkable system root entries)
    {met path : Path} {inner : Entries}
    (hmet : ⟨met, .directory inner⟩ ∈ (Node.directory entries).walk root)
    (hsource : IsSourceIn met inner path) : ¬ root.LiesIn path := by
  obtain ⟨name, text, hentry, rfl, -⟩ := hsource
  rintro ⟨other, hother, heq⟩
  have hinner := wellKept_of_readDirectory hsystem (h.readDirectory_visit hsystem hmet)
  exact Path.child_ne_of_longer (hinner.named _ hentry).1 hother
    (h.length_components_lt hsystem hmet) heq

/-- Where the paths of all directories below a directory are short enough to be read, both ways of
finding sources succeed.  The sources that the pattern stands for are those that are discovered,
without the ones directly in a directory that is itself reached through a link.  So both ways find
the same exactly where there is no such source. -/
theorem expand_eq_discover_iff (hsystem : system.WellFormed)
    (hdirectory : system.isDirectory root = true)
    (hshort : ∀ visit ∈ system.walk root,
      visit.node.isDirectory = true → visit.path.text.utf8ByteSize < pathLimit) :
    ∃ found expanded, system.discover root = .ok found ∧
      system.expand root sourcePattern = .ok expanded ∧
      (∀ path, path ∈ expanded ↔
        path ∈ found ∧ ¬ (system.isLink root = true ∧ root.LiesIn path)) ∧
      ((∀ path, path ∈ expanded ↔ path ∈ found) ↔
        (system.isLink root = true → ∀ path ∈ found, ¬ root.LiesIn path)) := by
  obtain ⟨entries, h⟩ := walkable_of_short hdirectory hshort
  obtain ⟨found, hfound, hdiscovered⟩ := mem_discover_iff hsystem h
  obtain ⟨expanded, hexpanded, hlisted⟩ := mem_expand_iff hsystem h
  have hdifference : ∀ path, path ∈ expanded ↔
      path ∈ found ∧ ¬ (system.isLink root = true ∧ root.LiesIn path) := by
    intro path
    rw [hlisted, hdiscovered]
    constructor
    · rintro (⟨hlink, hsource⟩ | ⟨met, inner, hmet, hsource⟩)
      · refine ⟨⟨root, entries, Or.inl ⟨rfl, rfl⟩, hsource⟩, ?_⟩
        rw [hlink]
        exact fun hboth => Bool.false_ne_true hboth.1
      · exact ⟨⟨met, inner, Or.inr hmet, hsource⟩,
          fun hboth => not_liesIn_of_mem_walk hsystem h hmet hsource hboth.2⟩
    · rintro ⟨⟨met, inner, ⟨rfl, rfl⟩ | hmet, hsource⟩, hnot⟩
      · refine Or.inl ⟨?_, hsource⟩
        rw [Bool.eq_false_iff]
        exact fun hlink => hnot ⟨hlink, liesIn_of_isSourceIn (h.wellKept hsystem) hsource⟩
      · exact Or.inr ⟨met, inner, hmet, hsource⟩
  refine ⟨found, expanded, hfound, hexpanded, hdifference, ?_⟩
  constructor
  · intro hsame hlink path hpath hlies
    exact ((hdifference path).1 ((hsame path).2 hpath)).2 ⟨hlink, hlies⟩
  · intro hnone path
    rw [hdifference, and_iff_left_iff_imp]
    exact fun hpath hboth => hnone hboth.1 path hpath hboth.2

/-! ## A directory behind a link -/

/-- The entries of a directory with sources at two depths. -/
def nestedSources : Entries :=
  [("A.cs", .file (some "")), ("deep", .directory [("B.cs", .file (some ""))])]

/-- A directory with sources, and a link to it. -/
def linkedSources : FileSystem :=
  ⟨[("real", .directory nestedSources), ("link", .link ⟨"/real"⟩)], ⟨[], 0⟩⟩

theorem wellFormed_linkedSources : linkedSources.WellFormed := by
  have hfile : IsSound (.file (some "")) := isSound_of_isProper trivial rfl
  have hdeep : IsSound (.directory [("B.cs", .file (some ""))]) :=
    isSound_directory ⟨by decide, by decide⟩ (by simpa using hfile)
  have hreal : IsSound (.directory nestedSources) :=
    isSound_directory ⟨by decide, by decide⟩ (by simpa [nestedSources] using ⟨hfile, hdeep⟩)
  have htarget : admissible ⟨"/real"⟩ = true := by decide
  have hlink : IsSound (.link ⟨"/real"⟩) := isSound_of_isProper htarget rfl
  have hroot : IsSound (.directory linkedSources.root) :=
    isSound_directory ⟨by decide, by decide⟩ (by simpa [linkedSources] using ⟨hreal, hlink⟩)
  exact Sound.wellFormed hroot

theorem lookup_link : linkedSources.root.lookup "link" = some (.link ⟨"/real"⟩) :=
  rfl

theorem lookup_real : linkedSources.root.lookup "real" = some (.directory nestedSources) :=
  rfl

/-- The path of the link means what its name leads to from the root. -/
theorem resolveFor_link {purpose : Purpose} {location : Location}
    (hway : followTrail linkedSources purpose linkLimit [] ["", "link"] = .ok location) :
    linkedSources.resolveFor purpose ⟨"/link"⟩ = .ok (.standing location) := by
  have hadmissible : admissible ⟨"/link"⟩ = true := by decide
  have habsolute : (⟨"/link"⟩ : Path).isAbsolute = true := by decide
  have hsteps : steps ⟨"/link"⟩ = ["", "link"] := by decide
  simp [resolveFor, hadmissible, followFrom, habsolute, follow, trailTo?, Trail.continue?, hsteps,
    hway, Except.map]

theorem isLink_link : linkedSources.isLink ⟨"/link"⟩ = true := by
  have hshort : "link".utf8ByteSize = 4 := by decide
  have hway : followTrail linkedSources .entry linkLimit [] ["", "link"] = .ok ["link"] := by
    simp [followTrail, isStay, Purpose.tooLong, Purpose.entry, Trail.entries, lookup_link,
      nameLimit, hshort]
  rw [isLink, resolveFor_link hway]
  rfl

theorem find?_link : linkedSources.find? ⟨"/link"⟩ = some (.directory nestedSources) := by
  have hshort : "link".utf8ByteSize = 4 ∧ "real".utf8ByteSize = 4 := by decide
  have htarget : steps ⟨"/real"⟩ = ["", "real"] := by decide
  have hway : followTrail linkedSources .existing linkLimit [] ["", "link"] = .ok ["real"] := by
    simp [followTrail, linkLimit, isStay, Purpose.tooLong, Purpose.existing, Trail.entries,
      lookup_link, lookup_real, htarget, nameLimit, hshort]
  rw [find?, resolve, resolveFor_link hway]
  rfl

theorem isDirectory_link : linkedSources.isDirectory ⟨"/link"⟩ = true :=
  isDirectory_iff.2 ⟨nestedSources, find?_link⟩

theorem walk_link : linkedSources.walk ⟨"/link"⟩ =
    [⟨⟨"/link/A.cs"⟩, .file (some "")⟩, ⟨⟨"/link/deep"⟩, .directory [("B.cs", .file (some ""))]⟩,
      ⟨⟨"/link/deep/B.cs"⟩, .file (some "")⟩] := by
  rw [walk, find?_link]
  rfl

theorem short_link : ∀ visit ∈ linkedSources.walk ⟨"/link"⟩,
    visit.node.isDirectory = true → visit.path.text.utf8ByteSize < pathLimit := by
  rw [walk_link]
  decide

theorem readDirectory_link : linkedSources.readDirectory ⟨"/link"⟩ = .ok nestedSources :=
  readDirectory_eq_ok_iff.2 find?_link

theorem walkable_link : Walkable linkedSources ⟨"/link"⟩ nestedSources :=
  ⟨readDirectory_link, walk_of_readDirectory readDirectory_link ▸ short_link⟩

theorem expandFrom_deep :
    Pattern.expandFrom linkedSources sourcePattern false ⟨"/link/deep"⟩
      [.files (some Pattern.sourceNames)] = .ok [⟨"/link/deep/B.cs"⟩] := by
  have hdeep : linkedSources.readDirectory ⟨"/link/deep"⟩ = .ok [("B.cs", .file (some ""))] :=
    readDirectory_child wellFormed_linkedSources readDirectory_link (by simp [nestedSources])
      (by decide : ((⟨"/link"⟩ : Path).child "deep").text.utf8ByteSize < pathLimit)
  have hdirectory : linkedSources.isDirectory ⟨"/link/deep"⟩ = true :=
    isDirectory_iff_readDirectory.2 ⟨_, hdeep⟩
  rw [Pattern.expandFrom, if_pos hdirectory]
  exact (Pattern.sourcesIn_of_readDirectory hdeep _).trans (by decide)

theorem expand_link :
    linkedSources.expand ⟨"/link"⟩ sourcePattern = .ok [⟨"/link/deep/B.cs"⟩] := by
  have hdirectories : linkedSources.directoriesAmong ⟨"/link"⟩ (linkedSources.walk ⟨"/link"⟩) =
      [⟨"/link/deep"⟩] := by
    rw [directoriesAmong, isLink_link, walk_link]
    rfl
  rw [Pattern.expand_sourcePattern isDirectory_link,
    walkable_link.sourceDirectories_eq wellFormed_linkedSources, hdirectories, Except.bind,
    Pattern.collect_cons, expandFrom_deep]
  rfl

theorem expand_discover_link : linkedSources.WellFormed ∧
    linkedSources.isDirectory ⟨"/link"⟩ = true ∧
    (∀ visit ∈ linkedSources.walk ⟨"/link"⟩,
      visit.node.isDirectory = true → visit.path.text.utf8ByteSize < pathLimit) ∧
    ∃ found expanded, linkedSources.discover ⟨"/link"⟩ = .ok found ∧
      linkedSources.expand ⟨"/link"⟩ sourcePattern = .ok expanded ∧
      (∀ path, path ∈ expanded ↔ path ∈ found ∧
        ¬ (linkedSources.isLink ⟨"/link"⟩ = true ∧ (⟨"/link"⟩ : Path).LiesIn path)) ∧
      ((∀ path, path ∈ expanded ↔ path ∈ found) ↔
        (linkedSources.isLink ⟨"/link"⟩ = true →
          ∀ path ∈ found, ¬ (⟨"/link"⟩ : Path).LiesIn path)) :=
  ⟨wellFormed_linkedSources, isDirectory_link, short_link,
    expand_eq_discover_iff wellFormed_linkedSources isDirectory_link short_link⟩

/-- Where a directory is reached through a link, the walk discovers the source directly in it, but
the pattern does not stand for it. -/
theorem expand_ne_discover_link : linkedSources.isDirectory ⟨"/link"⟩ = true ∧
    linkedSources.discover ⟨"/link"⟩ = .ok [⟨"/link/A.cs"⟩, ⟨"/link/deep/B.cs"⟩] ∧
    linkedSources.expand ⟨"/link"⟩ sourcePattern = .ok [⟨"/link/deep/B.cs"⟩] := by
  refine ⟨isDirectory_link, ?_, expand_link⟩
  rw [walkable_link.discover_eq wellFormed_linkedSources, walk_link]
  rfl

end FileSystem
end ProjectAssembler
