import ProjectAssembler.Proofs.Sources.MissingDirectories
import ProjectAssembler.Proofs.Sources.NestedWalks
import ProjectAssembler.Proofs.Sources.PatternMatches
import ProjectAssembler.Proofs.Text.Cutting

/-!
# Doubled segments

A segment `**` stands for every directory below, and every directory below one of these is among
them.  So a pattern in which such a segment is written twice stands for the same files as the
pattern in which it is written once, and cannot be expanded exactly where that cannot.

Main definitions:

* `Pattern.Succeeds`: whether the rest of a pattern can be expanded;
* `Pattern.Finds`: whether the rest of a pattern stands for a file;
* `Pattern.Agrees`: whether two ways to go on stand for the same files wherever they begin.

Main results:

* `Pattern.succeeds_anyDepth_iff` and `Pattern.finds_anyDepth_iff`: when `**` with the rest of a
  pattern can be expanded, and what it stands for;
* `Pattern.agrees_anyDepth`: `**` once and twice;
* `Pattern.exists_ofText_doubled`: the segments of a pattern with a segment written twice;
* `Pattern.expand_doubled`: what such a pattern stands for.
-/

namespace ProjectAssembler
namespace Pattern

open FileSystem

variable {system : FileSystem} {pattern first second : String} {strict : Bool} {path file : Path}
  {segment : Segment} {rest others : List Segment}

/-! ## Files that are found -/

/-- Whether the rest of a pattern can be expanded below a path. -/
def Succeeds (system : FileSystem) (pattern : String) (strict : Bool) (path : Path)
    (segments : List Segment) : Prop :=
  ∃ files, expandFrom system pattern strict path segments = .ok files

/-- Whether the rest of a pattern stands for a file below a path. -/
def Finds (system : FileSystem) (pattern : String) (strict : Bool) (path : Path)
    (segments : List Segment) (file : Path) : Prop :=
  ∃ files, expandFrom system pattern strict path segments = .ok files ∧ file ∈ files

/-- In a directory `**` can be expanded if a walk can list the directories below and the rest of the
pattern can be expanded in each. -/
theorem succeeds_anyDepth_iff (hdirectory : system.isDirectory path = true) :
    Succeeds system pattern strict path (.anyDepth :: rest) ↔
      ∃ directories, system.sourceDirectories path = .ok directories ∧
        ∀ directory ∈ directories, Succeeds system pattern false directory rest := by
  unfold Succeeds
  rw [expandFrom_anyDepth hdirectory]
  cases system.sourceDirectories path with
  | error error => simp [Except.bind]
  | ok directories =>
      simp only [Except.ok.injEq, exists_eq_left']
      exact exists_collect_iff

/-- There it stands for what the rest of the pattern stands for in these directories. -/
theorem finds_anyDepth_iff (hdirectory : system.isDirectory path = true) :
    Finds system pattern strict path (.anyDepth :: rest) file ↔
      ∃ directories, system.sourceDirectories path = .ok directories ∧
        (∀ directory ∈ directories, Succeeds system pattern false directory rest) ∧
        ∃ directory ∈ directories, Finds system pattern false directory rest file := by
  unfold Finds Succeeds
  rw [expandFrom_anyDepth hdirectory]
  cases system.sourceDirectories path with
  | error error => simp [Except.bind]
  | ok directories =>
      simp only [Except.ok.injEq, exists_eq_left', ← exists_collect_iff, Except.bind]
      constructor
      · rintro ⟨files, hfiles, hfile⟩
        exact ⟨⟨files, hfiles⟩, (mem_of_collect hfiles).1 hfile⟩
      · rintro ⟨⟨files, hfiles⟩, hfound⟩
        exact ⟨files, hfiles, (mem_of_collect hfiles).2 hfound⟩

/-! ## Patterns that agree -/

/-- Whether two ways to go on with patterns can be taken alike and stand for the same files,
wherever they begin. -/
structure Agrees (system : FileSystem) (first second : String) (rest others : List Segment) :
    Prop where
  succeeds_iff : ∀ strict path,
    Succeeds system first strict path rest ↔ Succeeds system second strict path others
  finds_iff : ∀ strict path file,
    Finds system first strict path rest file ↔ Finds system second strict path others file

/-- Where there is no directory, wildcards fail alike or find nothing. -/
theorem missing_eq_ok_iff (first second : String) (strict : Bool) (path : Path)
    (files : List Path) :
    missing strict first path = .ok files ↔ missing strict second path = .ok files := by
  cases strict <;> simp [missing]

/-- Wildcards agree if they can be taken alike and stand for the same files in every directory. -/
theorem agrees_of_wildcard {other : Segment} (hsegment : ∀ name, segment ≠ .step name)
    (hother : ∀ name, other ≠ .step name)
    (h : ∀ strict path, system.isDirectory path = true →
      (Succeeds system first strict path (segment :: rest) ↔
        Succeeds system second strict path (other :: others)) ∧
      ∀ file, Finds system first strict path (segment :: rest) file ↔
        Finds system second strict path (other :: others) file) :
    Agrees system first second (segment :: rest) (other :: others) := by
  -- Elsewhere both mean that something is missing, whatever they are called.
  have helsewhere : ∀ {strict path}, system.isDirectory path = false → ∀ files,
      expandFrom system first strict path (segment :: rest) = .ok files ↔
        expandFrom system second strict path (other :: others) = .ok files := by
    intro strict path hnone files
    rw [expandFrom_of_not_isDirectory hsegment hnone, expandFrom_of_not_isDirectory hother hnone]
    exact missing_eq_ok_iff first second strict path files
  constructor
  · intro strict path
    cases hdirectory : system.isDirectory path with
    | true => exact (h strict path hdirectory).1
    | false => exact exists_congr (helsewhere hdirectory)
  · intro strict path file
    cases hdirectory : system.isDirectory path with
    | true => exact (h strict path hdirectory).2 file
    | false => exact exists_congr fun files => and_congr_left' (helsewhere hdirectory files)

/-- A segment in front keeps an agreement. -/
theorem Agrees.cons (h : Agrees system first second rest others) (segment : Segment) :
    Agrees system first second (segment :: rest) (segment :: others) := by
  cases segment with
  | step name =>
      exact ⟨fun strict path => h.succeeds_iff strict (path.child name),
        fun strict path => h.finds_iff strict (path.child name)⟩
  | files glob? =>
      -- A wildcard for files ends the pattern, so nothing behind it is read.
      refine agrees_of_wildcard (by simp) (by simp) fun strict path hdirectory => ?_
      unfold Succeeds Finds expandFrom
      rw [if_pos hdirectory, if_pos hdirectory]
      exact ⟨Iff.rfl, fun file => Iff.rfl⟩
  | anyDepth =>
      refine agrees_of_wildcard (by simp) (by simp) fun strict path hdirectory => ⟨?_, ?_⟩
      · rw [succeeds_anyDepth_iff hdirectory, succeeds_anyDepth_iff hdirectory]
        simp only [h.succeeds_iff]
      · intro file
        rw [finds_anyDepth_iff hdirectory, finds_anyDepth_iff hdirectory]
        simp only [h.succeeds_iff, h.finds_iff]

/-- At its end a pattern gives the same whatever it is called. -/
theorem reached_eq_ok_iff (first second : String) (strict : Bool) (path : Path)
    (files : List Path) : reached system strict first path = .ok files ↔
      reached system strict second path = .ok files := by
  unfold reached
  split_ifs
  · exact Iff.rfl
  · exact Iff.rfl
  · exact Iff.rfl
  · exact missing_eq_ok_iff first second strict path files

/-- What a pattern is called makes no difference. -/
theorem agrees_refl (first second : String) (rest : List Segment) :
    Agrees system first second rest rest := by
  induction rest with
  | cons segment rest ih => exact ih.cons segment
  | nil =>
      exact ⟨fun strict path => exists_congr (reached_eq_ok_iff first second strict path),
        fun strict path file => exists_congr fun files =>
          and_congr_left' (reached_eq_ok_iff first second strict path files)⟩

/-- Segments in front keep an agreement. -/
theorem Agrees.append (h : Agrees system first second rest others) (front : List Segment) :
    Agrees system first second (front ++ rest) (front ++ others) := by
  induction front with
  | nil => exact h
  | cons segment front ih => exact ih.cons segment

section Nested

variable {entries : Entries}

/-- In a directory that can be walked `**` can be expanded if the rest of the pattern can be in each
directory below. -/
theorem succeeds_anyDepth_iff_of_walkable (hsystem : system.WellFormed)
    (h : Walkable system path entries) :
    Succeeds system pattern strict path (.anyDepth :: rest) ↔
      ∀ directory ∈ system.directoriesAmong path (system.walk path),
        Succeeds system pattern false directory rest := by
  rw [succeeds_anyDepth_iff (isDirectory_iff_readDirectory.2 ⟨entries, h.read⟩),
    h.sourceDirectories_eq hsystem]
  simp only [Except.ok.injEq, exists_eq_left']

theorem finds_anyDepth_iff_of_walkable (hsystem : system.WellFormed)
    (h : Walkable system path entries) :
    Finds system pattern strict path (.anyDepth :: rest) file ↔
      (∀ directory ∈ system.directoriesAmong path (system.walk path),
        Succeeds system pattern false directory rest) ∧
      ∃ directory ∈ system.directoriesAmong path (system.walk path),
        Finds system pattern false directory rest file := by
  rw [finds_anyDepth_iff (isDirectory_iff_readDirectory.2 ⟨entries, h.read⟩),
    h.sourceDirectories_eq hsystem]
  simp only [Except.ok.injEq, exists_eq_left']

/-- Behind `**`, what can be expanded in the directories below can be expanded in those below each
of them. -/
theorem forall_succeeds_nested (hsystem : system.WellFormed) (h : Walkable system path entries) :
    (∀ directory ∈ system.directoriesAmong path (system.walk path),
        Succeeds system pattern false directory rest) ↔
      ∀ between ∈ system.directoriesAmong path (system.walk path),
        Succeeds system pattern false between (.anyDepth :: rest) := by
  constructor
  · intro hall between hbetween
    obtain ⟨inner, hwalkable⟩ := h.of_mem_directoriesAmong hsystem hbetween
    refine (succeeds_anyDepth_iff_of_walkable hsystem hwalkable).2 fun directory hdirectory => ?_
    exact hall directory ((h.mem_directoriesAmong_nested hsystem).2
      ⟨between, hbetween, hdirectory⟩)
  · intro hall directory hdirectory
    obtain ⟨between, hbetween, hbelow⟩ := (h.mem_directoriesAmong_nested hsystem).1 hdirectory
    obtain ⟨inner, hwalkable⟩ := h.of_mem_directoriesAmong hsystem hbetween
    exact (succeeds_anyDepth_iff_of_walkable hsystem hwalkable).1 (hall between hbetween) directory
      hbelow

/-- What is found in the directories below is found from those below each of them. -/
theorem exists_finds_nested (hsystem : system.WellFormed) (h : Walkable system path entries)
    (hall : ∀ directory ∈ system.directoriesAmong path (system.walk path),
      Succeeds system pattern false directory rest) :
    (∃ directory ∈ system.directoriesAmong path (system.walk path),
        Finds system pattern false directory rest file) ↔
      ∃ between ∈ system.directoriesAmong path (system.walk path),
        Finds system pattern false between (.anyDepth :: rest) file := by
  constructor
  · rintro ⟨directory, hmem, hfound⟩
    obtain ⟨between, hbetween, hbelow⟩ := (h.mem_directoriesAmong_nested hsystem).1 hmem
    obtain ⟨inner, hwalkable⟩ := h.of_mem_directoriesAmong hsystem hbetween
    have hsucceeds := (forall_succeeds_nested hsystem h).1 hall between hbetween
    exact ⟨between, hbetween, (finds_anyDepth_iff_of_walkable hsystem hwalkable).2
      ⟨(succeeds_anyDepth_iff_of_walkable hsystem hwalkable).1 hsucceeds, directory, hbelow,
        hfound⟩⟩
  · rintro ⟨between, hbetween, hlater⟩
    obtain ⟨inner, hwalkable⟩ := h.of_mem_directoriesAmong hsystem hbetween
    obtain ⟨-, directory, hbelow, hfound⟩ :=
      (finds_anyDepth_iff_of_walkable hsystem hwalkable).1 hlater
    exact ⟨directory, (h.mem_directoriesAmong_nested hsystem).2 ⟨between, hbetween, hbelow⟩, hfound⟩

/-- Writing `**` twice makes no difference. -/
theorem agrees_anyDepth (hsystem : system.WellFormed) (first second : String)
    (rest : List Segment) :
    Agrees system first second (.anyDepth :: rest) (.anyDepth :: .anyDepth :: rest) := by
  have hany : ∀ name, Segment.anyDepth ≠ .step name := nofun
  have hrest : Agrees system first second rest rest := agrees_refl first second rest
  refine agrees_of_wildcard hany hany fun strict path hdirectory => ?_
  cases hdirectories : system.sourceDirectories path with
  | error error =>
      rw [succeeds_anyDepth_iff hdirectory, succeeds_anyDepth_iff hdirectory]
      simp [finds_anyDepth_iff hdirectory, hdirectories]
  | ok directories =>
      -- The first walk does not fail, so no walk from a directory that it meets does.
      obtain ⟨entries, h⟩ := walkable_of_sourceDirectories hdirectories
      constructor
      · rw [succeeds_anyDepth_iff_of_walkable hsystem h, succeeds_anyDepth_iff_of_walkable hsystem h,
          ← forall_succeeds_nested hsystem h]
        simp only [hrest.succeeds_iff]
      · intro file
        rw [finds_anyDepth_iff_of_walkable hsystem h, finds_anyDepth_iff_of_walkable hsystem h,
          ← forall_succeeds_nested hsystem h]
        simp only [hrest.succeeds_iff, hrest.finds_iff]
        exact and_congr_right (exists_finds_nested hsystem h)

end Nested

/-! ## A segment that is written twice -/

/-- The segment that the text between two separators of a pattern spells, if any. -/
def Segment.ofText? (text : List Char) : Option Segment :=
  (Path.Component.ofSegment? text).bind Segment.ofComponent?

theorem ofText?_of_hasDoubleStar {text : List Char} (h : hasDoubleStar text = true) :
    Segment.ofText? text = some .anyDepth := by
  have hempty : ¬ (text = [] ∨ text = ['.']) := by
    rintro (rfl | rfl) <;> cases h
  have hup : text ≠ ['.', '.'] := by
    rintro rfl
    cases h
  have hname : Segment.ofName (String.ofList text) = .anyDepth := by
    rw [Segment.ofName_eq_anyDepth_iff, String.toList_ofList]
    exact hasDoubleStar_iff.1 h
  rw [Segment.ofText?, Path.Component.ofSegment?, if_neg hempty, if_neg hup, Option.bind_some,
    Segment.ofComponent?, hname]

/-- The segments of a pattern are spelled between its separators. -/
theorem ofText_snd_eq_filterMap (directory : Path) (pattern : String) :
    (ofText directory pattern).2 =
      (Path.ofDescriptor pattern).segments.filterMap Segment.ofText? := by
  have hlead : ∀ path : Path, (if path.isAbsolute then [Path.Component.root]
      else if path.beginsAtCurrent then [Path.Component.current] else []).filterMap
        Segment.ofComponent? = [] := by
    intro path
    split_ifs <;> rfl
  have hsegments : (ofText directory pattern).2 =
      (Path.ofDescriptor pattern).components.filterMap Segment.ofComponent? := by rw [ofText]
  have htext : Segment.ofText? =
      fun text => (Path.Component.ofSegment? text).bind Segment.ofComponent? := rfl
  rw [hsegments, Path.components, List.filterMap_append, hlead, List.nil_append,
    List.filterMap_filterMap, htext]

/-- A backslash in a pattern separates like a slash. -/
def slashed (c : Char) : Char :=
  if c = '\\' then '/' else c

theorem map_slashed {text : List Char} (h : '\\' ∉ text) : text.map slashed = text := by
  have hkept : ∀ c ∈ text, slashed c = id c := by
    rintro c hc
    refine if_neg ?_
    rintro rfl
    exact h hc
  rw [List.map_congr_left hkept, List.map_id]

/-- The path of a pattern keeps what stands between two stars. -/
theorem toList_ofDescriptor {text : String} {before middle after : List Char}
    (h : text.toList = before ++ '*' :: (middle ++ '*' :: after)) :
    (Path.ofDescriptor text).text.toList = (Text.trimStart before).map slashed ++
      '*' :: (middle.map slashed ++ '*' :: (Text.trimEnd after).map slashed) := by
  have hstar : Text.isBlank '*' = false := by decide
  have hmap : (fun c => if c = '\\' then '/' else c) = slashed := rfl
  have hkept : slashed '*' = '*' := by decide
  rw [Path.ofDescriptor, String.toList_ofList, h, Text.trim_append_cons hstar hstar, hmap]
  simp [hkept]

/-- A pattern with a segment written twice has two segments in the place of one. -/
theorem exists_segments_doubled (before segment after : String) {separator : String}
    (hseparator : separator = "/" ∨ separator = "\\")
    (hslash : '/' ∉ segment.toList) (hbackslash : '\\' ∉ segment.toList)
    (hstars : hasDoubleStar segment.toList = true) :
    (Path.ofDescriptor (before ++ segment ++ separator ++ segment ++ after)).isAbsolute =
        (Path.ofDescriptor (before ++ segment ++ after)).isAbsolute ∧
      ∃ front whole left right rest, hasDoubleStar whole = true ∧ hasDoubleStar left = true ∧
        hasDoubleStar right = true ∧
        (Path.ofDescriptor (before ++ segment ++ after)).segments = front ++ whole :: rest ∧
        (Path.ofDescriptor (before ++ segment ++ separator ++ segment ++ after)).segments =
          front ++ left :: right :: rest := by
  obtain ⟨early, late, hwhole⟩ := hasDoubleStar_iff.1 hstars
  have hsplit : segment.toList = early ++ '*' :: '*' :: late := by simp [← hwhole]
  simp only [hsplit, List.mem_append, List.mem_cons, not_or] at hslash hbackslash
  have hearly := map_slashed hbackslash.1
  have hlate := map_slashed hbackslash.2.2.2
  have hseparated : separator.toList.map slashed = ['/'] := by
    rcases hseparator with rfl | rfl <;> decide
  have hstar : slashed '*' = '*' := by decide
  have horiginal := toList_ofDescriptor
    (show (before ++ segment ++ after).toList =
      (before.toList ++ early) ++ '*' :: ([] ++ '*' :: (late ++ after.toList)) by simp [hsplit])
  have hdoubled := toList_ofDescriptor
    (show (before ++ segment ++ separator ++ segment ++ after).toList =
      (before.toList ++ early) ++ '*' ::
        (('*' :: (late ++ separator.toList ++ early ++ ['*'])) ++
          '*' :: (late ++ after.toList)) by simp [hsplit])
  generalize (Text.trimStart (before.toList ++ early)).map slashed = front at horiginal hdoubled
  generalize (Text.trimEnd (late ++ after.toList)).map slashed = back at horiginal hdoubled
  have hstarred : '/' ∉ ['*', '*'] := by decide
  have hleft : '/' ∉ '*' :: '*' :: late := by simp [hslash.2.2.2]
  have hright : '/' ∉ early ++ ['*', '*'] := by simp [hslash.1]
  obtain ⟨parts, last, first, rest, hsingle, htwice⟩ :=
    Text.exists_splitOn_word hstarred hleft hright front back
  constructor
  · rw [Path.isAbsolute, Path.isAbsolute, horiginal, hdoubled]
    cases front <;> rfl
  · refine ⟨parts, last ++ (['*', '*'] ++ first), last ++ '*' :: '*' :: late,
      early ++ ['*', '*'] ++ first, rest, ?_, ?_, ?_, ?_, ?_⟩
    · exact hasDoubleStar_iff.2 ⟨last, first, by simp⟩
    · exact hasDoubleStar_iff.2 ⟨last, late, by simp⟩
    · exact hasDoubleStar_iff.2 ⟨early, first, by simp⟩
    · rw [Path.segments, Text.splitOn_eq, horiginal, ← hsingle]
      rfl
    · rw [Path.segments, Text.splitOn_eq, hdoubled, ← htwice]
      simp [hearly, hlate, hseparated, hstar]

/-- A pattern with a segment `**` written twice begins in the same place and has one more segment
than the pattern with the one. -/
theorem exists_ofText_doubled (directory : Path) (before segment after : String)
    {separator : String} (hseparator : separator = "/" ∨ separator = "\\")
    (hslash : '/' ∉ segment.toList) (hbackslash : '\\' ∉ segment.toList)
    (hstars : hasDoubleStar segment.toList = true) :
    (ofText directory (before ++ segment ++ separator ++ segment ++ after)).1 =
        (ofText directory (before ++ segment ++ after)).1 ∧
      ∃ front rest,
        (ofText directory (before ++ segment ++ after)).2 = front ++ .anyDepth :: rest ∧
        (ofText directory (before ++ segment ++ separator ++ segment ++ after)).2 =
          front ++ .anyDepth :: .anyDepth :: rest := by
  obtain ⟨habsolute, front, whole, left, right, rest, hwhole, hleft, hright, hsingle, htwice⟩ :=
    exists_segments_doubled before segment after hseparator hslash hbackslash hstars
  refine ⟨?_, front.filterMap Segment.ofText?, rest.filterMap Segment.ofText?, ?_, ?_⟩
  · rw [ofText, ofText, habsolute]
  · rw [ofText_snd_eq_filterMap, hsingle, List.filterMap_append,
      List.filterMap_cons_some (ofText?_of_hasDoubleStar hwhole)]
  · rw [ofText_snd_eq_filterMap, htwice, List.filterMap_append,
      List.filterMap_cons_some (ofText?_of_hasDoubleStar hleft),
      List.filterMap_cons_some (ofText?_of_hasDoubleStar hright)]

/-! ## Doubled patterns -/

/-- A pattern in which a segment with `**` is written twice can be expanded exactly where the
pattern with the one segment can, and stands for the same files. -/
theorem expand_doubled (hsystem : system.WellFormed) (root : Path)
    (before segment after : String) {separator : String}
    (hseparator : separator = "/" ∨ separator = "\\")
    (hslash : '/' ∉ segment.toList) (hbackslash : '\\' ∉ segment.toList)
    (hstars : hasDoubleStar segment.toList = true) :
    ((∃ files,
          system.expand root (before ++ segment ++ separator ++ segment ++ after) = .ok files) ↔
        ∃ files, system.expand root (before ++ segment ++ after) = .ok files) ∧
      ∀ once twice, system.expand root (before ++ segment ++ after) = .ok once →
        system.expand root (before ++ segment ++ separator ++ segment ++ after) = .ok twice →
        ∀ file, file ∈ twice ↔ file ∈ once := by
  obtain ⟨hbase, front, rest, hsingle, hdouble⟩ :=
    exists_ofText_doubled root before segment after hseparator hslash hbackslash hstars
  have hagrees := (agrees_anyDepth hsystem (before ++ segment ++ after)
    (before ++ segment ++ separator ++ segment ++ after) rest).append front
  rw [expand_eq_expandFrom, expand_eq_expandFrom, hbase, hsingle, hdouble]
  refine ⟨(hagrees.succeeds_iff true _).symm, fun once twice honce htwice file => ?_⟩
  have hfinds := hagrees.finds_iff true
    (ofText root (before ++ segment ++ after)).1 file
  unfold Finds at hfinds
  rw [honce, htwice] at hfinds
  simpa [eq_comm] using hfinds.symm

theorem expand_doubled_link : linkedSources.WellFormed ∧
    '/' ∉ "**".toList ∧ '\\' ∉ "**".toList ∧ hasDoubleStar "**".toList = true ∧
    ∃ files, linkedSources.expand ⟨"/link"⟩ "**/**/*.cs" = .ok files ∧
      ∀ file, file ∈ files ↔ file = ⟨"/link/deep/B.cs"⟩ := by
  have honce : linkedSources.expand ⟨"/link"⟩ ("" ++ "**" ++ "/*.cs") =
      .ok [⟨"/link/deep/B.cs"⟩] := expand_link
  obtain ⟨hsucceeds, hfiles⟩ := expand_doubled wellFormed_linkedSources ⟨"/link"⟩ ""
    "**" "/*.cs" (Or.inl rfl) (by decide) (by decide) (by decide)
  obtain ⟨twice, htwice⟩ := hsucceeds.2 ⟨_, honce⟩
  refine ⟨wellFormed_linkedSources, by decide, by decide, by decide, twice, htwice, ?_⟩
  simpa using hfiles _ twice honce htwice

end Pattern
end ProjectAssembler
