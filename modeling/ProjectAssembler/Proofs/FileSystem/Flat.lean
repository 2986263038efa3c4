import Mathlib.Control.Monad.Basic
import ProjectAssembler.Project.Contribution
import ProjectAssembler.Proofs.FileSystem.CanonicalPaths

/-!
# Flat file systems

In a file system whose files are all in its root, the path spelled from a file's name is canonical
and leads to the file.

Main definitions: `FileSystem.flat` and, as an example, `FileSystem.fork`.

Main results: `FileSystem.canonical_flat`, `FileSystem.loadDescriptor_flat` and
`FileSystem.isFile_flat`.
-/

namespace ProjectAssembler
namespace FileSystem

open ProjectAssembler.Path (IsName)

/-- A file system whose files are all in its root, where the process works. -/
def flat (files : List (String × String)) : FileSystem :=
  ⟨files.map fun file => (file.1, .file (some file.2)), ⟨[], 0⟩⟩

theorem wellNamed_flat (files : List (String × String)) : (flat files).WellNamed := by
  simp [WellNamed, flat]

/-- The entry of a name is the file of that name. -/
theorem lookup_root_flat (files : List (String × String)) (name : String) :
    (flat files).root.lookup name = (files.lookup name).map fun text => .file (some text) := by
  induction files with
  | nil => rfl
  | cons file rest ih =>
      obtain ⟨other, text⟩ := file
      simp only [flat, List.map_cons, List.lookup_cons] at ih ⊢
      cases name == other
      · exact ih
      · rfl

/-- The steps of a path that is spelled from a name. -/
theorem steps_ofNames_singleton {name : String} (h : IsName name) :
    steps (Path.ofNames [name]) = ["", name] := by
  have hsegments : Text.splitOn '/' name.toList = [name.toList] := by
    simpa using Path.splitOn_intercalate_names (List.forall_mem_singleton.2 h) (by simp)
  simp [steps, Path.segments, Path.ofNames, Text.splitOn, hsegments]

/-- The size of a path that is spelled from a name. -/
theorem utf8ByteSize_ofNames_singleton (name : String) :
    (Path.ofNames [name]).text.utf8ByteSize = 1 + name.utf8ByteSize := by
  have hslash : "/".utf8ByteSize = 1 := rfl
  simp [Path.ofNames, hslash]

/-- The way of a path that is spelled from the name of a file leads to the file. -/
theorem followTrail_flat {files : List (String × String)} {name text : String}
    (hfile : files.lookup name = some text) (hname : IsName name)
    (hshort : name.utf8ByteSize ≤ nameLimit) (purpose : Purpose) (links : Nat) :
    followTrail (flat files) purpose links [] ["", name] = .ok [name] := by
  have hentry : (Trail.entries (flat files).root []).lookup name = some (.file (some text)) := by
    rw [Trail.entries, lookup_root_flat, hfile]
    rfl
  have hstay : isStay name = false := by simp [isStay, hname.1, hname.2.1]
  have hfits : purpose.tooLong [] name = false := by
    have hlimit : nameLimit + 1 < pathLimit := by decide
    simp only [Purpose.tooLong, Trail.location_nil, List.nil_append, utf8ByteSize_ofNames_singleton,
      Bool.or_eq_false_iff, Bool.and_eq_false_iff, decide_eq_false_iff_not]
    omega
  have hempty : isStay "" = true := rfl
  rw [followTrail, hempty, if_pos rfl, followTrail, hstay, if_neg (by simp),
    if_neg hname.2.2.1, hfits, if_neg (by simp), hentry]
  simp

/-- The path that is spelled from the name of a file is canonical. -/
theorem canonical_flat {files : List (String × String)} (name : String) {text : String}
    (hfile : files.lookup name = some text) (hname : IsName name)
    (hshort : name.utf8ByteSize ≤ nameLimit) (hnull : '\x00' ∉ name.toList) :
    (flat files).canonical (Path.ofNames [name]) = .ok (Path.ofNames [name]) := by
  have hway := followTrail_flat hfile hname hshort .spelling linkLimit
  have horigin : (flat files).origin? (Path.ofNames [name]) = some [] := by
    simp [origin?, Path.isAbsolute, Path.ofNames]
  have hclean : (Path.ofNames [name]).text.toList.contains '\x00' = false := by
    simp [Path.ofNames, hnull]
  have hnonempty : (Path.ofNames [name]).text.isEmpty = false := by
    simp [Path.ofNames]
  simp only [canonical, canonicalLocation, hclean, hnonempty, horigin, follow, trailTo?,
    Trail.continue?, steps_ofNames_singleton hname, hway, Bool.false_eq_true, if_false, Except.map]

/-- The path that is spelled from the name of a file leads to its place. -/
theorem resolve_flat {files : List (String × String)} (name : String) {text : String}
    (hfile : files.lookup name = some text) (hname : IsName name)
    (hshort : name.utf8ByteSize ≤ nameLimit) (hnull : '\x00' ∉ name.toList) :
    (flat files).resolve (Path.ofNames [name]) = .ok (.standing [name]) := by
  have hway := followTrail_flat hfile hname hshort .existing linkLimit
  have hadmissible : admissible (Path.ofNames [name]) = true := by
    have hlimit : nameLimit + 1 < pathLimit := by decide
    simp only [admissible, utf8ByteSize_ofNames_singleton, Bool.and_eq_true, decide_eq_true_eq]
    refine ⟨by omega, by simp [Path.ofNames, hnull]⟩
  have hnonempty : (Path.ofNames [name]).text.isEmpty = false := by
    simp [Path.ofNames]
  have habsolute : (Path.ofNames [name]).isAbsolute = true := by
    simp [Path.isAbsolute, Path.ofNames]
  simp only [resolve, resolveFor, hadmissible, hnonempty, followFrom, habsolute, follow, trailTo?,
    Trail.continue?, steps_ofNames_singleton hname, hway, Bool.not_true, Bool.false_eq_true,
    if_false, if_true, Except.map]

/-- The place of a name holds the file of that name. -/
theorem entryAt?_flat {files : List (String × String)} {name text : String}
    (hfile : files.lookup name = some text) :
    (flat files).entryAt? (.standing [name]) = some (.file (some text)) :=
  node?_child (node?_root (flat files)) (by rw [lookup_root_flat, hfile]; rfl)

/-- The text of a file is read at the path that is spelled from its name. -/
theorem loadDescriptor_flat {files : List (String × String)} (name : String) {text : String}
    (hfile : files.lookup name = some text) (hname : IsName name)
    (hshort : name.utf8ByteSize ≤ nameLimit) (hnull : '\x00' ∉ name.toList) :
    (flat files).loadDescriptor (Path.ofNames [name]) =
      Descriptor.parse (Path.ofNames [name]) text := by
  simp only [loadDescriptor, readText, resolve_flat name hfile hname hshort hnull,
    entryAt?_flat hfile]

/-- The path that is spelled from the name of a file means a file. -/
theorem isFile_flat {files : List (String × String)} (name : String) {text : String}
    (hfile : files.lookup name = some text) (hname : IsName name)
    (hshort : name.utf8ByteSize ≤ nameLimit) (hnull : '\x00' ∉ name.toList) :
    (flat files).isFile (Path.ofNames [name]) = true := by
  simp only [isFile, find?, resolve_flat name hfile hname hshort hnull, entryAt?_flat hfile]
  rfl

/-! ## A fork -/

/-- The text of a descriptor that references two projects. -/
def forkText (first second : String) : String :=
  "<Project ToolsVersion=\"4\"><ProjectReference Include=\"" ++ first ++
    "\"/><ProjectReference Include=\"" ++ second ++ "\"/></Project>"

/-- The text of a descriptor that references two projects and a library file. -/
def applicationText (first second : String) : String :=
  "<Project ToolsVersion=\"4\"><Reference Include=\"core\"><HintPath>core.dll</HintPath></Reference>" ++
    "<ProjectReference Include=\"" ++ first ++ "\"/><ProjectReference Include=\"" ++ second ++
    "\"/></Project>"

/-- An application that references two projects and a library file, next to the two projects, which
have no references. -/
def fork (first second : String) : FileSystem :=
  flat [("app", applicationText first second), ("lib", "<Project ToolsVersion=\"4\"/>"),
    ("util", "<Project ToolsVersion=\"4\"/>"), ("core.dll", "")]

/-- The descriptor of a project that lists no sources. -/
def plainDescriptor (path : Path) (references : List Path) : Descriptor :=
  ⟨path, .legacy, [], [], references, [], [], []⟩

/-- The descriptor of the application. -/
def applicationDescriptor (references : List Path) : Descriptor :=
  { plainDescriptor ⟨"/app"⟩ references with
    assemblyReferences := [⟨"core", some ⟨"core.dll"⟩⟩] }

theorem sources_plainDescriptor (system : FileSystem) (path : Path) (references : List Path) :
    (plainDescriptor path references).sources system = .ok [] := by
  rfl

theorem sources_applicationDescriptor (system : FileSystem) (references : List Path) :
    (applicationDescriptor references).sources system = .ok [] := by
  rfl

theorem loadDescriptor_app : (fork "lib" "util").loadDescriptor ⟨"/app"⟩ =
    .ok (applicationDescriptor [⟨"/lib"⟩, ⟨"/util"⟩]) :=
  (loadDescriptor_flat "app" rfl (by decide) (by decide) (by decide)).trans (by decide +kernel)

theorem loadDescriptor_app_swapped : (fork "util" "lib").loadDescriptor ⟨"/app"⟩ =
    .ok (applicationDescriptor [⟨"/util"⟩, ⟨"/lib"⟩]) :=
  (loadDescriptor_flat "app" rfl (by decide) (by decide) (by decide)).trans (by decide +kernel)

theorem loadDescriptor_lib (first second : String) :
    (fork first second).loadDescriptor ⟨"/lib"⟩ = .ok (plainDescriptor ⟨"/lib"⟩ []) :=
  (loadDescriptor_flat "lib" rfl (by decide) (by decide) (by decide)).trans (by decide +kernel)

theorem loadDescriptor_util (first second : String) :
    (fork first second).loadDescriptor ⟨"/util"⟩ = .ok (plainDescriptor ⟨"/util"⟩ []) :=
  (loadDescriptor_flat "util" rfl (by decide) (by decide) (by decide)).trans (by decide +kernel)

theorem canonical_app (first second : String) :
    (fork first second).canonical ⟨"/app"⟩ = .ok ⟨"/app"⟩ :=
  canonical_flat "app" rfl (by decide) (by decide) (by decide)

theorem canonical_lib (first second : String) :
    (fork first second).canonical ⟨"/lib"⟩ = .ok ⟨"/lib"⟩ :=
  canonical_flat "lib" rfl (by decide) (by decide) (by decide)

theorem canonical_util (first second : String) :
    (fork first second).canonical ⟨"/util"⟩ = .ok ⟨"/util"⟩ :=
  canonical_flat "util" rfl (by decide) (by decide) (by decide)

theorem canonical_core (first second : String) :
    (fork first second).canonical ⟨"/core.dll"⟩ = .ok ⟨"/core.dll"⟩ :=
  canonical_flat "core.dll" rfl (by decide) (by decide) (by decide)

theorem isFile_core (first second : String) : (fork first second).isFile ⟨"/core.dll"⟩ = true :=
  isFile_flat "core.dll" rfl (by decide) (by decide) (by decide)

end FileSystem
end ProjectAssembler
