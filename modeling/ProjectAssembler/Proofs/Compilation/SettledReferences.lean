import ProjectAssembler.Compilation.Build
import ProjectAssembler.Proofs.FileSystem.NormalPaths

/-!
# The references of a compilation unit

The references of a unit are the given ones, without those in the directory of a runtime that is
left out, and the base libraries as far as they exist.  The given ones are left out before the base
libraries are added, so a base library stays even in such a directory.

Main definition: `CompilationBuilder.Supplies`, the base libraries in their normal form.

Main results:

* `CompilationBuilder.holds_settleReferences`: what the settled references are;
* `CompilationBuilder.exists_isExcluded_iff`: when one of them is in a runtime that is left out;
* `CompilationBuilder.references_build`: the references of a unit.
-/

namespace ProjectAssembler
namespace CompilationBuilder

open FileSystem

variable {system : FileSystem} {builder : CompilationBuilder} {references : PathSet}

/-- Whether a path is the normal form of an existing base library. -/
def Supplies (system : FileSystem) (builder : CompilationBuilder) (path : Path) : Prop :=
  ∃ framework, builder.framework = some framework ∧ ∃ library ∈ baselineLibraries,
    system.isFile (framework.child library) = true ∧
      path = system.normalPath (framework.child library)

theorem isExcluded_iff {path : Path} :
    isExcluded path = true ↔ .name excludedRuntime ∈ path.components := by
  simp [isExcluded]

/-- Whether a path is left out depends on its components alone. -/
theorem isExcluded_congr {path other : Path} (h : path.same other = true) :
    isExcluded path = isExcluded other := by
  rw [Path.same, beq_iff_eq] at h
  rw [isExcluded, isExcluded, h]

/-- The base libraries of a directory are the files in it that have one of their names. -/
theorem mem_existingBaseline {framework path : Path} :
    path ∈ existingBaseline system framework ↔
      ∃ library ∈ baselineLibraries, system.isFile (framework.child library) = true ∧
        path = framework.child library := by
  simp only [existingBaseline, List.mem_filter, List.mem_map]
  constructor
  · rintro ⟨⟨library, hlibrary, rfl⟩, hfile⟩
    exact ⟨library, hlibrary, hfile, rfl⟩
  · rintro ⟨library, hlibrary, hfile, rfl⟩
    exact ⟨⟨library, hlibrary, rfl⟩, hfile⟩

/-- What is kept of ascending references is ascending, and so is what they are settled to. -/
theorem ascending_settleReferences (h : references.Ascending) :
    (settleReferences system builder references).Ascending := by
  have hkept : (references.retain fun path => !isExcluded path).Ascending :=
    List.Pairwise.filter _ h
  unfold settleReferences
  cases builder.framework with
  | none => exact hkept
  | some framework => exact PathSet.ascending_extend hkept _

/-- A settled reference was given and is not left out, or is a base library. -/
theorem mem_settleReferences {reference : Path}
    (h : reference ∈ (settleReferences system builder references).paths) :
    reference ∈ references.paths ∧ isExcluded reference = false ∨
      Supplies system builder reference := by
  unfold settleReferences at h
  cases hframework : builder.framework with
  | none =>
      simp only [hframework, PathSet.mem_retain, Bool.not_eq_true'] at h
      exact Or.inl h
  | some framework =>
      simp only [hframework] at h
      rcases PathSet.mem_of_mem_extend h with hkept | ⟨path, hpath, rfl⟩
      · exact Or.inl (by simpa using hkept)
      · obtain ⟨library, hlibrary, hfile, rfl⟩ := mem_existingBaseline.1 hpath
        exact Or.inr ⟨framework, hframework, library, hlibrary, hfile, rfl⟩

/-- References are settled to those that are given and not left out, and the base libraries. -/
theorem holds_settleReferences {path : Path} :
    (settleReferences system builder references).holds path = true ↔
      (∃ given ∈ references.paths, isExcluded given = false ∧ given.same path = true) ∨
        ∃ library, Supplies system builder library ∧ library.same path = true := by
  have hkept : (references.retain fun path => !isExcluded path).holds path = true ↔
      ∃ given ∈ references.paths, isExcluded given = false ∧ given.same path = true := by
    simp [PathSet.holds_iff, and_assoc]
  unfold settleReferences Supplies
  cases builder.framework with
  | none => simpa using hkept
  | some framework =>
      dsimp only
      rw [PathSet.holds_extend, hkept]
      simp only [mem_existingBaseline]
      refine or_congr_right ⟨?_, ?_⟩
      · rintro ⟨_, ⟨library, hlibrary, hfile, rfl⟩, hsame⟩
        exact ⟨_, ⟨framework, rfl, library, hlibrary, hfile, rfl⟩, hsame⟩
      · rintro ⟨_, ⟨own, hown, library, hlibrary, hfile, rfl⟩, hsame⟩
        obtain rfl := Option.some.inj hown
        exact ⟨_, ⟨library, hlibrary, hfile, rfl⟩, hsame⟩

/-- A settled reference is in a runtime that is left out exactly if a base library is. -/
theorem exists_isExcluded_iff :
    (∃ reference ∈ (settleReferences system builder references).paths,
        isExcluded reference = true) ↔
      ∃ library, Supplies system builder library ∧ isExcluded library = true := by
  constructor
  · rintro ⟨reference, hreference, hexcluded⟩
    rcases mem_settleReferences hreference with ⟨-, hkept⟩ | hsupplied
    · rw [hkept] at hexcluded
      cases hexcluded
    · exact ⟨reference, hsupplied, hexcluded⟩
  · rintro ⟨library, hsupplied, hexcluded⟩
    have hholds : (settleReferences system builder references).holds library = true :=
      holds_settleReferences.2 (Or.inr ⟨library, hsupplied, Path.same_refl library⟩)
    obtain ⟨reference, hreference, hsame⟩ := PathSet.holds_iff.1 hholds
    exact ⟨reference, hreference, (isExcluded_congr hsame).trans hexcluded⟩

/-- A unit has the references that those given are settled to. -/
theorem references_of_build {cancelled : Bool} {sources : PathSet} {unit : CompilationUnit}
    (h : builder.build system cancelled sources references = .ok unit) :
    unit.references = (settleReferences system builder references).paths := by
  unfold build at h
  split at h
  · cases h
  · split at h
    · cases h
    · rw [← Except.ok.inj h]

/-- The references of a unit are strictly in path order.  They are those that are given, without
the ones in a runtime that is left out, and the base libraries in their normal form.  So one of them
is in such a runtime exactly if an existing base library is, and then it is a base library. -/
theorem references_build (hreferences : references.Ascending) {cancelled : Bool}
    {sources : PathSet} {unit : CompilationUnit}
    (h : builder.build system cancelled sources references = .ok unit) :
    OrderedList.Ascending Path.compare unit.references ∧
      (∀ path, (∃ reference ∈ unit.references, reference.same path = true) ↔
        (∃ given ∈ references.paths, .name excludedRuntime ∉ given.components ∧
          given.same path = true) ∨
        ∃ library, Supplies system builder library ∧ library.same path = true) ∧
      (∀ reference ∈ unit.references, .name excludedRuntime ∈ reference.components →
        Supplies system builder reference) ∧
      ((∃ reference ∈ unit.references, .name excludedRuntime ∈ reference.components) ↔
        ∃ library, Supplies system builder library ∧
          .name excludedRuntime ∈ library.components) := by
  rw [references_of_build h]
  simp only [← isExcluded_iff, Bool.not_eq_true]
  refine ⟨ascending_settleReferences hreferences, fun path => ?_, ?_, exists_isExcluded_iff⟩
  · rw [← PathSet.holds_iff, holds_settleReferences]
  · intro reference hreference hexcluded
    rcases mem_settleReferences hreference with ⟨-, hkept⟩ | hsupplied
    · rw [hkept] at hexcluded
      cases hexcluded
    · exact hsupplied

/-! ## A base library in a runtime that is left out -/

/-- The directory of a runtime that is left out, with a base library and another one. -/
def excludedSystem : FileSystem :=
  ⟨[(excludedRuntime, .directory
    [("System.Runtime.dll", .file (some "")), ("System.Xml.dll", .file (some ""))])], ⟨[], 0⟩⟩

/-- A builder that takes the base libraries from that directory. -/
def excludedBuilder : CompilationBuilder :=
  ⟨defaultName, .ofSymbols .empty, some ⟨"/MonoBleedingEdge"⟩⟩

/-- The other library of the directory. -/
def excludedReferences : PathSet :=
  ⟨[⟨"/MonoBleedingEdge/System.Xml.dll"⟩]⟩

theorem ascending_excludedReferences : excludedReferences.Ascending :=
  List.pairwise_singleton _ _

theorem followTrail_excludedSystem (purpose : Purpose)
    (hpurpose : purpose ∈ [.existing, .spelling]) :
    followTrail excludedSystem purpose linkLimit []
      (steps ⟨"/MonoBleedingEdge/System.Runtime.dll"⟩) =
        .ok ["MonoBleedingEdge", "System.Runtime.dll"] := by
  have hsteps : steps ⟨"/MonoBleedingEdge/System.Runtime.dll"⟩ =
      ["", "MonoBleedingEdge", "System.Runtime.dll"] := by decide
  have hlong : ∀ purpose ∈ [Purpose.existing, .spelling],
      ¬ purpose.tooLong [] "MonoBleedingEdge" = true ∧
        ¬ purpose.tooLong [("MonoBleedingEdge", [])] "System.Runtime.dll" = true := by
    decide
  rw [hsteps, followTrail_stay (by decide),
    followTrail_enter (by decide) (by decide) (hlong purpose hpurpose).1 rfl]
  exact followTrail_file (by decide) (by decide) (hlong purpose hpurpose).2 rfl

theorem supplies_excludedSystem :
    Supplies excludedSystem excludedBuilder ⟨"/MonoBleedingEdge/System.Runtime.dll"⟩ := by
  have hchild : (⟨"/MonoBleedingEdge"⟩ : Path).child "System.Runtime.dll" =
      ⟨"/MonoBleedingEdge/System.Runtime.dll"⟩ := by decide
  refine ⟨⟨"/MonoBleedingEdge"⟩, rfl, "System.Runtime.dll", by decide, ?_, ?_⟩
  · rw [hchild, isFile, find?_of_followTrail (by decide) (by decide)
      (followTrail_excludedSystem .existing (by decide))]
    rfl
  · rw [hchild, normalPath_of_canonical (canonical_of_followTrail (by decide) (by decide)
      (by decide) (followTrail_excludedSystem .spelling (by decide)))]
    decide

theorem references_build_excludedSystem : excludedReferences.Ascending ∧
    ∃ unit, excludedBuilder.build excludedSystem false .empty excludedReferences = .ok unit ∧
      OrderedList.Ascending Path.compare unit.references ∧
      (∀ reference ∈ unit.references, .name excludedRuntime ∈ reference.components →
        Supplies excludedSystem excludedBuilder reference) ∧
      ∃ reference ∈ unit.references,
        reference.same ⟨"/MonoBleedingEdge/System.Runtime.dll"⟩ = true := by
  obtain ⟨unit, hunit⟩ : ∃ unit,
      excludedBuilder.build excludedSystem false .empty excludedReferences = .ok unit := ⟨_, rfl⟩
  obtain ⟨hascending, hholds, honly, -⟩ := references_build ascending_excludedReferences hunit
  exact ⟨ascending_excludedReferences, unit, hunit, hascending, honly,
    (hholds _).2 (Or.inr ⟨_, supplies_excludedSystem, Path.same_refl _⟩)⟩

/-- A unit is compiled against a base library in a runtime that is left out. -/
theorem build_excludedSystem : excludedReferences.Ascending ∧
    ∃ unit, excludedBuilder.build excludedSystem false .empty excludedReferences = .ok unit ∧
      ∃ reference ∈ unit.references, .name excludedRuntime ∈ reference.components := by
  obtain ⟨unit, hunit⟩ : ∃ unit,
      excludedBuilder.build excludedSystem false .empty excludedReferences = .ok unit := ⟨_, rfl⟩
  refine ⟨ascending_excludedReferences, unit, hunit, ?_⟩
  rw [references_of_build hunit]
  simp only [← isExcluded_iff]
  exact exists_isExcluded_iff.2 ⟨_, supplies_excludedSystem, by decide⟩

end CompilationBuilder
end ProjectAssembler
