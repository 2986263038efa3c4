import Mathlib.Data.List.Forall2
import ProjectAssembler.Compilation.Build
import ProjectAssembler.Proofs.Source.AnnotationTree

/-!
# What a compilation unit consists of

A unit is built exactly when all of its sources can be read.  Its trees are those of the sources,
each read on its own, and a generated one after them if none of the sources declares the class of
the marking attribute.

Main definitions:

* `FileSystem.IsReadable`: whether a path leads to a file that holds a text;
* `SourceTree.IsRead` and `SourceTree.Marks`: where a tree comes from and what it declares;
* `CompilationUnit.Consists`: what the trees of a unit are;
* `CompilationBuilder.FirstFailure`: the first source that cannot be read.

Main results:

* `CompilationBuilder.readSources_eq_ok_iff` and `CompilationBuilder.firstFailure_of_readSources`:
  reading the sources one after the other;
* `CompilationBuilder.consists_withAnnotations`: completing their trees;
* `CompilationBuilder.build_spec`: building a unit.
-/

namespace ProjectAssembler

/-! ## Files -/

/-- Whether a path leads to a file that holds a text. -/
def FileSystem.IsReadable (system : FileSystem) (path : Path) : Prop :=
  ∃ text, system.find? path = some (.file (some text))

/-- The text of a file is read wherever a path leads to it. -/
theorem FileSystem.readText_eq_ok_iff {system : FileSystem} {path : Path} {text : String} :
    system.readText path = .ok text ↔ system.find? path = some (.file (some text)) := by
  unfold readText find?
  cases system.resolve path with
  | error error => simp
  | ok place =>
      dsimp only
      split <;> simp_all

/-- A path whose file cannot be read leads to no text. -/
theorem FileSystem.not_isReadable_of_error {system : FileSystem} {path : Path}
    {cause : AccessError} (h : system.readText path = .error cause) :
    ¬ system.IsReadable path := by
  rintro ⟨text, htext⟩
  rw [readText_eq_ok_iff.2 htext] at h
  contradiction

namespace SourceTree

/-- Whether a tree is the one of a file, which is read on its own. -/
def IsRead (system : FileSystem) (options : ParseOptions) (path : Path) (tree : SourceTree) :
    Prop :=
  ∃ text, system.find? path = some (.file (some text)) ∧ tree = parse path text options

/-- Whether a tree declares the class of the marking attribute. -/
def Marks (tree : SourceTree) : Prop :=
  ∃ declaration ∈ tree.declarations,
    declaration.kind = .classType ∧ declaration.name = markerName

theorem declaresMarker_iff {tree : SourceTree} : tree.declaresMarker = true ↔ tree.Marks := by
  simp [declaresMarker, Marks]

/-- The tree of a file is not generated. -/
theorem IsRead.not_generated {system : FileSystem} {options : ParseOptions} {path : Path}
    {tree : SourceTree} (h : IsRead system options path tree) : tree.generated = false := by
  obtain ⟨text, -, rfl⟩ := h
  rfl

end SourceTree

/-! ## Units -/

/-- What the trees of a unit are: first those of its sources in their order; then a generated one
with the annotations if none of them declares the class of the marking attribute, and nothing
otherwise. -/
structure CompilationUnit.Consists (system : FileSystem) (options : ParseOptions)
    (paths : List Path) (unit : CompilationUnit) : Prop where
  sources : List.Forall₂ (SourceTree.IsRead system options) paths (unit.trees.take paths.length)
  generated_iff : (∃ tree ∈ unit.trees, tree.generated = true) ↔
    ∀ tree ∈ unit.trees.take paths.length, ¬ tree.Marks
  rest : unit.trees.drop paths.length = [] ∨
    ∃ tree, unit.trees.drop paths.length = [tree] ∧ tree.generated = true ∧
      tree.declarations = SourceTree.annotationDeclarations
  marked : ∃ tree ∈ unit.trees, tree.Marks
  once : unit.trees.countP (·.generated) ≤ 1

namespace CompilationBuilder

/-- Whether a path is the first source that cannot be read, and why. -/
def FirstFailure (system : FileSystem) (paths : List Path) (path : Path) (cause : AccessError) :
    Prop :=
  ∃ before after, paths = before ++ path :: after ∧
    (∀ earlier ∈ before, system.IsReadable earlier) ∧ system.readText path = .error cause

variable {system : FileSystem} {builder : CompilationBuilder}

/-! ## Sources -/

theorem readSource_eq_ok_iff {path : Path} {tree : SourceTree} :
    readSource system builder path = .ok tree ↔
      SourceTree.IsRead system builder.options path tree := by
  unfold readSource SourceTree.IsRead
  simp only [← FileSystem.readText_eq_ok_iff]
  cases system.readText path with
  | error cause => simp
  | ok text => simp [eq_comm]

theorem readSource_eq_error_iff {path : Path} {error : BuildError} :
    readSource system builder path = .error error ↔
      ∃ cause, system.readText path = .error cause ∧ error = .readSource path cause := by
  unfold readSource
  cases system.readText path with
  | error cause => simp [eq_comm]
  | ok text => simp

/-- The first source is read before the others. -/
theorem readSources_cons (path : Path) (rest : List Path) :
    readSources system builder (path :: rest) =
      match readSource system builder path with
      | .error error => .error error
      | .ok tree =>
          match readSources system builder rest with
          | .error error => .error error
          | .ok trees => .ok (tree :: trees) := by
  unfold readSources
  rw [List.mapM_cons]
  cases readSource system builder path with
  | error error => rfl
  | ok tree => cases rest.mapM (readSource system builder) <;> rfl

/-- Sources are read with the trees of their files. -/
theorem readSources_eq_ok_iff {paths : List Path} {trees : List SourceTree} :
    readSources system builder paths = .ok trees ↔
      List.Forall₂ (SourceTree.IsRead system builder.options) paths trees := by
  induction paths generalizing trees with
  | nil =>
      rw [List.forall₂_nil_left_iff]
      exact ⟨fun h => (Except.ok.inj h).symm, fun h => congrArg Except.ok h.symm⟩
  | cons path rest ih =>
      rw [readSources_cons, List.forall₂_cons_left_iff]
      cases hfirst : readSource system builder path with
      | error error =>
          simp [← readSource_eq_ok_iff, hfirst]
      | ok tree =>
          cases hrest : readSources system builder rest with
          | error error => simp [← ih, hrest]
          | ok others =>
              simp [← readSource_eq_ok_iff, ← ih, hfirst, hrest, eq_comm]

/-- Where the sources cannot be read, the error is that of the first one which cannot. -/
theorem firstFailure_of_readSources {paths : List Path} {error : BuildError}
    (h : readSources system builder paths = .error error) :
    ∃ path cause, FirstFailure system paths path cause ∧ error = .readSource path cause := by
  induction paths with
  | nil => contradiction
  | cons path rest ih =>
      rw [readSources_cons] at h
      cases hfirst : readSource system builder path with
      | error own =>
          rw [hfirst] at h
          obtain rfl := Except.error.inj h
          obtain ⟨cause, hcause, rfl⟩ := readSource_eq_error_iff.1 hfirst
          exact ⟨path, cause, ⟨[], rest, rfl, nofun, hcause⟩, rfl⟩
      | ok tree =>
          obtain ⟨text, htext, -⟩ := readSource_eq_ok_iff.1 hfirst
          cases hrest : readSources system builder rest with
          | ok others =>
              rw [hfirst, hrest] at h
              contradiction
          | error later =>
              rw [hfirst, hrest] at h
              obtain rfl := Except.error.inj h
              obtain ⟨failing, cause, ⟨before, after, rfl, hbefore, hcause⟩, rfl⟩ := ih hrest
              exact ⟨failing, cause, ⟨path :: before, after, rfl,
                List.forall_mem_cons.2 ⟨⟨text, htext⟩, hbefore⟩, hcause⟩, rfl⟩

/-- All sources are read exactly when each of them can be. -/
theorem exists_readSources_iff (builder : CompilationBuilder) {paths : List Path} :
    (∃ trees, readSources system builder paths = .ok trees) ↔
      ∀ path ∈ paths, system.IsReadable path := by
  constructor
  · rintro ⟨trees, htrees⟩
    have hread := readSources_eq_ok_iff.1 htrees
    clear htrees
    induction hread with
    | nil => exact nofun
    | cons hfirst _ ih =>
        obtain ⟨text, htext, -⟩ := hfirst
        exact List.forall_mem_cons.2 ⟨⟨text, htext⟩, ih⟩
  · intro hreadable
    cases hread : readSources system builder paths with
    | ok trees => exact ⟨trees, rfl⟩
    | error error =>
        obtain ⟨path, cause, ⟨before, after, rfl, -, hcause⟩, -⟩ :=
          firstFailure_of_readSources hread
        have hpath := hreadable path (List.mem_append_right before List.mem_cons_self)
        exact absurd hpath (FileSystem.not_isReadable_of_error hcause)

/-! ## Annotations -/

/-- Whether the trees of sources are completed by a generated one. -/
theorem withAnnotations_eq (options : ParseOptions) (trees : List SourceTree) :
    (∃ tree ∈ trees, tree.Marks) ∧ withAnnotations options trees = trees ∨
      (∀ tree ∈ trees, ¬ tree.Marks) ∧
        withAnnotations options trees = trees ++ [SourceTree.annotations options] := by
  unfold withAnnotations
  by_cases hmarks : trees.any (·.declaresMarker) = true
  · refine Or.inl ⟨?_, if_pos hmarks⟩
    simpa [SourceTree.declaresMarker_iff] using hmarks
  · refine Or.inr ⟨?_, if_neg hmarks⟩
    simpa [← SourceTree.declaresMarker_iff] using hmarks

/-- The trees of sources, completed where they declare no marking attribute, make up a unit. -/
theorem consists_withAnnotations {options : ParseOptions} {paths : List Path}
    {trees : List SourceTree} (h : List.Forall₂ (SourceTree.IsRead system options) paths trees)
    {unit : CompilationUnit} (hunit : unit.trees = withAnnotations options trees) :
    unit.Consists system options paths := by
  have hread : ∀ tree ∈ trees, tree.generated = false := by
    clear hunit
    induction h with
    | nil => exact nofun
    | cons hfirst _ ih => exact List.forall_mem_cons.2 ⟨hfirst.not_generated, ih⟩
  have hcount : trees.countP (·.generated) = 0 :=
    List.countP_eq_zero.2 fun tree htree => by simp [hread tree htree]
  rcases withAnnotations_eq options trees with ⟨hmarks, heq⟩ | ⟨hnone, heq⟩
  · rw [heq] at hunit
    have htake : unit.trees.take paths.length = trees := by
      rw [hunit, h.length_eq, List.take_length]
    refine ⟨htake ▸ h, ?_, Or.inl ?_, hunit ▸ hmarks, ?_⟩
    · rw [htake, hunit]
      obtain ⟨marking, hmarking, hown⟩ := hmarks
      constructor
      · rintro ⟨tree, htree, hgenerated⟩
        rw [hread tree htree] at hgenerated
        contradiction
      · exact fun hnone => absurd hown (hnone marking hmarking)
    · rw [hunit, h.length_eq, List.drop_length]
    · rw [hunit, hcount]
      exact Nat.zero_le 1
  · rw [heq] at hunit
    have hlast : SourceTree.annotations options ∈ unit.trees := by
      rw [hunit]
      exact List.mem_append_right trees List.mem_cons_self
    have htake : unit.trees.take paths.length = trees := by
      rw [hunit, h.length_eq, List.take_left]
    refine ⟨htake ▸ h, ?_, Or.inr ⟨SourceTree.annotations options, ?_, rfl,
      SourceTree.declarations_annotations options⟩, ⟨_, hlast, ?_⟩, ?_⟩
    · rw [htake]
      exact ⟨fun _ => hnone, fun _ => ⟨_, hlast, rfl⟩⟩
    · rw [hunit, h.length_eq, List.drop_left]
    · exact SourceTree.declaresMarker_iff.1 (SourceTree.declaresMarker_annotations options)
    · rw [hunit, List.countP_append, hcount]
      exact Nat.le_refl 1

/-! ## Building -/

/-- A unit is built exactly when all sources can be read.  Otherwise the error names the first
source that cannot be read.  The trees of the unit are those of the sources, each read on its own
with the options of the builder, and a generated one exactly where none of them declares the class
of the marking attribute. -/
theorem build_spec (system : FileSystem) (builder : CompilationBuilder)
    (sources references : PathSet) :
    ((∃ unit, builder.build system false sources references = .ok unit) ↔
        ∀ path ∈ sources.paths, system.IsReadable path) ∧
      (∀ error, builder.build system false sources references = .error error →
        ∃ path cause, FirstFailure system sources.paths path cause ∧
          error = .readSource path cause) ∧
      ∀ unit, builder.build system false sources references = .ok unit →
        unit.Consists system builder.options sources.paths := by
  rw [← exists_readSources_iff builder]
  cases hread : readSources system builder sources.paths with
  | error failure =>
      have hbuild : builder.build system false sources references = .error failure := by
        unfold build
        rw [if_neg Bool.false_ne_true, hread]
      rw [hbuild]
      refine ⟨⟨nofun, nofun⟩, ?_, nofun⟩
      rintro error heq
      obtain rfl := Except.error.inj heq
      exact firstFailure_of_readSources hread
  | ok trees =>
      have hbuild : ∃ unit, builder.build system false sources references = .ok unit ∧
          unit.trees = withAnnotations builder.options trees := by
        unfold build
        rw [if_neg Bool.false_ne_true, hread]
        exact ⟨_, rfl, rfl⟩
      obtain ⟨unit, hunit, htrees⟩ := hbuild
      rw [hunit]
      refine ⟨⟨fun _ => ⟨trees, rfl⟩, fun _ => ⟨unit, rfl⟩⟩, nofun, ?_⟩
      rintro other heq
      obtain rfl := Except.ok.inj heq
      exact consists_withAnnotations (readSources_eq_ok_iff.1 hread) htrees

end CompilationBuilder
end ProjectAssembler
