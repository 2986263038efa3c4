import ProjectAssembler.Source.Annotations

/-!
# Compilation units

A compilation unit is a set of sources that have been read, in set order, with the libraries they
are compiled against.

Main definitions:

* `CompilationUnit`: the unit;
* `CompilationUnit.serializableTypes`: the types of its sources that are marked for serialization;
* `CompilationUnit.summary`: an overview for reports.

Main results: `CompilationUnit.mem_serializableTypes` says which types are marked.
-/

namespace ProjectAssembler

/-- Sources that have been read, with their libraries. -/
structure CompilationUnit where
  name : String
  /-- The trees of the sources in set order; a generated one comes last. -/
  trees : List SourceTree
  /-- The libraries, in path order. -/
  references : List Path
  /-- The options that every source was read with. -/
  options : ParseOptions
deriving DecidableEq, Repr

/-- An overview of a compilation unit. -/
structure CompilationSummary where
  name : String
  options : ParseOptions
  sources : List Path
  generatedAnnotations : Bool
  references : List Path
  /-- The full names of the types marked for serialization. -/
  serializableTypes : List String
deriving DecidableEq, Repr

namespace CompilationUnit

/-- The trees that were read from files. -/
def sourceTrees (unit : CompilationUnit) : List SourceTree :=
  unit.trees.filter fun tree => !tree.generated

/-- Whether the serialization attributes had to be generated. -/
def hasGeneratedAnnotations (unit : CompilationUnit) : Bool :=
  unit.trees.any (·.generated)

/-- The types of the sources that carry the marking attribute. -/
def serializableTypes (unit : CompilationUnit) : List Declaration :=
  (unit.sourceTrees.flatMap (·.declarations)).filter (·.hasAttribute SourceTree.markerName)

/-- The overview of a unit. -/
def summary (unit : CompilationUnit) : CompilationSummary where
  name := unit.name
  options := unit.options
  sources := unit.sourceTrees.map (·.path)
  generatedAnnotations := unit.hasGeneratedAnnotations
  references := unit.references
  serializableTypes := unit.serializableTypes.map (·.fullName)

/-- A marked type is declared by a source and carries the marking attribute. -/
theorem mem_serializableTypes {unit : CompilationUnit} {declaration : Declaration} :
    declaration ∈ unit.serializableTypes ↔
      (∃ tree ∈ unit.trees, tree.generated = false ∧ declaration ∈ tree.declarations) ∧
        declaration.hasAttribute SourceTree.markerName = true := by
  simp [serializableTypes, sourceTrees, and_assoc]

end CompilationUnit
end ProjectAssembler
