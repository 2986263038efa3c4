import ProjectAssembler.Compilation.Unit
import ProjectAssembler.Project.Resolution

/-!
# Building compilation units

A unit is built from a set of sources and a set of libraries.  Every source is read on its own
with the same options; the serialization attributes are generated where no source declares them;
and the list of libraries is settled.

Main definitions:

* `BuildError`: why a unit cannot be built;
* `CompilationBuilder.readSources`: the trees of the sources;
* `CompilationBuilder.settleReferences`: the libraries of the unit;
* `CompilationBuilder.build`: the unit.

Main results:

* `CompilationBuilder.withAnnotations_of_declaresMarker`: where no tree is generated;
* `CompilationBuilder.build_of_cancelled`: nothing is built once the work is called off.
-/

namespace ProjectAssembler

/-- Why a unit cannot be built. -/
inductive BuildError where
  | readSource (path : Path) (cause : AccessError)
  | cancelled
deriving DecidableEq, Repr

namespace BuildError

/-- The wording of an error. -/
def message : BuildError → String
  | readSource path _ => "failed to read source file " ++ path.text
  | cancelled => "compilation was cancelled"

/-- What to do about an error. -/
def help? : BuildError → Option String
  | readSource _ _ => some "source files must exist and be valid UTF-8"
  | cancelled => none

/-- The code that an error is known by. -/
def code : BuildError → String
  | readSource _ _ => "wharf::compile::read_source"
  | cancelled => "wharf::compile::cancelled"

/-- Whether an error only tells that the work was called off. -/
def isCancelled : BuildError → Bool
  | cancelled => true
  | _ => false

end BuildError

/-- What decides how a unit is built. -/
structure CompilationBuilder where
  name : String
  options : ParseOptions
  /-- The directory of the base libraries, if there is one. -/
  framework : Option Path
deriving DecidableEq, Repr

namespace CompilationBuilder

/-- The name of a unit that was given none. -/
def defaultName : String :=
  "WharfCompilation"

/-- The base libraries that every unit is compiled against as far as they exist. -/
def baselineLibraries : List String :=
  ["System.Private.CoreLib.dll", "System.Runtime.dll", "System.Linq.dll", "System.Collections.dll",
    "System.Collections.Concurrent.dll", "System.Threading.Tasks.dll",
    "System.Runtime.Serialization.Primitives.dll"]

/-- The directory name of a runtime whose libraries are left out. -/
def excludedRuntime : String :=
  "MonoBleedingEdge"

/-! ## Sources -/

/-- The tree of one source. -/
def readSource (system : FileSystem) (builder : CompilationBuilder) (path : Path) :
    Except BuildError SourceTree :=
  match system.readText path with
  | .error cause => .error (.readSource path cause)
  | .ok text => .ok (SourceTree.parse path text builder.options)

/-- The trees of sources in their order, or the first error. -/
def readSources (system : FileSystem) (builder : CompilationBuilder) (sources : List Path) :
    Except BuildError (List SourceTree) :=
  sources.mapM (readSource system builder)

/-- Trees completed by a generated one, unless one of them declares the marking attribute. -/
def withAnnotations (options : ParseOptions) (trees : List SourceTree) : List SourceTree :=
  if trees.any (·.declaresMarker) then trees else trees ++ [SourceTree.annotations options]

/-! ## Libraries -/

/-- Whether a library belongs to a runtime that is left out. -/
def isExcluded (path : Path) : Bool :=
  path.components.contains (.name excludedRuntime)

/-- The base libraries that exist. -/
def existingBaseline (system : FileSystem) (framework : Path) : List Path :=
  (baselineLibraries.map framework.child).filter system.isFile

/-- The libraries of a unit: those given, without the ones of runtimes that are left out, and the
base libraries. -/
def settleReferences (system : FileSystem) (builder : CompilationBuilder) (references : PathSet) :
    PathSet :=
  let kept := references.retain fun path => !isExcluded path
  match builder.framework with
  | some framework => kept.extend system (existingBaseline system framework)
  | none => kept

/-! ## Units -/

/-- The unit of a set of sources and a set of libraries. -/
def build (system : FileSystem) (cancelled : Bool) (builder : CompilationBuilder)
    (sources references : PathSet) : Except BuildError CompilationUnit :=
  if cancelled then .error .cancelled
  else
    match readSources system builder sources.paths with
    | .error error => .error error
    | .ok trees =>
        .ok
          { name := builder.name
            trees := withAnnotations builder.options trees
            references := (settleReferences system builder references).paths
            options := builder.options }

/-- Nothing is generated where a tree declares the marking attribute. -/
theorem withAnnotations_of_declaresMarker {options : ParseOptions} {trees : List SourceTree}
    (h : trees.any (·.declaresMarker) = true) : withAnnotations options trees = trees := by
  simp [withAnnotations, h]

/-- Once the work is called off nothing is built. -/
@[simp]
theorem build_of_cancelled (system : FileSystem) (builder : CompilationBuilder)
    (sources references : PathSet) :
    builder.build system true sources references = .error .cancelled :=
  rfl

end CompilationBuilder
end ProjectAssembler
