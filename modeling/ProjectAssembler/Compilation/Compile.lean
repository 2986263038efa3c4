import ProjectAssembler.Compilation.Build
import ProjectAssembler.Project.Resolver
import ProjectAssembler.Settings.Context

/-!
# Compiling projects

Projects, or the sources below a directory, are resolved and then built with the settings of a
context.

Main definitions:

* `CompileError`: why there is no unit;
* `CompileRequest`: what is asked for;
* `Compiler.compile`: the unit of a request.

Main result: `Compiler.compile_of_cancelled`, nothing is compiled once the work is called off.
-/

namespace ProjectAssembler

/-- Why there is no compilation unit. -/
inductive CompileError where
  | resolve (error : ResolveError)
  | build (error : BuildError)
deriving DecidableEq, Repr

/-- The code that an error is known by. -/
def CompileError.code : CompileError → String
  | resolve error => error.code
  | build error => error.code

/-- The wording of an error. -/
def CompileError.message : CompileError → String
  | resolve error => error.message
  | build error => error.message

/-- Whether an error only tells that the work was called off. -/
def CompileError.isCancelled : CompileError → Bool
  | resolve error => error.isCancelled
  | build error => error.isCancelled

/-- What a unit is made from. -/
inductive CompileInput where
  | projects (roots : List Path)
  /-- All sources below a directory, without any descriptor. -/
  | directory (path : Path)
deriving DecidableEq, Repr

/-- The name that a unit gets from its input: the file name of the directory or of the first
project, without its extension. -/
def CompileInput.name? : CompileInput → Option String
  | projects roots => roots.head?.bind Path.stem?
  | directory path => path.stem?

/-- A request for a compilation unit. -/
structure CompileRequest where
  input : CompileInput
  /-- The symbols that are defined besides those of the context. -/
  defines : List String
  name : Option String
deriving DecidableEq, Repr

/-- The surroundings of a compilation. -/
structure Compiler where
  system : FileSystem
  context : Context
  /-- Whether the work has been called off. -/
  cancelled : Bool

namespace Compiler

/-- The resolver for a compilation. -/
def resolver (compiler : Compiler) : Resolver :=
  ⟨compiler.system, compiler.context.platform, compiler.cancelled⟩

/-- The merged resolution of an input. -/
def resolve (compiler : Compiler) : CompileInput → Except ResolveError Resolution
  | .projects roots => compiler.resolver.assembleProjects roots
  | .directory path => compiler.resolver.assembleDirectory path

/-- The builder for a request. -/
def builder (compiler : Compiler) (request : CompileRequest) : CompilationBuilder where
  name := (request.name.or request.input.name?).getD CompilationBuilder.defaultName
  options := .ofSymbols (Symbols.ofList (compiler.context.symbols ++ request.defines))
  framework := compiler.context.platform.framework

/-- The unit of a request. -/
def compile (compiler : Compiler) (request : CompileRequest) :
    Except CompileError CompilationUnit :=
  match compiler.resolve request.input with
  | .error error => .error (.resolve error)
  | .ok resolution =>
      match (compiler.builder request).build compiler.system compiler.cancelled resolution.sources
        resolution.references with
      | .error error => .error (.build error)
      | .ok unit => .ok unit

/-- Once the work is called off nothing is compiled. -/
theorem compile_of_cancelled {compiler : Compiler} (h : compiler.cancelled = true)
    (request : CompileRequest) (unit : CompilationUnit) : compiler.compile request ≠ .ok unit := by
  unfold compile
  split
  · simp
  · rw [h, CompilationBuilder.build_of_cancelled]
    simp

end Compiler
end ProjectAssembler
