import ProjectAssembler.CommandLine.Invocation
import ProjectAssembler.Compilation.Compile
import ProjectAssembler.Report.ProjectTree
import ProjectAssembler.Report.Summary

/-!
# Running the program

An invocation is carried out in a file system and an environment.  What it has to say goes to the
standard output; an error is reported separately.

Main definitions:

* `Outcome`: what a run leaves behind;
* `Program.run`: the outcome of an invocation.

Main result: `Program.run_misuse`, a wrong invocation has no output.
-/

namespace ProjectAssembler

/-- What a run of the program leaves behind. -/
structure Outcome where
  exitCode : Nat
  output : String
  /-- The error that ended the run. -/
  failure : Option CompileError
deriving DecidableEq, Repr

/-- The surroundings of a run. -/
structure Program where
  system : FileSystem
  environment : Environment

namespace Program

/-- The name and version of the program. -/
def versionLine : String :=
  "wharf 0.1.0"

/-- How the program is to be called. -/
def usageLines : List String :=
  ["Usage: wharf [OPTIONS] <COMMAND>",
    "",
    "Commands:",
    "  compile [--dir DIR | PROJECT...] [-D SYMBOL]... [--name NAME] [--json]",
    "  tree PROJECT... [-d DEPTH] [--duplicates]",
    "",
    "Options:",
    "  -v, --verbose        Tell more",
    "  --packages DIR       The package cache",
    "  --framework-dir DIR  The directory of the base libraries",
    "  -h, --help           Tell how the program is to be called",
    "  -V, --version        Tell the version"]

/-- The extension of project descriptors. -/
def projectExtension : String :=
  "csproj"

/-- Lines as one text. -/
def textOfLines (lines : List String) : String :=
  String.join (lines.map (· ++ "\n"))

/-- The outcome of a successful run. -/
def success (lines : List String) : Outcome :=
  ⟨0, textOfLines lines, none⟩

/-- The outcome of a run that failed. -/
def failure (error : CompileError) : Outcome :=
  ⟨1, "", some error⟩

/-- The outcome of a run whose surroundings could not be read. -/
def aborted : Outcome :=
  ⟨1, "", none⟩

/-- The outcome of a wrong invocation. -/
def misused : Outcome :=
  ⟨2, "", none⟩

/-- The context of a command in a directory. -/
def context (program : Program) (directory : Path) (options : CommonOptions) : Context :=
  let plain := Context.ofDirectory program.system program.environment directory
  { (plain.withPackages (options.packages.map directory.join)).withFramework
      (options.framework.map directory.join) with
    verbose := options.verbose }

/-- The compiler for a command in a directory. -/
def compiler (program : Program) (directory : Path) (options : CommonOptions) : Compiler :=
  ⟨program.system, program.context directory options, false⟩

/-- The descriptors directly inside of a directory. -/
def projectsIn (program : Program) (directory : Path) : Except AccessError (List Path) :=
  program.system.listFiles directory (·.hasExtension projectExtension)

/-- What the compile command is to compile in a directory: a directory or projects that are named,
the projects of the directory, or the directory itself where it has no projects. -/
def compileInput (program : Program) (directory : Path) (command : CompileCommand) :
    Except AccessError CompileInput :=
  match command.directory, command.projects with
  | some path, _ => .ok (.directory (directory.join path))
  | none, [] =>
      (program.projectsIn directory).map fun projects =>
        if projects.isEmpty then .directory directory else .projects projects
  | none, projects => .ok (.projects (projects.map directory.join))

/-- The lines that report a unit. -/
def report (context : Context) (command : CompileCommand) (unit : CompilationUnit) : List String :=
  if command.json then [unit.summary.json.render 0]
  else unit.summary.lines context.directory context.verbose

/-- Carry out the compile command in a directory. -/
def runCompile (program : Program) (options : CommonOptions) (command : CompileCommand)
    (directory : Path) : Outcome :=
  match program.compileInput directory command with
  | .error _ => aborted
  | .ok input =>
      match (program.compiler directory options).compile ⟨input, command.defines, command.name⟩ with
      | .error error => failure error
      | .ok unit => success (report (program.context directory options) command unit)

/-- Carry out the tree command in a directory. -/
def runTree (program : Program) (options : CommonOptions) (command : TreeCommand)
    (directory : Path) : Outcome :=
  match (program.compiler directory options).resolver.assembleProjects
    (command.projects.map directory.join) with
  | .error error => failure (.resolve error)
  | .ok resolution =>
      success ((resolution.graph.tree command.depth command.duplicates).map
        (TreeLine.text directory))

/-- Carry out a command in the working directory, which must not have been removed. -/
def runHere (program : Program) (command : Path → Outcome) : Outcome :=
  match program.system.workingPath? with
  | some directory => command directory
  | none => aborted

/-- Carry out an invocation. -/
def run (program : Program) : Invocation → Outcome
  | .misuse => misused
  | .help => success usageLines
  | .version => success [versionLine]
  | .compile options command => program.runHere (program.runCompile options command)
  | .tree options command => program.runHere (program.runTree options command)

/-- A wrong invocation has no output. -/
@[simp]
theorem run_misuse (program : Program) : program.run .misuse = ⟨2, "", none⟩ :=
  rfl

end Program
end ProjectAssembler
