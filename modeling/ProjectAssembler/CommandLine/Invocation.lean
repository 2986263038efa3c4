import ProjectAssembler.CommandLine.Argument
import ProjectAssembler.Path.Basic

/-!
# Invocations

The arguments of the program name a command, `compile` or `tree`, with its options.  Options that
are common to the commands may stand before or after the command; there the later one wins.

Main definitions:

* `Invocation`: what the program is asked to do;
* `Invocation.ofArguments`: the invocation that arguments spell.

Main result: `Invocation.ofArguments_nil`, without arguments there is nothing to do.
-/

namespace ProjectAssembler

/-- The options that every command has. -/
structure CommonOptions where
  verbose : Bool
  packages : Option Path
  framework : Option Path
deriving DecidableEq, Repr

/-- Options before a command completed by those after it, which win. -/
def CommonOptions.completedBy (options later : CommonOptions) : CommonOptions :=
  ⟨options.verbose || later.verbose, later.packages.or options.packages,
    later.framework.or options.framework⟩

/-- What the compile command is asked for. -/
structure CompileCommand where
  projects : List Path
  directory : Option Path
  defines : List String
  name : Option String
  json : Bool
deriving DecidableEq, Repr

/-- What the tree command is asked for. -/
structure TreeCommand where
  projects : List Path
  depth : Option Nat
  duplicates : Bool
deriving DecidableEq, Repr

/-- What the program is asked to do. -/
inductive Invocation where
  /-- Nothing: the arguments are wrong. -/
  | misuse
  /-- Explain the program. -/
  | help
  /-- Tell the version of the program. -/
  | version
  | compile (options : CommonOptions) (command : CompileCommand)
  | tree (options : CommonOptions) (command : TreeCommand)
deriving DecidableEq, Repr

/-! ## Forms of the options -/

/-- The options that every command has. -/
def OptionForm.common : List OptionForm :=
  [⟨.verbose, "verbose", some 'v', false⟩, ⟨.packages, "packages", none, true⟩,
    ⟨.framework, "framework-dir", none, true⟩, ⟨.help, "help", some 'h', false⟩]

/-- The options before a command. -/
def OptionForm.leading : List OptionForm :=
  common ++ [⟨.version, "version", some 'V', false⟩]

/-- The options of the compile command. -/
def OptionForm.compile : List OptionForm :=
  common ++
    [⟨.directory, "dir", none, true⟩, ⟨.define, "define", some 'D', true⟩,
      ⟨.name, "name", none, true⟩, ⟨.json, "json", none, false⟩]

/-- The options of the tree command. -/
def OptionForm.tree : List OptionForm :=
  common ++
    [⟨.depth, "depth", some 'd', true⟩, ⟨.duplicates, "duplicates", none, false⟩]

namespace Invocation

/-! ## Collecting options -/

/-- The options and words collected so far. -/
structure Given where
  flags : List OptionName
  paths : List (OptionName × Path)
  defines : List String
  name : Option String
  depth : Option Nat
  projects : List Path
deriving DecidableEq, Repr

/-- Nothing collected. -/
def Given.nothing : Given :=
  ⟨[], [], [], none, none, []⟩

/-- The number after the largest depth. -/
def depthBound : Nat :=
  0x10000000000000000

/-- The depth that a text spells. -/
def depth? (text : String) : Option Nat :=
  let digits := match text.toList with
    | '+' :: rest => rest
    | digits => digits
  if digits.isEmpty || !digits.all Char.isDigit then none
  else
    let depth := digits.foldl (fun number digit => 10 * number + (digit.toNat - '0'.toNat)) 0
    if depth < depthBound then some depth else none

/-- A path that is not empty. -/
def path? (text : String) : Option Path :=
  if text.isEmpty then none else some ⟨text⟩

/-- Collect an option without value, which may be given once. -/
def Given.addFlag (given : Given) (option : OptionName) : Option Given :=
  if option ∈ given.flags then none else some { given with flags := option :: given.flags }

/-- Collect an option with its value.  All but definitions may be given once. -/
def Given.addValue (given : Given) (option : OptionName) (text : String) : Option Given :=
  match option with
  | .define => some { given with defines := given.defines ++ [text] }
  | .name => if given.name.isSome then none else some { given with name := some text }
  | .depth =>
      if given.depth.isSome then none
      else (depth? text).map fun depth => { given with depth := some depth }
  | option =>
      if (given.paths.lookup option).isSome then none
      else (path? text).map fun path => { given with paths := (option, path) :: given.paths }

/-- Collect a word. -/
def Given.addProject (given : Given) (text : String) : Option Given :=
  (path? text).map fun path => { given with projects := given.projects ++ [path] }

/-- The common options among those collected. -/
def Given.common (given : Given) : CommonOptions :=
  ⟨given.flags.contains .verbose, given.paths.lookup .packages, given.paths.lookup .framework⟩

/-- Collect the arguments of a command and finish with what they make up. -/
def ofCommand (finish : Given → Invocation) : Given → List Argument → Invocation
  | given, [] => finish given
  | given, argument :: rest =>
      let next? := match argument with
        | .flag option => given.addFlag option
        | .value option text => given.addValue option text
        | .word text _ => given.addProject text
        | .operand text => given.addProject text
        | .mistake => none
      match argument, next? with
      | .flag .help, _ => help
      | _, some given => ofCommand finish given rest
      | _, none => misuse

/-! ## Commands -/

/-- The invocation of the compile command.  A directory takes the place of projects. -/
def finishCompile (options : CommonOptions) (given : Given) : Invocation :=
  let directory := given.paths.lookup .directory
  if directory.isSome && !given.projects.isEmpty then misuse
  else
    compile (options.completedBy given.common)
      ⟨given.projects, directory, given.defines, given.name, given.flags.contains .json⟩

/-- The invocation of the tree command, which needs a project. -/
def finishTree (options : CommonOptions) (given : Given) : Invocation :=
  if given.projects.isEmpty then misuse
  else
    tree (options.completedBy given.common)
      ⟨given.projects, given.depth, given.flags.contains .duplicates⟩

/-- The invocation of the help command, which may be asked about one command. -/
def ofHelp : List String → Invocation
  | [] => help
  | [name] => if name ∈ ["compile", "tree", "help"] then help else misuse
  | _ => misuse

/-- The invocation of a command by its name, with its arguments. -/
def ofName (options : CommonOptions) (name : String) (texts : List String) : Invocation :=
  if name = "compile" then
    ofCommand (finishCompile options) .nothing (Argument.ofTexts OptionForm.compile texts)
  else if name = "tree" then
    ofCommand (finishTree options) .nothing (Argument.ofTexts OptionForm.tree texts)
  else if name = "help" then ofHelp texts
  else misuse

/-- Collect the options before the command. -/
def ofLeading : Given → List Argument → Invocation
  | _, [] => misuse
  | given, .flag option :: rest =>
      match option, given.addFlag option with
      | .help, _ => help
      | .version, _ => version
      | _, some given => ofLeading given rest
      | _, none => misuse
  | given, .value option text :: rest =>
      match given.addValue option text with
      | some given => ofLeading given rest
      | none => misuse
  | given, .word name texts :: _ => ofName given.common name texts
  | _, .operand _ :: _ => misuse
  | _, .mistake :: _ => misuse

/-- The invocation that arguments spell. -/
def ofArguments (texts : List String) : Invocation :=
  ofLeading .nothing (Argument.ofTexts OptionForm.leading texts)

/-- Without arguments there is nothing to do. -/
@[simp]
theorem ofArguments_nil : ofArguments [] = misuse :=
  rfl

end Invocation
end ProjectAssembler
