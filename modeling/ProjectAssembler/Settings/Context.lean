import ProjectAssembler.Platform.Basic
import ProjectAssembler.Platform.Framework
import ProjectAssembler.Settings.Config
import ProjectAssembler.Toml.Document

/-!
# The context of an operation

Settings come from configuration files of the user and of the project, from the environment, and
from the conventions of the platform.  A variable of the environment goes before every file, and
the project's file before the user's.

Main definitions:

* `FileSystem.loadConfig`: the configuration in a file;
* `FileSystem.configAt`: the same, without errors;
* `Environment`: the variables that are looked at;
* `Context.ofDirectory`: the context for work in a directory;
* `Context.load`: the same, for the working directory where no other is given.

Main result: `Context.packageRoot_of_variable`, the environment goes before everything else.
-/

namespace ProjectAssembler

/-! ## Configuration files -/

/-- Why a configuration cannot be loaded. -/
inductive ConfigError where
  | read (path : Path)
  | malformed (path : Path)
deriving DecidableEq, Repr

/-- The wording of an error. -/
def ConfigError.message : ConfigError → String
  | read path => "failed to read file: " ++ path.text
  | malformed path => "failed to parse config: " ++ path.text

namespace Config

/-- The configuration that a document gives. -/
def ofText? (text : String) : Option Config :=
  (Toml.parse? text.toList).bind (ofValue? false)

/-- Where the configuration below a directory is. -/
def pathBelow (directory : Path) : Path :=
  (directory.child ".wharf").child "config.toml"

end Config

namespace FileSystem

/-- The configuration in the file at a path. -/
def loadConfig (system : FileSystem) (path : Path) : Except ConfigError Config :=
  match system.readText path with
  | .error _ => .error (.read path)
  | .ok text =>
      match Config.ofText? text with
      | some config => .ok config
      | none => .error (.malformed path)

/-- The configuration in the file at a path; the empty one where the file cannot be used. -/
def configAt (system : FileSystem) (path : Path) : Config :=
  match system.loadConfig path with
  | .ok config => config
  | .error _ => .empty

/-- The configuration of a project, on top of the user's if there is one. -/
def mergedConfig (system : FileSystem) (user : Option Path) (project : Path) : Config :=
  Config.mergeAll ((user.toList ++ [project]).map system.configAt)

end FileSystem

/-! ## The environment -/

/-- The variables of the environment that are looked at. -/
structure Environment where
  /-- The user's directory. -/
  home : Option Path
  packageRoot : Option Path
  frameworkDirectory : Option Path
  /-- The root of the platform's installation. -/
  installation : Option Path
deriving DecidableEq, Repr

/-- The value of a variable; an empty one counts as missing. -/
def Environment.pathOf? (value : Option String) : Option Path :=
  (value.filter fun text => !text.isEmpty).map Path.mk

/-- The package cache in the user's directory, or in the working directory where the user has
none. -/
def Environment.defaultPackageRoot (environment : Environment) : Path :=
  ((environment.home.getD ⟨""⟩).child ".nuget").child "packages"

/-! ## Contexts -/

/-- Why there is no context for an operation. -/
inductive ContextError where
  | noWorkingDirectory
deriving DecidableEq, Repr

/-- The wording of an error. -/
def ContextError.message : ContextError → String
  | .noWorkingDirectory => "failed to get current directory"

/-- Everything that an operation takes from its surroundings. -/
structure Context where
  directory : Path
  platform : Platform
  /-- The symbols that the configuration defines. -/
  symbols : List String
  verbose : Bool
deriving DecidableEq, Repr

namespace Context

/-- The root of the package cache: from the environment, the configuration, or the user's
directory. -/
def packageRoot (environment : Environment) (given : Option Path) (config : Config) : Path :=
  (given.or config.packageRoot).getD environment.defaultPackageRoot

/-- The directory of the base libraries: from the environment, the configuration, or the first
installation that has any. -/
def frameworkDirectory (system : FileSystem) (given : Option Path) (config : Config)
    (installations : List Path) : Option Path :=
  (given.or config.frameworkDirectory).or
    (installations.findSome? (Framework.newest? system))

/-- The places where the platform is installed by convention. -/
def conventionalInstallations : List Path :=
  [⟨"/usr/share/dotnet"⟩, ⟨"/usr/lib/dotnet"⟩, ⟨"/usr/local/share/dotnet"⟩, ⟨"/opt/dotnet"⟩]

/-- The configuration for work in a directory. -/
def configFor (system : FileSystem) (environment : Environment) (directory : Path) : Config :=
  system.mergedConfig (environment.home.map Config.pathBelow) (Config.pathBelow directory)

/-- The context for work in a directory. -/
def ofDirectory (system : FileSystem) (environment : Environment) (directory : Path) : Context :=
  let config := configFor system environment directory
  { directory
    platform :=
      { packages := packageRoot environment environment.packageRoot config
        framework :=
          frameworkDirectory system environment.frameworkDirectory config
            (environment.installation.toList ++ conventionalInstallations) }
    symbols := config.define
    verbose := false }

/-- The context for work in a given directory, or else in the working directory, which must not
have been removed. -/
def load (system : FileSystem) (environment : Environment) (directory : Option Path) :
    Except ContextError Context :=
  match directory.or system.workingPath? with
  | some directory => .ok (ofDirectory system environment directory)
  | none => .error .noWorkingDirectory

/-- A context with another package cache, if one is given. -/
def withPackages (context : Context) : Option Path → Context
  | some packages => { context with platform := { context.platform with packages } }
  | none => context

/-- A context with another directory of base libraries, if one is given. -/
def withFramework (context : Context) : Option Path → Context
  | some framework =>
      { context with platform := { context.platform with framework := some framework } }
  | none => context

/-- A variable of the environment goes before the configuration. -/
@[simp]
theorem packageRoot_of_variable (environment : Environment) (path : Path) (config : Config) :
    packageRoot environment (some path) config = path :=
  rfl

/-- A variable of the environment goes before the configuration and every installation. -/
@[simp]
theorem frameworkDirectory_of_variable (system : FileSystem) (path : Path) (config : Config)
    (installations : List Path) :
    frameworkDirectory system (some path) config installations = some path :=
  rfl

end Context
end ProjectAssembler
