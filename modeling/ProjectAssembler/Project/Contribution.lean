import ProjectAssembler.Packages.Cache
import ProjectAssembler.Platform.Basic
import ProjectAssembler.Project.Descriptor
import ProjectAssembler.Sources.Pattern

/-!
# What one project contributes

A project on its own contributes sources, and libraries that it references directly or through
packages.

Main definitions:

* `FileSystem.loadDescriptor`: the descriptor at a path;
* `Descriptor.sources`: the sources of a project;
* `Descriptor.library?`: the library that a reference means;
* `Descriptor.libraries`: all libraries of a project.

Main result: `Descriptor.isFile_of_library?`, a referenced library exists.
-/

namespace ProjectAssembler

/-- The descriptor in the file at a path. -/
def FileSystem.loadDescriptor (system : FileSystem) (path : Path) :
    Except DescriptorError Descriptor :=
  match system.readText path with
  | .error cause => .error (.read path cause)
  | .ok text => Descriptor.parse path text

namespace Descriptor

/-! ## Sources -/

/-- The lists of sources that a project names: everything below its directory for a modern one, then
what its patterns stand for, then its shared folders. -/
def sourceLists (system : FileSystem) (descriptor : Descriptor) :
    List (Except SourceError (List Path)) :=
  (if descriptor.isModern then [system.discover descriptor.directory] else []) ++
    descriptor.compileItems.map (system.expand descriptor.directory) ++
    descriptor.sharedImports.map system.discover

/-- The sources of a project in the order in which they are found, or the first error. -/
def sources (system : FileSystem) (descriptor : Descriptor) : Except SourceError (List Path) :=
  ((descriptor.sourceLists system).mapM id).map List.flatten

/-! ## Libraries -/

/-- Where the library of a reference should be: at its hint, or among the base libraries. -/
def libraryPath? (platform : Platform) (descriptor : Descriptor) (reference : AssemblyReference) :
    Option Path :=
  match reference.hintPath with
  | some hint => some (descriptor.directory.join hint)
  | none =>
      platform.framework.map fun framework =>
        framework.child (reference.name ++ "." ++ Path.libraryExtension)

/-- The library that a reference means, if it exists. -/
def library? (system : FileSystem) (platform : Platform) (descriptor : Descriptor)
    (reference : AssemblyReference) : Option Path :=
  (libraryPath? platform descriptor reference).filter system.isFile

/-- The libraries of the packages that a project references, for its first target framework. -/
def packageLibraries (system : FileSystem) (platform : Platform) (descriptor : Descriptor) :
    List Path :=
  match descriptor.primaryFramework? with
  | none => []
  | some framework =>
      descriptor.packageReferences.flatMap fun package =>
        PackageCache.libraries system platform.packages package.id package.version framework

/-- All libraries that a project references. -/
def libraries (system : FileSystem) (platform : Platform) (descriptor : Descriptor) : List Path :=
  descriptor.assemblyReferences.filterMap (library? system platform descriptor) ++
    descriptor.packageLibraries system platform

/-- A referenced library exists. -/
theorem isFile_of_library? {system : FileSystem} {platform : Platform} {descriptor : Descriptor}
    {reference : AssemblyReference} {path : Path}
    (h : library? system platform descriptor reference = some path) :
    system.isFile path = true := by
  unfold library? at h
  exact (Option.filter_eq_some_iff.1 h).2

/-- Without a target framework there are no package libraries. -/
theorem packageLibraries_of_no_framework {system : FileSystem} {platform : Platform}
    {descriptor : Descriptor} (h : descriptor.targetFrameworks = []) :
    descriptor.packageLibraries system platform = [] := by
  simp [packageLibraries, primaryFramework?, h]

end Descriptor
end ProjectAssembler
