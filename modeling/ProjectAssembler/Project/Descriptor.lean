import ProjectAssembler.FileSystem.Error
import ProjectAssembler.Markup.Element
import ProjectAssembler.Path.FileName
import ProjectAssembler.Path.Lexical

/-!
# Project descriptors

A descriptor is a markup document that lists what a project is made of.  Elements are told by
their local names without regard to ASCII case, wherever they are nested; everything else is
skipped.

Main definitions:

* `Descriptor`: what a descriptor says;
* `Descriptor.ofElement`: the descriptor of an element tree;
* `Descriptor.parse`: the descriptor of a text;
* `DescriptorError`: what can be wrong with one.
-/

namespace ProjectAssembler

/-- How a project lists its sources. -/
inductive DescriptorFormat where
  /-- The sources are listed one by one. -/
  | legacy
  /-- All sources below the project's directory belong to it. -/
  | modern
deriving DecidableEq, Repr

/-- A reference to a library by its name. -/
structure AssemblyReference where
  name : String
  /-- Where the library is, relative to the descriptor's directory. -/
  hintPath : Option Path
deriving DecidableEq, Repr

/-- A reference to a package in one version. -/
structure PackageReference where
  id : String
  version : String
deriving DecidableEq, Repr

/-- What a project descriptor says. -/
structure Descriptor where
  path : Path
  format : DescriptorFormat
  /-- The patterns of sources, in document order. -/
  compileItems : List String
  /-- The folders of shared projects. -/
  sharedImports : List Path
  /-- The descriptors of referenced projects. -/
  projectReferences : List Path
  assemblyReferences : List AssemblyReference
  packageReferences : List PackageReference
  targetFrameworks : List String
deriving DecidableEq, Repr

/-- What is wrong with a descriptor. -/
inductive DescriptorError where
  | read (path : Path) (cause : AccessError)
  | malformed (path : Path) (detail : String) (offset : Nat)
  | notProject (path : Path) (root : String)
deriving DecidableEq, Repr

namespace DescriptorError

/-- The wording of an error. -/
def message : DescriptorError → String
  | read path _ => "failed to read project descriptor: " ++ path.text
  | malformed path detail _ => "malformed project descriptor " ++ path.text ++ ": " ++ detail
  | notProject path root =>
      path.text ++ " is not a project descriptor (root element is `" ++ root ++ "`)"

/-- What to do about an error. -/
def help? : DescriptorError → Option String
  | read _ _ => some "check that the project path exists and is a UTF-8 text file"
  | malformed _ _ _ => none
  | notProject _ _ => some "pass a .csproj file whose root element is <Project>"

/-- The code that an error is known by. -/
def code : DescriptorError → String
  | read _ _ => "wharf::descriptor::read"
  | malformed _ _ _ => "wharf::descriptor::malformed"
  | notProject _ _ => "wharf::descriptor::not_a_project"

end DescriptorError

namespace Descriptor

open Markup (Element)

/-- The namespace of descriptors that list their sources. -/
def legacyNamespace : String :=
  "http://schemas.microsoft.com/developer/msbuild/2003"

/-- The directory of a descriptor's path. -/
def directoryOf (path : Path) : Path :=
  path.parent?.getD ⟨"."⟩

/-- The directory that a descriptor's items are relative to. -/
def directory (descriptor : Descriptor) : Path :=
  directoryOf descriptor.path

/-- The parts of a list between semicolons, trimmed, without empty ones. -/
def listItems (text : String) : List String :=
  ((Text.splitOn ';' text.toList).map Text.trim).filterMap fun part =>
    if part.isEmpty then none else some (String.ofList part)

/-- A text without white space around it, unless nothing is left. -/
def nonBlank? (text : String) : Option String :=
  let trimmed := Text.trimString text
  if trimmed.isEmpty then none else some trimmed

/-! ## The contribution of one element -/

/-- The source patterns that an element lists. -/
def compileItemsOf (element : Element) : List String :=
  if element.isNamed "Compile" then
    match element.attribute? "Include" with
    | some patterns => listItems patterns
    | none => []
  else []

/-- The folder of the shared project that an element imports into a directory. -/
def sharedImportOf? (directory : Path) (element : Element) : Option Path :=
  if element.isNamed "Import" &&
      (element.attribute? "Label").any (Text.equalIgnoringCase · "Shared") then
    (element.attribute? "Project").map fun project =>
      ((directory.join (Path.ofDescriptor project)).parent?).getD directory
  else none

/-- The descriptor of the project that an element references. -/
def projectReferenceOf? (directory : Path) (element : Element) : Option Path :=
  if element.isNamed "ProjectReference" then
    (element.attribute? "Include").map fun target => directory.join (Path.ofDescriptor target)
  else none

/-- The library that an element references: its name up to the first comma, and its hint. -/
def assemblyReferenceOf? (element : Element) : Option AssemblyReference :=
  if element.isNamed "Reference" then
    (element.attribute? "Include").bind fun identity =>
      (nonBlank? (String.ofList (identity.toList.takeWhile (· != ',')))).map fun name =>
        ⟨name, ((element.child? "HintPath").bind fun hint => nonBlank? hint.text).map
          Path.ofDescriptor⟩
  else none

/-- The package that an element references.  A version given as an attribute goes before a version
given as a child; without a version there is no reference. -/
def packageReferenceOf? (element : Element) : Option PackageReference :=
  if element.isNamed "PackageReference" then
    (element.attribute? "Include").bind fun id =>
      let version? :=
        match element.attribute? "Version" with
        | some version => some version
        | none => (element.child? "Version").map Element.text
      (version?.bind nonBlank?).map fun version => ⟨Text.trimString id, version⟩
  else none

/-- The text of an element with a given name, unless it is blank. -/
def textOf? (name : String) (element : Element) : Option String :=
  if element.isNamed name then nonBlank? element.text else none

/-! ## The whole descriptor -/

/-- The format that a root element shows: a reference to an SDK makes it modern, otherwise a tools
version or the old namespace makes it legacy. -/
def formatOf (root : Element) : DescriptorFormat :=
  let usesSdk := (root.attribute? "Sdk").any (fun sdk => (nonBlank? sdk).isSome) ||
    root.children.any fun child =>
      child.isNamed "Sdk" || (child.isNamed "Import" && (child.attribute? "Sdk").isSome)
  if usesSdk then .modern
  else if (root.attribute? "ToolsVersion").isSome ||
      (root.attribute? "xmlns").any (fun space => Text.trimString space == legacyNamespace) then
    .legacy
  else .modern

/-- The target frameworks: the first single one, or the first list of several. -/
def targetFrameworksOf (elements : List Element) : List String :=
  match elements.findSome? (textOf? "TargetFramework") with
  | some single => [single]
  | none =>
      match elements.findSome? (textOf? "TargetFrameworks") with
      | some several => listItems several
      | none => []

/-- The descriptor of a root element. -/
def ofElement (path : Path) (root : Element) : Descriptor :=
  let directory := directoryOf path
  let elements := root.descendants
  { path
    format := formatOf root
    compileItems := elements.flatMap compileItemsOf
    sharedImports := elements.filterMap (sharedImportOf? directory)
    projectReferences := elements.filterMap (projectReferenceOf? directory)
    assemblyReferences := elements.filterMap assemblyReferenceOf?
    packageReferences := elements.filterMap packageReferenceOf?
    targetFrameworks := targetFrameworksOf elements }

/-- The descriptor of a text at a path. -/
def parse (path : Path) (text : String) : Except DescriptorError Descriptor :=
  match Element.ofText (Markup.withoutMark text.toList) with
  | .error malformed => .error (.malformed path malformed.error.message malformed.offset)
  | .ok root =>
      if root.isNamed "Project" then .ok (ofElement path root)
      else .error (.notProject path root.name)

/-- Whether a project compiles everything below its directory. -/
def isModern (descriptor : Descriptor) : Bool :=
  descriptor.format == .modern

/-- The framework that packages are looked up for: the first one. -/
def primaryFramework? (descriptor : Descriptor) : Option String :=
  descriptor.targetFrameworks.head?

@[simp]
theorem ofElement_path (path : Path) (root : Element) : (ofElement path root).path = path :=
  rfl

/-- A descriptor knows the path it was read from. -/
theorem path_of_parse {path : Path} {text : String} {descriptor : Descriptor}
    (h : parse path text = .ok descriptor) : descriptor.path = path := by
  unfold parse at h
  split at h
  · simp at h
  · split at h
    · rw [← Except.ok.inj h]
      rfl
    · simp at h

end Descriptor
end ProjectAssembler
