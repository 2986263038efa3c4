import ProjectAssembler.Project.Descriptor
import ProjectAssembler.Proofs.Markup.ReadDocuments

/-!
# Descriptors with a qualifier for their namespace

A descriptor can be written with a qualifier for the namespace of its elements, which the root then
declares for the qualifier instead of for all names.  All that a descriptor lists is the same either
way, since elements are told by their local names.  Not so its format: a root element is asked for
an attribute with the local name `xmlns`, and the declaration for a qualifier has the qualifier as
its local name, so the namespace that makes a descriptor a legacy one is not seen any more.

Main definitions:

* `Markup.Element.declaring`: a root element whose namespace is declared for a qualifier;
* `Descriptor.KeepsFormat`: the format of a root element does not depend on the declaration of its
  namespace.

Main results:

* `Descriptor.formatOf_declaring`: which format a declaration for a qualifier leaves;
* `Descriptor.parse_qualified`: what a qualifier changes in the descriptor of a document.
-/

namespace ProjectAssembler
namespace Markup

/-- The text of a document as a string. -/
def Document.text (qualifier : Option Name) (document : Document) : String :=
  String.ofList (document.written qualifier)

/-- A root element with a declaration for a qualifier in the place of the one for all names. -/
def Element.declaring (qualifier : String) (root : Element) : Element :=
  .mk root.name
    (root.attributes.map fun entry => (if entry.1 = "xmlns" then qualifier else entry.1, entry.2))
    root.children root.text

/-- The namespace that a root element has without a declaration for all names. -/
def Element.otherNamespace? (root : Element) : Option String :=
  (root.attributes.find? fun entry =>
    entry.1 != "xmlns" && Text.equalIgnoringCase entry.1 "xmlns").map (·.2)

theorem Name.declaredString_some (qualifier key : Name) :
    key.declaredString (some qualifier) =
      if key.string = "xmlns" then qualifier.string else key.string := by
  have hkey : key.text = namespaceKey ↔ key.string = "xmlns" := by
    rw [Name.string, ← String.toList_inj, String.toList_ofList]
    rfl
  simp only [Name.declaredString, hkey]

/-- The element tree of a document with a qualifier. -/
theorem Document.element_some (qualifier : Name) (document : Document) :
    document.element (some qualifier) = (document.element none).declaring qualifier.string := by
  have hvalues (tag : Tag) : tag.values (Name.declaredString (some qualifier)) =
      (tag.values (Name.declaredString none)).map fun entry =>
        (if entry.1 = "xmlns" then qualifier.string else entry.1, entry.2) := by
    simp only [Tag.values, List.map_map, Name.declaredString_some]
    rfl
  unfold Document.element
  cases document.root with
  | single tag =>
      simp only [Passage.element, Element.leaf, Element.declaring, hvalues]
      rfl
  | paired tag content ending =>
      simp only [Passage.element, Element.declaring, hvalues]
      rfl

/-- An attribute whose name is neither that of a declaration nor the qualifier is the same. -/
theorem Element.attribute?_declaring {qualifier name : String} (root : Element)
    (hname : Text.equalIgnoringCase "xmlns" name = false)
    (hqualifier : Text.equalIgnoringCase qualifier name = false) :
    (root.declaring qualifier).attribute? name = root.attribute? name := by
  have hsame : ∀ entry : String × String,
      Text.equalIgnoringCase (if entry.1 = "xmlns" then qualifier else entry.1) name =
        Text.equalIgnoringCase entry.1 name := by
    intro entry
    split_ifs with hkey
    · rw [hkey, hname, hqualifier]
    · rfl
  simp only [declaring, attribute?, attributes_mk, List.find?_map, Function.comp_def, hsame,
    Option.map_map]

/-- Where a namespace is declared for a qualifier, the root element has the namespace that it has
without the declaration. -/
theorem Element.namespace?_declaring {qualifier : String} (root : Element)
    (hqualifier : Text.equalIgnoringCase qualifier "xmlns" = false) :
    (root.declaring qualifier).attribute? "xmlns" = root.otherNamespace? := by
  have hsame : ∀ entry : String × String,
      Text.equalIgnoringCase (if entry.1 = "xmlns" then qualifier else entry.1) "xmlns" =
        (entry.1 != "xmlns" && Text.equalIgnoringCase entry.1 "xmlns") := by
    intro entry
    split_ifs with hkey
    · rw [hqualifier, hkey, bne_self_eq_false, Bool.false_and]
    · rw [bne_iff_ne.2 hkey, Bool.true_and]
  simp only [declaring, attribute?, otherNamespace?, attributes_mk, List.find?_map,
    Function.comp_def, hsame, Option.map_map]

end Markup

namespace Descriptor

open Markup

/-- Whether a root element refers to an SDK. -/
def usesSdk (root : Element) : Bool :=
  (root.attribute? "Sdk").any (fun sdk => (nonBlank? sdk).isSome) ||
    root.children.any fun child =>
      child.isNamed "Sdk" || (child.isNamed "Import" && (child.attribute? "Sdk").isSome)

/-- Whether a namespace is the one of descriptors that list their sources. -/
def isLegacySpace (space? : Option String) : Bool :=
  space?.any fun space => Text.trimString space == legacyNamespace

theorem formatOf_eq (root : Element) :
    formatOf root =
      if usesSdk root then .modern
      else if (root.attribute? "ToolsVersion").isSome ||
          isLegacySpace (root.attribute? "xmlns") then .legacy
      else .modern :=
  rfl

/-- Whether a qualifier is one of the names that a root element is asked for. -/
def isAsked (qualifier : String) : Bool :=
  ["Sdk", "ToolsVersion", "xmlns"].any (Text.equalIgnoringCase qualifier)

/-- The format of a root element does not depend on the declaration of a namespace for all names:
it refers to an SDK, it has a tools version, or the namespace is a legacy one neither with the
declaration nor without it, or both with it and without it. -/
def KeepsFormat (root : Element) : Prop :=
  usesSdk root = true ∨ (root.attribute? "ToolsVersion").isSome = true ∨
    isLegacySpace (root.attribute? "xmlns") = isLegacySpace root.otherNamespace?

/-- A declaration for a qualifier that is not asked for leaves the format if it does not depend on
the declaration of a namespace for all names. -/
theorem formatOf_declaring {qualifier : String} (hqualifier : isAsked qualifier = false)
    (root : Element) :
    formatOf (root.declaring qualifier) = formatOf root ↔ KeepsFormat root := by
  simp only [isAsked, List.any_cons, List.any_nil, Bool.or_false, Bool.or_eq_false_iff]
    at hqualifier
  obtain ⟨hsdk, hversion, hspace⟩ := hqualifier
  have huses : usesSdk (root.declaring qualifier) = usesSdk root := by
    rw [usesSdk, root.attribute?_declaring (by decide) hsdk]
    rfl
  rw [formatOf_eq, formatOf_eq, huses, root.attribute?_declaring (by decide) hversion,
    root.namespace?_declaring hspace, KeepsFormat]
  cases usesSdk root <;> cases (root.attribute? "ToolsVersion").isSome <;>
    cases isLegacySpace (root.attribute? "xmlns") <;>
    cases isLegacySpace root.otherNamespace? <;> decide

/-- The descriptor of a document is that of its element tree. -/
theorem parse_text (document : Document) (qualifier : Option Name) (path : Path) :
    parse path (document.text qualifier) =
      if (document.element qualifier).isNamed "Project" then
        .ok (ofElement path (document.element qualifier))
      else .error (.notProject path (document.element qualifier).name) := by
  rw [parse, Document.text, String.toList_ofList, document.ofText_written]

/-! ## Two documents -/

/-- A name from a string. -/
def nameOf (text : String) (hnonempty : text.toList ≠ [])
    (hplain : text.toList.all isNameCharacter = true) : Name :=
  ⟨text.toList, hnonempty, List.all_eq_true.1 hplain⟩

/-- White space from a string. -/
def spaceOf (text : String) (hblank : text.toList.all isBlank = true) : Space :=
  ⟨text.toList, List.all_eq_true.1 hblank⟩

/-- An attribute after one blank, with a value without escapes in double quotes. -/
def plainAttribute (key : Name) (value : String)
    (h : '"' ∉ value.toList ∧ '&' ∉ value.toList) : Attribute where
  before := spaceOf " " (by decide +kernel)
  key := key
  beforeEquals := .none
  afterEquals := .none
  value := ⟨'"', value.toList, value.toList, rfl, h.1, unescape_of_no_ampersand h.2⟩
  apart := List.cons_ne_nil _ _

/-- White space between two tags. -/
def blankChars (text : String) (hplain : '<' ∉ text.toList) (hblank : trimmed text.toList = []) :
    Chars :=
  ⟨text.toList, [], hplain, by rw [hblank]; exact unescape_of_no_ampersand List.not_mem_nil⟩

/-- The name of the root of a descriptor. -/
def projectName : Name :=
  nameOf "Project" (by decide +kernel) (by decide +kernel)

/-- The declaration of the namespace of descriptors that list their sources. -/
def legacyDeclaration : Attribute :=
  plainAttribute (nameOf "xmlns" (by decide +kernel) (by decide +kernel)) legacyNamespace
    (by decide +kernel)

/-- A root element that is nothing but a declaration of its namespace. -/
def bareDocument : Document :=
  ⟨false, [], .none, .single ⟨projectName, [legacyDeclaration], .none, by simp⟩, [], .none⟩

/-- A descriptor of one source, with a tools version. -/
def versionedDocument : Document :=
  let version :=
    plainAttribute (nameOf "ToolsVersion" (by decide +kernel) (by decide +kernel)) "4.0"
      (by decide +kernel)
  let included :=
    plainAttribute (nameOf "Include" (by decide +kernel) (by decide +kernel)) "A.cs"
      (by decide +kernel)
  let compile := nameOf "Compile" (by decide +kernel) (by decide +kernel)
  let newline := spaceOf "\n" (by decide +kernel)
  let content : Content :=
    .inner (blankChars "\n  " (by decide +kernel) (by decide +kernel))
      (.single ⟨compile, [included], spaceOf " " (by decide +kernel), by simp⟩)
      (.last (blankChars "\n" (by decide +kernel) (by decide +kernel)))
  ⟨true, [(.none, .instruction "xml version=\"1.0\"".toList (by decide +kernel))], newline,
    .paired ⟨projectName, [version, legacyDeclaration], .none, by decide +kernel⟩ content .none,
    [], newline⟩

/-- A qualifier for the namespace of descriptors. -/
def buildQualifier : Name :=
  nameOf "msb" (by decide +kernel) (by decide +kernel)

/-- A qualifier for the namespace of a document changes nothing in its descriptor but the format,
which is that of the root element with the declaration for the qualifier.  For a qualifier that a
root element is not asked for, the result is the same exactly when the root is no project or its
format does not depend on the declaration of a namespace for all names. -/
theorem parse_qualified (document : Document) (qualifier : Name) (path : Path) :
    ((document.element none).isNamed "Project" = false ∧
      parse path (document.text (some qualifier)) = parse path (document.text none)) ∨
    ∃ descriptor, parse path (document.text none) = .ok descriptor ∧
      parse path (document.text (some qualifier)) = .ok { descriptor with
        format := formatOf ((document.element none).declaring qualifier.string) } ∧
      (isAsked qualifier.string = true ∨
        (parse path (document.text (some qualifier)) = parse path (document.text none) ↔
          KeepsFormat (document.element none))) := by
  have hdescriptor (root : Element) (name : String) : ofElement path (root.declaring name) =
      { ofElement path root with format := formatOf (root.declaring name) } := rfl
  have hnamed (root : Element) (name : String) :
      (root.declaring name).isNamed "Project" = root.isNamed "Project" := rfl
  rw [parse_text, parse_text, document.element_some, hnamed, hdescriptor]
  generalize document.element none = root
  cases hproject : root.isNamed "Project" with
  | false => exact Or.inl ⟨rfl, rfl⟩
  | true =>
      refine Or.inr ⟨ofElement path root, rfl, rfl, ?_⟩
      cases hasked : isAsked qualifier.string with
      | true => exact Or.inl rfl
      | false =>
          refine Or.inr (Iff.trans ?_ (formatOf_declaring hasked root))
          rw [if_pos rfl, if_pos rfl, Except.ok.injEq]
          exact ⟨fun heq => congrArg Descriptor.format heq, fun heq => by rw [heq]; rfl⟩

/-- A tools version is told with a qualifier as well as without one. -/
theorem parse_versionedDocument :
    versionedDocument.text (some buildQualifier) =
      "\uFEFF<?xml version=\"1.0\"?>\n" ++
      "<msb:Project ToolsVersion=\"4.0\"" ++
      " xmlns:msb=\"http://schemas.microsoft.com/developer/msbuild/2003\">\n" ++
      "  <msb:Compile Include=\"A.cs\" />\n</msb:Project>\n" ∧
    parse ⟨"/work/App/App.csproj"⟩ (versionedDocument.text (some buildQualifier)) =
      parse ⟨"/work/App/App.csproj"⟩ (versionedDocument.text none) := by
  refine ⟨by decide +kernel, ?_⟩
  rcases parse_qualified versionedDocument buildQualifier ⟨"/work/App/App.csproj"⟩ with
    ⟨-, heq⟩ | ⟨-, -, -, hasked | hkeeps⟩
  · exact heq
  · exact absurd hasked (by decide +kernel)
  · exact hkeeps.2 (Or.inr (Or.inl (by decide +kernel)))

/-- The namespace of a descriptor that lists its sources is not told when it is declared for a
qualifier. -/
theorem parse_bareDocument :
    bareDocument.text none =
      "<Project xmlns=\"http://schemas.microsoft.com/developer/msbuild/2003\"/>" ∧
    bareDocument.text (some buildQualifier) =
      "<msb:Project xmlns:msb=\"http://schemas.microsoft.com/developer/msbuild/2003\"/>" ∧
    parse ⟨"/work/App/App.csproj"⟩ (bareDocument.text none) =
      .ok ⟨⟨"/work/App/App.csproj"⟩, .legacy, [], [], [], [], [], []⟩ ∧
    parse ⟨"/work/App/App.csproj"⟩ (bareDocument.text (some buildQualifier)) =
      .ok ⟨⟨"/work/App/App.csproj"⟩, .modern, [], [], [], [], [], []⟩ := by
  refine ⟨by decide +kernel, by decide +kernel, ?_, ?_⟩
  · rw [parse_text]
    decide +kernel
  · rw [parse_text]
    decide +kernel

end Descriptor
end ProjectAssembler
