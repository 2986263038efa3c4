import ProjectAssembler.Proofs.Markup.EventTrees
import ProjectAssembler.Proofs.Project.QualifiedDescriptors

/-!
# Descriptors with wrapped elements

A descriptor lists what its elements contribute one by one, in the order of their start tags and
wherever they are nested.  An element whose name is not tested contributes nothing, so a run of
elements side by side can be wrapped in such an element, as long as it is taken from an element that
is not asked for its children by name.  A root element is asked for the references to an SDK among
its children.

Main definitions:

* `Markup.Element.startTag` and `Markup.Event.startTag?`: the start tags of elements and of events;
* `Descriptor.Draft`: what has been read of a descriptor, element by element;
* `Descriptor.relevant`: what is read of elements;
* `Descriptor.Wraps` and `Descriptor.RootWraps`: a run of elements is wrapped in another one.

Main results:

* `Markup.Element.startTags_of_ofText`: the document order is the order of the start tags;
* `Descriptor.ofElement_eq_draft`: the elements are read one after the other, each by its name;
* `Descriptor.Wraps.relevant_preorder`: a wrapper changes nothing in what is read of elements;
* `Descriptor.parse_documentOrder`: what a descriptor lists, and that a wrapper does not change it.
-/

namespace ProjectAssembler
namespace Markup

/-! ## The order of start tags -/

/-- The start tag that an event is, if any. -/
def Event.startTag? : Event → Option (String × List (String × String))
  | opening name attributes => some (name, attributes)
  | single name attributes => some (name, attributes)
  | closing => none
  | text _ => none

/-- The start tag of an element. -/
def Element.startTag (element : Element) : String × List (String × String) :=
  (element.name, element.attributes)

mutual

/-- The start tags of an item come in the order of its elements. -/
theorem Item.startTags_events : (item : Item) →
    item.events.filterMap Event.startTag? =
      (Element.preorderAll item.element?.toList).map Element.startTag
  | .text value => rfl
  | .single name attributes => rfl
  | .paired name attributes content => by
      simp [Item.events, Item.element?, Element.preorderAll, Element.preorder, Event.startTag?,
        Element.startTag, Item.startTags_eventsOfAll content]

/-- The start tags of items come in the order of their elements. -/
theorem Item.startTags_eventsOfAll : (items : List Item) →
    (Item.eventsOfAll items).filterMap Event.startTag? =
      (Element.preorderAll (Item.elementsOf items)).map Element.startTag
  | [] => rfl
  | item :: rest => by
      rw [Item.eventsOfAll, Item.elementsOf, List.filterMap_append, Item.startTags_events item,
        Item.startTags_eventsOfAll rest, Element.preorderAll_append, List.map_append]

end

theorem Element.preorder_eq (element : Element) :
    element.preorder = element :: preorderAll element.children := by
  cases element
  rfl

/-- The start tags of a text come in the order of the elements of its tree. -/
theorem Element.startTags_of_ofText {text : List Char} {root : Element}
    (h : Element.ofText text = .ok root) :
    ((readEvents [] false (withoutMark text)).1.map Located.value).filterMap Event.startTag? =
      (root :: root.descendants).map Element.startTag := by
  obtain ⟨-, items, hitems, helements⟩ := (Element.ofText_eq_ok_iff text).1 h
  rw [hitems, Item.startTags_eventsOfAll, helements, preorderAll, preorderAll, List.append_nil,
    preorder_eq, descendants, visit_eq_preorder]

end Markup

namespace Descriptor

open Markup (Element)

/-! ## One element after the other -/

/-- What has been read of a descriptor. -/
structure Draft where
  compileItems : List String
  sharedImports : List Path
  projectReferences : List Path
  assemblyReferences : List AssemblyReference
  packageReferences : List PackageReference
  /-- The first single target framework. -/
  single? : Option String
  /-- The first list of target frameworks. -/
  several? : Option String

namespace Draft

variable {directory : Path} {draft : Draft} {element : Element}

/-- Nothing has been read. -/
def empty : Draft :=
  ⟨[], [], [], [], [], none, none⟩

/-- Read one element, which is told by its name. -/
def read (directory : Path) (draft : Draft) (element : Element) : Draft :=
  if element.isNamed "Compile" then
    { draft with compileItems := draft.compileItems ++ compileItemsOf element }
  else if element.isNamed "Import" then
    { draft with
      sharedImports := draft.sharedImports ++ (sharedImportOf? directory element).toList }
  else if element.isNamed "ProjectReference" then
    { draft with
      projectReferences :=
        draft.projectReferences ++ (projectReferenceOf? directory element).toList }
  else if element.isNamed "Reference" then
    { draft with
      assemblyReferences := draft.assemblyReferences ++ (assemblyReferenceOf? element).toList }
  else if element.isNamed "PackageReference" then
    { draft with
      packageReferences := draft.packageReferences ++ (packageReferenceOf? element).toList }
  else if element.isNamed "TargetFramework" then
    { draft with single? := draft.single?.or (textOf? "TargetFramework" element) }
  else if element.isNamed "TargetFrameworks" then
    { draft with several? := draft.several?.or (textOf? "TargetFrameworks" element) }
  else draft

/-- Add the contributions of all elements of a list. -/
def add (directory : Path) (draft : Draft) (elements : List Element) : Draft where
  compileItems := draft.compileItems ++ elements.flatMap compileItemsOf
  sharedImports := draft.sharedImports ++ elements.filterMap (sharedImportOf? directory)
  projectReferences :=
    draft.projectReferences ++ elements.filterMap (projectReferenceOf? directory)
  assemblyReferences := draft.assemblyReferences ++ elements.filterMap assemblyReferenceOf?
  packageReferences := draft.packageReferences ++ elements.filterMap packageReferenceOf?
  single? := draft.single?.or (elements.findSome? (textOf? "TargetFramework"))
  several? := draft.several?.or (elements.findSome? (textOf? "TargetFrameworks"))

/-- The descriptor of what has been read. -/
def descriptor (path : Path) (format : DescriptorFormat) (draft : Draft) : Descriptor where
  path := path
  format := format
  compileItems := draft.compileItems
  sharedImports := draft.sharedImports
  projectReferences := draft.projectReferences
  assemblyReferences := draft.assemblyReferences
  packageReferences := draft.packageReferences
  targetFrameworks :=
    match draft.single? with
    | some single => [single]
    | none =>
        match draft.several? with
        | some several => listItems several
        | none => []

/-- An element has one name only. -/
theorem isNamed_of_isNamed {name other : String} (h : element.isNamed name = true)
    (hother : Text.equalIgnoringCase name other = false) : element.isNamed other = false := by
  rw [← Bool.not_eq_true]
  intro hboth
  rw [Text.equalIgnoringCase_trans (Text.equalIgnoringCase_symm h) hboth] at hother
  cases hother

/-- The contributions of one element. -/
theorem add_singleton : draft.add directory [element] =
    { compileItems := draft.compileItems ++ compileItemsOf element
      sharedImports := draft.sharedImports ++ (sharedImportOf? directory element).toList
      projectReferences :=
        draft.projectReferences ++ (projectReferenceOf? directory element).toList
      assemblyReferences := draft.assemblyReferences ++ (assemblyReferenceOf? element).toList
      packageReferences := draft.packageReferences ++ (packageReferenceOf? element).toList
      single? := draft.single?.or (textOf? "TargetFramework" element)
      several? := draft.several?.or (textOf? "TargetFrameworks" element) } := by
  have hone {β : Type} (f : Element → Option β) :
      [element].filterMap f = (f element).toList := by
    cases h : f element <;> simp [h]
  simp only [add, hone, List.flatMap_singleton, List.findSome?_singleton]

/-- Reading an element adds its contributions, of which it has one at most. -/
theorem read_eq_add : read directory draft element = draft.add directory [element] := by
  rw [add_singleton]
  unfold read
  split_ifs with hcompile himport hproject hassembly hpackage hsingle hseveral
  · simp (disch := decide +kernel) [isNamed_of_isNamed hcompile, sharedImportOf?,
      projectReferenceOf?, assemblyReferenceOf?, packageReferenceOf?, textOf?]
  · simp (disch := decide +kernel) [isNamed_of_isNamed himport, compileItemsOf,
      projectReferenceOf?, assemblyReferenceOf?, packageReferenceOf?, textOf?]
  · simp (disch := decide +kernel) [isNamed_of_isNamed hproject, compileItemsOf,
      sharedImportOf?, assemblyReferenceOf?, packageReferenceOf?, textOf?]
  · simp (disch := decide +kernel) [isNamed_of_isNamed hassembly, compileItemsOf,
      sharedImportOf?, projectReferenceOf?, packageReferenceOf?, textOf?]
  · simp (disch := decide +kernel) [isNamed_of_isNamed hpackage, compileItemsOf,
      sharedImportOf?, projectReferenceOf?, assemblyReferenceOf?, textOf?]
  · simp (disch := decide +kernel) [isNamed_of_isNamed hsingle, compileItemsOf, sharedImportOf?,
      projectReferenceOf?, assemblyReferenceOf?, packageReferenceOf?, textOf?]
  · simp (disch := decide +kernel) [isNamed_of_isNamed hseveral, compileItemsOf, sharedImportOf?,
      projectReferenceOf?, assemblyReferenceOf?, packageReferenceOf?, textOf?]
  · simp [hcompile, himport, hproject, hassembly, hpackage, hsingle, hseveral, compileItemsOf,
      sharedImportOf?, projectReferenceOf?, assemblyReferenceOf?, packageReferenceOf?, textOf?]

theorem add_add (first second : List Element) :
    (draft.add directory first).add directory second = draft.add directory (first ++ second) := by
  simp [add, List.append_assoc, Option.or_assoc, List.findSome?_append]

/-- Reading elements one after the other adds the contributions of all of them. -/
theorem foldl_read (elements : List Element) :
    elements.foldl (read directory) draft = draft.add directory elements := by
  induction elements generalizing draft with
  | nil => simp [add]
  | cons element rest ih =>
      rw [List.foldl_cons, ih, read_eq_add, add_add, List.singleton_append]

end Draft

/-- The descriptor of a root element is read from the elements inside of it, one after the other. -/
theorem ofElement_eq_draft (path : Path) (root : Element) :
    ofElement path root =
      ((Element.preorderAll root.children).foldl (Draft.read (directoryOf path))
        Draft.empty).descriptor path (formatOf root) := by
  rw [Draft.foldl_read, ← Markup.Element.visit_eq_preorder]
  simp only [Draft.add, Draft.empty, List.nil_append, Option.none_or]
  rfl

/-! ## What is read of elements -/

/-- The names that the elements below a root are told by. -/
def testedNames : List String :=
  ["Compile", "Import", "ProjectReference", "Reference", "PackageReference", "TargetFramework",
    "TargetFrameworks", "Sdk", "HintPath", "Version"]

/-- Whether an element has one of the names that elements are told by. -/
def isTested (element : Element) : Bool :=
  testedNames.any element.isNamed

/-- Whether an element has one of the names that a child is asked for by. -/
def isConsulted (element : Element) : Bool :=
  element.isNamed "HintPath" || element.isNamed "Version"

/-- An element without what is inside of it but its text. -/
def bare (element : Element) : Element :=
  .mk element.name [] [] element.text

/-- What is read of the children of an element: those that it is asked for, and only their
texts. -/
def consulted (children : List Element) : List Element :=
  (children.filter isConsulted).map bare

/-- What is read of an element. -/
def outline (element : Element) : Element :=
  .mk element.name element.attributes (consulted element.children) element.text

/-- What is read of elements: nothing of those with other names. -/
def relevant (elements : List Element) : List Element :=
  (elements.filter isTested).map outline

theorem isNamed_of_not_tested {element : Element} {name : String}
    (h : isTested element = false) (hname : name ∈ testedNames) : element.isNamed name = false := by
  rw [isTested, List.any_eq_false] at h
  simpa using h name hname

theorem isTested_of_isConsulted {element : Element} (h : isConsulted element = true) :
    isTested element = true := by
  rw [isConsulted, Bool.or_eq_true] at h
  rw [isTested, List.any_eq_true]
  rcases h with h | h
  · exact ⟨_, by decide, h⟩
  · exact ⟨_, by decide, h⟩

theorem relevant_append (first second : List Element) :
    relevant (first ++ second) = relevant first ++ relevant second := by
  simp [relevant]

theorem relevant_cons (element : Element) (rest : List Element) :
    relevant (element :: rest) =
      (if isTested element then [outline element] else []) ++ relevant rest := by
  unfold relevant
  rw [List.filter_cons]
  split_ifs <;> rfl

theorem relevant_cons_of_not_tested {element : Element} (h : isTested element = false)
    (rest : List Element) : relevant (element :: rest) = relevant rest := by
  simp [relevant_cons, h]

@[simp]
theorem isNamed_outline (element : Element) (name : String) :
    (outline element).isNamed name = element.isNamed name :=
  rfl

@[simp]
theorem attribute?_outline (element : Element) (name : String) :
    (outline element).attribute? name = element.attribute? name :=
  rfl

theorem consulted_cons (child : Element) (rest : List Element) :
    consulted (child :: rest) =
      (if isConsulted child then [bare child] else []) ++ consulted rest := by
  unfold consulted
  rw [List.filter_cons]
  split_ifs <;> rfl

/-- The text of a child that an element is asked for is read. -/
theorem text_child?_outline (element : Element) {name : String}
    (hname : ∀ child : Element, child.isNamed name = true → isConsulted child = true) :
    ((outline element).child? name).map Element.text = (element.child? name).map Element.text := by
  rw [Element.child?, Element.child?, outline, Element.children_mk]
  induction element.children with
  | nil => rfl
  | cons child rest ih =>
      have hbare : (bare child).isNamed name = child.isNamed name := rfl
      rw [consulted_cons, List.find?_cons]
      cases hnamed : child.isNamed name with
      | true =>
          rw [if_pos (hname child hnamed), List.singleton_append, List.find?_cons, hbare, hnamed]
          rfl
      | false =>
          rw [← ih]
          cases isConsulted child with
          | true => rw [if_pos rfl, List.singleton_append, List.find?_cons, hbare, hnamed]
          | false => rfl

theorem assemblyReferenceOf?_outline (element : Element) :
    assemblyReferenceOf? (outline element) = assemblyReferenceOf? element := by
  have hhint (element : Element) :
      (element.child? "HintPath").bind (fun hint => nonBlank? hint.text) =
      ((element.child? "HintPath").map Element.text).bind nonBlank? := by
    rw [Option.bind_map, Function.comp_def]
  unfold assemblyReferenceOf?
  rw [isNamed_outline, attribute?_outline, hhint, hhint,
    text_child?_outline element fun child h => by simp [isConsulted, h]]

theorem packageReferenceOf?_outline (element : Element) :
    packageReferenceOf? (outline element) = packageReferenceOf? element := by
  unfold packageReferenceOf?
  rw [isNamed_outline, attribute?_outline, attribute?_outline,
    text_child?_outline element fun child h => by simp [isConsulted, h]]

/-- Only what is read of an element matters for what it contributes. -/
theorem read_outline (directory : Path) (draft : Draft) (element : Element) :
    draft.read directory (outline element) = draft.read directory element := by
  simp only [Draft.read, isNamed_outline, compileItemsOf, sharedImportOf?, projectReferenceOf?,
    textOf?, attribute?_outline, assemblyReferenceOf?_outline, packageReferenceOf?_outline]
  rfl

/-- An element with another name is passed over. -/
theorem read_of_not_tested (directory : Path) (draft : Draft) {element : Element}
    (h : isTested element = false) : draft.read directory element = draft := by
  simp (disch := decide) [Draft.read, isNamed_of_not_tested h]

/-- Only what is read of elements matters for the descriptor. -/
theorem foldl_read_relevant (directory : Path) (draft : Draft) (elements : List Element) :
    (relevant elements).foldl (Draft.read directory) draft =
      elements.foldl (Draft.read directory) draft := by
  induction elements generalizing draft with
  | nil => rfl
  | cons element rest ih =>
      cases h : isTested element with
      | true =>
          rw [relevant_cons, if_pos h, List.singleton_append, List.foldl_cons, List.foldl_cons,
            read_outline, ih]
      | false =>
          rw [relevant_cons_of_not_tested h, List.foldl_cons, read_of_not_tested directory draft h,
            ih]

/-! ## Wrapped elements -/

/-- A run of elements side by side, inside of an element below the root, is wrapped in another one.
Neither the wrapper nor the element around it has a name that elements are told by; the texts in the
latter may have changed with it. -/
inductive Wraps : Element → Element → Prop where
  | here {parent wrapper : Element} {before after : List Element} {text : String}
      (hparent : isTested parent = false) (hwrapper : isTested wrapper = false)
      (hchildren : parent.children = before ++ wrapper.children ++ after) :
      Wraps parent (.mk parent.name parent.attributes (before ++ wrapper :: after) text)
  | inside {parent child wrapped : Element} {before after : List Element}
      (hchildren : parent.children = before ++ child :: after) (h : Wraps child wrapped) :
      Wraps parent (.mk parent.name parent.attributes (before ++ wrapped :: after) parent.text)

/-- A run of elements side by side, anywhere in a root element, is wrapped in another one.  If the
run is taken from the root itself, no element of it may refer to an SDK. -/
inductive RootWraps : Element → Element → Prop where
  | here {root wrapper : Element} {before after : List Element} {text : String}
      (hrun : ∀ element ∈ wrapper.children,
        element.isNamed "Sdk" = false ∧ element.isNamed "Import" = false)
      (hwrapper : isTested wrapper = false)
      (hchildren : root.children = before ++ wrapper.children ++ after) :
      RootWraps root (.mk root.name root.attributes (before ++ wrapper :: after) text)
  | inside {root child wrapped : Element} {before after : List Element}
      (hchildren : root.children = before ++ child :: after) (h : Wraps child wrapped) :
      RootWraps root (.mk root.name root.attributes (before ++ wrapped :: after) root.text)

section Wrapping

variable {element wrapped wrapper root : Element} {before after : List Element}

theorem Wraps.name_eq (h : Wraps element wrapped) : wrapped.name = element.name := by
  cases h <;> rfl

theorem Wraps.attributes_eq (h : Wraps element wrapped) :
    wrapped.attributes = element.attributes := by
  cases h <;> rfl

theorem Wraps.isNamed_eq (h : Wraps element wrapped) (name : String) :
    wrapped.isNamed name = element.isNamed name := by
  rw [Element.isNamed, Element.isNamed, h.name_eq]

theorem Wraps.attribute?_eq (h : Wraps element wrapped) (name : String) :
    wrapped.attribute? name = element.attribute? name := by
  rw [Element.attribute?, Element.attribute?, h.attributes_eq]

/-- Nothing changes in what is read of the children of an element if a wrapper stands inside of one
of them. -/
theorem Wraps.consulted_eq (h : Wraps element wrapped) :
    consulted (before ++ wrapped :: after) = consulted (before ++ element :: after) := by
  have hsame : isConsulted wrapped = isConsulted element := by
    rw [isConsulted, isConsulted, h.isNamed_eq, h.isNamed_eq]
  have hbare : isConsulted element = true → bare wrapped = bare element := by
    intro hconsulted
    cases h with
    | here hparent hwrapper hchildren =>
        rw [isTested_of_isConsulted hconsulted] at hparent
        cases hparent
    | inside hchildren h => rfl
  unfold consulted
  rw [List.filter_append, List.filter_append, List.filter_cons, List.filter_cons, hsame]
  split_ifs with hconsulted
  · simp [hbare hconsulted]
  · rfl

/-- Nothing of a wrapper is read, and what stands in it is read as without it. -/
theorem relevant_wrapper (hwrapper : isTested wrapper = false) :
    relevant (Element.preorderAll (before ++ wrapper :: after)) =
      relevant (Element.preorderAll (before ++ wrapper.children ++ after)) := by
  simp only [Element.preorderAll_append, Element.preorderAll, Element.preorder_eq wrapper,
    relevant_append, List.cons_append, relevant_cons_of_not_tested hwrapper, List.append_assoc]

/-- What is read of an element side by side with others. -/
theorem relevant_between (h : relevant wrapped.preorder = relevant element.preorder) :
    relevant (Element.preorderAll (before ++ wrapped :: after)) =
      relevant (Element.preorderAll (before ++ element :: after)) := by
  simp only [Element.preorderAll_append, Element.preorderAll, relevant_append, h]

/-- A wrapper inside of an element changes nothing in what is read of it and of everything inside
of it. -/
theorem Wraps.relevant_preorder (h : Wraps element wrapped) :
    relevant wrapped.preorder = relevant element.preorder := by
  induction h with
  | @here parent wrapper before after text hparent hwrapper hchildren =>
      rw [Element.preorder_eq, Element.preorder_eq parent, relevant_cons_of_not_tested hparent,
        hchildren, ← relevant_wrapper hwrapper]
      have hwrapped : isTested (.mk parent.name parent.attributes (before ++ wrapper :: after)
          text) = false := hparent
      exact relevant_cons_of_not_tested hwrapped _
  | @inside parent child wrapped before after hchildren h ih =>
      -- The element itself is read as before: the same is read of its children.
      have houtline : outline (.mk parent.name parent.attributes (before ++ wrapped :: after)
          parent.text) = outline parent := by
        rw [outline, outline, hchildren, ← h.consulted_eq]
        rfl
      rw [Element.preorder_eq, Element.preorder_eq parent, relevant_cons, relevant_cons parent,
        houtline, hchildren, Element.children_mk, relevant_between ih]
      rfl

/-- A wrapper changes nothing in what is read of the elements inside of a root. -/
theorem RootWraps.relevant_children (h : RootWraps root wrapped) :
    relevant (Element.preorderAll wrapped.children) =
      relevant (Element.preorderAll root.children) := by
  cases h with
  | here hrun hwrapper hchildren => rw [hchildren, Element.children_mk, relevant_wrapper hwrapper]
  | inside hchildren h =>
      rw [hchildren, Element.children_mk, relevant_between h.relevant_preorder]

/-- A wrapper does not hide a reference to an SDK from a root. -/
theorem RootWraps.usesSdk_eq (h : RootWraps root wrapped) : usesSdk wrapped = usesSdk root := by
  unfold usesSdk
  cases h with
  | @here wrapper before after text hrun hwrapper hchildren =>
      have hnone : (wrapper.children.any fun child =>
          child.isNamed "Sdk" || (child.isNamed "Import" && (child.attribute? "Sdk").isSome)) =
          false := by
        rw [List.any_eq_false]
        intro child hchild
        simp [hrun child hchild]
      rw [hchildren, Element.children_mk, List.any_append, List.any_append, List.any_append, hnone,
        List.any_cons, isNamed_of_not_tested hwrapper (by decide),
        isNamed_of_not_tested hwrapper (by decide), Bool.or_false]
      rfl
  | inside hchildren h =>
      rw [hchildren, Element.children_mk, List.any_append, List.any_append, List.any_cons,
        List.any_cons, h.isNamed_eq, h.isNamed_eq, h.attribute?_eq]
      rfl

/-- A wrapper changes nothing in a descriptor. -/
theorem RootWraps.ofElement_eq (h : RootWraps root wrapped) (path : Path) :
    ofElement path wrapped = ofElement path root := by
  have hattribute (name : String) : wrapped.attribute? name = root.attribute? name := by
    cases h <;> rfl
  have hformat : formatOf wrapped = formatOf root := by
    rw [formatOf_eq, formatOf_eq, h.usesSdk_eq, hattribute, hattribute]
  rw [ofElement_eq_draft, ofElement_eq_draft, hformat, ← foldl_read_relevant,
    h.relevant_children, foldl_read_relevant]

end Wrapping

/-- The elements inside of a root are visited in document order, in which every element goes before
the ones inside of it and these before the ones that follow; in a text it is the order of the start
tags.  Read one after the other, each by its name, they give the descriptor: every list of it is put
together, in this order, from what single elements contribute.  A wrapper around a run of elements
anywhere in the root changes nothing in the descriptor. -/
theorem parse_documentOrder (path : Path) (root : Element) :
    root.descendants = Element.preorderAll root.children ∧
    (ofElement path root).compileItems =
      (Element.preorderAll root.children).flatMap compileItemsOf ∧
    (ofElement path root).sharedImports =
      (Element.preorderAll root.children).filterMap (sharedImportOf? (directoryOf path)) ∧
    (ofElement path root).projectReferences =
      (Element.preorderAll root.children).filterMap (projectReferenceOf? (directoryOf path)) ∧
    (ofElement path root).assemblyReferences =
      (Element.preorderAll root.children).filterMap assemblyReferenceOf? ∧
    (ofElement path root).packageReferences =
      (Element.preorderAll root.children).filterMap packageReferenceOf? ∧
    ofElement path root =
      ((Element.preorderAll root.children).foldl (Draft.read (directoryOf path))
        Draft.empty).descriptor path (formatOf root) ∧
    (∀ wrapped, RootWraps root wrapped → ofElement path wrapped = ofElement path root) ∧
    ∀ text : String, Element.ofText (Markup.withoutMark text.toList) = .ok root →
      ((Markup.readEvents [] false (Markup.withoutMark (Markup.withoutMark text.toList))).1.map
        Markup.Located.value).filterMap Markup.Event.startTag? =
          (root :: root.descendants).map Element.startTag ∧
      (root.isNamed "Project" = true → parse path text = .ok (ofElement path root)) ∧
      ∀ (other : String) (wrapped : Element),
        Element.ofText (Markup.withoutMark other.toList) = .ok wrapped →
        RootWraps root wrapped → parse path other = parse path text := by
  have hvisit : root.descendants = Element.preorderAll root.children :=
    Element.visit_eq_preorder root.children
  rw [← hvisit]
  refine ⟨rfl, rfl, rfl, rfl, rfl, rfl, ?_, fun wrapped h => h.ofElement_eq path, ?_⟩
  · rw [hvisit]
    exact ofElement_eq_draft path root
  · intro text htext
    refine ⟨Element.startTags_of_ofText htext, ?_, ?_⟩
    · intro hproject
      simp only [parse, htext, hproject, if_true]
    · intro other wrapped hother h
      have hname : wrapped.name = root.name := by
        cases h <;> rfl
      have hnamed : wrapped.isNamed "Project" = root.isNamed "Project" := by
        rw [Element.isNamed, Element.isNamed, hname]
      simp only [parse, htext, hother, hnamed, hname, h.ofElement_eq path]

/-- The text of a descriptor of one source. -/
def groupText : String :=
  "<Project><ItemGroup><Compile Include=\"A.cs\"/></ItemGroup></Project>"

/-- The same text with the source in one more element. -/
def otherwiseText : String :=
  "<Project><ItemGroup><Otherwise>" ++ "<Compile Include=\"A.cs\"/>" ++
    "</Otherwise></ItemGroup></Project>"

/-- The items of a group with given items. -/
def groupItems (items : List Markup.Item) : List Markup.Item :=
  [.paired "Project" [] [.paired "ItemGroup" [] items]]

/-- A root element with a group of given elements. -/
def groupRoot (elements : List Element) : Element :=
  .mk "Project" [] [.mk "ItemGroup" [] elements ""] ""

/-- A source. -/
def sourceElement : Element :=
  .mk "Compile" [("Include", "A.cs")] [] ""

theorem ofText_groupText : Element.ofText (Markup.withoutMark groupText.toList) =
    .ok (groupRoot [sourceElement]) :=
  (Element.ofText_eq_ok_iff _).2 ⟨by decide +kernel,
    groupItems [.single "Compile" [("Include", "A.cs")]], by decide +kernel, rfl⟩

theorem ofText_otherwiseText : Element.ofText (Markup.withoutMark otherwiseText.toList) =
    .ok (groupRoot [.mk "Otherwise" [] [sourceElement] ""]) :=
  (Element.ofText_eq_ok_iff _).2 ⟨by decide +kernel,
    groupItems [.paired "Otherwise" [] [.single "Compile" [("Include", "A.cs")]]],
    by decide +kernel, rfl⟩

/-- A source is wrapped in its group. -/
theorem rootWraps_otherwise :
    RootWraps (groupRoot [sourceElement]) (groupRoot [.mk "Otherwise" [] [sourceElement] ""]) := by
  have hgroup : Wraps (.mk "ItemGroup" [] [sourceElement] "")
      (.mk "ItemGroup" [] [.mk "Otherwise" [] [sourceElement] ""] "") :=
    @Wraps.here _ (.mk "Otherwise" [] [sourceElement] "") [] [] _ (by decide +kernel)
      (by decide +kernel) rfl
  exact @RootWraps.inside (groupRoot [sourceElement]) _ _ [] [] rfl hgroup

/-- A source is listed in the same way where it stands in one more element. -/
theorem parse_documentOrder_otherwise :
    Element.ofText (Markup.withoutMark groupText.toList) = .ok (groupRoot [sourceElement]) ∧
    RootWraps (groupRoot [sourceElement]) (groupRoot [.mk "Otherwise" [] [sourceElement] ""]) ∧
    parse ⟨"/work/App.csproj"⟩ otherwiseText =
      .ok ⟨⟨"/work/App.csproj"⟩, .modern, ["A.cs"], [], [], [], [], []⟩ := by
  obtain ⟨-, -, -, -, -, -, -, -, htexts⟩ :=
    parse_documentOrder ⟨"/work/App.csproj"⟩ (groupRoot [sourceElement])
  obtain ⟨-, hparse, hother⟩ := htexts groupText ofText_groupText
  refine ⟨ofText_groupText, rootWraps_otherwise, ?_⟩
  rw [hother otherwiseText _ ofText_otherwiseText rootWraps_otherwise, hparse (by decide +kernel)]
  decide +kernel

end Descriptor
end ProjectAssembler
