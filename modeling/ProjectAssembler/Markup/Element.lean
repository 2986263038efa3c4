import ProjectAssembler.Markup.Event
import ProjectAssembler.Text.AsciiCase

/-!
# Element trees

A document is one element with everything inside of it.  The tree is built from the events with
the open elements on a stack.

Main definitions:

* `Markup.Element`: a name, attributes, children in order and the text directly inside;
* `Markup.Element.preorder` and `Markup.Element.descendants`: the elements of a tree in document
  order, with and without its root;
* `Markup.Element.ofText`: the tree of a document's text.

Main results: `Markup.Element.visit_eq_preorder` says that visiting with a list of what is still
to be visited gives the document order.
-/

namespace ProjectAssembler
namespace Markup

/-- An element of a document. -/
inductive Element where
  | mk (name : String) (attributes : List (String × String)) (children : List Element)
    (text : String)
deriving Repr, Inhabited

namespace Element

/-- The local name. -/
def name : Element → String
  | mk name _ _ _ => name

/-- The attributes in order, with local names. -/
def attributes : Element → List (String × String)
  | mk _ attributes _ _ => attributes

/-- The elements directly inside, in order. -/
def children : Element → List Element
  | mk _ _ children _ => children

/-- The texts directly inside, put together. -/
def text : Element → String
  | mk _ _ _ text => text

@[simp]
theorem name_mk (name : String) (attributes : List (String × String)) (children : List Element)
    (text : String) : (mk name attributes children text).name = name :=
  rfl

@[simp]
theorem attributes_mk (name : String) (attributes : List (String × String))
    (children : List Element) (text : String) :
    (mk name attributes children text).attributes = attributes :=
  rfl

@[simp]
theorem children_mk (name : String) (attributes : List (String × String))
    (children : List Element) (text : String) :
    (mk name attributes children text).children = children :=
  rfl

@[simp]
theorem text_mk (name : String) (attributes : List (String × String)) (children : List Element)
    (text : String) : (mk name attributes children text).text = text :=
  rfl

/-! ## Questions -/

/-- Whether an element has a given name, up to ASCII case. -/
def isNamed (element : Element) (name : String) : Bool :=
  Text.equalIgnoringCase element.name name

/-- The value of the first attribute with a given local name, up to ASCII case. -/
def attribute? (element : Element) (name : String) : Option String :=
  (element.attributes.find? fun entry => Text.equalIgnoringCase entry.1 name).map (·.2)

/-- The first child with a given name. -/
def child? (element : Element) (name : String) : Option Element :=
  element.children.find? (·.isNamed name)

/-! ## Document order -/

mutual

/-- An element and everything inside of it, in document order. -/
def preorder : Element → List Element
  | mk name attributes children text => mk name attributes children text :: preorderAll children

/-- Elements side by side and everything inside of them, in document order. -/
def preorderAll : List Element → List Element
  | [] => []
  | element :: rest => element.preorder ++ preorderAll rest

end

mutual

/-- The number of elements in a tree. -/
def size : Element → Nat
  | mk _ _ children _ => sizeAll children + 1

/-- The number of elements in trees side by side. -/
def sizeAll : List Element → Nat
  | [] => 0
  | element :: rest => element.size + sizeAll rest

end

theorem sizeAll_append (first second : List Element) :
    sizeAll (first ++ second) = sizeAll first + sizeAll second := by
  induction first with
  | nil => simp [sizeAll]
  | cons element rest ih => simp [sizeAll, ih, Nat.add_assoc]

theorem size_eq (element : Element) : element.size = sizeAll element.children + 1 := by
  cases element
  simp [size]

/-- Visit elements in turn, and the children of each before what follows it. -/
def visit : List Element → List Element
  | [] => []
  | element :: rest => element :: visit (element.children ++ rest)
termination_by waiting => sizeAll waiting
decreasing_by
  rw [sizeAll_append, sizeAll, size_eq]
  omega

/-- All elements inside of an element, in document order. -/
def descendants (element : Element) : List Element :=
  visit element.children

theorem preorderAll_append (first second : List Element) :
    preorderAll (first ++ second) = preorderAll first ++ preorderAll second := by
  induction first with
  | nil => simp [preorderAll]
  | cons element rest ih => simp [preorderAll, ih]

/-- Visiting gives the document order. -/
theorem visit_eq_preorder (waiting : List Element) : visit waiting = preorderAll waiting := by
  fun_induction visit waiting with
  | case1 => simp [preorderAll]
  | case2 element rest ih =>
      cases element
      simp_all [preorderAll, preorder, preorderAll_append]

/-! ## Trees from events -/

/-- An element without children. -/
def leaf (name : String) (attributes : List (String × String)) : Element :=
  mk name attributes [] ""

/-- An element with one more child at the end. -/
def addChild : Element → Element → Element
  | mk name attributes children text, child => mk name attributes (children ++ [child]) text

/-- An element with more text at the end. -/
def addText : Element → String → Element
  | mk name attributes children text, more => mk name attributes children (text ++ more)

end Element

/-- The part of a document that has been read: the open elements, innermost first, and the root
element once it is closed. -/
structure Progress where
  stack : List Element
  root : Option Element

namespace Progress

/-- Nothing has been read. -/
def initial : Progress :=
  ⟨[], none⟩

/-- A closed element belongs to the innermost open one, or is the root; a second root is refused. -/
def attach (progress : Progress) (element : Element) : Option Progress :=
  match progress.stack with
  | parent :: outer => some { progress with stack := parent.addChild element :: outer }
  | [] =>
      match progress.root with
      | none => some { progress with root := some element }
      | some _ => none

/-- The effect of an event; nothing when it would add a second root. -/
def step (progress : Progress) : Event → Option Progress
  | .opening name attributes =>
      some { progress with stack := Element.leaf name attributes :: progress.stack }
  | .single name attributes => progress.attach (Element.leaf name attributes)
  | .closing =>
      match progress.stack with
      | [] => some progress
      | element :: outer => attach { progress with stack := outer } element
  | .text value =>
      match progress.stack with
      | [] => some progress
      | element :: outer => some { progress with stack := element.addText value :: outer }

/-- The effect of events; the error of a second root is reported for the event that completes it. -/
def run (progress : Progress) : List (Located Event) → Except Failure Progress
  | [] => .ok progress
  | event :: rest =>
      match progress.step event.value with
      | some progress => run progress rest
      | none => .error ⟨.secondRoot, event.remaining⟩

/-- The root of a document that has been read to its end, or what is missing. -/
def finish (progress : Progress) : Except Error Element :=
  match progress.stack with
  | element :: _ => .error (.unclosedElement element.name)
  | [] =>
      match progress.root with
      | some root => .ok root
      | none => .error .noRoot

end Progress

/-! ## Trees from text -/

/-- An error of a document and the byte count of the place that it is reported for. -/
structure Malformed where
  error : Error
  offset : Nat
deriving DecidableEq, Repr

/-- The byte count of the place from which on a given rest of a text is left. -/
def offsetOf (text remaining : List Char) : Nat :=
  Text.utf8Length text - Text.utf8Length remaining

/-- A text without a byte order mark at its beginning. -/
def withoutMark : List Char → List Char
  | '\uFEFF' :: text => text
  | text => text

/-- The element tree of a document.  Errors are reported in the order of the text; an element that
is not closed is reported for the end of the text, a missing root for its beginning. -/
def Element.ofText (text : List Char) : Except Malformed Element :=
  let read := withoutMark text
  let events := readEvents [] false read
  match Progress.initial.run events.1 with
  | .error failure => .error ⟨failure.error, offsetOf read failure.remaining⟩
  | .ok progress =>
      match events.2 with
      | some failure => .error ⟨failure.error, offsetOf read failure.remaining⟩
      | none =>
          match progress.finish with
          | .ok root => .ok root
          | .error .noRoot => .error ⟨.noRoot, 0⟩
          | .error error => .error ⟨error, Text.utf8Length text⟩

end Markup
end ProjectAssembler
