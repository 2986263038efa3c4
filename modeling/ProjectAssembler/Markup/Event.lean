import ProjectAssembler.Markup.Attribute

/-!
# Events of a document

A document is a sequence of events: elements that open and close, elements without content, and
texts.  Reading stops at the first error; the events before it stay valid.

Main definitions:

* `Markup.Event`: the events;
* `Markup.eventOf`: the event that a construct gives;
* `Markup.readEvents`: the events of a document and the error that ended its reading, if any.
-/

namespace ProjectAssembler
namespace Markup

/-- An event of a document.  Names are local names. -/
inductive Event where
  | opening (name : String) (attributes : List (String × String))
  /-- An element that is closed by its start tag. -/
  | single (name : String) (attributes : List (String × String))
  | closing
  | text (value : String)
deriving DecidableEq, Repr

/-- A value with what was left of the document when its reading began. -/
structure Located (α : Type) where
  value : α
  remaining : List Char
deriving DecidableEq, Repr

/-- The full names of the open elements after a construct; an end tag has to close the innermost
one.  An error of an end tag is reported for its `<`, from which on `remaining` is left. -/
def matchTags (names : List (List Char)) (remaining : List Char) :
    Construct → Except Failure (List (List Char))
  | .opening content false => .ok (tagName content :: names)
  | .closing name =>
      match names with
      | [] => .error ⟨.unmatchedEnd (String.ofList name), remaining⟩
      | innermost :: outer =>
          if name = innermost then .ok outer
          else
            .error ⟨.mismatchedEnd (String.ofList innermost) (String.ofList name), remaining⟩
  | _ => .ok names

/-- The event that a construct gives, if any. -/
def eventOf : Construct → Except Error (Option Event)
  | .opening content closed =>
      match tagAttributes content with
      | .error error => .error error
      | .ok attributes =>
          let name := localName (tagName content)
          .ok (some (if closed then .single name attributes else .opening name attributes))
  | .closing _ => .ok (some .closing)
  | .text raw =>
      match unescape raw with
      | .error error => .error (.badEscape error)
      | .ok value => .ok (some (.text (String.ofList value)))
  | .characterData text => .ok (some (.text (String.ofList text)))
  | .ignored => .ok none

/-- What is left of the document where the reading of the next construct begins: white space
before a construct counts to it. -/
def beginning (inside : Bool) (text : List Char) : List Char :=
  if inside then '<' :: text else text

/-- What is left of the document at the `<` of the next construct. -/
def bracket (inside : Bool) (text : List Char) : List Char :=
  (beginning inside text).dropWhile isBlank

/-- The events of a document up to the first error, and that error.  `names` are the full names of
the open elements; `inside` says that the `<` of the next construct has been read already. -/
def readEvents (names : List (List Char)) (inside : Bool) (text : List Char) :
    List (Located Event) × Option Failure :=
  match _h : readNext inside text with
  | .finished => ([], none)
  | .failed failure => ([], some failure)
  | .read construct rest inside' =>
      match matchTags names (bracket inside text) construct with
      | .error failure => ([], some failure)
      | .ok names =>
          match eventOf construct with
          | .error error => ([], some ⟨error, beginning inside text⟩)
          | .ok event? =>
              let following := readEvents names inside' rest
              ((event?.map (⟨·, beginning inside text⟩)).toList ++ following.1, following.2)
termination_by text.length
decreasing_by exact length_readNext _h

@[simp]
theorem readEvents_nil : readEvents [] false [] = ([], none) := by
  unfold readEvents
  rfl

end Markup
end ProjectAssembler
