import Mathlib.Data.List.TakeWhile
import ProjectAssembler.Markup.Element

/-!
# Documents as they are written

A well-formed document is made up of tags, texts, character data and what has no meaning here, with
white space where it may stand.  The parts carry what makes them well formed, so that every document
of these types is.  Names are without qualifiers; a document can be written as it is, or with a
qualifier for its namespace: then the names of all elements are qualified, and the root declares the
namespace for the qualifier.

Main definitions:

* `Markup.Tag`, `Markup.Passage`, `Markup.Content` and `Markup.Document`: the parts of a document;
* `Markup.Passage.written` and `Markup.Document.written`: the text of an element and of a document,
  with a qualifier or without one;
* `Markup.Passage.element`: the element tree that is written.

Main results: `Markup.localName_qualified` and `Markup.localName_declared` say which local names are
written.
-/

namespace ProjectAssembler
namespace Markup

/-! ## Names, white space and values -/

/-- Whether a character can stand in a name: it is neither white space nor does it delimit
anything. -/
def isNameCharacter (c : Char) : Bool :=
  !isBlank c && !List.contains ['<', '>', '/', '=', '"', '\'', '!', '?', '&', ':'] c

/-- A name without a qualifier. -/
structure Name where
  text : List Char
  nonempty : text ≠ []
  plain : ∀ c ∈ text, isNameCharacter c = true

/-- White space, or nothing. -/
structure Space where
  text : List Char
  blank : ∀ c ∈ text, isBlank c = true

/-- No white space. -/
def Space.none : Space :=
  ⟨[], by simp⟩

/-- A value in quotes, as it is written and with its escapes replaced. -/
structure Quoted where
  quote : Char
  raw : List Char
  value : List Char
  enclosed : isQuote quote = true
  closed : quote ∉ raw
  resolved : unescape raw = .ok value

/-- An attribute with the white space before it and around its equals sign. -/
structure Attribute where
  before : Space
  key : Name
  beforeEquals : Space
  afterEquals : Space
  value : Quoted
  apart : before.text ≠ []

/-- A start tag without its brackets: a name and attributes with distinct keys. -/
structure Tag where
  name : Name
  attributes : List Attribute
  trailing : Space
  distinct : (attributes.map (·.key.text)).Nodup

/-- A text without the white space around it. -/
def trimmed (raw : List Char) : List Char :=
  Text.dropEnd isBlank (raw.dropWhile isBlank)

/-- A text between tags, as it is written and without white space around it and escapes in it. -/
structure Chars where
  raw : List Char
  value : List Char
  plain : '<' ∉ raw
  resolved : unescape (trimmed raw) = .ok value

/-- Character data. -/
structure CharacterData where
  text : List Char
  unfinished : ¬ [']', ']', '>'] <:+: text

/-- Texts in which every opening angle bracket has its closing one. -/
inductive Balanced : List Char → Prop where
  | nil : Balanced []
  | other {c : Char} {rest : List Char} (hopening : c ≠ '<') (hclosing : c ≠ '>')
      (hrest : Balanced rest) : Balanced (c :: rest)
  | nested {inner rest : List Char} (hinner : Balanced inner) (hrest : Balanced rest) :
      Balanced ('<' :: inner ++ '>' :: rest)

/-- What has no meaning here. -/
inductive Aside where
  | comment (body : List Char) (unfinished : ¬ ['-', '-', '>'] <:+: body)
  /-- An instruction or the declaration of the version. -/
  | instruction (body : List Char) (unfinished : ¬ ['?', '>'] <:+: '?' :: body)
  | doctype (body : List Char) (balanced : Balanced body) (named : body.all isBlank = false)

/-- What has no meaning here, each with the white space before it. -/
abbrev Asides : Type :=
  List (Space × Aside)

/-! ## Elements -/

mutual

/-- An element from its start tag to its end. -/
inductive Passage where
  /-- An element that is closed by its start tag. -/
  | single (tag : Tag)
  /-- An element with an end tag, which may have white space before its bracket. -/
  | paired (tag : Tag) (content : Content) (ending : Space)

/-- What stands between a start tag and its end tag. -/
inductive Content where
  | last (chars : Chars)
  | aside (chars : Chars) (aside : Aside) (rest : Content)
  | data (chars : Chars) (data : CharacterData) (rest : Content)
  | inner (chars : Chars) (passage : Passage) (rest : Content)

end

/-- A document: its root element, with asides before and after it. -/
structure Document where
  /-- Whether a byte order mark is at its beginning. -/
  mark : Bool
  before : Asides
  beforeRoot : Space
  root : Passage
  after : Asides
  last : Space

/-! ## Writing -/

/-- The key that declares a namespace. -/
def namespaceKey : List Char :=
  "xmlns".toList

/-- The name of an element, qualified if there is a qualifier. -/
def Name.qualified (qualifier : Option Name) (name : Name) : List Char :=
  match qualifier with
  | none => name.text
  | some qualifier => qualifier.text ++ ':' :: name.text

/-- The key of an attribute of the root, which declares the namespace for the qualifier if there is
one. -/
def Name.declared (qualifier : Option Name) (key : Name) : List Char :=
  match qualifier with
  | none => key.text
  | some qualifier =>
      if key.text = namespaceKey then key.text ++ ':' :: qualifier.text else key.text

/-- An attribute with a given key. -/
def Attribute.written (key : List Char) (entry : Attribute) : List Char :=
  entry.before.text ++ key ++ entry.beforeEquals.text ++ '=' :: entry.afterEquals.text ++
    entry.value.quote :: entry.value.raw ++ [entry.value.quote]

/-- The content of a start tag with a given name, given how the keys are written. -/
def Tag.written (name : List Char) (keyOf : Name → List Char) (tag : Tag) : List Char :=
  name ++ tag.attributes.flatMap (fun entry => entry.written (keyOf entry.key)) ++
    tag.trailing.text

/-- Character data with its delimiters. -/
def CharacterData.written (data : CharacterData) : List Char :=
  '<' :: "![CDATA[".toList ++ data.text ++ [']', ']', '>']

/-- What has no meaning with its delimiters. -/
def Aside.written : Aside → List Char
  | comment body _ => '<' :: '!' :: '-' :: '-' :: body ++ ['-', '-', '>']
  | instruction body _ => '<' :: '?' :: body ++ ['?', '>']
  | doctype body _ _ => '<' :: "!DOCTYPE".toList ++ body ++ ['>']

/-- Asides with the white space before them. -/
def Asides.written (asides : Asides) : List Char :=
  asides.flatMap fun (space, aside) => space.text ++ aside.written

mutual

/-- The text of an element, given how the keys of its start tag are written. -/
def Passage.written (qualifier : Option Name) (keyOf : Name → List Char) : Passage → List Char
  | .single tag => '<' :: tag.written (tag.name.qualified qualifier) keyOf ++ ['/', '>']
  | .paired tag content ending =>
      '<' :: tag.written (tag.name.qualified qualifier) keyOf ++ '>' :: content.written qualifier ++
        '<' :: '/' :: tag.name.qualified qualifier ++ ending.text ++ ['>']

/-- The text of what stands between two tags. -/
def Content.written (qualifier : Option Name) : Content → List Char
  | .last chars => chars.raw
  | .aside chars aside rest => chars.raw ++ aside.written ++ rest.written qualifier
  | .data chars data rest => chars.raw ++ data.written ++ rest.written qualifier
  | .inner chars passage rest =>
      chars.raw ++ passage.written qualifier Name.text ++ rest.written qualifier

end

/-- The text of a document without a byte order mark. -/
def Document.body (qualifier : Option Name) (document : Document) : List Char :=
  document.before.written ++ document.beforeRoot.text ++
    document.root.written qualifier (Name.declared qualifier) ++ document.after.written ++
    document.last.text

/-- The text of a document. -/
def Document.written (qualifier : Option Name) (document : Document) : List Char :=
  if document.mark then '\uFEFF' :: document.body qualifier else document.body qualifier

/-! ## The element tree -/

/-- The attributes of a tag, given what their keys are as local names. -/
def Tag.values (keyOf : Name → String) (tag : Tag) : List (String × String) :=
  tag.attributes.map fun entry => (keyOf entry.key, String.ofList entry.value.value)

/-- A name as a local name. -/
def Name.string (name : Name) : String :=
  String.ofList name.text

/-- The key of an attribute of the root as a local name: the declaration of a namespace has the
qualifier for it as its local name. -/
def Name.declaredString (qualifier : Option Name) (key : Name) : String :=
  match qualifier with
  | none => key.string
  | some qualifier => if key.text = namespaceKey then qualifier.string else key.string

mutual

/-- The element that is written, given what the keys of its start tag are as local names. -/
def Passage.element (keyOf : Name → String) : Passage → Element
  | .single tag => Element.leaf tag.name.string (tag.values keyOf)
  | .paired tag content _ =>
      .mk tag.name.string (tag.values keyOf) content.elements (String.ofList content.characters)

/-- The elements between two tags. -/
def Content.elements : Content → List Element
  | .last _ => []
  | .aside _ _ rest => rest.elements
  | .data _ _ rest => rest.elements
  | .inner _ passage rest => passage.element Name.string :: rest.elements

/-- The text directly between two tags. -/
def Content.characters : Content → List Char
  | .last chars => chars.value
  | .aside chars _ rest => chars.value ++ rest.characters
  | .data chars data rest => chars.value ++ data.text ++ rest.characters
  | .inner chars _ rest => chars.value ++ rest.characters

end

/-- The root element of a document. -/
def Document.element (qualifier : Option Name) (document : Document) : Element :=
  document.root.element (Name.declaredString qualifier)

/-! ## Local names -/

theorem Name.colon_notMem (name : Name) : ':' ∉ name.text := by
  intro hmem
  have := name.plain ':' hmem
  contradiction

/-- A name without a colon is its own local name. -/
theorem localName_of_notMem {text : List Char} (h : ':' ∉ text) :
    localName text = String.ofList text := by
  have hdrop : text.dropWhile (· != ':') = [] :=
    List.dropWhile_eq_nil_iff.2 fun c hc => by
      rw [bne_iff_ne]
      exact fun heq => h (heq ▸ hc)
  rw [localName, hdrop]

/-- What stands before the first colon does not belong to the local name. -/
theorem localName_append {text : List Char} (h : ':' ∉ text) (rest : List Char) :
    localName (text ++ ':' :: rest) = String.ofList rest := by
  have hdrop : (text ++ ':' :: rest).dropWhile (· != ':') = ':' :: rest := by
    rw [List.dropWhile_append_of_pos]
    · simp
    · intro c hc
      rw [bne_iff_ne]
      exact fun heq => h (heq ▸ hc)
  rw [localName, hdrop]

/-- A qualifier does not belong to the local name. -/
theorem localName_qualified (qualifier : Option Name) (name : Name) :
    localName (name.qualified qualifier) = name.string := by
  cases qualifier with
  | none => exact localName_of_notMem name.colon_notMem
  | some qualifier => exact localName_append qualifier.colon_notMem name.text

/-- The local name of the declaration of a namespace is the qualifier that it is declared for. -/
theorem localName_declared (qualifier : Option Name) (key : Name) :
    localName (key.declared qualifier) = key.declaredString qualifier := by
  cases qualifier with
  | none => exact localName_of_notMem key.colon_notMem
  | some qualifier =>
      unfold Name.declared Name.declaredString
      by_cases hkey : key.text = namespaceKey
      · simp only [hkey, if_true]
        exact localName_append (by decide) qualifier.text
      · simp only [hkey, if_false]
        exact localName_of_notMem key.colon_notMem

end Markup
end ProjectAssembler
