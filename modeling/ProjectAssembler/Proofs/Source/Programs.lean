import ProjectAssembler.Source.DeclarationScan

/-!
# Programs and the types that they declare

A program consists of namespaces and types, nested to any depth, and of other members that a scan
for declarations has to pass over.  This module spells programs as tokens and says which types they
declare.

Main definitions:

* `Grammar.Balanced`: tokens whose brackets match;
* `Grammar.Run`: tokens that declare nothing;
* `Grammar.singleKeywords`: the keywords that introduce a type by themselves;
* `Grammar.Heading`: a type declaration up to its body;
* `Grammar.Member`, `Grammar.Item` and `Grammar.Program` with their `tokens` and `declarations`.
-/

namespace ProjectAssembler
namespace Grammar

/-! ## Tokens -/

/-- An identifier and the line that it is on. -/
structure Word where
  text : String
  line : Nat
deriving DecidableEq, Repr

/-- The token of an identifier. -/
def Word.token (word : Word) : Token :=
  ⟨.identifier, word.text, word.line⟩

/-- The token of a punctuation character on a line. -/
def mark (c : Char) (line : Nat) : Token :=
  ⟨.punctuation c, String.singleton c, line⟩

/-- The kinds of brackets. -/
inductive Bracket where
  | round
  | square
  | curly
deriving DecidableEq, Repr

namespace Bracket

/-- The character that opens a bracket. -/
def opening : Bracket → Char
  | round => '('
  | square => '['
  | curly => '{'

/-- The character that closes a bracket. -/
def closing : Bracket → Char
  | round => ')'
  | square => ']'
  | curly => '}'

end Bracket

/-- Whether a token opens a bracket. -/
def Opens (token : Token) : Prop :=
  ∃ bracket : Bracket, token.kind = .punctuation bracket.opening

/-- Whether a token closes a bracket. -/
def Closes (token : Token) : Prop :=
  ∃ bracket : Bracket, token.kind = .punctuation bracket.closing

/-- Tokens whose brackets match. -/
inductive Balanced : List Token → Prop where
  | nil : Balanced []
  | cons {token : Token} {rest : List Token} (hopens : ¬ Opens token) (hcloses : ¬ Closes token)
      (hrest : Balanced rest) : Balanced (token :: rest)
  | group (bracket : Bracket) {first last : Token} {inner rest : List Token}
      (hfirst : first.kind = .punctuation bracket.opening) (hinner : Balanced inner)
      (hlast : last.kind = .punctuation bracket.closing) (hrest : Balanced rest) :
      Balanced (first :: inner ++ last :: rest)

/-! ## Members that declare nothing -/

/-- Whether a token is a brace or a semicolon. -/
def isStop (token : Token) : Bool :=
  token.isPunctuation '{' || token.isPunctuation '}' || token.isPunctuation ';'

/-- Whether a token is one of the keywords of type declarations. -/
def isTypeKeyword (token : Token) : Bool :=
  token.kind == .identifier && (TypeKind.ofKeyword? token.text).isSome

/-- Whether the kind of a token is that of a colon or a comma. -/
def isConstraintMark (kind : Option TokenKind) : Bool :=
  kind == some (.punctuation ':') || kind == some (.punctuation ',')

/-- Tokens without braces, semicolons and `namespace`, in which a type keyword stands only directly
after a colon or a comma; `previous` is the kind of the token before them. -/
def Harmless (previous : Option TokenKind) : List Token → Prop
  | [] => True
  | token :: rest =>
      isStop token = false ∧ token.isIdentifier "namespace" = false ∧
        (isTypeKeyword token = true → isConstraintMark previous = true) ∧
        Harmless (some token.kind) rest

/-- A run of tokens that declares nothing. -/
structure Run where
  tokens : List Token
  balanced : Balanced tokens
  harmless : Harmless none tokens

/-- How a member ends: with a semicolon, or with a block between braces. -/
inductive Ending where
  | semicolon (line : Nat)
  | block (opening : Nat) (content : List Token) (closing : Nat) (balanced : Balanced content)

/-- The tokens of an ending. -/
def Ending.tokens : Ending → List Token
  | semicolon line => [mark ';' line]
  | block opening content closing _ => mark '{' opening :: content ++ [mark '}' closing]

/-- A member that declares nothing. -/
structure Filler where
  run : Run
  ending : Ending

/-- The tokens of a member that declares nothing. -/
def Filler.tokens (filler : Filler) : List Token :=
  filler.run.tokens ++ filler.ending.tokens

/-! ## Attributes -/

/-- How a segment of a qualified name is joined to the one before: by a dot or by two colons. -/
inductive Joint where
  | dot (line : Nat)
  | colons (first second : Nat)
deriving DecidableEq, Repr

/-- The tokens of a joint. -/
def Joint.tokens : Joint → List Token
  | dot line => [mark '.' line]
  | colons first second => [mark ':' first, mark ':' second]

/-- The segments of a qualified name after the first one. -/
abbrev Segments : Type :=
  List (Joint × Word)

/-- The tokens of further segments. -/
def segmentTokens (segments : Segments) : List Token :=
  segments.flatMap fun segment => segment.1.tokens ++ [segment.2.token]

/-- The last segment of a name with a given first segment. -/
def lastOf (first : String) (segments : Segments) : String :=
  match segments.getLast? with
  | some segment => segment.2.text
  | none => first

/-- The arguments of an attribute, between parentheses. -/
structure Arguments where
  opening : Nat
  content : List Token
  closing : Nat
  balanced : Balanced content

/-- The tokens of arguments. -/
def Arguments.tokens (arguments : Arguments) : List Token :=
  mark '(' arguments.opening :: arguments.content ++ [mark ')' arguments.closing]

/-- An attribute: a name, simple or qualified, with or without arguments. -/
structure Attribute where
  first : Word
  segments : Segments
  arguments : Option Arguments

namespace Attribute

/-- The tokens of an attribute after the first segment of its name. -/
def following (own : Attribute) : List Token :=
  segmentTokens own.segments ++ (own.arguments.map Arguments.tokens).getD []

/-- The tokens of an own. -/
def tokens (own : Attribute) : List Token :=
  own.first.token :: own.following

/-- The name that an attribute is known by. -/
def name (own : Attribute) : String :=
  lastOf own.first.text own.segments

end Attribute

/-- An attribute section: attributes with commas between them, in brackets. -/
structure Section where
  opening : Nat
  first : Attribute
  others : List (Nat × Attribute)
  closing : Nat

namespace Section

/-- The tokens of the attributes after the first one, each with the comma before it. -/
def otherTokens (others : List (Nat × Attribute)) : List Token :=
  others.flatMap fun other => mark ',' other.1 :: other.2.tokens

/-- The tokens of a section. -/
def tokens (part : Section) : List Token :=
  mark '[' part.opening :: part.first.tokens ++ otherTokens part.others ++ [mark ']' part.closing]

/-- The names of the attributes of a section. -/
def names (part : Section) : List String :=
  part.first.name :: part.others.map fun other => other.2.name

end Section

/-! ## Headings -/

/-- What comes before the modifiers of a type: documentation lines and attribute sections. -/
inductive Lead where
  | documentation (text : String) (line : Nat)
  | attributes (part : Section)

namespace Lead

/-- The tokens of a lead. -/
def tokens : Lead → List Token
  | documentation text line => [⟨.documentation, text, line⟩]
  | attributes part => part.tokens

/-- The attributes that a lead names. -/
def names : Lead → List String
  | documentation _ _ => []
  | attributes part => part.names

/-- The documentation lines of a lead. -/
def lines : Lead → List String
  | documentation text _ => [text]
  | attributes _ => []

end Lead

/-- The keywords that say a kind by themselves. -/
def singleKeywords : List (String × TypeKind) :=
  [("class", .classType), ("struct", .structType), ("interface", .interfaceType),
    ("enum", .enumType), ("record", .recordType)]

/-- These are the keywords of type declarations. -/
theorem ofKeyword?_eq_some_iff {text : String} {kind : TypeKind} :
    TypeKind.ofKeyword? text = some kind ↔ (text, kind) ∈ singleKeywords := by
  unfold TypeKind.ofKeyword?
  split <;> simp_all [singleKeywords, eq_comm]

/-- The keywords that say what kind of type is declared. -/
inductive KindWords where
  | single (kind : TypeKind) (word : Word) (hkind : (word.text, kind) ∈ singleKeywords)
  | recordClass (first second : Nat)
  | recordStruct (first second : Nat)

namespace KindWords

/-- The tokens of the keywords. -/
def tokens : KindWords → List Token
  | single _ word _ => [word.token]
  | recordClass first second => [⟨.identifier, "record", first⟩, ⟨.identifier, "class", second⟩]
  | recordStruct first second => [⟨.identifier, "record", first⟩, ⟨.identifier, "struct", second⟩]

/-- The kind that the keywords say. -/
def kind : KindWords → TypeKind
  | single kind _ _ => kind
  | recordClass _ _ => .recordType
  | recordStruct _ _ => .recordStructType

end KindWords

/-- Whether a word has a meaning of its own before or after a type keyword. -/
def isReserved (text : String) : Bool :=
  text == "namespace" || (TypeKind.ofKeyword? text).isSome ||
    DeclarationScan.notNames.contains text

/-- A type declaration up to its body: documentation and attributes, modifiers, the keywords of its
kind, its name, and whatever else comes before the body. -/
structure Heading where
  leads : List Lead
  modifiers : List Word
  keywords : KindWords
  name : Word
  tail : List Token
  modifiers_free : ∀ word ∈ modifiers,
    word.text ≠ "namespace" ∧ TypeKind.ofKeyword? word.text = none
  name_free : isReserved name.text = false
  tail_free : ∀ token ∈ tail, isStop token = false

/-- Where a declaration stands: the namespaces and the types around it, outermost first. -/
structure Place where
  spaces : List String
  types : List String
deriving DecidableEq, Repr

/-- Parts of a name with dots between them, if there are any. -/
def dotted? : List String → Option String
  | [] => none
  | parts => some (".".intercalate parts)

namespace Heading

/-- The tokens of a heading. -/
def tokens (heading : Heading) : List Token :=
  heading.leads.flatMap Lead.tokens ++ heading.modifiers.map Word.token ++
    heading.keywords.tokens ++ heading.name.token :: heading.tail

/-- What a heading declares at a place. -/
def declaration (heading : Heading) (place : Place) : Declaration where
  kind := heading.keywords.kind
  name := heading.name.text
  enclosingNamespace := dotted? place.spaces
  containing := place.types
  attributes := heading.leads.flatMap Lead.names
  documentation :=
    match heading.leads.flatMap Lead.lines with
    | [] => none
    | lines => some ("\n".intercalate lines)
  line := heading.name.line

end Heading

/-! ## Members -/

/-- A member of a type or of a namespace: one that declares nothing, a type without a body, or a
type with members between braces, of which the last may lack an ending, as the values of an
enumeration do. -/
inductive Member where
  | filler (filler : Filler)
  | bodiless (heading : Heading) (semicolon : Nat)
  | type (heading : Heading) (opening : Nat) (members : List Member) (trailing : Run)
      (closing : Nat)

mutual

/-- The tokens of a member. -/
def Member.tokens : Member → List Token
  | .filler filler => filler.tokens
  | .bodiless heading semicolon => heading.tokens ++ [mark ';' semicolon]
  | .type heading opening members trailing closing =>
      heading.tokens ++ (mark '{' opening ::
        (memberTokens members ++ trailing.tokens ++ [mark '}' closing]))
termination_by structural member => member

/-- The tokens of members one after the other. -/
def memberTokens : List Member → List Token
  | [] => []
  | member :: rest => member.tokens ++ memberTokens rest
termination_by structural members => members

end

mutual

/-- The types that a member declares at a place, each before those inside of it. -/
def Member.declarations (place : Place) : Member → List Declaration
  | .filler _ => []
  | .bodiless heading _ => [heading.declaration place]
  | .type heading _ members _ _ =>
      heading.declaration place ::
        memberDeclarations ⟨place.spaces, place.types ++ [heading.name.text]⟩ members
termination_by structural member => member

/-- The types that members declare at a place. -/
def memberDeclarations (place : Place) : List Member → List Declaration
  | [] => []
  | member :: rest => member.declarations place ++ memberDeclarations place rest
termination_by structural members => members

end

/-! ## Namespaces and programs -/

/-- The name of a namespace: words with dots between them. -/
structure SpaceName where
  first : Word
  others : List (Nat × Word)

namespace SpaceName

/-- The tokens of a namespace's name. -/
def tokens (name : SpaceName) : List Token :=
  name.first.token :: name.others.flatMap fun other => [mark '.' other.1, other.2.token]

/-- The name as it is written. -/
def text (name : SpaceName) : String :=
  ".".intercalate (name.first.text :: name.others.map fun other => other.2.text)

end SpaceName

/-- The token that begins a namespace. -/
def spaceKeyword (line : Nat) : Token :=
  ⟨.identifier, "namespace", line⟩

/-- A part of a program: a member, or a namespace with its parts between braces. -/
inductive Item where
  | member (member : Member)
  | space (keyword : Nat) (name : SpaceName) (opening : Nat) (items : List Item) (closing : Nat)

mutual

/-- The tokens of a part of a program. -/
def Item.tokens : Item → List Token
  | .member member => member.tokens
  | .space keyword name opening items closing =>
      spaceKeyword keyword :: name.tokens ++
        (mark '{' opening :: (itemTokens items ++ [mark '}' closing]))
termination_by structural item => item

/-- The tokens of parts one after the other. -/
def itemTokens : List Item → List Token
  | [] => []
  | item :: rest => item.tokens ++ itemTokens rest
termination_by structural items => items

end

mutual

/-- The types that a part of a program declares inside of given namespaces. -/
def Item.declarations (spaces : List String) : Item → List Declaration
  | .member member => member.declarations ⟨spaces, []⟩
  | .space _ name _ items _ => itemDeclarations (spaces ++ [name.text]) items
termination_by structural item => item

/-- The types that parts of a program declare inside of given namespaces. -/
def itemDeclarations (spaces : List String) : List Item → List Declaration
  | [] => []
  | item :: rest => item.declarations spaces ++ itemDeclarations spaces rest
termination_by structural items => items

end

/-- The namespace of a whole file. -/
structure FileSpace where
  keyword : Nat
  name : SpaceName
  semicolon : Nat

/-- The tokens of the namespace of a file. -/
def FileSpace.tokens (space : FileSpace) : List Token :=
  spaceKeyword space.keyword :: space.name.tokens ++ [mark ';' space.semicolon]

/-- A program: members that declare nothing, such as usings, the namespace of the file if it has
one, and what it consists of. -/
structure Program where
  fillers : List Filler
  space : Option FileSpace
  items : List Item

namespace Program

/-- The tokens of a program. -/
def tokens (program : Program) : List Token :=
  program.fillers.flatMap Filler.tokens ++ (program.space.map FileSpace.tokens).getD [] ++
    itemTokens program.items

/-- The types that a program declares, in the order of their headings. -/
def declarations (program : Program) : List Declaration :=
  itemDeclarations (program.space.map fun space => space.name.text).toList program.items

end Program

end Grammar
end ProjectAssembler
