import ProjectAssembler.Source.Token

/-!
# Type declarations

What is recorded of a type that a source file declares, and the questions asked about it.

Main definitions:

* `Declaration`: a declared type with its surroundings;
* `Declaration.fullName`: its qualified name;
* `Declaration.hasAttribute`: whether it carries an attribute, named with or without its suffix.
-/

namespace ProjectAssembler

/-- The kinds of types that can be declared. -/
inductive TypeKind where
  | classType
  | structType
  | interfaceType
  | enumType
  | recordType
  | recordStructType
deriving DecidableEq, Repr

namespace TypeKind

/-- The kind that a keyword introduces. -/
def ofKeyword? : String → Option TypeKind
  | "class" => some classType
  | "struct" => some structType
  | "interface" => some interfaceType
  | "enum" => some enumType
  | "record" => some recordType
  | _ => none

/-- The keywords of a kind as they are written in a declaration. -/
def keywords : TypeKind → String
  | classType => "class"
  | structType => "struct"
  | interfaceType => "interface"
  | enumType => "enum"
  | recordType => "record"
  | recordStructType => "record struct"

/-- The name of a kind as one word. -/
def identifier : TypeKind → String
  | recordStructType => "record_struct"
  | kind => kind.keywords

end TypeKind

/-- A type declared in a source file. -/
structure Declaration where
  kind : TypeKind
  name : String
  /-- The enclosing namespace, with dots between its parts. -/
  enclosingNamespace : Option String
  /-- The enclosing types, outermost first. -/
  containing : List String
  /-- The names of the attributes as written, without arguments and qualifiers. -/
  attributes : List String
  /-- The documentation lines, joined by line feeds. -/
  documentation : Option String
  /-- The line of the name, counted from one. -/
  line : Nat
deriving DecidableEq, Repr

namespace Declaration

/-- The ending that an attribute's class name may have and its uses may leave out. -/
def attributeEnding : String :=
  "Attribute"

/-- A name without the ending of attribute classes, if it has it. -/
def withoutAttributeEnding (name : String) : String :=
  match Text.afterStart? attributeEnding.toList.reverse name.toList.reverse with
  | some reversed => String.ofList reversed.reverse
  | none => name

/-- The name of a type with its namespace, a dot after it, and its enclosing types, a plus sign
after each. -/
def fullName (declaration : Declaration) : String :=
  let qualifier :=
    match declaration.enclosingNamespace with
    | some name => name ++ "."
    | none => ""
  qualifier ++ String.join (declaration.containing.map (· ++ "+")) ++ declaration.name

/-- Whether a type carries an attribute; the ending of attribute classes does not matter. -/
def hasAttribute (declaration : Declaration) (name : String) : Bool :=
  declaration.attributes.any fun own =>
    withoutAttributeEnding own == withoutAttributeEnding name

/-- An attribute that is recorded is found. -/
theorem hasAttribute_of_mem {declaration : Declaration} {name : String}
    (h : name ∈ declaration.attributes) : declaration.hasAttribute name = true :=
  List.any_eq_true.2 ⟨name, h, by simp⟩

end Declaration
end ProjectAssembler
