import ProjectAssembler.Proofs.Source.PlainLines
import ProjectAssembler.Source.Annotations

/-!
# The declarations of the added tree

The tree that is added to a compilation is read like every other source.  Its text holds no
directives, so it declares the same types whatever symbols are defined.

Main definition: `SourceTree.annotationDeclarations`.

Main results:

* `SourceTree.declarations_annotations`: what the added tree declares;
* `SourceTree.declaresMarker_annotations`: the marking attribute is among it.
-/

namespace ProjectAssembler
namespace SourceTree

/-! ## The added tree -/

/-- A declaration of the added tree. -/
def inMessagePack (kind : TypeKind) (attributes : List String) (name : String) (line : Nat) :
    Declaration where
  kind := kind
  name := name
  enclosingNamespace := some "MessagePack"
  containing := []
  attributes := attributes
  documentation := none
  line := line

/-- The declarations of the added tree: six attribute classes and an interface. -/
def annotationDeclarations : List Declaration :=
  [inMessagePack .classType ["AttributeUsage"] "MessagePackObjectAttribute" 6,
    inMessagePack .classType ["AttributeUsage"] "KeyAttribute" 17,
    inMessagePack .classType ["AttributeUsage"] "IgnoreMemberAttribute" 35,
    inMessagePack .classType ["AttributeUsage"] "UnionAttribute" 40,
    inMessagePack .classType ["AttributeUsage"] "SerializationConstructorAttribute" 54,
    inMessagePack .classType ["AttributeUsage"] "MessagePackFormatterAttribute" 59,
    inMessagePack .interfaceType [] "IMessagePackSerializationCallbackReceiver" 77]

set_option maxRecDepth 20000 in
/-- The characters of the added tree: none is a number sign, the first one is no byte order mark,
and the types that they declare do not depend on the treatment of documentation lines. -/
theorem exists_annotationsText :
    ∃ text, annotationsText = String.ofList text ∧ '#' ∉ text ∧ text.head? = some 'u' ∧
      ∀ documentation, Declaration.ofTokens (Token.ofText documentation text) =
        annotationDeclarations :=
  -- The characters are taken from the literal by unification; decoding it would be expensive.
  ⟨_, rfl, by decide +kernel, by decide +kernel, by decide +kernel⟩

/-- The added tree declares the same types whatever options it is read with. -/
theorem declarations_annotations (options : ParseOptions) :
    (annotations options).declarations = annotationDeclarations := by
  obtain ⟨text, htext, hmark, hhead, hdeclarations⟩ := exists_annotationsText
  have hchars : annotationsText.toList = text := by rw [htext, String.toList_ofList]
  have hwhole : withoutMark annotationsText = annotationsText :=
    withoutMark_of_head? (hchars ▸ hhead) (by decide)
  change declarationsOf options (withoutMark annotationsText).toList = annotationDeclarations
  rw [hwhole, hchars, declarationsOf, ActiveText.activeText_of_not_mem _ hmark, hdeclarations]

/-- The added tree declares the class of the marking attribute. -/
theorem declaresMarker_annotations (options : ParseOptions) :
    (annotations options).declaresMarker = true := by
  rw [declaresMarker, declarations_annotations]
  decide

end SourceTree
end ProjectAssembler
