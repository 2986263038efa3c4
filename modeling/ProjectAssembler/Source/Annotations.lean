import ProjectAssembler.Source.Tree

/-!
# Declarations of the serialization attributes

Sources mark the types that are to be serialized by attributes of a library.  Where no source
declares these attributes, a tree that does is added to the compilation.

Main definitions:

* `SourceTree.declaresMarker`: whether a file declares the class of the marking attribute;
* `SourceTree.annotations`: the tree that declares all attributes.
-/

namespace ProjectAssembler
namespace SourceTree

/-- The name of the attribute class that marks a serializable type. -/
def markerName : String :=
  "MessagePackObjectAttribute"

/-- Whether a file declares the class of the marking attribute in its active text. -/
def declaresMarker (tree : SourceTree) : Bool :=
  tree.declarations.any fun declaration =>
    declaration.kind == .classType && declaration.name == markerName

/-- The path that the added tree is reported under. -/
def annotationsPath : Path :=
  ⟨"<generated>/MessagePack.Annotations.cs"⟩

/-- The text of the added tree. -/
def annotationsText : String :=
  "using System;

namespace MessagePack
\x7b
    [AttributeUsage(AttributeTargets.Class | AttributeTargets.Struct, AllowMultiple = false, Inherited = true)]
    public class MessagePackObjectAttribute : Attribute
    \x7b
        public bool KeyAsPropertyName \x7b get; private set; \x7d

        public MessagePackObjectAttribute(bool keyAsPropertyName = false)
        \x7b
            this.KeyAsPropertyName = keyAsPropertyName;
        \x7d
    \x7d

    [AttributeUsage(AttributeTargets.Property | AttributeTargets.Field, AllowMultiple = false, Inherited = true)]
    public class KeyAttribute : Attribute
    \x7b
        public int? IntKey \x7b get; private set; \x7d

        public string StringKey \x7b get; private set; \x7d

        public KeyAttribute(int x)
        \x7b
            this.IntKey = x;
        \x7d

        public KeyAttribute(string x)
        \x7b
            this.StringKey = x;
        \x7d
    \x7d

    [AttributeUsage(AttributeTargets.Property | AttributeTargets.Field, AllowMultiple = false, Inherited = true)]
    public class IgnoreMemberAttribute : Attribute
    \x7b
    \x7d

    [AttributeUsage(AttributeTargets.Interface | AttributeTargets.Class, AllowMultiple = true, Inherited = false)]
    public class UnionAttribute : Attribute
    \x7b
        public int Key \x7b get; private set; \x7d

        public Type SubType \x7b get; private set; \x7d

        public UnionAttribute(int key, Type subType)
        \x7b
            this.Key = key;
            this.SubType = subType;
        \x7d
    \x7d

    [AttributeUsage(AttributeTargets.Constructor, AllowMultiple = false, Inherited = true)]
    public class SerializationConstructorAttribute : Attribute
    \x7b
    \x7d

    [AttributeUsage(AttributeTargets.Class | AttributeTargets.Struct | AttributeTargets.Interface | AttributeTargets.Enum | AttributeTargets.Field | AttributeTargets.Property, AllowMultiple = false, Inherited = true)]
    public class MessagePackFormatterAttribute : Attribute
    \x7b
        public Type FormatterType \x7b get; private set; \x7d

        public object[] Arguments \x7b get; private set; \x7d

        public MessagePackFormatterAttribute(Type formatterType)
        \x7b
            this.FormatterType = formatterType;
        \x7d

        public MessagePackFormatterAttribute(Type formatterType, params object[] arguments)
        \x7b
            this.FormatterType = formatterType;
            this.Arguments = arguments;
        \x7d
    \x7d

    public interface IMessagePackSerializationCallbackReceiver
    \x7b
        void OnBeforeSerialize();

        void OnAfterDeserialize();
    \x7d
\x7d
"

/-- The tree that declares the serialization attributes. -/
def annotations (options : ParseOptions) : SourceTree :=
  { parse annotationsPath annotationsText options with generated := true }

@[simp]
theorem annotations_generated (options : ParseOptions) :
    (annotations options).generated = true :=
  rfl

@[simp]
theorem annotations_path (options : ParseOptions) : (annotations options).path = annotationsPath :=
  rfl

end SourceTree
end ProjectAssembler
