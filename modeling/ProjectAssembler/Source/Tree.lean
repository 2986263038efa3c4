import ProjectAssembler.Path.FileName
import ProjectAssembler.Source.ActiveText
import ProjectAssembler.Source.DeclarationScan

/-!
# Source trees

A source tree is a file's path and text with the types declared in its active regions.

Main definitions:

* `ParseOptions`: what decides how a text is read;
* `SourceTree.parse`: the tree of a file's text;
* `SourceTree.isAttributesFile`: whether a file is named for holding attribute declarations.

Main results: `SourceTree.toList_withoutMark_eq`, `SourceTree.parse_path` and
`SourceTree.parse_text`.
-/

namespace ProjectAssembler

/-- Whether documentation lines are kept. -/
inductive DocumentationMode where
  | dropped
  | kept
deriving DecidableEq, Repr

/-- The options that every source of a compilation is read with. -/
structure ParseOptions where
  documentation : DocumentationMode
  symbols : Symbols
deriving DecidableEq, Repr

/-- Options that keep documentation lines. -/
def ParseOptions.ofSymbols (symbols : Symbols) : ParseOptions :=
  ⟨.kept, symbols⟩

/-- One source file that has been read. -/
structure SourceTree where
  path : Path
  text : String
  declarations : List Declaration
  /-- Whether the tree was made by this library and not read from a file. -/
  generated : Bool
deriving DecidableEq, Repr

namespace SourceTree

/-- A text without a byte order mark at its beginning. -/
def withoutMark (text : String) : String :=
  match text.toList with
  | '\uFEFF' :: rest => String.ofList rest
  | _ => text

/-- A byte order mark is the first character of a text. -/
theorem toList_withoutMark_eq (text : String) :
    (withoutMark text).toList =
      if text.toList.head? = some '\uFEFF' then text.toList.tail else text.toList := by
  unfold withoutMark
  split
  · rename_i rest heq
    rw [heq, String.toList_ofList]
    rfl
  · rename_i hmark
    rw [if_neg]
    intro hhead
    obtain ⟨rest, hrest⟩ := List.head?_eq_some_iff.1 hhead
    exact hmark rest hrest

theorem withoutMark_of_head? {text : String} {c : Char} (h : text.toList.head? = some c)
    (hc : c ≠ '\uFEFF') : withoutMark text = text := by
  unfold withoutMark
  split
  · rename_i rest hmark
    rw [hmark, List.head?_cons, Option.some.injEq] at h
    exact absurd h.symm hc
  · rfl

/-- The characters of a text that is given by them and has no byte order mark at its beginning. -/
theorem toList_withoutMark {text : String} {characters : List Char} {c : Char}
    (htext : text = String.ofList characters) (h : characters.head? = some c)
    (hc : c ≠ '\uFEFF') : (withoutMark text).toList = characters := by
  rw [withoutMark_of_head? (by rw [htext, String.toList_ofList, h]) hc, htext,
    String.toList_ofList]

/-- The declarations in the active regions of a text. -/
def declarationsOf (options : ParseOptions) (text : List Char) : List Declaration :=
  Declaration.ofTokens
    (Token.ofText (options.documentation == .kept) (activeText options.symbols text))

/-- The tree of a file with a given text. -/
def parse (path : Path) (text : String) (options : ParseOptions) : SourceTree where
  path := path
  text := withoutMark text
  declarations := declarationsOf options (withoutMark text).toList
  generated := false

/-- Whether a file has the conventional name of files with attribute declarations. -/
def isAttributesFile (tree : SourceTree) : Bool :=
  tree.path.stem? == some "Attributes"

@[simp]
theorem parse_path (path : Path) (text : String) (options : ParseOptions) :
    (parse path text options).path = path :=
  rfl

@[simp]
theorem parse_text (path : Path) (text : String) (options : ParseOptions) :
    (parse path text options).text = withoutMark text :=
  rfl

@[simp]
theorem parse_generated (path : Path) (text : String) (options : ParseOptions) :
    (parse path text options).generated = false :=
  rfl

end SourceTree
end ProjectAssembler
