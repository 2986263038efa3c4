import ProjectAssembler.Text.LetterCase

/-!
# Lower case

The lower case of a text, character by character, with one exception that looks at the neighbours: a
capital sigma at the end of a word becomes a final sigma.

Main definitions: `Text.lowercaseOf` for one character and `Text.lowercase` for a text.

Main result: `Text.lowercase_of_ascii`: on ASCII text the lower case is that of the core library.
-/

namespace ProjectAssembler
namespace Text

/-- The lower case of a character by itself. -/
def lowercaseOf (c : Char) : List Char :=
  if c.toNat < 0x80 then [c.toLower]
  else if c = '\u0130' then ['i', '\u0307']
  else
    match lowercaseRuns.findSome? (·.image? c.toNat) with
    | some point => [Char.ofNat point]
    | none => [c]

/-- Whether a character has a case. -/
def isCased (c : Char) : Bool :=
  if c.toNat < 0x80 then c.isAlpha else casedCodePoints.contains c

/-- Whether a character is passed over when looking for a cased neighbour. -/
def isCaseIgnorable (c : Char) : Bool :=
  if c.toNat < 0x80 then c == '\'' || c == '.' || c == ':' || c == '^' || c == '`'
  else caseIgnorableCodePoints.contains c

/-- Whether the first character that is not passed over is cased. -/
def meetsCased (text : List Char) : Bool :=
  (text.dropWhile isCaseIgnorable).head?.any isCased

/-- The lower case of the rest of a text, given the reversed part before it. -/
def lowercaseAfter (before : List Char) : List Char → List Char
  | [] => []
  | c :: rest =>
      let image :=
        if c = 'Σ' then (if meetsCased before && !meetsCased rest then ['ς'] else ['σ'])
        else lowercaseOf c
      image ++ lowercaseAfter (c :: before) rest

/-- The lower case of a text. -/
def lowercase (text : List Char) : List Char :=
  lowercaseAfter [] text

/-- The lower case of a string. -/
def lowercaseString (text : String) : String :=
  String.ofList (lowercase text.toList)

theorem lowercaseAfter_of_ascii {before text : List Char} (h : ∀ c ∈ text, c.toNat < 0x80) :
    lowercaseAfter before text = text.map Char.toLower := by
  induction text generalizing before with
  | nil => rfl
  | cons c rest ih =>
      have hc : c.toNat < 0x80 := h c (by simp)
      have hsigma : c ≠ 'Σ' := by
        rintro rfl
        exact absurd hc (by decide)
      simp [lowercaseAfter, hsigma, lowercaseOf, hc, ih fun d hd => h d (by simp [hd])]

/-- On ASCII text the lower case is that of the core library. -/
theorem lowercase_of_ascii {text : List Char} (h : ∀ c ∈ text, c.toNat < 0x80) :
    lowercase text = text.map Char.toLower :=
  lowercaseAfter_of_ascii h

end Text
end ProjectAssembler
