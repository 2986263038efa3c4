import ProjectAssembler.Source.Literal

/-!
# The lexemes of a source text

Every character of a source text belongs to exactly one lexeme: white space, a comment, a
documentation line, a literal, an identifier or a single punctuation character.

Main definitions:

* `Lexeme.source`: the characters that a lexeme covers;
* `Lexeme.read`: the lexeme at the front of a text;
* `Lexeme.ofText`: all lexemes of a text.

Main results:

* `Lexeme.source_read`: a lexeme and what follows it are the text it was read from;
* `Lexeme.flatten_source_ofText`: the lexemes of a text, put together, are the text.
-/

namespace ProjectAssembler

/-- A piece of a source text. -/
inductive Lexeme where
  /-- A run of white space. -/
  | blank (text : List Char)
  /-- An ordinary comment with its delimiters. -/
  | comment (text : List Char)
  /-- A documentation line with its three slashes and without its line feed. -/
  | documentation (text : List Char)
  /-- A string, character or numeric literal. -/
  | literal (text : List Char)
  /-- An identifier or keyword, and whether it is written with a leading `@`. -/
  | identifier (verbatim : Bool) (name : List Char)
  /-- Any other single character. -/
  | punctuation (c : Char)
deriving DecidableEq, Repr

namespace Lexeme

/-- The characters that a lexeme covers. -/
def source : Lexeme → List Char
  | blank text => text
  | comment text => text
  | documentation text => text
  | literal text => text
  | identifier true name => '@' :: name
  | identifier false name => name
  | punctuation c => [c]

/-- The characters that begin an identifier. -/
def isIdentifierStart (c : Char) : Bool :=
  Text.isAlphabetic c || c == '_'

/-- The characters that continue an identifier or a number. -/
def isIdentifierPart (c : Char) : Bool :=
  Text.isAlphanumeric c || c == '_'

/-- The text after a delimited comment whose beginning has been read. -/
def afterComment : List Char → List Char
  | [] => []
  | '*' :: '/' :: text => text
  | _ :: text => afterComment text

/-- The text after a number whose first digit has been read: letters and digits, then at most one
fraction, which begins with a digit. -/
def afterNumber (text : List Char) : List Char :=
  match text.dropWhile isIdentifierPart with
  | '.' :: d :: rest =>
      if d.isDigit then rest.dropWhile isIdentifierPart else '.' :: d :: rest
  | rest => rest

/-- Whether the text after two slashes makes a documentation line: a third slash and no fourth. -/
def isDocumentationLine : List Char → Bool
  | '/' :: '/' :: _ => false
  | '/' :: _ => true
  | _ => false

/-- The part of a text that lies before one of its ends. -/
def upTo (text rest : List Char) : List Char :=
  text.take (text.length - rest.length)

/-- The lexeme that begins with a comment's or a line's slash, if one does. -/
def readComment? : Char → List Char → Option (Lexeme × List Char)
  | '/', '/' :: text =>
      let line := '/' :: '/' :: text.takeWhile (· != '\n')
      let rest := text.dropWhile (· != '\n')
      some (if isDocumentationLine text then documentation line else comment line, rest)
  | '/', '*' :: text =>
      some (comment (upTo ('/' :: '*' :: text) (afterComment text)), afterComment text)
  | _, _ => none

/-- The literal that begins with a quotation mark, an apostrophe or a digit, if one does. -/
def readLiteral? (c : Char) (text : List Char) : Option (Lexeme × List Char) :=
  let rest? :=
    match Enclosure.openString? (c :: text) with
    | some (opened, inside) => some (Enclosure.close [opened] inside)
    | none =>
        if c = '\'' then some (Enclosure.close [.character] text)
        else if c.isDigit then some (afterNumber text)
        else none
  rest?.map fun rest => (literal (upTo (c :: text) rest), rest)

/-- The identifier or the punctuation that begins with a character. -/
def readWord (c : Char) (text : List Char) : Lexeme × List Char :=
  if c = '@' ∧ text.head?.any isIdentifierStart = true then
    (identifier true (text.takeWhile isIdentifierPart), text.dropWhile isIdentifierPart)
  else if isIdentifierStart c then
    (identifier false (c :: text.takeWhile isIdentifierPart), text.dropWhile isIdentifierPart)
  else (punctuation c, text)

/-- The lexeme that begins with a character, and the text that follows it. -/
def read (c : Char) (text : List Char) : Lexeme × List Char :=
  if Text.isBlank c then
    (blank (c :: text.takeWhile Text.isBlank), text.dropWhile Text.isBlank)
  else
    match readComment? c text with
    | some result => result
    | none =>
        match readLiteral? c text with
        | some result => result
        | none => readWord c text

/-! ## Nothing is lost -/

theorem afterComment_isSuffix (text : List Char) : afterComment text <:+ text := by
  fun_induction afterComment text with
  | case1 => exact List.suffix_refl _
  | case2 text => exact (List.suffix_cons _ _).trans (List.suffix_cons _ _)
  | case3 c text _ ih => exact ih.trans (List.suffix_cons _ _)

theorem afterNumber_isSuffix (text : List Char) : afterNumber text <:+ text := by
  have h : text.dropWhile isIdentifierPart <:+ text := List.dropWhile_suffix _
  unfold afterNumber
  split
  · rename_i d rest heq
    rw [heq] at h
    split
    · exact (List.dropWhile_suffix _).trans
        (((List.suffix_cons _ _).trans (List.suffix_cons _ _)).trans h)
    · exact h
  · exact h

/-- The part before an end of a text and that end are the text. -/
theorem upTo_append {text rest : List Char} (h : rest <:+ text) :
    upTo text rest ++ rest = text := by
  obtain ⟨front, rfl⟩ := h
  simp [upTo]

theorem source_readComment? {c : Char} {text rest : List Char} {lexeme : Lexeme}
    (h : readComment? c text = some (lexeme, rest)) :
    lexeme.source ++ rest = c :: text ∧ rest <:+ text := by
  unfold readComment? at h
  split at h
  · rename_i text'
    obtain ⟨rfl, rfl⟩ := Prod.mk.inj (Option.some.inj h)
    refine ⟨?_, (List.dropWhile_suffix _).trans (List.suffix_cons _ _)⟩
    split <;> simp [source]
  · rename_i text'
    obtain ⟨rfl, rfl⟩ := Prod.mk.inj (Option.some.inj h)
    have hs := afterComment_isSuffix text'
    exact ⟨upTo_append (hs.trans ((List.suffix_cons _ _).trans (List.suffix_cons _ _))),
      hs.trans (List.suffix_cons _ _)⟩
  · simp at h

theorem source_readLiteral? {c : Char} {text rest : List Char} {lexeme : Lexeme}
    (h : readLiteral? c text = some (lexeme, rest)) :
    lexeme.source ++ rest = c :: text ∧ rest <:+ text := by
  have key : ∀ r : List Char, r <:+ text →
      some (literal (upTo (c :: text) r), r) = some (lexeme, rest) →
      lexeme.source ++ rest = c :: text ∧ rest <:+ text := by
    intro r hr heq
    obtain ⟨rfl, rfl⟩ := Prod.mk.inj (Option.some.inj heq)
    exact ⟨upTo_append (hr.trans (List.suffix_cons _ _)), hr⟩
  unfold readLiteral? at h
  simp only at h
  split at h
  · rename_i opened inside hopen
    exact key _ ((Enclosure.close_isSuffix _ _).trans (Enclosure.openString?_isSuffix hopen)) h
  · split at h
    · exact key _ (Enclosure.close_isSuffix _ _) h
    · split at h
      · exact key _ (afterNumber_isSuffix _) h
      · simp at h

theorem source_readWord (c : Char) (text : List Char) :
    (readWord c text).1.source ++ (readWord c text).2 = c :: text ∧
      (readWord c text).2 <:+ text := by
  unfold readWord
  split
  · rename_i h
    simp [source, h.1, List.dropWhile_suffix]
  · split <;> simp [source, List.dropWhile_suffix]

/-- A lexeme and what follows it are the text it was read from, and what follows is shorter. -/
theorem source_read (c : Char) (text : List Char) :
    (read c text).1.source ++ (read c text).2 = c :: text ∧ (read c text).2 <:+ text := by
  unfold read
  split
  · simp [source, List.dropWhile_suffix]
  · split
    · rename_i result h
      obtain ⟨lexeme, rest⟩ := result
      exact source_readComment? h
    · split
      · rename_i result h
        obtain ⟨lexeme, rest⟩ := result
        exact source_readLiteral? h
      · exact source_readWord c text

/-! ## All lexemes of a text -/

/-- The lexemes of a text, in order. -/
def ofText : List Char → List Lexeme
  | [] => []
  | c :: text => (read c text).1 :: ofText (read c text).2
termination_by text => text.length
decreasing_by exact Nat.lt_succ_of_le (source_read c text).2.length_le

@[simp]
theorem ofText_nil : ofText [] = [] := by
  unfold ofText
  rfl

theorem ofText_cons (c : Char) (text : List Char) :
    ofText (c :: text) = (read c text).1 :: ofText (read c text).2 := by
  rw [ofText]

/-- The lexemes of a text, put together, are the text. -/
theorem flatten_source_ofText (text : List Char) :
    ((ofText text).map source).flatten = text := by
  fun_induction ofText text with
  | case1 => rfl
  | case2 c text ih =>
      simp only [List.map_cons, List.flatten_cons, ih]
      exact (source_read c text).1

end Lexeme
end ProjectAssembler
