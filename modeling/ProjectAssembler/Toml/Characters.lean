/-!
# Characters of TOML documents

Which characters may stand where in a TOML document, and how blanks, comments and line ends are
skipped.

Main definitions:

* `Toml.isPlain`: the characters of comments and strings;
* `Toml.skipSpaces`, `Toml.skipBlank` and `Toml.lineEnd?`: what may stand between the parts of a
  document.

Main results: `Toml.length_skipSpaces_le` and `Toml.length_skipBlank_le`.
-/

namespace ProjectAssembler.Toml

/-- Spaces within a line. -/
def isSpace (c : Char) : Bool :=
  c == ' ' || c == '\t'

/-- The characters that comments and strings are made of: everything but control characters, among
which a tab is allowed. -/
def isPlain (c : Char) : Bool :=
  c == '\t' || (0x20 ≤ c.toNat && c.toNat != 0x7F)

/-- Leave out the spaces at the beginning. -/
def skipSpaces (text : List Char) : List Char :=
  text.dropWhile isSpace

/-- Leave out the comment at the beginning, if there is one. -/
def skipComment : List Char → List Char
  | '#' :: rest => rest.dropWhile isPlain
  | text => text

/-- The text after the line end that it begins with. -/
def newline? : List Char → Option (List Char)
  | '\n' :: rest => some rest
  | '\r' :: '\n' :: rest => some rest
  | _ => none

/-- The text after what may follow a statement on its line: spaces, a comment, and the end of the
line or of the document. -/
def lineEnd? (text : List Char) : Option (List Char) :=
  match skipComment (skipSpaces text) with
  | [] => some []
  | rest => newline? rest

/-- Leave out spaces, line ends and comments.  A comment has to end with its line. -/
def skipBlankFrom (inComment : Bool) : List Char → Option (List Char)
  | [] => if inComment then none else some []
  | '\n' :: rest => skipBlankFrom false rest
  | '\r' :: '\n' :: rest => skipBlankFrom false rest
  | c :: rest =>
      if inComment then if isPlain c then skipBlankFrom true rest else none
      else if isSpace c then skipBlankFrom false rest
      else if c = '#' then skipBlankFrom true rest
      else some (c :: rest)

/-- Leave out spaces, line ends and comments at the beginning. -/
def skipBlank (text : List Char) : Option (List Char) :=
  skipBlankFrom false text

theorem length_skipSpaces_le (text : List Char) : (skipSpaces text).length ≤ text.length :=
  (List.dropWhile_suffix isSpace).length_le

/-- What is left after spaces is no longer than the text. -/
theorem length_le_of_skipSpaces {text rest : List Char} (h : skipSpaces text = rest) :
    rest.length ≤ text.length :=
  h ▸ length_skipSpaces_le text

/-- What follows the first character that is no space is shorter than the text. -/
theorem length_lt_of_skipSpaces {text rest : List Char} {c : Char}
    (h : skipSpaces text = c :: rest) : rest.length < text.length :=
  Nat.lt_of_lt_of_le (Nat.lt_succ_self _) (length_le_of_skipSpaces h)

theorem length_skipBlankFrom_le {inComment : Bool} {text rest : List Char}
    (h : skipBlankFrom inComment text = some rest) : rest.length ≤ text.length := by
  fun_induction skipBlankFrom inComment text with
  | case1 => simp at h
  | case2 => simp_all
  | case3 | case5 | case7 | case8 =>
      rename_i ih
      exact Nat.le_succ_of_le (ih h)
  | case4 =>
      rename_i ih
      exact Nat.le_trans (ih h) (by simp only [List.length_cons]; omega)
  | case6 => simp at h
  | case9 =>
      exact Nat.le_of_eq (congrArg List.length (Option.some.inj h).symm)

/-- Skipping blanks makes no text longer. -/
theorem length_skipBlank_le {text rest : List Char} (h : skipBlank text = some rest) :
    rest.length ≤ text.length :=
  length_skipBlankFrom_le h

end ProjectAssembler.Toml
