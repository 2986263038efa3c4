import ProjectAssembler.Source.Lexeme

/-!
# The tokens of a source text

Tokens are what a scan for declarations looks at: identifiers, literals, punctuation and, if wanted,
documentation lines, each with the number of the line it begins on.

Main definitions:

* `Lexeme.token?`: the token that a lexeme gives, if any;
* `Token.ofText`: the tokens of a text.
-/

namespace ProjectAssembler

/-- The kinds of tokens. -/
inductive TokenKind where
  | identifier
  | literal
  | punctuation (c : Char)
  | documentation
deriving DecidableEq, Repr

/-- A token with its text and the number of its line, counted from one. -/
structure Token where
  kind : TokenKind
  text : String
  line : Nat
deriving DecidableEq, Repr

namespace Token

/-- Whether a token is a given punctuation character. -/
def isPunctuation (token : Token) (c : Char) : Bool :=
  token.kind == .punctuation c

/-- Whether a token is an identifier with a given text. -/
def isIdentifier (token : Token) (text : String) : Bool :=
  token.kind == .identifier && token.text == text

/-- The text of a documentation line: what follows the slashes, without one leading space and
without trailing carriage returns. -/
def documentationText (line : List Char) : List Char :=
  match Text.dropEnd (· == '\r') (line.drop 3) with
  | ' ' :: text => text
  | text => text

end Token

/-- The token that a lexeme on a given line gives.  White space and comments give none,
documentation lines only when they are wanted. -/
def Lexeme.token? (documentation : Bool) (line : Nat) : Lexeme → Option Token
  | .blank _ => none
  | .comment _ => none
  | .documentation text =>
      if documentation then
        some ⟨.documentation, String.ofList (Token.documentationText text), line⟩
      else none
  | .literal text => some ⟨.literal, String.ofList text, line⟩
  | .identifier _ name => some ⟨.identifier, String.ofList name, line⟩
  | .punctuation c => some ⟨.punctuation c, String.singleton c, line⟩

namespace Token

/-- The tokens of a sequence of lexemes of which the first begins on a given line. -/
def ofLexemes (documentation : Bool) (line : Nat) : List Lexeme → List Token
  | [] => []
  | lexeme :: rest =>
      (lexeme.token? documentation line).toList ++
        ofLexemes documentation (line + lexeme.source.count '\n') rest

/-- The tokens of a text. -/
def ofText (documentation : Bool) (text : List Char) : List Token :=
  ofLexemes documentation 1 (Lexeme.ofText text)

@[simp]
theorem ofLexemes_nil (documentation : Bool) (line : Nat) :
    ofLexemes documentation line [] = [] :=
  rfl

/-- Tokens of consecutive lexemes: the second part begins on the line where the first one ends. -/
theorem ofLexemes_append (documentation : Bool) (line : Nat) (first second : List Lexeme) :
    ofLexemes documentation line (first ++ second) =
      ofLexemes documentation line first ++
        ofLexemes documentation (line + ((first.map Lexeme.source).flatten).count '\n') second := by
  induction first generalizing line with
  | nil => simp
  | cons lexeme rest ih => simp [ofLexemes, ih, Nat.add_assoc]

end Token
end ProjectAssembler
