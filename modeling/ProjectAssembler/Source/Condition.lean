import ProjectAssembler.Source.Symbols
import ProjectAssembler.Text.CharacterClass

/-!
# Conditions of conditional compilation

A condition is built from symbols with `!`, `==`, `!=`, `&&`, `||` and parentheses.  From the
lowest precedence to the highest the operators are `||`, `&&`, the two equalities (all three
levels group to the left) and `!`.

Main definitions:

* `Condition.Token.tokenize?`: the tokens of a text, or nothing for a character that begins none;
* `Condition.parse?`: the condition that a whole token list spells;
* `Condition.eval`: its value under a set of symbols;
* `Condition.holds`: the value of a text, where a malformed text is false.
-/

namespace ProjectAssembler

/-- A condition over compilation symbols. -/
inductive Condition where
  | constant (value : Bool)
  | symbol (name : String)
  | negation (operand : Condition)
  | equality (left right : Condition)
  | inequality (left right : Condition)
  | conjunction (left right : Condition)
  | disjunction (left right : Condition)
deriving DecidableEq, Repr

namespace Condition

/-- The value of a condition: symbols are true when they are defined. -/
def eval (symbols : Symbols) : Condition → Bool
  | constant value => value
  | symbol name => symbols.contains name
  | negation operand => !operand.eval symbols
  | equality left right => left.eval symbols == right.eval symbols
  | inequality left right => left.eval symbols != right.eval symbols
  | conjunction left right => left.eval symbols && right.eval symbols
  | disjunction left right => left.eval symbols || right.eval symbols

/-! ## Tokens -/

/-- A token of a condition. -/
inductive Token where
  | symbol (name : String)
  | bang
  | equal
  | notEqual
  | and
  | or
  | opening
  | closing
deriving DecidableEq, Repr

/-- The characters that names are made of. -/
def isNameCharacter (c : Char) : Bool :=
  Text.isAlphanumeric c || c == '_'

/-- The tokens of a text, or nothing when some character begins no token.  White space separates
tokens and is skipped. -/
def Token.tokenize? : List Char → Option (List Token)
  | [] => some []
  | '(' :: rest => (opening :: ·) <$> tokenize? rest
  | ')' :: rest => (closing :: ·) <$> tokenize? rest
  | '!' :: '=' :: rest => (notEqual :: ·) <$> tokenize? rest
  | '!' :: rest => (bang :: ·) <$> tokenize? rest
  | '=' :: '=' :: rest => (equal :: ·) <$> tokenize? rest
  | '&' :: '&' :: rest => (and :: ·) <$> tokenize? rest
  | '|' :: '|' :: rest => (or :: ·) <$> tokenize? rest
  | c :: rest =>
      if Text.isBlank c then tokenize? rest
      else if isNameCharacter c then
        (symbol (String.ofList (c :: rest.takeWhile isNameCharacter)) :: ·) <$>
          tokenize? (rest.dropWhile isNameCharacter)
      else none
termination_by text => text.length
decreasing_by
  all_goals simp only [List.length_cons]
  all_goals first
    | omega
    | exact Nat.lt_succ_of_le (List.dropWhile_suffix _).length_le

/-! ## Grammar -/

/-- The condition that a name spells: `true` and `false` are constants. -/
def ofName (name : String) : Condition :=
  if name = "true" then constant true
  else if name = "false" then constant false
  else symbol name

/-- A condition read from the front of a token list, with the shorter list that follows it. -/
abbrev Reading (tokens : List Token) : Type :=
  Option (Condition × { rest : List Token // rest.length < tokens.length })

mutual

/-- A disjunction: conjunctions joined by `||`. -/
def readDisjunction (tokens : List Token) : Reading tokens :=
  match readConjunction tokens with
  | none => none
  | some (left, ⟨rest, shorter⟩) =>
      match extendDisjunction left rest with
      | none => none
      | some (whole, ⟨rest', le⟩) => some (whole, ⟨rest', by omega⟩)
termination_by (tokens.length, 7)

/-- Join further conjunctions to a condition from the left. -/
def extendDisjunction (left : Condition) (tokens : List Token) :
    Option (Condition × { rest : List Token // rest.length ≤ tokens.length }) :=
  match tokens with
  | .or :: following =>
      match readConjunction following with
      | none => none
      | some (right, ⟨rest, shorter⟩) =>
          match extendDisjunction (disjunction left right) rest with
          | none => none
          | some (whole, ⟨rest', le⟩) =>
              some (whole, ⟨rest', by simp only [List.length_cons]; omega⟩)
  | other => some (left, ⟨other, Nat.le_refl _⟩)
termination_by (tokens.length, 6)

/-- A conjunction: equalities joined by `&&`. -/
def readConjunction (tokens : List Token) : Reading tokens :=
  match readEquality tokens with
  | none => none
  | some (left, ⟨rest, shorter⟩) =>
      match extendConjunction left rest with
      | none => none
      | some (whole, ⟨rest', le⟩) => some (whole, ⟨rest', by omega⟩)
termination_by (tokens.length, 5)

/-- Join further equalities to a condition from the left. -/
def extendConjunction (left : Condition) (tokens : List Token) :
    Option (Condition × { rest : List Token // rest.length ≤ tokens.length }) :=
  match tokens with
  | .and :: following =>
      match readEquality following with
      | none => none
      | some (right, ⟨rest, shorter⟩) =>
          match extendConjunction (conjunction left right) rest with
          | none => none
          | some (whole, ⟨rest', le⟩) =>
              some (whole, ⟨rest', by simp only [List.length_cons]; omega⟩)
  | other => some (left, ⟨other, Nat.le_refl _⟩)
termination_by (tokens.length, 4)

/-- An equality: operands joined by `==` and `!=`. -/
def readEquality (tokens : List Token) : Reading tokens :=
  match readOperand tokens with
  | none => none
  | some (left, ⟨rest, shorter⟩) =>
      match extendEquality left rest with
      | none => none
      | some (whole, ⟨rest', le⟩) => some (whole, ⟨rest', by omega⟩)
termination_by (tokens.length, 3)

/-- Compare a condition with further operands from the left. -/
def extendEquality (left : Condition) (tokens : List Token) :
    Option (Condition × { rest : List Token // rest.length ≤ tokens.length }) :=
  match tokens with
  | .equal :: following =>
      match readOperand following with
      | none => none
      | some (right, ⟨rest, shorter⟩) =>
          match extendEquality (equality left right) rest with
          | none => none
          | some (whole, ⟨rest', le⟩) =>
              some (whole, ⟨rest', by simp only [List.length_cons]; omega⟩)
  | .notEqual :: following =>
      match readOperand following with
      | none => none
      | some (right, ⟨rest, shorter⟩) =>
          match extendEquality (inequality left right) rest with
          | none => none
          | some (whole, ⟨rest', le⟩) =>
              some (whole, ⟨rest', by simp only [List.length_cons]; omega⟩)
  | other => some (left, ⟨other, Nat.le_refl _⟩)
termination_by (tokens.length, 2)

/-- An operand: a symbol, a negation, or a condition in parentheses. -/
def readOperand (tokens : List Token) : Reading tokens :=
  match tokens with
  | .bang :: following =>
      match readOperand following with
      | none => none
      | some (operand, ⟨rest, shorter⟩) =>
          some (negation operand, ⟨rest, by simp only [List.length_cons]; omega⟩)
  | .symbol name :: following =>
      some (ofName name, ⟨following, by simp only [List.length_cons]; omega⟩)
  | .opening :: following =>
      match readDisjunction following with
      | some (inner, ⟨.closing :: rest, shorter⟩) =>
          some (inner, ⟨rest, by simp only [List.length_cons] at shorter ⊢; omega⟩)
      | _ => none
  | _ => none
termination_by (tokens.length, 1)

end

/-- The condition that a whole token list spells. -/
def parse? (tokens : List Token) : Option Condition :=
  match readDisjunction tokens with
  | some (condition, ⟨[], _⟩) => some condition
  | _ => none

/-- The condition that a text spells. -/
def ofText? (text : List Char) : Option Condition :=
  (Token.tokenize? text).bind parse?

/-- Whether a text is a condition that holds; a malformed text does not hold. -/
def holds (symbols : Symbols) (text : List Char) : Bool :=
  match ofText? text with
  | some condition => condition.eval symbols
  | none => false

@[simp]
theorem holds_of_ofText?_none {symbols : Symbols} {text : List Char} (h : ofText? text = none) :
    holds symbols text = false := by
  simp [holds, h]

end Condition
end ProjectAssembler
