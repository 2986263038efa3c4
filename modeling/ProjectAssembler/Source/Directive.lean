import ProjectAssembler.Source.Condition
import ProjectAssembler.Text.Trim

/-!
# Directive lines

A directive is a line whose first character other than white space is `#`, followed by a name of
ASCII letters.  The rest of the line up to a `//` comment is its argument.

Main definition: `Directive.ofLine?`.
-/

namespace ProjectAssembler

/-- What a directive line asks for. -/
inductive Directive where
  /-- The first branch of a conditional. -/
  | opening (condition : List Char)
  /-- A further branch with a condition of its own. -/
  | alternative (condition : List Char)
  /-- The branch taken when no other one is. -/
  | otherwise
  /-- The end of a conditional. -/
  | closing
  | define (name : String)
  | undefine (name : String)
  /-- A directive without effect on what is active. -/
  | other
deriving DecidableEq, Repr

namespace Directive

/-- The letters that a directive's name is made of. -/
def isNameLetter (c : Char) : Bool :=
  c.isAlpha

/-- An argument without its comment and the white space around it. -/
def argumentOf (text : List Char) : List Char :=
  Text.trim (Text.before ['/', '/'] text)

/-- The directive of a given name and argument. -/
def ofName (name : String) (argument : List Char) : Directive :=
  match name with
  | "if" => opening argument
  | "elif" => alternative argument
  | "else" => otherwise
  | "endif" => closing
  | "define" => define (String.ofList argument)
  | "undef" => undefine (String.ofList argument)
  | _ => other

/-- The name and the following text of a directive whose text begins after the `#`: the name is not
empty and no further word character follows it directly. -/
def nameAndRest? (text : List Char) : Option (String × List Char) :=
  let text := Text.trimStart text
  let name := text.takeWhile isNameLetter
  let rest := text.dropWhile isNameLetter
  if name.isEmpty || rest.head?.any Text.isWordCharacter then none
  else some (String.ofList name, rest)

/-- The directive that a line is, if it is one. -/
def ofLine? (line : List Char) : Option Directive :=
  match Text.trimStart (Text.trimEnd line) with
  | '#' :: text => (nameAndRest? text).map fun (name, rest) => ofName name (argumentOf rest)
  | _ => none

end Directive
end ProjectAssembler
