/-!
# Errors in markup

What can be wrong with a document, and how it is told.  Positions inside of a tag or of a value
are byte counts from its beginning.

Main definitions:

* `Markup.Error`: the causes;
* `Markup.Error.message`: their wording.
-/

namespace ProjectAssembler
namespace Markup

/-- What is wrong with a numeric character reference. -/
inductive ReferenceError where
  | sign
  | empty
  | digit
  | overflow
  | zero
  | codePoint (code : Nat)
deriving DecidableEq, Repr

/-- What is wrong with the escapes of a value. -/
inductive EscapeError where
  | unterminated (start stop : Nat)
  | unrecognized (start stop : Nat) (name : String)
  | reference (error : ReferenceError)
deriving DecidableEq, Repr

/-- What is wrong with the attributes of a tag. -/
inductive AttributeError where
  | equalsExpected (position : Nat)
  | valueExpected (position : Nat)
  | unquoted (position : Nat)
  | quoteExpected (position : Nat) (quote : Char)
  | duplicated (position earlier : Nat)
deriving DecidableEq, Repr

/-- What is wrong with a document. -/
inductive Error where
  | unknownMarkup
  | unclosedInstruction
  | unclosedComment
  | unclosedDoctype
  | unclosedCharacterData
  | unclosedTag
  | unmatchedEnd (name : String)
  | mismatchedEnd (expected found : String)
  | missingDoctypeName
  | badAttribute (error : AttributeError)
  | badEscape (error : EscapeError)
  | secondRoot
  | unclosedElement (name : String)
  | noRoot
deriving DecidableEq, Repr

/-- The wording of an error in a character reference. -/
def ReferenceError.message : ReferenceError → String
  | sign => "unexpected number sign"
  | empty => "cannot parse integer from empty string"
  | digit => "invalid digit found in string"
  | overflow => "number too large to fit in target type"
  | zero => "0x0 character is not permitted in XML"
  | codePoint code => "`" ++ toString code ++ "` is not a valid codepoint"

/-- The wording of an error in an escape. -/
def EscapeError.message : EscapeError → String
  | unterminated start stop =>
      "Error while escaping character at range " ++ toString start ++ ".." ++ toString stop ++
        ": Cannot find ';' after '&'"
  | unrecognized start stop name =>
      "at " ++ toString start ++ ".." ++ toString stop ++ ": unrecognized entity `" ++ name ++ "`"
  | reference error => "invalid character reference: " ++ error.message

/-- The wording of an error in the attributes of a tag. -/
def AttributeError.message : AttributeError → String
  | equalsExpected position =>
      "position " ++ toString position ++
        ": attribute key must be directly followed by `=` or space"
  | valueExpected position =>
      "position " ++ toString position ++ ": `=` must be followed by an attribute value"
  | unquoted position =>
      "position " ++ toString position ++ ": attribute value must be enclosed in `\"` or `'`"
  | quoteExpected position quote =>
      "position " ++ toString position ++ ": missing closing quote `" ++ String.singleton quote ++
        "` in attribute value"
  | duplicated position earlier =>
      "position " ++ toString position ++
        ": duplicated attribute, previous declaration at position " ++ toString earlier

/-- The wording for a construct whose end has not been found. -/
def unclosedMessage (construct ending : String) : String :=
  "syntax error: " ++ construct ++ " not closed: `" ++ ending ++
    "` not found before end of input"

/-- The wording of an error in a document. -/
def Error.message : Error → String
  | unknownMarkup => "syntax error: unknown or missed symbol in markup"
  | unclosedInstruction => unclosedMessage "processing instruction or xml declaration" "?>"
  | unclosedComment => unclosedMessage "comment" "-->"
  | unclosedDoctype => unclosedMessage "DOCTYPE" ">"
  | unclosedCharacterData => unclosedMessage "CDATA" "]]>"
  | unclosedTag => unclosedMessage "tag" ">"
  | unmatchedEnd name =>
      "ill-formed document: close tag `</" ++ name ++ ">` does not match any open tag"
  | mismatchedEnd expected found =>
      "ill-formed document: expected `</" ++ expected ++ ">`, but `</" ++ found ++ ">` was found"
  | missingDoctypeName =>
      "ill-formed document: `<!DOCTYPE>` declaration does not contain a name of a document type"
  | badAttribute error => error.message
  | badEscape error => error.message
  | secondRoot => "more than one root element"
  | unclosedElement name => "unclosed element `" ++ name ++ "`"
  | noRoot => "document has no root element"

end Markup
end ProjectAssembler
