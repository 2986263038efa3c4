import ProjectAssembler.Markup.Construct
import ProjectAssembler.Markup.Escape

/-!
# Attributes of a tag

The content of a start tag is a name followed by attributes: a key, an equals sign and a value in
quotes, with white space between them wherever it is wanted.  Names are not checked, and the first
character of a key belongs to it whatever it is, an equals sign too.

Main definitions:

* `Markup.localName`: a name without its namespace qualifier;
* `Markup.readAttributes`: the attributes that the rest of a tag's content spells;
* `Markup.tagName` and `Markup.tagAttributes`: the parts of a start tag.
-/

namespace ProjectAssembler
namespace Markup

/-- A name without its qualifier: what follows the first colon, or all of it without one. -/
def localName (name : List Char) : String :=
  match name.dropWhile (· != ':') with
  | [] => String.ofList name
  | _ :: rest => String.ofList rest

/-- Whether a character, other than the first, ends an attribute's key. -/
def endsKey (c : Char) : Bool :=
  c == '=' || isBlank c

theorem length_of_dropWhile_cons {p : Char → Bool} {text rest : List Char} {c : Char}
    (h : text.dropWhile p = c :: rest) : rest.length < text.length := by
  have hs := (List.dropWhile_suffix p (l := text)).length_le
  rw [h] at hs
  exact hs

/-- The attributes that the rest of a tag's content spells, each with its local name.  `length` is
the length of the whole content, `position` the place of the rest, and `seen` holds the full keys
before with their places. -/
def readAttributes (length : Nat) (seen : List (List Char × Nat)) (position : Nat)
    (text : List Char) : Except Error (List (String × String)) :=
  let start := position + (text.takeWhile isBlank).length
  match _hbody : text.dropWhile isBlank with
  | [] => .ok []
  | c :: body =>
      let key := c :: body.takeWhile fun c => !endsKey c
      let afterKey := body.dropWhile fun c => !endsKey c
      let equals := start + Text.utf8Length key + (afterKey.takeWhile isBlank).length
      match _hequals : afterKey.dropWhile isBlank with
      | '=' :: afterEquals =>
          match seen.find? (·.1 == key) with
          | some (_, earlier) => .error (.badAttribute (.duplicated start earlier))
          | none =>
              let opening := equals + 1 + (afterEquals.takeWhile isBlank).length
              match _hvalue : afterEquals.dropWhile isBlank with
              | [] => .error (.badAttribute (.valueExpected length))
              | quote :: inside =>
                  if isQuote quote then
                    let raw := inside.takeWhile (· != quote)
                    match _hclose : inside.dropWhile (· != quote) with
                    | [] => .error (.badAttribute (.quoteExpected length quote))
                    | _ :: following =>
                        match unescape raw with
                        | .error error => .error (.badEscape error)
                        | .ok value =>
                            match readAttributes length (seen ++ [(key, start)])
                                (opening + 2 + Text.utf8Length raw) following with
                            | .error error => .error error
                            | .ok rest => .ok ((localName key, String.ofList value) :: rest)
                  else .error (.badAttribute (.unquoted opening))
      | _ => .error (.badAttribute (.equalsExpected equals))
termination_by text.length
decreasing_by
  have h₁ := length_of_dropWhile_cons _hbody
  have h₂ := length_of_dropWhile_cons _hequals
  have h₃ := length_of_dropWhile_cons _hvalue
  have h₄ := length_of_dropWhile_cons _hclose
  have h₅ : afterKey.length ≤ body.length := (List.dropWhile_suffix _).length_le
  omega

/-- The full name of a start tag with a given content. -/
def tagName (content : List Char) : List Char :=
  content.takeWhile fun c => !isBlank c

/-- The attributes of a start tag with a given content. -/
def tagAttributes (content : List Char) : Except Error (List (String × String)) :=
  readAttributes (Text.utf8Length content) [] (Text.utf8Length (tagName content))
    (content.dropWhile fun c => !isBlank c)

/-- A content that is a name alone has no attributes. -/
theorem tagAttributes_of_name {content : List Char} (h : ∀ c ∈ content, isBlank c = false) :
    tagAttributes content = .ok [] := by
  have hdrop : (content.dropWhile fun c => !isBlank c) = [] := by
    induction content with
    | nil => rfl
    | cons c rest ih => simp_all
  rw [tagAttributes, hdrop]
  unfold readAttributes
  rfl

end Markup
end ProjectAssembler
