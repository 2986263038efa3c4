import ProjectAssembler.Markup.Error
import ProjectAssembler.Text.Utf8

/-!
# Escapes in markup

In texts and attribute values `&name;` stands for a character: five names are known, and a number
after `#` stands for the character with that code point.

Main definitions:

* `Markup.characterOf`: the character that a name stands for;
* `Markup.unescape`: a value with its escapes replaced.

Main result: `Markup.unescape_of_no_ampersand`: a value without escapes stands for itself.
-/

namespace ProjectAssembler
namespace Markup

/-- The value of a digit in a radix of at most sixteen. -/
def digitValue? (radix : Nat) (c : Char) : Option Nat :=
  let value :=
    if c.isDigit then c.toNat - '0'.toNat
    else if 'a' ≤ c ∧ c ≤ 'f' then c.toNat - 'a'.toNat + 10
    else if 'A' ≤ c ∧ c ≤ 'F' then c.toNat - 'A'.toNat + 10
    else radix
  if value < radix then some value else none

/-- The first number that a character reference is too small to hold. -/
def referenceLimit : Nat :=
  0x100000000

/-- The number that digits continue, read from the left. -/
def readDigits (radix value : Nat) : List Char → Except ReferenceError Nat
  | [] => .ok value
  | c :: rest =>
      match digitValue? radix c with
      | none => .error .digit
      | some digit =>
          let value := value * radix + digit
          if value < referenceLimit then readDigits radix value rest else .error .overflow

/-- The number that digits spell.  A sign is refused. -/
def readNumber (radix : Nat) (digits : List Char) : Except ReferenceError Nat :=
  match digits with
  | [] => .error .empty
  | c :: _ => if c = '+' ∨ c = '-' then .error .sign else readDigits radix 0 digits

/-- The character of a reference, given what stands between `&#` and the semicolon. -/
def referenceOf (digits : List Char) : Except ReferenceError Char := do
  let code ←
    match digits with
    | 'x' :: digits => readNumber 16 digits
    | digits => readNumber 10 digits
  if code = 0 then throw .zero
  else if code.isValidChar then return Char.ofNat code
  else throw (.codePoint code)

/-- The characters that have a name. -/
def namedCharacter? (name : List Char) : Option Char :=
  if name = ['l', 't'] then some '<'
  else if name = ['g', 't'] then some '>'
  else if name = ['a', 'm', 'p'] then some '&'
  else if name = ['a', 'p', 'o', 's'] then some '\''
  else if name = ['q', 'u', 'o', 't'] then some '"'
  else none

/-- The character that a name between `&` and the semicolon stands for; `start` is the position of
the name. -/
def characterOf (start : Nat) (name : List Char) : Except EscapeError Char :=
  match name with
  | '#' :: digits =>
      match referenceOf digits with
      | .ok c => .ok c
      | .error error => .error (.reference error)
  | name =>
      match namedCharacter? name with
      | some c => .ok c
      | none => .error (.unrecognized start (start + Text.utf8Length name) (String.ofList name))

/-- Whether a character ends the name of an escape. -/
def endsName (c : Char) : Bool :=
  c == '&' || c == ';'

/-- The remaining part of a value, with its escapes replaced; `position` is its place in the value
and `length` the length of the whole value. -/
def unescapeFrom (length position : Nat) : List Char → Except EscapeError (List Char)
  | [] => .ok []
  | '&' :: rest =>
      let name := rest.takeWhile fun c => !endsName c
      match _h : rest.dropWhile fun c => !endsName c with
      | ';' :: following =>
          match characterOf (position + 1) name with
          | .error error => .error error
          | .ok c =>
              match unescapeFrom length (position + 2 + Text.utf8Length name) following with
              | .error error => .error error
              | .ok value => .ok (c :: value)
      | _ => .error (.unterminated position length)
  | c :: rest =>
      match unescapeFrom length (position + c.utf8Size) rest with
      | .error error => .error error
      | .ok value => .ok (c :: value)
termination_by text => text.length
decreasing_by
  · have h := (List.dropWhile_suffix (fun c => !endsName c) (l := rest)).length_le
    simp only [_h, List.length_cons] at h ⊢
    omega
  · simp

/-- A value with its escapes replaced. -/
def unescape (value : List Char) : Except EscapeError (List Char) :=
  unescapeFrom (Text.utf8Length value) 0 value

theorem unescapeFrom_of_no_ampersand {length position : Nat} {value : List Char}
    (h : '&' ∉ value) : unescapeFrom length position value = .ok value := by
  induction value generalizing position with
  | nil => unfold unescapeFrom; rfl
  | cons c rest ih =>
      have hc : c ≠ '&' := fun heq => h (by simp [heq])
      have hrest : '&' ∉ rest := fun hmem => h (List.mem_cons_of_mem _ hmem)
      rw [unescapeFrom.eq_3 _ _ _ _ hc, ih hrest]

/-- A value without escapes stands for itself. -/
theorem unescape_of_no_ampersand {value : List Char} (h : '&' ∉ value) :
    unescape value = .ok value :=
  unescapeFrom_of_no_ampersand h

end Markup
end ProjectAssembler
