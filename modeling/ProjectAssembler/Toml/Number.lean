import ProjectAssembler.Text.Trim

/-!
# Numbers of TOML documents

The spellings of numbers.  Digits may be grouped by underscores between them.  An integer has to
fit into 64 bits, and a fraction must not be so large that it rounds to infinity.

Main definitions: `Toml.isInteger`, `Toml.isFraction` and `Toml.isNumber`.
-/

namespace ProjectAssembler.Toml

/-- The digits between underscores, if every group has some. -/
def ungroup? (isDigit : Char → Bool) (text : List Char) : Option (List Char) :=
  let groups := Text.splitOn '_' text
  if groups.all fun group => !group.isEmpty && group.all isDigit then some groups.flatten else none

/-- The value of a digit; letters count from ten on. -/
def digitValue (c : Char) : Nat :=
  if c.isDigit then c.toNat - '0'.toNat
  else if c.isUpper then c.toNat - 'A'.toNat + 10
  else c.toNat - 'a'.toNat + 10

/-- The number that digits spell in a base. -/
def ofDigits (base : Nat) (digits : List Char) : Nat :=
  digits.foldl (fun number digit => base * number + digitValue digit) 0

/-- The decimal digits of a number without sign.  A zero at the beginning stands alone. -/
def decimal? (text : List Char) : Option (List Char) :=
  match text with
  | ['0'] => some ['0']
  | '0' :: _ => none
  | _ => ungroup? Char.isDigit text

/-- A text without its sign, and whether that is a minus. -/
def unsign : List Char → Bool × List Char
  | '-' :: rest => (true, rest)
  | '+' :: rest => (false, rest)
  | text => (false, text)

/-- The number after the largest integer of 64 bits. -/
def integerBound : Nat :=
  0x8000000000000000

/-- Whether a digit belongs to a base of at most sixteen. -/
def isDigitOf (base : Nat) (c : Char) : Bool :=
  (c.isDigit || ('a' ≤ c && c ≤ 'f') || ('A' ≤ c && c ≤ 'F')) && digitValue c < base

/-- Whether digits of a base spell an integer of 64 bits. -/
def isIntegerOf (base : Nat) (text : List Char) : Bool :=
  match ungroup? (isDigitOf base) text with
  | some digits => ofDigits base digits < integerBound
  | none => false

/-- Whether a text spells an integer. -/
def isInteger : List Char → Bool
  | '0' :: 'x' :: rest => isIntegerOf 16 rest
  | '0' :: 'o' :: rest => isIntegerOf 8 rest
  | '0' :: 'b' :: rest => isIntegerOf 2 rest
  | text =>
      let (negative, rest) := unsign text
      match decimal? rest with
      | some digits =>
          if negative then ofDigits 10 digits ≤ integerBound
          else ofDigits 10 digits < integerBound
      | none => false

/-! ## Fractions -/

/-- The least number that rounds to infinity. -/
def infinityBound : Nat :=
  Nat.pow 2 1024 - Nat.pow 2 970

/-- Whether decimal digits, scaled by a power of ten, round to infinity.  The comparison of the
length keeps the power small. -/
def isInfinite (digits : List Char) (exponent : Int) : Bool :=
  let number := ofDigits 10 digits
  let magnitude := (digits.dropWhile (· == '0')).length + exponent
  if number = 0 || magnitude < 300 then false
  else if magnitude > 400 then true
  else if exponent < 0 then infinityBound * Nat.pow 10 exponent.natAbs ≤ number
  else infinityBound ≤ number * Nat.pow 10 exponent.natAbs

/-- The exponent that a text spells after its letter. -/
def exponent? (text : List Char) : Option Int :=
  let (negative, rest) := unsign text
  (ungroup? Char.isDigit rest).map fun digits =>
    if negative then -(ofDigits 10 digits : Int) else ofDigits 10 digits

/-- The digits before and after the point of a text, if they are well formed. -/
def mantissa? (text : List Char) : Option (List Char × List Char) :=
  match text.dropWhile (· != '.') with
  | [] => (decimal? text).map fun whole => (whole, [])
  | _ :: part =>
      match decimal? (text.takeWhile (· != '.')), ungroup? Char.isDigit part with
      | some whole, some part => some (whole, part)
      | _, _ => none

/-- Whether a letter begins an exponent. -/
def isExponentLetter (c : Char) : Bool :=
  c == 'e' || c == 'E'

/-- Whether a text spells a fraction: a number with a point or an exponent, or a special value. -/
def isFraction (text : List Char) : Bool :=
  let (negative, rest) := unsign text
  if rest = "inf".toList || rest = "nan".toList then true
  else
    let (front, back) := rest.span fun c => !isExponentLetter c
    match mantissa? front, back with
    | none, _ => false
    | some (whole, part), [] =>
        !part.isEmpty && (negative || !isInfinite (whole ++ part) (-(part.length : Int)))
    | some (whole, part), _ :: scale =>
        match exponent? scale with
        | none => false
        | some exponent =>
            negative || !isInfinite (whole ++ part) (exponent - part.length)

/-- Whether a text spells a number. -/
def isNumber (text : List Char) : Bool :=
  isInteger text || isFraction text

end ProjectAssembler.Toml
