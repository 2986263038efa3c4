/-!
# Moments of TOML documents

The spellings of dates, of times of day and of both together.

Main definitions: `Toml.isDate`, `Toml.isTime`, `Toml.isZonedTime` and `Toml.isMoment`.
-/

namespace ProjectAssembler.Toml

/-- The number that two digits spell. -/
def twoDigits? (a b : Char) : Option Nat :=
  if a.isDigit && b.isDigit then some (10 * (a.toNat - '0'.toNat) + (b.toNat - '0'.toNat)) else none

/-- Whether a year has a day more. -/
def isLeapYear (year : Nat) : Bool :=
  year % 4 == 0 && (year % 100 != 0 || year % 400 == 0)

/-- The number of days of a month. -/
def daysOf (year month : Nat) : Nat :=
  if month = 2 then if isLeapYear year then 29 else 28
  else if month = 4 ∨ month = 6 ∨ month = 9 ∨ month = 11 then 30
  else 31

/-- The text after a date at the beginning of a text. -/
def afterDate? : List Char → Option (List Char)
  | a :: b :: c :: d :: '-' :: e :: f :: '-' :: g :: h :: rest => do
      let century ← twoDigits? a b
      let yearOf ← twoDigits? c d
      let month ← twoDigits? e f
      let day ← twoDigits? g h
      let year := 100 * century + yearOf
      if 1 ≤ month ∧ month ≤ 12 ∧ 1 ≤ day ∧ day ≤ daysOf year month then some rest else none
  | _ => none

/-- Whether a text spells a date. -/
def isDate (text : List Char) : Bool :=
  afterDate? text == some []

/-- The text after the fraction of a second; there is none where no digit follows the point. -/
def afterFraction : List Char → List Char
  | '.' :: c :: rest => if c.isDigit then rest.dropWhile Char.isDigit else '.' :: c :: rest
  | text => text

/-- The text after a time of day at the beginning of a text. -/
def afterTime? : List Char → Option (List Char)
  | a :: b :: ':' :: c :: d :: ':' :: e :: f :: rest => do
      let hour ← twoDigits? a b
      let minute ← twoDigits? c d
      let second ← twoDigits? e f
      if hour ≤ 23 ∧ minute ≤ 59 ∧ second ≤ 60 then some (afterFraction rest) else none
  | _ => none

/-- Whether a text spells a time of day. -/
def isTime (text : List Char) : Bool :=
  afterTime? text == some []

/-- Whether a text spells a distance from universal time. -/
def isOffset : List Char → Bool
  | ['Z'] => true
  | ['z'] => true
  | [sign, a, b, ':', c, d] =>
      (sign == '+' || sign == '-') &&
        (twoDigits? a b).any (· ≤ 23) && (twoDigits? c d).any (· ≤ 59)
  | _ => false

/-- Whether a text spells a time of day, which may have an offset. -/
def isZonedTime (text : List Char) : Bool :=
  match afterTime? text with
  | none => false
  | some [] => true
  | some rest => isOffset rest

/-- Whether a text spells a date, a time of day, or both with a letter between. -/
def isMoment (text : List Char) : Bool :=
  match afterDate? text with
  | none => isTime text
  | some [] => true
  | some (c :: rest) => (c == 'T' || c == 't') && isZonedTime rest

end ProjectAssembler.Toml
