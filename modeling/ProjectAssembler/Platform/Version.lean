import ProjectAssembler.Text.Trim

/-!
# Versions

A version has three numbers, identifiers for a release to come, and identifiers for the build.
Releases to come stand before the release itself; the build decides between versions that are
equal otherwise.

Main definitions:

* `Version.parse?`: the version that a text spells;
* `Version.compare`: the order of versions.

Main results: `Version.compareIdentifiers_self` and `Version.compare_self`.
-/

namespace ProjectAssembler

/-- A version with all of its parts. -/
structure Version where
  major : Nat
  minor : Nat
  patch : Nat
  /-- The identifiers of a release to come; none for a release. -/
  prerelease : List (List Char)
  /-- The identifiers of the build; none where the build is not named. -/
  build : List (List Char)
deriving DecidableEq, Repr

namespace Version

/-! ## Reading -/

/-- The number after the largest one of a version. -/
def numberBound : Nat :=
  0x10000000000000000

/-- Whether digits have a zero at the beginning that is not their only digit. -/
def hasLeadingZero : List Char → Bool
  | '0' :: _ :: _ => true
  | _ => false

/-- The number that digits spell. -/
def valueOf (digits : List Char) : Nat :=
  digits.foldl (fun number digit => 10 * number + (digit.toNat - '0'.toNat)) 0

/-- The number of a version that a text spells. -/
def number? (text : List Char) : Option Nat :=
  if text.isEmpty || !text.all Char.isDigit || hasLeadingZero text then none
  else if valueOf text < numberBound then some (valueOf text) else none

/-- Whether an identifier consists of digits alone. -/
def isNumeric (identifier : List Char) : Bool :=
  identifier.all Char.isDigit

/-- Whether a text is an identifier. -/
def isIdentifier (text : List Char) : Bool :=
  !text.isEmpty && text.all fun c => c.isAlphanum || c == '-'

/-- Whether a text is an identifier of a release to come: if it is a number, then without zeros at
the beginning. -/
def isPrereleaseIdentifier (text : List Char) : Bool :=
  isIdentifier text && !(isNumeric text && hasLeadingZero text)

/-- Split a text at the first occurrence of a character; the second part is missing where there is
none. -/
def cut (mark : Char) (text : List Char) : List Char × Option (List Char) :=
  match text.dropWhile (· != mark) with
  | [] => (text, none)
  | _ :: rest => (text.takeWhile (· != mark), some rest)

/-- The identifiers of a part of a version, if all of them satisfy a test; none for a missing
part. -/
def identifiers? (test : List Char → Bool) : Option (List Char) → Option (List (List Char))
  | none => some []
  | some text =>
      let parts := Text.splitOn '.' text
      if parts.all test then some parts else none

/-- The version that a text spells. -/
def parse? (text : String) : Option Version :=
  let (front, buildPart) := cut '+' text.toList
  let (numbers, prereleasePart) := cut '-' front
  match Text.splitOn '.' numbers with
  | [major, minor, patch] => do
      let major ← number? major
      let minor ← number? minor
      let patch ← number? patch
      let prerelease ← identifiers? isPrereleaseIdentifier prereleasePart
      let build ← identifiers? isIdentifier buildPart
      return { major, minor, patch, prerelease, build }
  | _ => none

/-! ## Order -/

/-- The order of numerals by their values, and of equal values by their lengths. -/
def compareNumerals (a b : List Char) : Ordering :=
  (Ord.compare (valueOf a) (valueOf b)).then (Ord.compare a.length b.length)

/-- The order of identifiers: numbers by their values and before all others, the others by their
characters. -/
def compareIdentifier (a b : List Char) : Ordering :=
  match isNumeric a, isNumeric b with
  | true, true => compareNumerals a b
  | true, false => .lt
  | false, true => .gt
  | false, false => Ord.compare (String.ofList a) (String.ofList b)

/-- The order of identifier sequences; one that continues another comes after it. -/
def compareIdentifiers : List (List Char) → List (List Char) → Ordering
  | [], [] => .eq
  | [], _ :: _ => .lt
  | _ :: _, [] => .gt
  | a :: as, b :: bs => (compareIdentifier a b).then (compareIdentifiers as bs)

/-- The order of releases to come; the release itself comes last. -/
def comparePrerelease : List (List Char) → List (List Char) → Ordering
  | [], [] => .eq
  | [], _ :: _ => .gt
  | _ :: _, [] => .lt
  | as, bs => compareIdentifiers as bs

/-- The order of versions. -/
def compare (v w : Version) : Ordering :=
  (Ord.compare v.major w.major).then <|
    (Ord.compare v.minor w.minor).then <|
      (Ord.compare v.patch w.patch).then <|
        (comparePrerelease v.prerelease w.prerelease).then <|
          compareIdentifiers v.build w.build

theorem compareIdentifier_self (a : List Char) : compareIdentifier a a = .eq := by
  unfold compareIdentifier
  cases isNumeric a <;> simp [compareNumerals]

@[simp]
theorem compareIdentifiers_self (as : List (List Char)) : compareIdentifiers as as = .eq := by
  induction as with
  | nil => rfl
  | cons a as ih => simp [compareIdentifiers, compareIdentifier_self, ih]

@[simp]
theorem comparePrerelease_self (as : List (List Char)) : comparePrerelease as as = .eq := by
  cases as with
  | nil => rfl
  | cons a as => exact compareIdentifiers_self (a :: as)

/-- A version equals itself in the order. -/
@[simp]
theorem compare_self (v : Version) : v.compare v = .eq := by
  simp [compare]

end Version
end ProjectAssembler
