import ProjectAssembler.Text.Alphabetic
import ProjectAssembler.Text.Numeric
import ProjectAssembler.Text.WordMark

/-!
# Character classes

The classes that the readers of this library test: white space, letters, letters and numbers, and
word characters.  Each is the Unicode property; ASCII characters are decided without a table.

Main results:

* `isBlank_of_isWhitespace`: the ASCII white space of the core library is white space here;
* `forall_isBlank`: white space consists of a few characters, which can be gone through;
* `isAlphanumeric_of_isAlphabetic` and `isWordCharacter_of_isAlphabetic`: letters belong to both
  other classes, the most recent ones only to the first.
-/

namespace ProjectAssembler
namespace Text

/-- White space: the Unicode property *White_Space*. -/
def isBlank (c : Char) : Bool :=
  let point := c.toNat
  (0x9 ≤ point && point ≤ 0xD) || point == 0x20 || point == 0x85 || point == 0xA0 ||
    point == 0x1680 || (0x2000 ≤ point && point ≤ 0x200A) || point == 0x2028 ||
    point == 0x2029 || point == 0x202F || point == 0x205F || point == 0x3000

/-- Letters: the Unicode property *Alphabetic*. -/
def isAlphabetic (c : Char) : Bool :=
  if c.toNat < 0x80 then c.isAlpha else alphabeticCodePoints.contains c

/-- Letters and numbers: *Alphabetic*, or general category *Nd*, *Nl* or *No*. -/
def isAlphanumeric (c : Char) : Bool :=
  if c.toNat < 0x80 then c.isAlphanum
  else alphabeticCodePoints.contains c || numericCodePoints.contains c

/-- Word characters: letters, combining marks, decimal digits, connecting punctuation, joiners.  The
most recent letters do not count yet. -/
def isWordCharacter (c : Char) : Bool :=
  if c.toNat < 0x80 then c.isAlphanum || c == '_'
  else
    (alphabeticCodePoints.contains c && !recentLetterCodePoints.contains c) ||
      wordMarkCodePoints.contains c

/-- The white space of the core library is white space. -/
theorem isBlank_of_isWhitespace {c : Char} (h : c.isWhitespace = true) : isBlank c = true := by
  simp only [Char.isWhitespace, Bool.or_eq_true, decide_eq_true_eq] at h
  rcases h with ((rfl | rfl) | rfl) | rfl <;> decide

/-- What holds of each of the characters of white space holds of all white space. -/
theorem forall_isBlank {p : Char → Prop}
    (h : ∀ point ∈ [0x9, 0xA, 0xB, 0xC, 0xD, 0x20, 0x85, 0xA0, 0x1680, 0x2000, 0x2001, 0x2002,
      0x2003, 0x2004, 0x2005, 0x2006, 0x2007, 0x2008, 0x2009, 0x200A, 0x2028, 0x2029, 0x202F,
      0x205F, 0x3000], p (Char.ofNat point)) {c : Char} (hblank : isBlank c = true) : p c := by
  rw [← Char.ofNat_toNat c]
  apply h
  simp only [isBlank, Bool.or_eq_true, Bool.and_eq_true, decide_eq_true_eq, beq_iff_eq] at hblank
  simp only [List.mem_cons, List.not_mem_nil, or_false]
  omega

/-- Every letter counts among letters and numbers. -/
theorem isAlphanumeric_of_isAlphabetic {c : Char} (h : isAlphabetic c = true) :
    isAlphanumeric c = true := by
  unfold isAlphabetic at h
  unfold isAlphanumeric
  split at h <;> simp_all [Char.isAlphanum]

/-- Every letter but the most recent ones is a word character. -/
theorem isWordCharacter_of_isAlphabetic {c : Char} (h : isAlphabetic c = true)
    (hrecent : recentLetterCodePoints.contains c = false) : isWordCharacter c = true := by
  unfold isAlphabetic at h
  unfold isWordCharacter
  split at h <;> simp_all [Char.isAlphanum]

end Text
end ProjectAssembler
