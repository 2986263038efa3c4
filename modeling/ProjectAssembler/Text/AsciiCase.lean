/-!
# Comparison without regard to ASCII case

Names in descriptors, file extensions and package folders are compared by their ASCII letters
without regard to case; all other characters have to be equal.

Main results: `equalIgnoringCase_refl`, `equalIgnoringCase_symm` and `equalIgnoringCase_trans` make
the comparison an equivalence.
-/

namespace ProjectAssembler
namespace Text

/-- A text with its ASCII capital letters made small. -/
def asciiLower (text : List Char) : List Char :=
  text.map Char.toLower

/-- Whether two strings are equal up to the case of ASCII letters. -/
def equalIgnoringCase (a b : String) : Bool :=
  asciiLower a.toList == asciiLower b.toList

@[simp]
theorem equalIgnoringCase_refl (a : String) : equalIgnoringCase a a = true := by
  simp [equalIgnoringCase]

theorem equalIgnoringCase_symm {a b : String} (h : equalIgnoringCase a b = true) :
    equalIgnoringCase b a = true := by
  simp_all [equalIgnoringCase]

theorem equalIgnoringCase_trans {a b c : String} (hab : equalIgnoringCase a b = true)
    (hbc : equalIgnoringCase b c = true) : equalIgnoringCase a c = true := by
  simp_all [equalIgnoringCase]

end Text
end ProjectAssembler
