/-!
# Lengths in bytes

Places in a text are reported as byte counts of its UTF-8 form.

Main results: `utf8Length_append` and `utf8Length_le_of_suffix`.
-/

namespace ProjectAssembler
namespace Text

/-- The number of bytes of a text in UTF-8. -/
def utf8Length (text : List Char) : Nat :=
  text.foldr (fun c length => c.utf8Size + length) 0

@[simp]
theorem utf8Length_nil : utf8Length [] = 0 :=
  rfl

@[simp]
theorem utf8Length_cons (c : Char) (text : List Char) :
    utf8Length (c :: text) = c.utf8Size + utf8Length text :=
  rfl

@[simp]
theorem utf8Length_append (first second : List Char) :
    utf8Length (first ++ second) = utf8Length first + utf8Length second := by
  induction first with
  | nil => simp
  | cons c rest ih => simp [ih, Nat.add_assoc]

/-- An end of a text is no longer than the text. -/
theorem utf8Length_le_of_suffix {rest text : List Char} (h : rest <:+ text) :
    utf8Length rest ≤ utf8Length text := by
  obtain ⟨front, rfl⟩ := h
  simp

end Text
end ProjectAssembler
