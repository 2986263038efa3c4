import ProjectAssembler.Text.Trim

/-!
# Cutting and trimming texts that are put together

A text is cut at its separators, and white space is dropped at its ends.  Both depend on a part of
the text alone: what stands in front of a separator is cut as it is on its own, and no white space
is dropped beyond a character that is none.

Main results:

* `Text.splitOn_append` and `Text.exists_splitOn_append`: the parts of a text behind a word or
  behind any text;
* `Text.exists_splitOn_word`: the parts of a text with a separator inside of a word;
* `Text.trim_append_cons`: what is dropped at the ends of a text.
-/

namespace ProjectAssembler
namespace Text

/-! ## Cutting -/

/-- The first of the parts between separators takes up what stands before it. -/
theorem splitOn_append {separator : Char} {word : List Char} (h : separator ∉ word)
    (text : List Char) :
    (word ++ text).splitOn separator = (text.splitOn separator).modifyHead (word ++ ·) := by
  induction word with
  | nil =>
      rw [List.nil_append]
      cases text.splitOn separator <;> rfl
  | cons c word ih =>
      rw [List.mem_cons, not_or] at h
      have hc : (c == separator) = false := beq_false_of_ne (Ne.symm h.1)
      rw [List.cons_append, List.splitOn_cons_eq_if_modifyHead, hc, ih h.2]
      cases text.splitOn separator <;> rfl

/-- The last part of a text is continued by the first part of what follows. -/
theorem exists_splitOn_append (separator : Char) (text : List Char) :
    ∃ front last, ∀ rest, (text ++ rest).splitOn separator =
      front ++ (rest.splitOn separator).modifyHead (last ++ ·) := by
  induction text with
  | nil =>
      refine ⟨[], [], fun rest => ?_⟩
      cases hparts : rest.splitOn separator <;> simp [hparts]
  | cons c text ih =>
      obtain ⟨front, last, hsplit⟩ := ih
      by_cases hc : (c == separator) = true
      · refine ⟨[] :: front, last, fun rest => ?_⟩
        rw [List.cons_append, List.splitOn_cons_eq_if_modifyHead, if_pos hc, hsplit]
        rfl
      · cases front with
        | nil =>
            refine ⟨[], c :: last, fun rest => ?_⟩
            rw [List.cons_append, List.splitOn_cons_eq_if_modifyHead, if_neg hc, hsplit]
            cases rest.splitOn separator <;> rfl
        | cons part front =>
            refine ⟨(c :: part) :: front, last, fun rest => ?_⟩
            rw [List.cons_append, List.splitOn_cons_eq_if_modifyHead, if_neg hc, hsplit]
            rfl

/-- A word in a text and two words around a separator in its place are cut off alike. -/
theorem exists_splitOn_word {separator : Char} {whole left right : List Char}
    (hwhole : separator ∉ whole) (hleft : separator ∉ left) (hright : separator ∉ right)
    (before after : List Char) :
    ∃ front last first rest,
      (before ++ (whole ++ after)).splitOn separator = front ++ (last ++ (whole ++ first)) :: rest ∧
      (before ++ (left ++ separator :: (right ++ after))).splitOn separator =
        front ++ (last ++ left) :: (right ++ first) :: rest := by
  obtain ⟨front, last, hbefore⟩ := exists_splitOn_append separator before
  obtain ⟨first, rest, hafter⟩ :=
    List.exists_cons_of_ne_nil (List.splitOn_ne_nil separator after)
  refine ⟨front, last, first, rest, ?_, ?_⟩
  · rw [hbefore, splitOn_append hwhole, hafter]
    rfl
  · rw [hbefore, splitOn_append hleft, List.splitOn_cons_eq_if_modifyHead,
      if_pos (beq_self_eq_true separator), splitOn_append hright, hafter]
    simp

/-! ## Trimming -/

/-- Only what stands before a character that is not dropped can be dropped at the front. -/
theorem dropWhile_append_cons {p : Char → Bool} {c : Char} (hc : p c = false)
    (before after : List Char) :
    (before ++ c :: after).dropWhile p = before.dropWhile p ++ c :: after := by
  have hrest : (c :: after).dropWhile p = c :: after := List.dropWhile_cons_of_neg (by simp [hc])
  rw [List.dropWhile_append, hrest]
  split
  · rename_i hbefore
    rw [List.isEmpty_iff.1 hbefore, List.nil_append]
  · rfl

/-- White space at the ends of a text ends at any character that is none. -/
theorem trim_append_cons {c d : Char} (hc : isBlank c = false) (hd : isBlank d = false)
    (before middle after : List Char) :
    trim (before ++ c :: (middle ++ d :: after)) =
      trimStart before ++ c :: (middle ++ d :: trimEnd after) := by
  have hend : trimEnd (before ++ c :: (middle ++ d :: after)) =
      before ++ c :: (middle ++ d :: trimEnd after) := by
    have hreverse : (before ++ c :: (middle ++ d :: after)).reverse =
        after.reverse ++ d :: (before ++ c :: middle).reverse := by simp
    rw [trimEnd, dropEnd, hreverse, dropWhile_append_cons hd]
    simp [trimEnd, dropEnd]
  rw [trim, hend, trimStart, dropStart, dropWhile_append_cons hc]
  rfl

end Text
end ProjectAssembler
