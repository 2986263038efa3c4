import ProjectAssembler.Proofs.Text.Cutting

/-!
# The lines of a text

A text is cut into lines after its line feeds.  Every line but the last one ends with a line feed,
and lines of this form that are put together are cut in the same places again.

Main definitions:

* `Text.Cut`: the lines of a text;
* `Text.ending`: how a line ends.

Main results:

* `Text.cut_lines` and `Text.lines_flatten`: what the lines of a text are;
* `Text.terminator_eq_ending`: the terminator of a line is how it ends;
* `Text.exists_line_of_append`: the line that a part of a text lies on.
-/

namespace ProjectAssembler
namespace Text

/-- Lines that end with a line feed and hold no other one; the last line may lack it. -/
inductive Cut : List (List Char) → Prop where
  | nil : Cut []
  | last {line : List Char} (hne : line ≠ []) (h : '\n' ∉ line) : Cut [line]
  | cons {content : List Char} {rest : List (List Char)} (h : '\n' ∉ content) (hrest : Cut rest) :
      Cut ((content ++ ['\n']) :: rest)

/-- The first line of a text ends with the first line feed. -/
theorem lines_append_feed {content : List Char} (h : '\n' ∉ content) (rest : List Char) :
    lines (content ++ '\n' :: rest) = (content ++ ['\n']) :: lines rest := by
  induction content with
  | nil => rfl
  | cons c content ih =>
      rw [List.mem_cons, not_or] at h
      rw [List.cons_append, lines, ih h.2]
      · rfl
      · exact fun heq => h.1 heq.symm

/-- A text without line feeds is one line. -/
theorem lines_of_not_mem {text : List Char} (hne : text ≠ []) (h : '\n' ∉ text) :
    lines text = [text] := by
  induction text with
  | nil => exact absurd rfl hne
  | cons c text ih =>
      rw [List.mem_cons, not_or] at h
      rw [lines]
      · cases text with
        | nil => rfl
        | cons d text => rw [ih (List.cons_ne_nil d text) h.2]
      · exact fun heq => h.1 heq.symm

/-- Lines that are put together are cut in the same places again. -/
theorem lines_flatten {parts : List (List Char)} (h : Cut parts) : lines parts.flatten = parts := by
  induction h with
  | nil => rfl
  | last hne h => simpa using lines_of_not_mem hne h
  | cons h _ ih => simp [lines_append_feed h, ih]

/-- The lines of a text end with line feeds and hold no other ones. -/
theorem cut_lines (text : List Char) : Cut (lines text) := by
  fun_induction lines text with
  | case1 => exact Cut.nil
  | case2 text ih => exact Cut.cons List.not_mem_nil ih
  | case3 c text hc hlines =>
      refine Cut.last (List.cons_ne_nil c []) ?_
      rw [List.mem_singleton]
      exact fun heq => hc heq.symm
  | case4 c text hc line rest hlines ih =>
      have hnot : ∀ content : List Char, '\n' ∉ content → '\n' ∉ c :: content := by
        intro content hcontent hmem
        rcases List.mem_cons.1 hmem with heq | hmem
        · exact hc heq.symm
        · exact hcontent hmem
      rw [hlines] at ih
      cases ih with
      | last _ h => exact Cut.last (List.cons_ne_nil c line) (hnot line h)
      | @cons content _ h hrest => exact Cut.cons (hnot content h) hrest

/-! ## How lines end -/

/-- How a line ends: with a line feed, before which there may be a carriage return, or with neither
of them. -/
def ending (line : List Char) : List Char :=
  if ['\r', '\n'] <:+ line then ['\r', '\n'] else if ['\n'] <:+ line then ['\n'] else []

/-- The terminator of a line is how it ends. -/
theorem terminator_eq_ending (line : List Char) : terminator line = ending line := by
  have hreturn : ['\r', '\n'] <:+ line ↔ ['\n', '\r'] <+: line.reverse :=
    List.reverse_prefix.symm
  have hfeed : ['\n'] <:+ line ↔ ['\n'] <+: line.reverse := List.reverse_prefix.symm
  simp only [ending, hreturn, hfeed, terminator]
  cases line.reverse with
  | nil => rfl
  | cons last before =>
      by_cases hlast : last = '\n'
      · subst hlast
        cases before with
        | nil => rfl
        | cons c others => by_cases hc : c = '\r' <;> simp [hc, eq_comm]
      · simp [hlast, eq_comm]

/-- A line without a line feed has no terminator. -/
theorem terminator_of_not_mem {line : List Char} (h : '\n' ∉ line) : terminator line = [] := by
  unfold terminator
  split
  · rename_i rest heq
    exact absurd (List.mem_reverse.1 (heq ▸ List.mem_cons_self)) h
  · rename_i rest _ heq
    exact absurd (List.mem_reverse.1 (heq ▸ List.mem_cons_self)) h
  · rfl

/-- A line feed is the terminator of a line, with a carriage return before it if there is one. -/
theorem terminator_feed (content : List Char) :
    terminator (content ++ ['\n']) =
      if content.getLast? = some '\r' then ['\r', '\n'] else ['\n'] := by
  rw [← List.head?_reverse]
  unfold terminator
  rw [List.reverse_append, List.reverse_singleton, List.singleton_append]
  cases content.reverse with
  | nil => rfl
  | cons c rest =>
      by_cases hc : c = '\r'
      · subst hc
        rfl
      · rw [if_neg (by simpa using hc)]
        split
        · rename_i heq
          simp_all
        · rfl
        · simp_all

/-! ## Places in a text -/

/-- A part of a text without line feeds lies on the line that the line feeds before it count. -/
theorem exists_line_of_append {word : List Char} (h : '\n' ∉ word) (before after : List Char) :
    ∃ line, ((before ++ word ++ after).splitOn '\n')[before.count '\n']? = some line ∧
      word <:+: line := by
  induction before with
  | nil =>
      rw [List.nil_append, splitOn_append h]
      cases hparts : after.splitOn '\n' with
      | nil => exact absurd hparts (List.splitOn_ne_nil '\n' after)
      | cons first rest => exact ⟨word ++ first, rfl, (List.prefix_append word first).isInfix⟩
  | cons c before ih =>
      obtain ⟨line, hline, hword⟩ := ih
      rw [List.cons_append, List.cons_append, List.splitOn_cons_eq_if_modifyHead, List.count_cons]
      by_cases hc : (c == '\n') = true
      · rw [if_pos hc, if_pos hc]
        exact ⟨line, hline, hword⟩
      · rw [if_neg hc, if_neg hc, Nat.add_zero]
        cases hparts : (before ++ word ++ after).splitOn '\n' with
        | nil => exact absurd hparts (List.splitOn_ne_nil _ _)
        | cons first rest =>
            rw [hparts] at hline
            cases hcount : before.count '\n' with
            | zero =>
                rw [hcount] at hline
                obtain rfl : first = line := Option.some.inj hline
                exact ⟨c :: first, rfl, hword.trans (List.suffix_cons c first).isInfix⟩
            | succ count =>
                rw [hcount] at hline
                exact ⟨line, hline, hword⟩

end Text
end ProjectAssembler
