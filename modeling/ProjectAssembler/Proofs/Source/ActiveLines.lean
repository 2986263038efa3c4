import Mathlib.Data.List.Forall2
import ProjectAssembler.Proofs.Text.Lines
import ProjectAssembler.Source.ActiveText

/-!
# The lines of the active text

Blanking keeps every line at its number: a line is kept as it is, or only a carriage return before
its line feed remains of it.  So everything that stands on a line of the active text stands on the
line of the same number in the whole text.

Main results:

* `ActiveText.kept_or_terminator_readLines`: what becomes of each line;
* `ActiveText.forall₂_activeText`: the lines of the active text beside those of the text.
-/

namespace ProjectAssembler
namespace ActiveText

/-- A line is kept, or its terminator is. -/
theorem kept_or_terminator_step (state : State) (line : List Char) :
    (step state line).2 = line ∨ (step state line).2 = Text.terminator line := by
  unfold step
  split
  · exact Or.inr rfl
  · cases state.active
    · exact Or.inr rfl
    · exact Or.inl rfl

/-- Of each line that is read, the line is kept, or its terminator is. -/
theorem kept_or_terminator_readLines (state : State) (lines : List (List Char)) :
    List.Forall₂ (fun kept line => kept = line ∨ kept = Text.terminator line)
      (readLines state lines) lines := by
  induction lines generalizing state with
  | nil => exact List.Forall₂.nil
  | cons line rest ih => exact List.Forall₂.cons (kept_or_terminator_step state line) (ih _)

/-- What a line feed ends in a line or in its terminator is a suffix of what it ends in the line. -/
theorem exists_suffix_of_kept {content kept : List Char} (hcontent : '\n' ∉ content)
    (h : kept = content ++ ['\n'] ∨ kept = Text.terminator (content ++ ['\n'])) :
    ∃ ending, ending <:+ content ∧ '\n' ∉ ending ∧ kept = ending ++ ['\n'] := by
  rcases h with rfl | rfl
  · exact ⟨content, List.suffix_refl content, hcontent, rfl⟩
  · rw [Text.terminator_feed]
    by_cases hreturn : content.getLast? = some '\r'
    · obtain ⟨front, rfl⟩ := List.getLast?_eq_some_iff.1 hreturn
      exact ⟨['\r'], List.suffix_append front ['\r'], by decide, by rw [if_pos hreturn]; rfl⟩
    · exact ⟨[], List.nil_suffix, List.not_mem_nil, by rw [if_neg hreturn]; rfl⟩

/-- Where lines are kept or reduced to their terminators, what is between the line feeds becomes a
suffix of itself. -/
theorem forall₂_splitOn {kept lines : List (List Char)} (hcut : Text.Cut lines)
    (h : List.Forall₂ (fun kept line => kept = line ∨ kept = Text.terminator line) kept lines) :
    List.Forall₂ (· <:+ ·) (kept.flatten.splitOn '\n') (lines.flatten.splitOn '\n') := by
  induction hcut generalizing kept with
  | nil =>
      cases h
      exact List.Forall₂.cons (List.suffix_refl []) List.Forall₂.nil
  | @last line hne hline =>
      obtain _ | ⟨hkept, hrest⟩ := h
      cases hrest
      rw [Text.terminator_of_not_mem hline] at hkept
      rw [List.flatten_singleton, List.flatten_singleton, List.splitOn_eq_singleton hline]
      rcases hkept with rfl | rfl
      · rw [List.splitOn_eq_singleton hline]
        exact List.Forall₂.cons (List.suffix_refl _) List.Forall₂.nil
      · rw [List.splitOn_nil]
        exact List.Forall₂.cons List.nil_suffix List.Forall₂.nil
  | @cons content rest hcontent _ ih =>
      obtain _ | ⟨hkept, hrest⟩ := h
      obtain ⟨ending, hsuffix, hending, rfl⟩ := exists_suffix_of_kept hcontent hkept
      rw [List.flatten_cons, List.flatten_cons, List.append_assoc, List.append_assoc,
        List.singleton_append, List.singleton_append,
        List.splitOn_append_cons_self_of_not_mem hending,
        List.splitOn_append_cons_self_of_not_mem hcontent]
      exact List.Forall₂.cons hsuffix (ih hrest)

/-- Each line of the active text is a suffix of the line of the same number in the text. -/
theorem forall₂_activeText (symbols : Symbols) (text : List Char) :
    List.Forall₂ (· <:+ ·) ((activeText symbols text).splitOn '\n') (text.splitOn '\n') := by
  have h := forall₂_splitOn (Text.cut_lines text)
    (kept_or_terminator_readLines (State.initial symbols) (Text.lines text))
  rwa [Text.flatten_lines] at h

end ActiveText
end ProjectAssembler
