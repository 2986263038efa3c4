import ProjectAssembler.Proofs.Source.ActiveLines
import ProjectAssembler.Proofs.Source.DirectiveLines

/-!
# Lines without directives

Where the text is active, lines that are no directives are kept.  The active text of a file holds no
directive any more, whatever was unbalanced in the file, so it is active as a whole under every set
of symbols and nothing changes when it is read again.

Main results:

* `ActiveText.readLines_of_active` and `ActiveText.activeText_of_not_mem`: what has no directives is
  kept;
* `ActiveText.ofLine?_readLines`: what is kept has no directives;
* `ActiveText.lines_flatten_kept`: the lines of what is kept;
* `ActiveText.activeText_activeText`: the active text is active as a whole.
-/

namespace ProjectAssembler
namespace ActiveText

/-! ## What has no directives is kept -/

/-- A directive holds a number sign. -/
theorem mem_of_isWritten {line : List Char} (h : Directive.IsWritten line) : '#' ∈ line := by
  obtain ⟨name, -, spelling, rfl⟩ := h
  exact List.mem_append_right _ List.mem_cons_self

/-- Lines that are no directives are kept where they are active. -/
theorem readLines_of_active {state : State} (hactive : state.active = true)
    {lines : List (List Char)} (h : ∀ line ∈ lines, Directive.ofLine? line = none) :
    readLines state lines = lines := by
  induction lines with
  | nil => rfl
  | cons line rest ih =>
      obtain ⟨hline, hrest⟩ := List.forall_mem_cons.1 h
      rw [readLines, step_of_active hline hactive]
      exact congrArg (line :: ·) (ih hrest)

/-- A text without number signs is active as a whole. -/
theorem activeText_of_not_mem (symbols : Symbols) {text : List Char} (h : '#' ∉ text) :
    activeText symbols text = text := by
  have hplain : ∀ line ∈ Text.lines text, Directive.ofLine? line = none := by
    intro line hline
    refine Directive.ofLine?_eq_none fun hwritten => ?_
    have hmem : '#' ∈ (Text.lines text).flatten :=
      List.mem_flatten_of_mem hline (mem_of_isWritten hwritten)
    rw [Text.flatten_lines] at hmem
    exact h hmem
  rw [activeText, readLines_of_active rfl hplain, Text.flatten_lines]

/-! ## What is kept has no directives -/

/-- A terminator is no directive. -/
theorem ofLine?_terminator (line : List Char) :
    Directive.ofLine? (Text.terminator line) = none := by
  refine Directive.ofLine?_eq_none fun hwritten => ?_
  have hmark := mem_of_isWritten hwritten
  unfold Text.terminator at hmark
  split at hmark <;> simp at hmark

/-- What remains of a line is no directive, whichever conditionals are open. -/
theorem ofLine?_step (state : State) (line : List Char) :
    Directive.ofLine? (step state line).2 = none := by
  unfold step
  split
  · exact ofLine?_terminator line
  · rename_i hline
    cases state.active
    · exact ofLine?_terminator line
    · exact hline

theorem ofLine?_readLines (state : State) (lines : List (List Char)) :
    ∀ kept ∈ readLines state lines, Directive.ofLine? kept = none := by
  induction lines generalizing state with
  | nil => exact nofun
  | cons line rest ih => exact List.forall_mem_cons.2 ⟨ofLine?_step state line, ih _⟩

/-! ## The lines of what is kept -/

/-- What is kept of lines is cut like them.  Only a last line without a line feed can vanish. -/
theorem cut_kept {kept lines : List (List Char)} (hcut : Text.Cut lines)
    (h : List.Forall₂ (fun kept line => kept = line ∨ kept = Text.terminator line) kept lines) :
    Text.Cut (kept.filter (· ≠ [])) := by
  induction hcut generalizing kept with
  | nil =>
      cases h
      exact Text.Cut.nil
  | @last line hne hline =>
      obtain _ | ⟨hkept, hrest⟩ := h
      cases hrest
      rw [Text.terminator_of_not_mem hline] at hkept
      rcases hkept with rfl | rfl
      · simpa [hne] using Text.Cut.last hne hline
      · exact Text.Cut.nil
  | @cons content rest hcontent _ ih =>
      obtain _ | ⟨hkept, hrest⟩ := h
      obtain ⟨ending, -, hending, rfl⟩ := exists_suffix_of_kept hcontent hkept
      simpa using Text.Cut.cons hending (ih hrest)

/-- The lines of what is kept are the lines that are kept, but for an empty last one. -/
theorem lines_flatten_kept {kept lines : List (List Char)} (hcut : Text.Cut lines)
    (h : List.Forall₂ (fun kept line => kept = line ∨ kept = Text.terminator line) kept lines) :
    Text.lines kept.flatten = kept.filter (· ≠ []) := by
  rw [← List.flatten_filter_ne_nil, Text.lines_flatten (cut_kept hcut h)]

/-! ## Reading again -/

/-- The active text has the lines of the text, each of them as it was or reduced to how it ends (so
that of a last line without a line feed nothing may remain).  The active text is active as a
whole, whatever symbols are defined when it is read again. -/
theorem activeText_activeText (symbols other : Symbols) (text : List Char) :
    (∃ kept, List.Forall₂ (fun kept line => kept = line ∨ kept = Text.ending line) kept
        (Text.lines text) ∧
      activeText symbols text = kept.flatten ∧
      Text.lines (activeText symbols text) = kept.filter (· ≠ [])) ∧
    activeText other (activeText symbols text) = activeText symbols text := by
  have hkept := kept_or_terminator_readLines (State.initial symbols) (Text.lines text)
  have hlines : Text.lines (activeText symbols text) = _ :=
    lines_flatten_kept (Text.cut_lines text) hkept
  have hplain : ∀ line ∈ Text.lines (activeText symbols text), Directive.ofLine? line = none := by
    intro line hline
    rw [hlines] at hline
    exact ofLine?_readLines _ _ line (List.mem_filter.1 hline).1
  refine ⟨⟨_, ?_, rfl, hlines⟩, ?_⟩
  · simpa only [Text.terminator_eq_ending] using hkept
  rw [activeText, readLines_of_active rfl hplain, Text.flatten_lines]

end ActiveText
end ProjectAssembler
