import Mathlib.Data.List.Chain
import ProjectAssembler.Proofs.Text.Lines

/-!
# Carriage returns before line feeds

Some systems end lines with a carriage return and a line feed, others with a line feed alone.  What
is read up to a character that occurs in neither ending, or up to the end of a line, is the same for
both.

Main definitions:

* `Text.withReturns`: a text with a carriage return before every line feed;
* `Text.IsUnescaped`: whether no line feed stands behind a backslash.

Main results:

* `Text.dropWhile_withReturns` and `Text.takeWhile_withReturns`: reading characters of a class;
* `Text.lines_withReturns`: the lines of such a text.
-/

namespace ProjectAssembler
namespace Text

/-- A text with a carriage return put before every line feed. -/
def withReturns (text : List Char) : List Char :=
  text.flatMap fun c => if c = '\n' then ['\r', '\n'] else [c]

@[simp]
theorem withReturns_nil : withReturns [] = [] :=
  rfl

@[simp]
theorem withReturns_feed (text : List Char) :
    withReturns ('\n' :: text) = '\r' :: '\n' :: withReturns text :=
  rfl

theorem withReturns_cons {c : Char} (h : c ≠ '\n') (text : List Char) :
    withReturns (c :: text) = c :: withReturns text := by
  simp [withReturns, h]

theorem withReturns_append (first second : List Char) :
    withReturns (first ++ second) = withReturns first ++ withReturns second :=
  List.flatMap_append

theorem withReturns_of_not_mem {text : List Char} (h : '\n' ∉ text) : withReturns text = text := by
  induction text with
  | nil => rfl
  | cons c text ih =>
      rw [List.mem_cons, not_or] at h
      rw [withReturns_cons (Ne.symm h.1), ih h.2]

/-- The line feeds of a text are kept. -/
theorem count_withReturns (text : List Char) : (withReturns text).count '\n' = text.count '\n' := by
  induction text with
  | nil => rfl
  | cons c text ih =>
      by_cases hc : c = '\n'
      · subst hc
        simp [ih]
      · rw [withReturns_cons hc, List.count_cons_of_ne hc, List.count_cons_of_ne hc, ih]

/-- A text begins with a character that belongs to no line ending whatever the endings are. -/
theorem head?_withReturns {text : List Char} {c : Char} (hfeed : c ≠ '\n') (hreturn : c ≠ '\r') :
    (withReturns text).head? = some c ↔ text.head? = some c := by
  cases text with
  | nil => rfl
  | cons d text =>
      by_cases hd : d = '\n'
      · subst hd
        simp [hfeed.symm, hreturn.symm]
      · simp [withReturns_cons hd]

/-- A character at the front of a text with carriage returns that is none of them. -/
theorem exists_cons_of_withReturns {c : Char} (hreturn : c ≠ '\r')
    {text rest : List Char} (h : withReturns text = c :: rest) :
    ∃ rest', text = c :: rest' ∧ rest = withReturns rest' := by
  cases text with
  | nil => contradiction
  | cons d text =>
      by_cases hd : d = '\n'
      · subst hd
        rw [withReturns_feed, List.cons.injEq] at h
        exact absurd h.1.symm hreturn
      · rw [withReturns_cons hd, List.cons.injEq] at h
        exact ⟨text, by rw [h.1], h.2.symm⟩

/-- Characters that are dropped hold no line feed where none stands among them. -/
theorem drop_withReturns {n : Nat} {text : List Char} (h : '\n' ∉ text.take n) :
    (withReturns text).drop n = withReturns (text.drop n) := by
  induction n generalizing text with
  | zero => rfl
  | succ n ih =>
      cases text with
      | nil => rfl
      | cons c text =>
          rw [List.take_succ_cons, List.mem_cons, not_or] at h
          rw [withReturns_cons (Ne.symm h.1), List.drop_succ_cons, List.drop_succ_cons, ih h.2]

/-- One character is dropped unless it is a line feed. -/
theorem drop_one_withReturns {text : List Char} (h : text.head? ≠ some '\n') :
    (withReturns text).drop 1 = withReturns (text.drop 1) := by
  refine drop_withReturns ?_
  cases text with
  | nil => exact List.not_mem_nil
  | cons c text => simpa [eq_comm] using h

/-- Quotation marks at the front of a text. -/
theorem isPrefixOf_withReturns (quotes : Nat) (text : List Char) :
    (List.replicate quotes '"').isPrefixOf (withReturns text) =
      (List.replicate quotes '"').isPrefixOf text := by
  induction quotes generalizing text with
  | zero => rfl
  | succ quotes ih =>
      cases text with
      | nil => rfl
      | cons c text =>
          by_cases hc : c = '\n'
          · subst hc
            rfl
          · rw [withReturns_cons hc, List.replicate_succ, List.isPrefixOf, List.isPrefixOf, ih]

/-! ## Reading characters of a class -/

variable {p : Char → Bool}

/-- Whether a text begins with a character of a class to which no character of line endings
belongs. -/
theorem head?_any_withReturns (hreturn : p '\r' = false) (hfeed : p '\n' = false)
    (text : List Char) : (withReturns text).head?.any p = text.head?.any p := by
  cases text with
  | nil => rfl
  | cons c text =>
      by_cases hc : c = '\n'
      · subst hc
        simp [hreturn, hfeed]
      · simp [withReturns_cons hc]

/-- What follows the characters of a class to which both characters of line endings belong or
neither does. -/
theorem dropWhile_withReturns (h : p '\r' = p '\n') (text : List Char) :
    (withReturns text).dropWhile p = withReturns (text.dropWhile p) := by
  induction text with
  | nil => rfl
  | cons c text ih =>
      by_cases hc : c = '\n'
      · subst hc
        rw [withReturns_feed]
        cases hp : p '\n' with
        | true => simp [h, hp, ih]
        | false => simp [h, hp]
      · rw [withReturns_cons hc]
        cases hp : p c with
        | true => rw [List.dropWhile_cons_of_pos hp, List.dropWhile_cons_of_pos hp, ih]
        | false => simp [hp, withReturns_cons hc]

/-- The characters of a class to which no character of line endings belongs. -/
theorem takeWhile_withReturns (hreturn : p '\r' = false) (hfeed : p '\n' = false)
    (text : List Char) : (withReturns text).takeWhile p = text.takeWhile p := by
  induction text with
  | nil => rfl
  | cons c text ih =>
      by_cases hc : c = '\n'
      · subst hc
        simp [hreturn, hfeed]
      · rw [withReturns_cons hc]
        cases hp : p c with
        | true => rw [List.takeWhile_cons_of_pos hp, List.takeWhile_cons_of_pos hp, ih]
        | false => simp [hp]

/-- The rest of a line, which a carriage return ends if a line feed follows. -/
theorem takeWhile_line_withReturns (text : List Char) :
    (withReturns text).takeWhile (· != '\n') =
      text.takeWhile (· != '\n') ++ if '\n' ∈ text then ['\r'] else [] := by
  induction text with
  | nil => rfl
  | cons c text ih =>
      by_cases hc : c = '\n'
      · subst hc
        rfl
      · rw [withReturns_cons hc, List.takeWhile_cons_of_pos (by simpa using hc),
          List.takeWhile_cons_of_pos (by simpa using hc), ih, List.cons_append]
        simp [Ne.symm hc]

/-! ## Lines -/

/-- A line ends with a carriage return and its line feed. -/
theorem withReturns_append_feed {content : List Char} (h : '\n' ∉ content) :
    withReturns (content ++ ['\n']) = (content ++ ['\r']) ++ ['\n'] := by
  rw [withReturns_append, withReturns_of_not_mem h, List.append_assoc]
  rfl

theorem flatten_map_withReturns (parts : List (List Char)) :
    (parts.map withReturns).flatten = withReturns parts.flatten := by
  induction parts with
  | nil => rfl
  | cons part parts ih =>
      rw [List.map_cons, List.flatten_cons, List.flatten_cons, withReturns_append, ih]

theorem cut_map_withReturns {parts : List (List Char)} (h : Cut parts) :
    Cut (parts.map withReturns) := by
  induction h with
  | nil => exact Cut.nil
  | last hne h =>
      rw [List.map_singleton, withReturns_of_not_mem h]
      exact Cut.last hne h
  | cons h _ ih =>
      rw [List.map_cons, withReturns_append_feed h]
      exact Cut.cons (by simpa using h) ih

/-- A text with carriage returns has the same lines with a carriage return at the end of each. -/
theorem lines_withReturns (text : List Char) :
    lines (withReturns text) = (lines text).map withReturns := by
  have hcut := lines_flatten (cut_map_withReturns (cut_lines text))
  rwa [flatten_map_withReturns, flatten_lines] at hcut

/-! ## Escaped line feeds -/

/-- Whether no backslash stands directly before a line feed. -/
def IsUnescaped (text : List Char) : Prop :=
  text.IsChain fun c d => ¬ (c = '\\' ∧ d = '\n')

theorem isUnescaped_of_not_infix {text : List Char} (h : ¬ ['\\', '\n'] <:+: text) :
    IsUnescaped text := by
  refine List.isChain_iff_forall_rel_of_append_cons_cons.2 ?_
  rintro c d before after rfl ⟨rfl, rfl⟩
  exact h ⟨before, after, by simp⟩

end Text
end ProjectAssembler
