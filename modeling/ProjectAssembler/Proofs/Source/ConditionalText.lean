import Mathlib.Data.Finset.Dedup
import Mathlib.Data.Finset.Erase
import Mathlib.Data.Finset.Insert
import ProjectAssembler.Proofs.Source.ConditionTruth
import ProjectAssembler.Proofs.Source.DirectiveLines
import ProjectAssembler.Proofs.Text.Lines
import ProjectAssembler.Source.ActiveText

/-!
# The meaning of conditional compilation

The lines of a file with conditional compilation form a tree: conditionals contain further lines and
conditionals.  What remains of such a file follows the tree.  Of each conditional that is reached,
the first branch whose condition holds remains, or else the last branch if it has no condition.

Main definitions:

* `ConditionalText.Part` and `ConditionalText.Branches`: the tree of a file, with its `lines`;
* `ConditionalText.Part.meaning`: what remains of a tree, and which names are defined after it;
* `ConditionalText.Program`: a whole file.

Main results:

* `ConditionalText.reads_blank`: nothing remains of what is not selected;
* `ConditionalText.follows_meaning`: what is reached is read according to its meaning;
* `ConditionalText.Program.activeText_text`: the active text of a file is its meaning.
-/

namespace ProjectAssembler

namespace ConditionalText

open Directive (IsName IsWritten Spelling)
open ActiveText

/-- The names of the directives that have an effect. -/
def effective : List String :=
  ["if", "elif", "else", "endif", "define", "undef"]

mutual

/-- A line that is no directive, a directive of its own, or a whole conditional. -/
inductive Part where
  | plain (line : List Char) (h : ¬ IsWritten line)
  | define (spelling : Spelling "define")
  | undefine (spelling : Spelling "undef")
  | other (name : String) (hname : IsName name) (hother : name ∉ effective)
      (spelling : Spelling name)
  | conditional (opening : Spelling "if") (body : List Part) (branches : Branches)

/-- What follows the first branch of a conditional: further branches with conditions, a branch
without one, and the end. -/
inductive Branches where
  | closing (spelling : Spelling "endif")
  | otherwise (spelling : Spelling "else") (body : List Part) (closing : Spelling "endif")
  | alternative (spelling : Spelling "elif") (body : List Part) (rest : Branches)

end

/-! ## Lines -/

mutual

/-- The lines of a part. -/
def Part.lines : Part → List (List Char)
  | .plain line _ => [line]
  | .define spelling => [spelling.text]
  | .undefine spelling => [spelling.text]
  | .other _ _ _ spelling => [spelling.text]
  | .conditional opening body branches => opening.text :: (linesOf body ++ branches.lines)

/-- The lines of parts one after the other. -/
def linesOf : List Part → List (List Char)
  | [] => []
  | part :: rest => part.lines ++ linesOf rest

/-- The lines of branches. -/
def Branches.lines : Branches → List (List Char)
  | .closing spelling => [spelling.text]
  | .otherwise spelling body closing => spelling.text :: (linesOf body ++ [closing.text])
  | .alternative spelling body rest => spelling.text :: (linesOf body ++ rest.lines)

end

/-! ## Meaning -/

/-- What remains of lines that are not selected: how they end. -/
def blank (lines : List (List Char)) : List (List Char) :=
  lines.map Text.ending

/-- What remains of lines, and the names that are defined after them. -/
structure Meaning where
  kept : List (List Char)
  names : Finset String

/-- A meaning between lines of which nothing remains. -/
def Meaning.between (before : List (List Char)) (meaning : Meaning) (after : List (List Char)) :
    Meaning :=
  ⟨blank before ++ (meaning.kept ++ blank after), meaning.names⟩

mutual

/-- The meaning of a part where some names are defined. -/
def Part.meaning (names : Finset String) : Part → Meaning
  | .plain line _ => ⟨[line], names⟩
  | .define spelling => ⟨blank [spelling.text], insert (String.ofList spelling.argument) names⟩
  | .undefine spelling => ⟨blank [spelling.text], names.erase (String.ofList spelling.argument)⟩
  | .other _ _ _ spelling => ⟨blank [spelling.text], names⟩
  | .conditional opening body branches =>
      if Condition.Asserts (· ∈ names) opening.argument then
        (meaningOf names body).between [opening.text] branches.lines
      else (branches.meaning names).between (opening.text :: linesOf body) []

/-- The meaning of parts one after the other: each is read with the names that are defined after the
ones before it. -/
def meaningOf (names : Finset String) : List Part → Meaning
  | [] => ⟨[], names⟩
  | part :: rest =>
      let first := part.meaning names
      let others := meaningOf first.names rest
      ⟨first.kept ++ others.kept, others.names⟩

/-- The meaning of branches when none before them is selected. -/
def Branches.meaning (names : Finset String) : Branches → Meaning
  | .closing spelling => ⟨blank [spelling.text], names⟩
  | .otherwise spelling body closing =>
      (meaningOf names body).between [spelling.text] [closing.text]
  | .alternative spelling body rest =>
      if Condition.Asserts (· ∈ names) spelling.argument then
        (meaningOf names body).between [spelling.text] rest.lines
      else (rest.meaning names).between (spelling.text :: linesOf body) []

end

/-! ## Reading -/

/-- Whether reading lines in a state leaves the given ones and leads to another state. -/
def Reads (before : State) (lines kept : List (List Char)) (after : State) : Prop :=
  ∀ rest, readLines before (lines ++ rest) = kept ++ readLines after rest

theorem Reads.nil (state : State) : Reads state [] [] state :=
  fun _ => rfl

theorem Reads.append {first second third : State} {lines lines' kept kept' : List (List Char)}
    (h : Reads first lines kept second) (h' : Reads second lines' kept' third) :
    Reads first (lines ++ lines') (kept ++ kept') third := by
  intro rest
  rw [List.append_assoc, h, h', List.append_assoc]

/-- A written directive takes its effect, and nothing remains of its line. -/
theorem reads_directive (state : State) {name : String} (hname : IsName name)
    (spelling : Spelling name) :
    Reads state [spelling.text] (blank [spelling.text])
      (enter state (Directive.ofName name spelling.argument)) := by
  intro rest
  rw [List.singleton_append, readLines, step, Directive.ofLine?_text hname, blank, List.map_singleton,
    ← Text.terminator_eq_ending]
  rfl

/-- A line that is no directive is kept if it is active. -/
theorem reads_plain (state : State) {line : List Char} (h : ¬ IsWritten line) :
    Reads state [line] (if state.active then [line] else blank [line]) state := by
  intro rest
  rw [List.singleton_append, readLines, step, Directive.ofLine?_eq_none h, blank, List.map_singleton,
    ← Text.terminator_eq_ending]
  cases state.active <;> rfl

/-- The symbols that are defined stay the same where a definition is not active. -/
theorem reads_define (state : State) (spelling : Spelling "define") :
    Reads state [spelling.text] (blank [spelling.text])
      (if state.active then
        { state with symbols := state.symbols.define (String.ofList spelling.argument) }
      else state) :=
  reads_directive state (by decide) spelling

theorem reads_undefine (state : State) (spelling : Spelling "undef") :
    Reads state [spelling.text] (blank [spelling.text])
      (if state.active then
        { state with symbols := state.symbols.undefine (String.ofList spelling.argument) }
      else state) :=
  reads_directive state (by decide) spelling

/-- Directives with other names have no effect. -/
theorem reads_other (state : State) {name : String} (hname : IsName name)
    (hother : name ∉ effective) (spelling : Spelling name) :
    Reads state [spelling.text] (blank [spelling.text]) state := by
  have hnone : Directive.ofName name spelling.argument = .other := by
    simp only [effective, List.mem_cons, List.not_mem_nil, or_false, not_or] at hother
    unfold Directive.ofName
    split <;> simp_all
  have hread := reads_directive state hname spelling
  rwa [hnone] at hread

/-- A conditional is opened with its first branch selected or not. -/
theorem reads_opening (state : State) (opening : Spelling "if") (selected : Bool)
    (h : (state.active && Condition.holds state.symbols opening.argument) = selected) :
    Reads state [opening.text] (blank [opening.text])
      ⟨⟨state.active, selected, selected⟩ :: state.conditionals, state.symbols⟩ := by
  subst h
  exact reads_directive state (by decide) opening

section Branch

variable (innermost : Conditional) (outer : List Conditional) (symbols : Symbols)

/-- A branch with a condition is selected or not. -/
theorem reads_alternative (spelling : Spelling "elif") (selected : Bool)
    (h : (innermost.enclosing && !innermost.taken &&
      Condition.holds symbols spelling.argument) = selected) :
    Reads ⟨innermost :: outer, symbols⟩ [spelling.text] (blank [spelling.text])
      ⟨⟨innermost.enclosing, innermost.taken || selected, selected⟩ :: outer, symbols⟩ := by
  subst h
  exact reads_directive _ (by decide) spelling

/-- A branch without a condition is selected or not. -/
theorem reads_otherwise (spelling : Spelling "else") (selected : Bool)
    (h : (innermost.enclosing && !innermost.taken) = selected) :
    Reads ⟨innermost :: outer, symbols⟩ [spelling.text] (blank [spelling.text])
      ⟨⟨innermost.enclosing, true, selected⟩ :: outer, symbols⟩ := by
  subst h
  exact reads_directive _ (by decide) spelling

/-- The end of a conditional leads back to the text around it. -/
theorem reads_closing (spelling : Spelling "endif") :
    Reads ⟨innermost :: outer, symbols⟩ [spelling.text] (blank [spelling.text])
      ⟨outer, symbols⟩ :=
  reads_directive _ (by decide) spelling

end Branch

/-! ## What is not selected -/

/-- A conditional no further branch of which is selected. -/
def IsSettled (innermost : Conditional) : Prop :=
  innermost.enclosing = false ∨ innermost.taken = true

/-- A further branch of a settled conditional is not selected. -/
theorem not_selected_of_isSettled {innermost : Conditional} (h : IsSettled innermost) :
    (innermost.enclosing && !innermost.taken) = false := by
  rcases h with h | h <;> simp [h]

mutual

/-- Nothing remains of a part that is not active, and it has no effect. -/
theorem reads_blank_part (state : State) (hactive : state.active = false) (part : Part) :
    Reads state part.lines (blank part.lines) state := by
  cases part with
  | plain line h => simpa [Part.lines, hactive] using reads_plain state h
  | define spelling => simpa [Part.lines, hactive] using reads_define state spelling
  | undefine spelling => simpa [Part.lines, hactive] using reads_undefine state spelling
  | other name hname hother spelling => exact reads_other state hname hother spelling
  | conditional opening body branches =>
      have hopening := reads_opening state opening false (by simp [hactive])
      have hbody := reads_blank ⟨⟨state.active, false, false⟩ :: state.conditionals, state.symbols⟩
        rfl body
      have hbranches := reads_blank_branches ⟨state.active, false, false⟩ (Or.inl hactive)
        state.conditionals state.symbols branches
      simpa [Part.lines, blank] using hopening.append (hbody.append hbranches)
termination_by structural part

/-- Nothing remains of parts that are not active, and they have no effect. -/
theorem reads_blank (state : State) (hactive : state.active = false) (parts : List Part) :
    Reads state (linesOf parts) (blank (linesOf parts)) state := by
  cases parts with
  | nil => exact Reads.nil state
  | cons part rest =>
      simpa [linesOf, blank] using
        (reads_blank_part state hactive part).append (reads_blank state hactive rest)
termination_by structural parts

/-- Nothing remains of the further branches of a settled conditional, and they have no effect. -/
theorem reads_blank_branches (innermost : Conditional) (hsettled : IsSettled innermost)
    (outer : List Conditional) (symbols : Symbols) (branches : Branches) :
    Reads ⟨innermost :: outer, symbols⟩ branches.lines (blank branches.lines)
      ⟨outer, symbols⟩ := by
  have hnone := not_selected_of_isSettled hsettled
  cases branches with
  | closing spelling => exact reads_closing innermost outer symbols spelling
  | otherwise spelling body closing =>
      have hopening := reads_otherwise innermost outer symbols spelling false hnone
      have hbody := reads_blank ⟨⟨innermost.enclosing, true, false⟩ :: outer, symbols⟩ rfl body
      have hclosing := reads_closing ⟨innermost.enclosing, true, false⟩ outer symbols closing
      simpa [Branches.lines, blank] using hopening.append (hbody.append hclosing)
  | alternative spelling body rest =>
      have hopening := reads_alternative innermost outer symbols spelling false
        (by simp [hnone])
      rw [Bool.or_false] at hopening
      have hbody := reads_blank ⟨⟨innermost.enclosing, innermost.taken, false⟩ :: outer, symbols⟩
        rfl body
      have hrest := reads_blank_branches ⟨innermost.enclosing, innermost.taken, false⟩ hsettled
        outer symbols rest
      simpa [Branches.lines, blank] using hopening.append (hbody.append hrest)
termination_by structural branches

end

/-! ## What is selected -/

/-- Whether reading lines in a state leaves what a meaning says, with the names defined after it,
inside of some conditionals. -/
def Follows (before : State) (lines : List (List Char)) (meaning : Meaning)
    (conditionals : List Conditional) : Prop :=
  ∃ after : Symbols, after.names.toFinset = meaning.names ∧
    Reads before lines meaning.kept ⟨conditionals, after⟩

/-- Lines of which nothing remains may stand around lines that are read. -/
theorem Follows.between {state inner : State} {before lines after : List (List Char)}
    {meaning : Meaning} {conditionals outer : List Conditional}
    (hbefore : Reads state before (blank before) inner)
    (h : Follows inner lines meaning conditionals)
    (hafter : ∀ symbols, Reads ⟨conditionals, symbols⟩ after (blank after) ⟨outer, symbols⟩) :
    Follows state (before ++ (lines ++ after)) (meaning.between before after) outer := by
  obtain ⟨symbols, hnames, hread⟩ := h
  exact ⟨symbols, hnames, hbefore.append (hread.append (hafter symbols))⟩

/-- Names that are defined or removed. -/
theorem toFinset_names_define (symbols : Symbols) (name : String) :
    (symbols.define name).names.toFinset = insert name symbols.names.toFinset := by
  ext other
  simp

theorem toFinset_names_undefine (symbols : Symbols) (name : String) :
    (symbols.undefine name).names.toFinset = symbols.names.toFinset.erase name := by
  ext other
  simp

/-- A condition holds where it is true of the names that are defined. -/
theorem holds_eq_decide (symbols : Symbols) (argument : List Char) :
    Condition.holds symbols argument =
      decide (Condition.Asserts (· ∈ symbols.names.toFinset) argument) := by
  rw [Bool.eq_iff_iff, Condition.holds_eq_true_iff, decide_eq_true_eq]
  simp only [List.mem_toFinset]

mutual

/-- A part that is active is read according to its meaning. -/
theorem follows_meaning_part (conditionals : List Conditional) (symbols : Symbols)
    (hactive : State.active ⟨conditionals, symbols⟩ = true) (part : Part) :
    Follows ⟨conditionals, symbols⟩ part.lines (part.meaning symbols.names.toFinset)
      conditionals := by
  cases part with
  | plain line h =>
      have hplain := reads_plain ⟨conditionals, symbols⟩ h
      rw [hactive] at hplain
      exact ⟨symbols, rfl, hplain⟩
  | define spelling =>
      have hdefine := reads_define ⟨conditionals, symbols⟩ spelling
      rw [hactive] at hdefine
      exact ⟨_, toFinset_names_define symbols _, hdefine⟩
  | undefine spelling =>
      have hundefine := reads_undefine ⟨conditionals, symbols⟩ spelling
      rw [hactive] at hundefine
      exact ⟨_, toFinset_names_undefine symbols _, hundefine⟩
  | other name hname hother spelling =>
      exact ⟨symbols, rfl, reads_other ⟨conditionals, symbols⟩ hname hother spelling⟩
  | conditional opening body branches =>
      have hopening := reads_opening ⟨conditionals, symbols⟩ opening _ rfl
      rw [hactive, Bool.true_and, holds_eq_decide] at hopening
      rw [Part.lines, Part.meaning]
      split
      · rename_i hasserts
        rw [decide_eq_true hasserts] at hopening
        have hbody := follows_meaning (⟨true, true, true⟩ :: conditionals) symbols rfl body
        exact .between hopening hbody fun after =>
          reads_blank_branches ⟨true, true, true⟩ (Or.inr rfl) conditionals after branches
      · rename_i hasserts
        rw [decide_eq_false hasserts] at hopening
        have hbody := reads_blank ⟨⟨true, false, false⟩ :: conditionals, symbols⟩ rfl body
        have hbranches := follows_meaning_branches false conditionals symbols branches
        simpa using Follows.between (hopening.append hbody) hbranches fun after => Reads.nil _
termination_by structural part

/-- Parts that are active are read according to their meaning. -/
theorem follows_meaning (conditionals : List Conditional) (symbols : Symbols)
    (hactive : State.active ⟨conditionals, symbols⟩ = true) (parts : List Part) :
    Follows ⟨conditionals, symbols⟩ (linesOf parts) (meaningOf symbols.names.toFinset parts)
      conditionals := by
  cases parts with
  | nil => exact ⟨symbols, rfl, Reads.nil _⟩
  | cons part rest =>
      obtain ⟨after, hnames, hpart⟩ := follows_meaning_part conditionals symbols hactive part
      obtain ⟨last, hlast, hrest⟩ := follows_meaning conditionals after hactive rest
      rw [meaningOf, ← hnames]
      exact ⟨last, hlast, hpart.append hrest⟩
termination_by structural parts

/-- Further branches of a conditional that is reached and of which no branch is selected yet are
read according to their meaning. -/
theorem follows_meaning_branches (active : Bool) (outer : List Conditional) (symbols : Symbols)
    (branches : Branches) :
    Follows ⟨⟨true, false, active⟩ :: outer, symbols⟩ branches.lines
      (branches.meaning symbols.names.toFinset) outer := by
  cases branches with
  | closing spelling =>
      exact ⟨symbols, rfl, reads_closing ⟨true, false, active⟩ outer symbols spelling⟩
  | otherwise spelling body closing =>
      have hopening := reads_otherwise ⟨true, false, active⟩ outer symbols spelling _ rfl
      have hbody := follows_meaning (⟨true, true, true⟩ :: outer) symbols rfl body
      exact .between hopening hbody fun after => reads_closing ⟨true, true, true⟩ outer after closing
  | alternative spelling body rest =>
      have hopening := reads_alternative ⟨true, false, active⟩ outer symbols spelling _ rfl
      rw [holds_eq_decide] at hopening
      rw [Branches.lines, Branches.meaning]
      split
      · rename_i hasserts
        rw [decide_eq_true hasserts] at hopening
        have hbody := follows_meaning (⟨true, true, true⟩ :: outer) symbols rfl body
        exact .between hopening hbody fun after =>
          reads_blank_branches ⟨true, true, true⟩ (Or.inr rfl) outer after rest
      · rename_i hasserts
        rw [decide_eq_false hasserts] at hopening
        have hbody := reads_blank ⟨⟨true, false, false⟩ :: outer, symbols⟩ rfl body
        have hrest := follows_meaning_branches false outer symbols rest
        simpa using Follows.between (hopening.append hbody) hrest fun after => Reads.nil _
termination_by structural branches

end

/-! ## Files -/

/-- A file: parts whose lines are the lines of a text. -/
structure Program where
  parts : List Part
  cut : Text.Cut (linesOf parts)

namespace Program

/-- The text of a file. -/
def text (program : Program) : List Char :=
  (linesOf program.parts).flatten

/-- The active text of a file is its meaning where the given symbols are defined. -/
theorem activeText_text (program : Program) (symbols : Symbols) :
    activeText symbols program.text =
      (meaningOf symbols.names.toFinset program.parts).kept.flatten := by
  obtain ⟨after, -, hread⟩ := follows_meaning [] symbols rfl program.parts
  have hlines := hread []
  rw [List.append_nil] at hlines
  rw [activeText, text, Text.lines_flatten program.cut, State.initial, hlines]
  simp [readLines]

end Program
end ConditionalText
end ProjectAssembler
