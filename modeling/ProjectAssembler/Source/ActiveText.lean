import ProjectAssembler.Source.Directive

/-!
# The active text of a source file

Conditional directives select which lines of a file are read.  Directive lines and the lines of
branches that are not selected are reduced to their line terminators, so that the lines which remain
keep their numbers.

Main definitions:

* `ActiveText.enter`: the effect of one directive on the open conditionals and on the symbols;
* `activeText`: the text of a file with everything inactive blanked.

Main results: `ActiveText.step_of_active` and `ActiveText.step_of_inactive` say what becomes of a
line that is no directive.
-/

namespace ProjectAssembler
namespace ActiveText

/-- An open conditional. -/
structure Conditional where
  /-- Whether the text around the conditional is active. -/
  enclosing : Bool
  /-- Whether one of its branches has been selected already. -/
  taken : Bool
  /-- Whether the branch that is being read is selected. -/
  active : Bool
deriving DecidableEq, Repr

/-- What is known between two lines: the open conditionals, innermost first, and the symbols. -/
structure State where
  conditionals : List Conditional
  symbols : Symbols

/-- The state at the beginning of a file. -/
def State.initial (symbols : Symbols) : State :=
  ⟨[], symbols⟩

/-- Whether plain lines are kept. -/
def State.active (state : State) : Bool :=
  match state.conditionals with
  | [] => true
  | innermost :: _ => innermost.active

/-- The state after a directive.  A branch or an end without an open conditional has no effect. -/
def enter (state : State) : Directive → State
  | .opening condition =>
      let value := state.active && Condition.holds state.symbols condition
      { state with conditionals := ⟨state.active, value, value⟩ :: state.conditionals }
  | .alternative condition =>
      match state.conditionals with
      | [] => state
      | innermost :: outer =>
          let value :=
            innermost.enclosing && !innermost.taken && Condition.holds state.symbols condition
          { state with
            conditionals := ⟨innermost.enclosing, innermost.taken || value, value⟩ :: outer }
  | .otherwise =>
      match state.conditionals with
      | [] => state
      | innermost :: outer =>
          { state with
            conditionals :=
              ⟨innermost.enclosing, true, innermost.enclosing && !innermost.taken⟩ :: outer }
  | .closing => { state with conditionals := state.conditionals.tail }
  | .define name =>
      if state.active then { state with symbols := state.symbols.define name } else state
  | .undefine name =>
      if state.active then { state with symbols := state.symbols.undefine name } else state
  | .other => state

/-- Read one line: the state after it and what remains of it. -/
def step (state : State) (line : List Char) : State × List Char :=
  match Directive.ofLine? line with
  | some directive => (enter state directive, Text.terminator line)
  | none => (state, if state.active then line else Text.terminator line)

/-- Read lines one after the other. -/
def readLines (state : State) : List (List Char) → List (List Char)
  | [] => []
  | line :: rest =>
      let (state', kept) := step state line
      kept :: readLines state' rest

/-- In an active region a plain line is kept. -/
theorem step_of_active {state : State} {line : List Char} (hline : Directive.ofLine? line = none)
    (hactive : state.active = true) : step state line = (state, line) := by
  simp [step, hline, hactive]

/-- Outside of the active regions a plain line is reduced to its terminator. -/
theorem step_of_inactive {state : State} {line : List Char}
    (hline : Directive.ofLine? line = none) (hactive : state.active = false) :
    step state line = (state, Text.terminator line) := by
  simp [step, hline, hactive]

/-- Blanking keeps the number of lines. -/
@[simp]
theorem length_readLines (state : State) (lines : List (List Char)) :
    (readLines state lines).length = lines.length := by
  induction lines generalizing state with
  | nil => rfl
  | cons line rest ih => simp [readLines, ih]

end ActiveText

/-- The text of a source file in which directive lines and inactive lines are blanked. -/
def activeText (symbols : Symbols) (text : List Char) : List Char :=
  (ActiveText.readLines (ActiveText.State.initial symbols) (Text.lines text)).flatten

end ProjectAssembler
