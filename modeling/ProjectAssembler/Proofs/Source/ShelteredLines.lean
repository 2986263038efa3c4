import ProjectAssembler.Proofs.Source.ActiveLines
import ProjectAssembler.Proofs.Source.OpenText
import ProjectAssembler.Source.Tree

/-!
# Directives in comments and literals

The active text is selected line by line, before lexemes are read, so a line in a comment or in a
literal that looks like a directive is one.  It is blanked, and it may hide lines that follow.  As
long as all lines that are blanked lie inside of comments and literals, blanking them changes no
declaration.

Main definitions:

* `Opening.Shelters`: whether a line lies inside of what is open where it begins;
* `ActiveText.areSheltered`: whether all lines of a text that are selected do so.

Main results:

* `Token.scanned_sheltered`: a line that lies inside of a comment or a literal can be replaced by
  another one;
* `Token.scanned_readLines`: so can all lines that are blanked;
* `SourceTree.declarations_sheltered`: what a file declares in which directives hide only such
  lines;
* `SourceTree.declarations_hiddenText`: a directive in a comment that hides what follows it.
-/

namespace ProjectAssembler

/-! ## Lines inside of comments and literals -/

/-- Whether something goes on behind the end of a line. -/
def Enclosure.spansLines : Enclosure → Bool
  | quoted verbatim _ => verbatim
  | raw _ => true
  | character => false
  | hole _ => true

namespace Enclosure

/-- All raw strings that are open after a text are closed by quotation marks. -/
theorem isProper_openAfter {stack : List Enclosure} {text : List Char}
    (h : ∀ enclosure ∈ stack, enclosure.IsProper) :
    ∀ enclosure ∈ openAfter stack text, enclosure.IsProper := by
  fun_induction openAfter stack text with
  | case1 => exact h
  | case2 => exact h
  | case3 innermost outer c text ih => exact ih (isProper_step h c text)

/-- What spans lines is left open by the end of a line. -/
theorem step_of_spansLines {innermost : Enclosure} (hspans : innermost.spansLines = true)
    (hproper : innermost.IsProper) (outer : List Enclosure) (text : List Char) :
    step innermost outer '\n' text = (innermost :: outer, text) := by
  cases innermost with
  | quoted verbatim interpolated =>
      obtain rfl : verbatim = true := hspans
      simp [step]
  | raw quotes =>
      obtain ⟨quotes, rfl⟩ : ∃ n, quotes = n + 1 := Nat.exists_eq_add_one.2 hproper
      simp [step, List.replicate_succ, List.isPrefixOf]
  | character => contradiction
  | hole braces =>
      have hopen := Enclosure.openString?_eq_none rfl (by decide : '\n' ≠ '"') text
      simp [step, hopen]

end Enclosure

namespace Opening

open Text (IsWhole)

variable {opening : Opening} {line : List Char}

/-- Whether something goes on behind the end of a line. -/
def spansLines : Opening → Bool
  | comment => true
  | literal stack => stack.head?.any Enclosure.spansLines

/-- Whether a line lies inside of what is open where it begins, and leaves it as it is. -/
def Shelters (opening : Opening) (line : List Char) : Prop :=
  opening.spansLines = true ∧ opening.next line = opening

instance (opening : Opening) (line : List Char) : Decidable (opening.Shelters line) :=
  inferInstanceAs (Decidable (_ ∧ _))

theorem ne_closed_of_spansLines (h : opening.spansLines = true) : opening ≠ closed := by
  rintro rfl
  contradiction

/-- The terminator of a line lies inside of what goes on behind the line. -/
theorem shelters_terminator (hspans : opening.spansLines = true) (hproper : opening.IsProper)
    {terminator : List Char}
    (h : terminator = [] ∨ terminator = ['\n'] ∨ terminator = ['\r', '\n']) :
    opening.Shelters terminator := by
  refine ⟨hspans, ?_⟩
  cases opening with
  | comment =>
      have hnot : ¬ ['*', '/'] <:+: terminator := by rcases h with rfl | rfl | rfl <;> decide
      exact if_neg hnot
  | literal stack =>
      cases stack with
      | nil => contradiction
      | cons innermost outer =>
          have hinnermost : innermost.IsProper := hproper innermost List.mem_cons_self
          have hend (text : List Char) := Enclosure.step_of_spansLines hspans hinnermost outer text
          have hreturn (text : List Char) := Enclosure.step_return hinnermost outer text
          rcases h with rfl | rfl | rfl
          · rw [next, Enclosure.openAfter]
          · rw [next, Enclosure.openAfter, hend, Enclosure.openAfter]
          · rw [next, Enclosure.openAfter, hreturn, Enclosure.openAfter, hend,
              Enclosure.openAfter]

/-- A line that lies inside of what is open has no part in where that is closed. -/
theorem after_sheltered (hproper : opening.IsProper) (h : opening.Shelters line)
    {rest : List Char} (hline : IsWhole line ∨ rest = []) :
    opening.after (line ++ rest) = opening.after rest := by
  have hnothing : opening.after line = [] := by
    refine after_eq_nil ?_
    rw [h.2]
    exact ne_closed_of_spansLines h.1
  rcases hline with hwhole | rfl
  · rw [after_whole hproper hwhole, hnothing, h.2, List.nil_append]
  · have hnone : opening.after [] = [] := by
      cases opening with
      | comment => rfl
      | literal stack => exact Enclosure.close_end stack
    rw [List.append_nil, hnothing, hnone]

/-- What the lexeme at the front of a text leaves open is closed by quotation marks. -/
theorem isProper_opened (c : Char) (text : List Char) : (Lexeme.opened c text).IsProper := by
  have hclosed : closed.IsProper := fun _ hmem => absurd hmem List.not_mem_nil
  unfold Lexeme.opened
  cases hstring : Enclosure.openString? (c :: text) with
  | some found =>
      exact Enclosure.isProper_openAfter
        (List.forall_mem_singleton.2 (Enclosure.isProper_of_openString? hstring))
  | none =>
      dsimp only
      split
      · exact Enclosure.isProper_openAfter (List.forall_mem_singleton.2 trivial)
      · split
        · rw [next]
          split
          · exact hclosed
          · exact trivial
        · exact hclosed

theorem isProper_atEnd (text : List Char) : (atEnd text).IsProper := by
  fun_induction atEnd text with
  | case1 => exact fun _ hmem => absurd hmem List.not_mem_nil
  | case2 c text _ ih => exact ih
  | case3 c text _ => exact isProper_opened c text

end Opening

namespace Token

open Text (IsWhole)

/-- Between lines that end in the same comment or literal it does not matter which line stands
there, if it lies inside. -/
theorem scanned_sheltered {before line kept rest : List Char} (hbefore : IsWhole before)
    (hline : (Opening.atEnd before).Shelters line) (hkept : (Opening.atEnd before).Shelters kept)
    (hcount : kept.count '\n' = line.count '\n')
    (hrest : IsWhole line ∧ IsWhole kept ∨ rest = []) (documentation : Bool) (number : Nat) :
    scanned documentation number (before ++ (kept ++ rest)) =
      scanned documentation number (before ++ (line ++ rest)) := by
  have hproper := Opening.isProper_atEnd before
  have hafter := Opening.after_sheltered hproper hline (hrest.imp_left And.left)
  have hafter' := Opening.after_sheltered hproper hkept (hrest.imp_left And.right)
  have hlines : (before ++ (kept ++ rest)).count '\n' = (before ++ (line ++ rest)).count '\n' := by
    simp only [List.count_append, hcount]
  rw [scanned_whole hbefore, scanned_whole hbefore, hafter, hafter', hlines]

end Token

/-! ## Lines that are blanked -/

namespace ActiveText

open Text (IsWhole)

/-- Whether a line looks like a directive. -/
def isDirective (_ : State) (line : List Char) : Bool :=
  (Directive.ofLine? line).isSome

/-- Whether a line is not kept. -/
def isBlanked (state : State) (line : List Char) : Bool :=
  (step state line).2 != line

/-- Whether a line is hidden by a directive before it. -/
def isHidden (state : State) (line : List Char) : Bool :=
  !isDirective state line && isBlanked state line

/-- Whether all lines that are selected lie inside of comments and literals; a text stands before
the first of them. -/
def areSheltered (selected : State → List Char → Bool) (state : State) (before : List Char) :
    List (List Char) → Bool
  | [] => true
  | line :: rest =>
      (!selected state line || decide ((Opening.atEnd before).Shelters line)) &&
        areSheltered selected (step state line).1 (before ++ line) rest

theorem areSheltered_cons {selected : State → List Char → Bool} {state : State}
    {before line : List Char} {rest : List (List Char)} :
    areSheltered selected state before (line :: rest) = true ↔
      (selected state line = true → (Opening.atEnd before).Shelters line) ∧
        areSheltered selected (step state line).1 (before ++ line) rest = true := by
  rw [areSheltered, Bool.and_eq_true, Bool.or_eq_true, Bool.not_eq_true', decide_eq_true_iff,
    or_iff_not_imp_left, Bool.not_eq_false]

/-- Where the lines that look like directives and those that these hide lie inside of comments and
literals, so do all lines that are blanked. -/
theorem areSheltered_isBlanked {state : State} {before : List Char} {lines : List (List Char)}
    (hdirectives : areSheltered isDirective state before lines = true)
    (hhidden : areSheltered isHidden state before lines = true) :
    areSheltered isBlanked state before lines = true := by
  induction lines generalizing state before with
  | nil => rfl
  | cons line rest ih =>
      rw [areSheltered_cons] at hdirectives hhidden ⊢
      refine ⟨fun hblanked => ?_, ih hdirectives.2 hhidden.2⟩
      cases hdirective : isDirective state line with
      | true => exact hdirectives.1 hdirective
      | false =>
          refine hhidden.1 ?_
          rw [isHidden, hdirective, hblanked]
          rfl

end ActiveText

open ActiveText (areSheltered isBlanked readLines)

namespace Token

/-- Blanking a line that lies inside of a comment or a literal changes nothing for a scan. -/
theorem scanned_step {before line rest : List Char} (hbefore : Text.IsWhole before)
    (hends : (∃ content, '\n' ∉ content ∧ line = content ++ ['\n']) ∨ '\n' ∉ line ∧ rest = [])
    {state : ActiveText.State}
    (h : isBlanked state line = true → (Opening.atEnd before).Shelters line)
    (documentation : Bool) (number : Nat) :
    scanned documentation number (before ++ ((ActiveText.step state line).2 ++ rest)) =
      scanned documentation number (before ++ (line ++ rest)) := by
  by_cases hsame : (ActiveText.step state line).2 = line
  · rw [hsame]
  · have hline := h (bne_iff_ne.2 hsame)
    rw [(ActiveText.kept_or_terminator_step state line).resolve_left hsame]
    have hproper := Opening.isProper_atEnd before
    rcases hends with ⟨content, hcontent, rfl⟩ | ⟨hnone, rfl⟩
    · have hform : Text.terminator (content ++ ['\n']) = ['\n'] ∨
          Text.terminator (content ++ ['\n']) = ['\r', '\n'] := by
        rw [Text.terminator_feed]
        split
        · exact Or.inr rfl
        · exact Or.inl rfl
      have hkept := Opening.shelters_terminator hline.1 hproper (Or.inr hform)
      have hcount : (Text.terminator (content ++ ['\n'])).count '\n' =
          (content ++ ['\n']).count '\n' := by
        rw [List.count_append, List.count_eq_zero.2 hcontent]
        rcases hform with heq | heq <;> rw [heq] <;> rfl
      have hwhole : Text.IsWhole (Text.terminator (content ++ ['\n'])) := by
        rcases hform with heq | heq <;> rw [heq] <;> exact Or.inr rfl
      exact scanned_sheltered hbefore hline hkept hcount
        (Or.inl ⟨Or.inr List.getLast?_concat, hwhole⟩) documentation number
    · have hkept := Opening.shelters_terminator hline.1 hproper (Or.inl rfl)
      rw [Text.terminator_of_not_mem hnone]
      exact scanned_sheltered hbefore hline hkept (List.count_eq_zero.2 hnone).symm (Or.inr rfl)
        documentation number

/-- Blanking lines that lie inside of comments and literals changes nothing for a scan. -/
theorem scanned_readLines {lines : List (List Char)} (hcut : Text.Cut lines)
    {state : ActiveText.State} {before : List Char} (hbefore : Text.IsWhole before)
    (h : areSheltered isBlanked state before lines = true) (documentation : Bool) (number : Nat) :
    scanned documentation number (before ++ (readLines state lines).flatten) =
      scanned documentation number (before ++ lines.flatten) := by
  induction hcut generalizing state before with
  | nil => rfl
  | @last line hne hline =>
      rw [ActiveText.areSheltered_cons] at h
      exact scanned_step hbefore (Or.inr ⟨hline, rfl⟩) h.1 documentation number
  | @cons content rest hcontent _ ih =>
      rw [ActiveText.areSheltered_cons] at h
      have hlines : Text.IsWhole (before ++ (content ++ ['\n'])) := by
        rw [← List.append_assoc]
        exact Or.inr List.getLast?_concat
      have hrest := ih hlines h.2
      rw [readLines, List.flatten_cons, List.flatten_cons,
        scanned_step hbefore (Or.inl ⟨content, hcontent, rfl⟩) h.1]
      rwa [List.append_assoc before, List.append_assoc before] at hrest

end Token

namespace SourceTree

open ActiveText (State isDirective isHidden areSheltered)

/-- Whether all lines of a file that are selected lie inside of comments and literals. -/
def areSheltered (selected : State → List Char → Bool) (symbols : Symbols) (text : String) :
    Bool :=
  ActiveText.areSheltered selected (State.initial symbols) []
    (Text.lines (withoutMark text).toList)

/-- The declarations in the whole text of a file, without a selection of active lines. -/
def wholeDeclarations (options : ParseOptions) (text : String) : List Declaration :=
  Declaration.ofTokens
    (Token.ofText (options.documentation == .kept) (withoutMark text).toList)

/-- Where all lines that look like directives, and all lines that these hide, lie inside of comments
and literals, a file declares the same types as its whole text. -/
theorem declarations_sheltered (path : Path) (text : String) (options : ParseOptions)
    (hdirectives : areSheltered isDirective options.symbols text = true)
    (hhidden : areSheltered isHidden options.symbols text = true) :
    (parse path text options).declarations = wholeDeclarations options text := by
  have hscanned := Token.scanned_readLines (Text.cut_lines (withoutMark text).toList) (Or.inl rfl)
    (ActiveText.areSheltered_isBlanked hdirectives hhidden) (options.documentation == .kept) 1
  rw [List.nil_append, List.nil_append, Text.flatten_lines] at hscanned
  exact Declaration.ofTokens_asScanned hscanned

/-- A class with directives in a comment and in two string literals. -/
def shelteredText : String :=
  "/*
#if in doubt, keep
class Model \x7b \x7d
#endif
*/
class Player
\x7b
    string text = @\"
#region Player
\";
    string other = \"\"\"
#define OLD
\"\"\";
\x7d
"

set_option maxRecDepth 4000 in
/-- The directives in comments and literals hide nothing. -/
theorem declarations_sheltered_shelteredText :
    areSheltered isDirective Symbols.empty shelteredText = true ∧
      areSheltered isHidden Symbols.empty shelteredText = true ∧
      (parse ⟨"Player.cs"⟩ shelteredText ⟨.kept, Symbols.empty⟩).declarations =
        [⟨.classType, "Player", none, [], [], none, 6⟩] := by
  obtain ⟨text, htext, hhead, hlines, hhiddenLines, hwhole⟩ :
      ∃ text, shelteredText = String.ofList text ∧ text.head? = some '/' ∧
        ActiveText.areSheltered isDirective (State.initial Symbols.empty) [] (Text.lines text) =
          true ∧
        ActiveText.areSheltered isHidden (State.initial Symbols.empty) [] (Text.lines text) =
          true ∧
        Declaration.ofTokens (Token.ofText true text) =
          [⟨.classType, "Player", none, [], [], none, 6⟩] :=
    ⟨_, rfl, by decide +kernel, by decide +kernel, by decide +kernel, by decide +kernel⟩
  have hchars : (withoutMark shelteredText).toList = text :=
    toList_withoutMark htext hhead (by decide)
  have hdirectives : areSheltered isDirective Symbols.empty shelteredText = true := by
    rw [areSheltered, hchars]
    exact hlines
  have hhidden : areSheltered isHidden Symbols.empty shelteredText = true := by
    rw [areSheltered, hchars]
    exact hhiddenLines
  refine ⟨hdirectives, hhidden, ?_⟩
  rw [declarations_sheltered _ _ _ hdirectives hhidden, wholeDeclarations, hchars]
  exact hwhole

/-- A class behind a comment with a line that looks like a directive. -/
def hiddenText : String :=
  "/*
#if in doubt, keep
*/
class Player \x7b \x7d
"

/-- A class behind one with a string literal, in a hole of which a line looks like a directive. -/
def holeText : String :=
  "class Model \x7b string text = $@\"\x7b
#region \x7d
\"; \x7d
class Player \x7b \x7d
"

set_option maxRecDepth 4000 in
/-- A line in a comment hides all that follows it, and a line that closes a hole of a verbatim
string leaves the rest of the text in the hole when it is blanked. -/
theorem declarations_hiddenText :
    (areSheltered isDirective Symbols.empty hiddenText = true ∧
      (parse ⟨"Player.cs"⟩ hiddenText ⟨.kept, Symbols.empty⟩).declarations = [] ∧
      wholeDeclarations ⟨.kept, Symbols.empty⟩ hiddenText =
        [⟨.classType, "Player", none, [], [], none, 4⟩]) ∧
    (∃ first line rest, Text.lines (withoutMark holeText).toList = first :: line :: rest ∧
      Opening.atEnd first = .literal [.hole 0, .quoted true true] ∧
      (Opening.atEnd first).next line = .literal [.quoted true true]) ∧
    (parse ⟨"Player.cs"⟩ holeText ⟨.kept, Symbols.empty⟩).declarations =
      [⟨.classType, "Model", none, [], [], none, 1⟩] ∧
    wholeDeclarations ⟨.kept, Symbols.empty⟩ holeText =
      [⟨.classType, "Model", none, [], [], none, 1⟩,
        ⟨.classType, "Player", none, [], [], none, 4⟩] := by
  obtain ⟨text, htext, hhead, hlines, hactive, hwhole⟩ :
      ∃ text, hiddenText = String.ofList text ∧ text.head? = some '/' ∧
        ActiveText.areSheltered isDirective (State.initial Symbols.empty) [] (Text.lines text) =
          true ∧
        declarationsOf ⟨.kept, Symbols.empty⟩ text = [] ∧
        Declaration.ofTokens (Token.ofText true text) =
          [⟨.classType, "Player", none, [], [], none, 4⟩] :=
    ⟨_, rfl, by decide +kernel, by decide +kernel, by decide +kernel, by decide +kernel⟩
  obtain ⟨hole, first, line, rest, hhole, hholeHead, hholeLines, hfirst, hnext, hholeActive,
      hholeWhole⟩ :
      ∃ hole first line rest, holeText = String.ofList hole ∧ hole.head? = some 'c' ∧
        Text.lines hole = first :: line :: rest ∧
        Opening.atEnd first = .literal [.hole 0, .quoted true true] ∧
        (Opening.atEnd first).next line = .literal [.quoted true true] ∧
        declarationsOf ⟨.kept, Symbols.empty⟩ hole =
          [⟨.classType, "Model", none, [], [], none, 1⟩] ∧
        Declaration.ofTokens (Token.ofText true hole) =
          [⟨.classType, "Model", none, [], [], none, 1⟩,
            ⟨.classType, "Player", none, [], [], none, 4⟩] :=
    ⟨_, _, _, _, rfl, by decide +kernel, rfl, by decide +kernel, by decide +kernel,
      by decide +kernel, by decide +kernel⟩
  have hchars : (withoutMark hiddenText).toList = text := toList_withoutMark htext hhead (by decide)
  have hholeChars : (withoutMark holeText).toList = hole :=
    toList_withoutMark hhole hholeHead (by decide)
  refine ⟨⟨?_, (congrArg (declarationsOf _) hchars).trans hactive, ?_⟩,
    ⟨first, line, rest, ?_, hfirst, hnext⟩,
    (congrArg (declarationsOf _) hholeChars).trans hholeActive, ?_⟩
  · rw [areSheltered, hchars]
    exact hlines
  · rw [wholeDeclarations, hchars]
    exact hwhole
  · rw [hholeChars]
    exact hholeLines
  · rw [wholeDeclarations, hholeChars]
    exact hholeWhole

end SourceTree
end ProjectAssembler
