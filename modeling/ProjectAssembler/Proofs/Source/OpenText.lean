import Mathlib.Data.List.TakeWhile
import Mathlib.Data.List.Infix
import ProjectAssembler.Proofs.Source.LineEndings
import ProjectAssembler.Proofs.Source.TokenCursor

/-!
# What is open at the end of a line

Where a line ends, a comment or a literal may be open, and with a literal all that is open inside of
it.  No lexeme reads ahead over the end of a line, so what is open there is all that the lines
before have to do with those that follow.

Main definitions:

* `Enclosure.openAfter`: what is open after a part of a literal;
* `Opening`: what may be open at the end of a text, with the text `after` it;
* `Opening.atEnd`: what is open at the end of a text.

Main results:

* `Enclosure.close_whole` and `Opening.after_whole`: reading on from what is open;
* `Lexeme.read_whole`: the lexeme at the front of a text does not depend on what follows its lines,
  unless it is open there;
* `Token.scanned_whole`: the tokens of lines and of what follows them.
-/

namespace ProjectAssembler
namespace Text

/-! ## Whole lines -/

/-- Whether a text consists of whole lines. -/
def IsWhole (text : List Char) : Prop :=
  text = [] ∨ text.getLast? = some '\n'

variable {text : List Char} {p : Char → Bool}

theorem IsWhole.suffix (h : IsWhole text) {rest : List Char} (hrest : rest <:+ text) :
    IsWhole rest := by
  obtain ⟨front, rfl⟩ := hrest
  rcases h with hnil | hlast
  · exact Or.inl (List.append_eq_nil_iff.1 hnil).2
  · rw [List.getLast?_append] at hlast
    cases hend : rest.getLast? with
    | none => exact Or.inl (List.getLast?_eq_none_iff.1 hend)
    | some c =>
        rw [hend] at hlast
        exact Or.inr (hend.trans hlast)

theorem IsWhole.tail {c : Char} (h : IsWhole (c :: text)) : IsWhole text :=
  h.suffix (List.suffix_cons c text)

/-- A line feed is left after every other character. -/
theorem IsWhole.mem {c : Char} (h : IsWhole (c :: text)) (hc : c ≠ '\n') : '\n' ∈ text := by
  rcases h with hnil | hlast
  · contradiction
  · exact (List.mem_cons.1 (List.mem_of_getLast? hlast)).resolve_left hc.symm

theorem dropWhile_of_mem (hp : p '\n' = false) (h : '\n' ∈ text) (rest : List Char) :
    (text ++ rest).dropWhile p = text.dropWhile p ++ rest := by
  rw [List.dropWhile_append, if_neg]
  rw [List.isEmpty_iff, List.dropWhile_eq_nil_iff]
  intro hall
  rw [hall '\n' h] at hp
  contradiction

theorem takeWhile_of_mem (hp : p '\n' = false) (h : '\n' ∈ text) (rest : List Char) :
    (text ++ rest).takeWhile p = text.takeWhile p := by
  rw [List.takeWhile_append, if_neg]
  intro hlength
  have hall : text.takeWhile p = text :=
    List.IsPrefix.eq_of_length (List.takeWhile_prefix p) hlength
  rw [List.takeWhile_eq_self_iff.1 hall '\n' h] at hp
  contradiction

/-- A line feed is left behind the characters that are dropped. -/
theorem mem_dropWhile (hp : p '\n' = false) (h : '\n' ∈ text) : '\n' ∈ text.dropWhile p := by
  rw [← List.takeWhile_append_dropWhile (p := p) (l := text)] at h
  refine (List.mem_append.1 h).resolve_left fun hmem => ?_
  rw [List.mem_takeWhile_imp hmem] at hp
  contradiction

theorem head?_of_mem (h : '\n' ∈ text) (rest : List Char) :
    (text ++ rest).head? = text.head? := by
  cases text with
  | nil => exact absurd h List.not_mem_nil
  | cons c text => rfl

theorem drop_one_of_mem (h : '\n' ∈ text) (rest : List Char) :
    (text ++ rest).drop 1 = text.drop 1 ++ rest := by
  cases text with
  | nil => exact absurd h List.not_mem_nil
  | cons c text => rfl

end Text

namespace Enclosure

open Text (IsWhole)

variable {text : List Char}

/-! ## Literals -/

/-- What is open after a text has been read at whose beginning everything on a stack is open;
nothing if all of that has been closed. -/
def openAfter : List Enclosure → List Char → List Enclosure
  | [], _ => []
  | innermost :: outer, [] => innermost :: outer
  | innermost :: outer, c :: text =>
      openAfter (step innermost outer c text).1 (step innermost outer c text).2
termination_by _ text => text.length
decreasing_by
  exact Nat.lt_succ_of_le (step_isSuffix innermost outer c text).length_le

/-- Where a text ends with something open, nothing is left of it. -/
theorem close_eq_nil {stack : List Enclosure} (h : openAfter stack text ≠ []) :
    close stack text = [] := by
  fun_induction close stack text with
  | case1 text => exact absurd (by rw [openAfter]) h
  | case2 innermost outer => rfl
  | case3 innermost outer c text ih =>
      rw [openAfter] at h
      exact ih h

/-- What a string literal begins with is seen on its line. -/
theorem openString?_whole (h : '\n' ∈ text) (rest : List Char) :
    openString? (text ++ rest) =
      (openString? text).map fun opened => (opened.1, opened.2 ++ rest) := by
  have hmarks := Text.takeWhile_of_mem (p := isStringMark) rfl h rest
  have hafter := Text.dropWhile_of_mem (p := isStringMark) rfl h rest
  have hmem := Text.mem_dropWhile (p := isStringMark) rfl h
  unfold openString?
  simp only [hmarks, hafter]
  generalize text.dropWhile isStringMark = quoted at hmem
  have hquotes := Text.takeWhile_of_mem (p := (· == '"')) rfl hmem rest
  have hdrop {n : Nat} (hn : n ≤ (quoted.takeWhile (· == '"')).length) :
      (quoted ++ rest).drop n = quoted.drop n ++ rest :=
    List.drop_append_of_le_length (hn.trans (List.takeWhile_prefix _).length_le)
  rw [hquotes]
  split
  · rfl
  · rename_i hsome
    split
    · rw [hdrop (Nat.le_refl _)]
      rfl
    · rw [hdrop (by omega)]
      rfl

/-- The inside of a string literal consists of whole lines. -/
theorem isWhole_of_openString? {c : Char} {inside : List Char} {opened : Enclosure}
    (h : IsWhole (c :: text)) (hopen : openString? (c :: text) = some (opened, inside)) :
    IsWhole inside :=
  h.tail.suffix (openString?_isSuffix hopen)

/-- Whether quotation marks stand at the front of a text is seen on its line. -/
theorem isPrefixOf_whole (quotes : Nat) (h : '\n' ∈ text) (rest : List Char) :
    (List.replicate quotes '"').isPrefixOf (text ++ rest) =
      (List.replicate quotes '"').isPrefixOf text := by
  induction quotes generalizing text with
  | zero => rfl
  | succ quotes ih =>
      cases text with
      | nil => exact absurd h List.not_mem_nil
      | cons c text =>
          rw [List.cons_append, List.replicate_succ, List.isPrefixOf, List.isPrefixOf]
          by_cases hc : c = '"'
          · subst hc
            rw [ih ((List.mem_cons.1 h).resolve_left (by decide))]
          · have hne : ('"' == c) = false := beq_false_of_ne (Ne.symm hc)
            rw [hne, Bool.false_and, Bool.false_and]

/-- No step in a literal reads ahead over the end of a line. -/
theorem step_whole {innermost : Enclosure} (hproper : innermost.IsProper)
    (outer : List Enclosure) {c : Char} (h : IsWhole (c :: text)) (rest : List Char) :
    step innermost outer c (text ++ rest) =
      ((step innermost outer c text).1, (step innermost outer c text).2 ++ rest) := by
  by_cases hc : c = '\n'
  · subst hc
    obtain ⟨stack, hstep⟩ := exists_step_feed hproper outer
    rw [hstep, hstep]
  · have hmem : '\n' ∈ text := h.mem hc
    have hhead := Text.head?_of_mem hmem rest
    have hdrop := Text.drop_one_of_mem hmem rest
    cases innermost with
    | quoted verbatim interpolated =>
        simp only [step, hhead, hdrop]
        repeat' split
        all_goals rfl
    | raw quotes =>
        have hprefix := isPrefixOf_whole quotes (List.mem_cons_of_mem c hmem) rest
        rw [List.cons_append] at hprefix
        simp only [step, hprefix]
        split
        · rename_i hclosing
          obtain ⟨after, hafter, hdropped⟩ := exists_after_quotes hproper hclosing
          have hleft : '\n' ∈ after := by
            have hall : '\n' ∈ List.replicate quotes '"' ++ after := by
              rw [hafter]
              exact List.mem_cons_of_mem c hmem
            exact (List.mem_append.1 hall).resolve_left fun hquote =>
              absurd (List.eq_of_mem_replicate hquote) (by decide)
          have hlength : quotes - 1 ≤ text.length := by
            have hsum := congrArg List.length hafter
            rw [List.length_append, List.length_replicate, List.length_cons] at hsum
            omega
          rw [List.drop_append_of_le_length hlength, hdropped,
            Text.dropWhile_of_mem rfl hleft]
        · rfl
    | character =>
        simp only [step, hdrop]
        repeat' split
        all_goals rfl
    | hole braces =>
        have hopen := openString?_whole (List.mem_cons_of_mem c hmem) rest
        rw [List.cons_append] at hopen
        simp only [step, hopen]
        cases openString? (c :: text) with
        | some opened => rfl
        | none =>
            simp only [Option.map_none]
            repeat' split
            all_goals rfl

/-- Lines in a literal and what follows them: the enclosures that are open after the lines are
closed in the rest. -/
theorem close_whole {stack : List Enclosure} (hproper : ∀ enclosure ∈ stack, enclosure.IsProper)
    (h : IsWhole text) (rest : List Char) :
    close stack (text ++ rest) = close stack text ++ close (openAfter stack text) rest := by
  fun_induction close stack text with
  | case1 text => rw [openAfter, close_nil, close_nil]
  | case2 innermost outer => rw [openAfter, List.nil_append, List.nil_append]
  | case3 innermost outer c text ih =>
      have hinnermost := hproper innermost List.mem_cons_self
      have hrest : IsWhole (step innermost outer c text).2 :=
        h.tail.suffix (step_isSuffix innermost outer c text)
      rw [List.cons_append, close_cons, step_whole hinnermost outer h, openAfter]
      exact ih (isProper_step hproper c text) hrest

end Enclosure

/-! ## Comments -/

namespace Lexeme

open Text (IsWhole)

variable {text : List Char}

/-- A comment that is not closed takes up the whole text. -/
theorem afterComment_eq_nil (h : ¬ ['*', '/'] <:+: text) : afterComment text = [] := by
  fun_induction afterComment text with
  | case1 => rfl
  | case2 text => exact absurd (List.prefix_append ['*', '/'] text).isInfix h
  | case3 c text _ ih => exact ih fun hmark => h (hmark.trans (List.suffix_cons c text).isInfix)

/-- Lines in a comment and what follows them. -/
theorem afterComment_whole (h : IsWhole text) (rest : List Char) :
    afterComment (text ++ rest) =
      afterComment text ++ if ['*', '/'] <:+: text then rest else afterComment rest := by
  fun_induction afterComment text with
  | case1 => rw [if_neg (by decide), List.nil_append, List.nil_append]
  | case2 text =>
      have hmark : ['*', '/'] <:+: '*' :: '/' :: text :=
        (List.prefix_append ['*', '/'] text).isInfix
      rw [if_pos hmark]
      rfl
  | case3 c text hopen ih =>
      have hmark : ['*', '/'] <:+: c :: text ↔ ['*', '/'] <:+: text := by
        rw [List.infix_cons_iff]
        refine or_iff_right ?_
        rintro ⟨after, heq⟩
        rw [List.cons_append, List.cons.injEq] at heq
        exact hopen after heq.1.symm heq.2.symm
      rw [List.cons_append, afterComment, ih h.tail, if_congr hmark rfl rfl]
      intro after hstar hslash
      have hmem : '\n' ∈ text := h.mem (by rw [hstar]; decide)
      cases text with
      | nil => exact List.not_mem_nil hmem
      | cons d text =>
          rw [List.cons_append, List.cons.injEq] at hslash
          exact hopen text hstar (by rw [hslash.1])

end Lexeme

/-! ## What is open -/

/-- What may be open at the end of a text: a comment, or a literal with everything that is open
inside of it. -/
inductive Opening where
  | comment
  | literal (stack : List Enclosure)
deriving DecidableEq, Repr

namespace Opening

open Text (IsWhole)

variable {opening : Opening} {text : List Char}

/-- Nothing is open. -/
def closed : Opening :=
  literal []

/-- The text after what is open has been closed. -/
def after : Opening → List Char → List Char
  | comment, text => Lexeme.afterComment text
  | literal stack, text => Enclosure.close stack text

/-- What is still open after a text, of what is open at its beginning. -/
def next : Opening → List Char → Opening
  | comment, text => if ['*', '/'] <:+: text then closed else comment
  | literal stack, text => literal (Enclosure.openAfter stack text)

/-- Whether all raw string literals that are open are closed by quotation marks. -/
def IsProper : Opening → Prop
  | comment => True
  | literal stack => ∀ enclosure ∈ stack, enclosure.IsProper

@[simp]
theorem after_closed (text : List Char) : closed.after text = text :=
  Enclosure.close_nil text

/-- Where something is open at the end of a text, nothing is left of the text. -/
theorem after_eq_nil (h : opening.next text ≠ closed) : opening.after text = [] := by
  cases opening with
  | comment =>
      refine Lexeme.afterComment_eq_nil fun hmark => h ?_
      exact if_pos hmark
  | literal stack =>
      refine Enclosure.close_eq_nil fun hnil => h ?_
      rw [next, hnil]
      rfl

/-- Reading on from what is open at the end of lines. -/
theorem after_whole (hproper : opening.IsProper) (h : IsWhole text) (rest : List Char) :
    opening.after (text ++ rest) = opening.after text ++ (opening.next text).after rest := by
  cases opening with
  | comment =>
      refine (Lexeme.afterComment_whole h rest).trans ?_
      rw [next]
      split
      · rw [after_closed]
        rfl
      · rfl
  | literal stack => exact Enclosure.close_whole hproper h rest

end Opening

/-! ## Lexemes -/

namespace Lexeme

open Enclosure (openString? openString?_eq_none openAfter close)
open Opening (closed)
open Text (IsWhole)

variable {c : Char} {text : List Char}

/-- What the lexeme at the front of a text leaves open at the end of the text. -/
def opened (c : Char) (text : List Char) : Opening :=
  match openString? (c :: text) with
  | some (enclosure, inside) => .literal (openAfter [enclosure] inside)
  | none =>
      if c = '\'' then .literal (openAfter [.character] text)
      else if c = '/' ∧ text.head? = some '*' then Opening.comment.next text.tail
      else closed

/-- Whether a lexeme is read in the same way before more text: it goes on there where it is left
open, and then nothing is left of the shorter text. -/
structure ReadsOn (opening : Opening) (more : List Char) (longer short : Lexeme × List Char) :
    Prop where
  alike : longer.1.Alike short.1
  rest : longer.2 = short.2 ++ opening.after more
  left : opening ≠ closed → short.2 = []

/-- A lexeme that is closed ends before the text that follows. -/
theorem ReadsOn.ofClosed {more : List Char} {longer short : Lexeme × List Char}
    (halike : longer.1.Alike short.1) (hrest : longer.2 = short.2 ++ more) :
    ReadsOn closed more longer short :=
  ⟨halike, by rw [hrest, Opening.after_closed], fun hne => absurd rfl hne⟩

/-- A literal or a comment goes on where it is left open. -/
theorem ReadsOn.ofOpening {opening : Opening} (hproper : opening.IsProper) (h : IsWhole text)
    (more : List Char) {longer short : Lexeme} (halike : longer.Alike short) :
    ReadsOn (opening.next text) more (longer, opening.after (text ++ more))
      (short, opening.after text) :=
  ⟨halike, Opening.after_whole hproper h more, Opening.after_eq_nil⟩

theorem readComment?_whole (h : IsWhole (c :: text)) (rest : List Char) :
    Option.Rel (ReadsOn (opened c text) rest) (readComment? c (text ++ rest))
      (readComment? c text) := by
  fun_cases readComment? c text with
  | case1 text line after =>
      have hmem : '\n' ∈ text := h.tail.mem (by decide)
      have hopened : opened '/' ('/' :: text) = closed := by
        rw [opened, openString?_eq_none rfl (by decide)]
        rfl
      have htake := Text.takeWhile_of_mem (p := (· != '\n')) rfl hmem rest
      have hdocumentation : isDocumentationLine (text ++ rest) = isDocumentationLine text := by
        rw [← isDocumentationLine_takeWhile, htake, isDocumentationLine_takeWhile]
      rw [List.cons_append, readComment?, htake, hdocumentation, hopened]
      exact Option.Rel.some
        (ReadsOn.ofClosed (fun _ _ => rfl) (Text.dropWhile_of_mem rfl hmem rest))
  | case2 text =>
      have hopened : opened '/' ('*' :: text) = Opening.comment.next text := by
        rw [opened, openString?_eq_none rfl (by decide)]
        rfl
      rw [List.cons_append, readComment?, hopened]
      have hproper : Opening.comment.IsProper := trivial
      exact Option.Rel.some (ReadsOn.ofOpening hproper h.tail.tail rest fun _ _ => rfl)
  | case3 =>
      rename_i hline hdelimited
      have hfront {d : Char} {after : List Char} (hslash : c = '/')
          (heq : text ++ rest = d :: after) : ∃ after', text = d :: after' := by
        have hmem : '\n' ∈ text := h.mem (by rw [hslash]; decide)
        cases text with
        | nil => exact absurd hmem List.not_mem_nil
        | cons d' text =>
            rw [List.cons_append, List.cons.injEq] at heq
            exact ⟨text, by rw [heq.1]⟩
      rw [readComment?]
      · exact Option.Rel.none
      · intro after hslash heq
        obtain ⟨after', htext⟩ := hfront hslash heq
        exact hline after' hslash htext
      · intro after hslash heq
        obtain ⟨after', htext⟩ := hfront hslash heq
        exact hdelimited after' hslash htext

theorem afterNumber_whole (h : '\n' ∈ text) (hwhole : IsWhole text) (rest : List Char) :
    afterNumber (text ++ rest) = afterNumber text ++ rest := by
  have hdrop := Text.dropWhile_of_mem (p := isIdentifierPart) (by decide) h rest
  have hmem := Text.mem_dropWhile (p := isIdentifierPart) (by decide) h
  have hleft : IsWhole (text.dropWhile isIdentifierPart) :=
    hwhole.suffix (List.dropWhile_suffix _)
  rw [afterNumber_eq, afterNumber_eq, hdrop]
  generalize text.dropWhile isIdentifierPart = left at hmem hleft
  rw [Text.head?_of_mem hmem, Text.drop_one_of_mem hmem]
  by_cases hpoint : left.head? = some '.'
  · obtain ⟨fraction, rfl⟩ := List.head?_eq_some_iff.1 hpoint
    have hfraction : '\n' ∈ fraction := hleft.mem (by decide)
    rw [List.drop_one, List.tail_cons, Text.head?_of_mem hfraction,
      Text.dropWhile_of_mem (by decide) hfraction]
    split <;> rfl
  · rw [if_neg fun hnumber => hpoint hnumber.1, if_neg fun hnumber => hpoint hnumber.1]

theorem readLiteral?_whole (h : IsWhole (c :: text)) (hmem : '\n' ∈ text) (rest : List Char) :
    Option.Rel (ReadsOn (opened c text) rest) (readLiteral? c (text ++ rest))
      (readLiteral? c text) := by
  have hopen := Enclosure.openString?_whole (List.mem_cons_of_mem c hmem) rest
  rw [List.cons_append] at hopen
  unfold readLiteral? opened
  simp only [hopen]
  cases hstring : openString? (c :: text) with
  | some found =>
      have hproper : (Opening.literal [found.1]).IsProper :=
        List.forall_mem_singleton.2 (Enclosure.isProper_of_openString? hstring)
      have hinside := Enclosure.isWhole_of_openString? h hstring
      exact Option.Rel.some (ReadsOn.ofOpening hproper hinside rest fun _ _ => rfl)
  | none =>
      have hproper : (Opening.literal [.character]).IsProper := List.forall_mem_singleton.2 trivial
      simp only [Option.map_none]
      by_cases hapostrophe : c = '\''
      · simp only [if_pos hapostrophe]
        exact Option.Rel.some (ReadsOn.ofOpening hproper h.tail rest fun _ _ => rfl)
      · simp only [if_neg hapostrophe]
        by_cases hdigit : c.isDigit = true
        · have hslash : ¬ (c = '/' ∧ text.head? = some '*') := by
            rintro ⟨rfl, -⟩
            contradiction
          simp only [if_pos hdigit, if_neg hslash]
          exact Option.Rel.some
            (ReadsOn.ofClosed (fun _ _ => rfl) (afterNumber_whole hmem h.tail rest))
        · simp only [if_neg hdigit]
          exact Option.Rel.none

theorem readWord_whole (hmem : '\n' ∈ text) (rest : List Char) :
    readWord c (text ++ rest) = ((readWord c text).1, (readWord c text).2 ++ rest) := by
  unfold readWord
  rw [Text.head?_of_mem hmem, Text.takeWhile_of_mem (by decide) hmem,
    Text.dropWhile_of_mem (by decide) hmem]
  split
  · rfl
  · split <;> rfl

/-- A word leaves nothing open. -/
theorem opened_of_none (hcomment : readComment? c text = none)
    (hliteral : readLiteral? c text = none) : opened c text = closed := by
  unfold readLiteral? at hliteral
  unfold opened
  cases hstring : openString? (c :: text) with
  | some found =>
      rw [hstring] at hliteral
      contradiction
  | none =>
      rw [hstring] at hliteral
      by_cases hapostrophe : c = '\''
      · simp only [if_pos hapostrophe] at hliteral
        contradiction
      · have hslash : ¬ (c = '/' ∧ text.head? = some '*') := by
          rintro ⟨rfl, hstar⟩
          obtain ⟨body, rfl⟩ := List.head?_eq_some_iff.1 hstar
          rw [readComment?] at hcomment
          contradiction
        simp only [if_neg hapostrophe, if_neg hslash]

/-- Apart from white space, the lexeme at the front of lines goes on behind them where it is left
open, and nowhere else. -/
theorem read_whole (hblank : Text.isBlank c = false) (h : IsWhole (c :: text))
    (rest : List Char) : ReadsOn (opened c text) rest (read c (text ++ rest)) (read c text) := by
  have hmem : '\n' ∈ text := h.mem fun hc => by rw [hc] at hblank; contradiction
  have hcomment := readComment?_whole h rest
  have hliteral := readLiteral?_whole h hmem rest
  have hword := @opened_of_none c text
  unfold read
  rw [if_neg (by rw [hblank]; decide), if_neg (by rw [hblank]; decide)]
  generalize readComment? c text = comment? at hcomment hword
  generalize readComment? c (text ++ rest) = comment'? at hcomment
  generalize readLiteral? c text = literal? at hliteral hword
  generalize readLiteral? c (text ++ rest) = literal'? at hliteral
  cases hcomment with
  | some hreads => exact hreads
  | none =>
      cases hliteral with
      | some hreads => exact hreads
      | none =>
          rw [hword rfl rfl, readWord_whole hmem]
          exact ReadsOn.ofClosed (fun _ _ => rfl) rfl

/-- White space leaves nothing open. -/
theorem opened_of_blank (h : Text.isBlank c = true) (text : List Char) :
    opened c text = closed := by
  have hne (d : Char) (hd : Text.isBlank d = false) : c ≠ d := by
    rintro rfl
    rw [h] at hd
    contradiction
  have hmark := Enclosure.isStringMark_of_isBlank h
  have hslash : ¬ (c = '/' ∧ text.head? = some '*') := fun hcomment => hne '/' rfl hcomment.1
  rw [opened, openString?_eq_none hmark (hne '"' rfl)]
  simp only [if_neg (hne '\'' rfl), if_neg hslash]

end Lexeme

namespace Opening

/-- What is open at the end of a text. -/
def atEnd : List Char → Opening
  | [] => closed
  | c :: text =>
      if Lexeme.opened c text = closed then atEnd (Lexeme.read c text).2
      else Lexeme.opened c text
termination_by text => text.length
decreasing_by exact Nat.lt_succ_of_le (Lexeme.source_read c text).2.length_le

end Opening

/-! ## Tokens -/

namespace Token

open Opening (closed)
open Text (IsWhole)

/-- The tokens of a text that begins on a given line, as a scan sees them. -/
def scanned (documentation : Bool) (line : Nat) (text : List Char) : List Token :=
  (ofLexemes documentation line (Lexeme.ofText text)).map asScanned

theorem scanned_cons (documentation : Bool) (line : Nat) (c : Char) (text : List Char) :
    scanned documentation line (c :: text) =
      (((Lexeme.read c text).1.token? documentation line).map asScanned).toList ++
        scanned documentation (line + (Lexeme.read c text).1.source.count '\n')
          (Lexeme.read c text).2 := by
  rw [scanned, Lexeme.ofText_cons, ofLexemes, List.map_append, Option.toList_map]
  rfl

/-- The lines of a text are those of the lexeme at its front and those after it. -/
theorem count_read (c : Char) (text : List Char) :
    (c :: text).count '\n' =
      (Lexeme.read c text).1.source.count '\n' + (Lexeme.read c text).2.count '\n' := by
  rw [← (Lexeme.source_read c text).1, List.count_append]

@[simp]
theorem scanned_nil (documentation : Bool) (line : Nat) : scanned documentation line [] = [] := by
  rw [scanned, Lexeme.ofText_nil]
  rfl

theorem scanned_dropWhile (documentation : Bool) (line : Nat) (text : List Char) :
    scanned documentation line text =
      scanned documentation (line + (text.takeWhile Text.isBlank).count '\n')
        (text.dropWhile Text.isBlank) := by
  cases text with
  | nil => rfl
  | cons c text =>
      by_cases hblank : Text.isBlank c = true
      · have hread : Lexeme.read c text =
            (.blank (c :: text.takeWhile Text.isBlank), text.dropWhile Text.isBlank) := by
          rw [Lexeme.read, if_pos hblank]
        rw [scanned_cons, hread, List.takeWhile_cons_of_pos hblank,
          List.dropWhile_cons_of_pos hblank]
        rfl
      · rw [List.takeWhile_cons_of_neg hblank, List.dropWhile_cons_of_neg hblank]
        rfl

/-- White space gives no tokens. -/
theorem scanned_blanks (documentation : Bool) (line : Nat) {blanks : List Char}
    (h : ∀ c ∈ blanks, Text.isBlank c = true) (text : List Char) :
    scanned documentation line (blanks ++ text) =
      scanned documentation (line + blanks.count '\n') text := by
  rw [scanned_dropWhile, List.takeWhile_append_of_pos h, List.dropWhile_append_of_pos h,
    List.count_append, ← Nat.add_assoc, ← scanned_dropWhile]

/-- The tokens of lines and of what follows them: those of the lines, and then those of what follows
after what is open has been closed. -/
theorem scanned_whole {before : List Char} (h : IsWhole before) (documentation : Bool)
    (line : Nat) (rest : List Char) :
    scanned documentation line (before ++ rest) =
      scanned documentation line before ++
        scanned documentation
          (line + (before ++ rest).count '\n' - ((Opening.atEnd before).after rest).count '\n')
          ((Opening.atEnd before).after rest) := by
  fun_induction Opening.atEnd before generalizing line with
  | case1 => rw [Opening.after_closed, List.nil_append, Nat.add_sub_cancel, scanned_nil]; rfl
  | case2 c text hclosed ih =>
      have hleft : IsWhole (Lexeme.read c text).2 :=
        h.tail.suffix (Lexeme.source_read c text).2
      by_cases hblank : Text.isBlank c = true
      · -- White space may go on in what follows, so it is passed over on both sides.
        obtain ⟨blanks, left, hread, hsplit, hblanks⟩ : ∃ blanks left,
            (Lexeme.read c text).2 = left ∧ c :: text = blanks ++ left ∧
              ∀ d ∈ blanks, Text.isBlank d = true := by
          refine ⟨c :: text.takeWhile Text.isBlank, text.dropWhile Text.isBlank, ?_, ?_, ?_⟩
          · rw [Lexeme.read, if_pos hblank]
          · rw [List.cons_append, List.takeWhile_append_dropWhile]
          · exact List.forall_mem_cons.2 ⟨hblank, fun d hd => List.mem_takeWhile_imp hd⟩
        rw [hread] at ih hleft ⊢
        rw [hsplit, List.append_assoc, scanned_blanks documentation line hblanks,
          scanned_blanks documentation line hblanks, ih hleft, Nat.add_assoc, ← List.count_append]
      · obtain ⟨halike, hrest, -⟩ := Lexeme.read_whole (Bool.eq_false_iff.2 hblank) h rest
        have hcount := count_read c text
        have hcount' := count_read c (text ++ rest)
        rw [hclosed, Opening.after_closed] at hrest
        have hfront : (Lexeme.read c (text ++ rest)).1.source.count '\n' =
            (Lexeme.read c text).1.source.count '\n' := by
          rw [hrest, ← List.cons_append, List.count_append, List.count_append, hcount] at hcount'
          omega
        rw [hrest, hfront] at hcount'
        rw [List.cons_append, scanned_cons, scanned_cons, halike, hrest, hfront, ih hleft, hcount',
          List.append_assoc, Nat.add_assoc]
  | case3 c text hopen =>
      have hblank : Text.isBlank c = false :=
        Bool.eq_false_iff.2 fun hblank => hopen (Lexeme.opened_of_blank hblank text)
      obtain ⟨halike, hrest, hleft⟩ := Lexeme.read_whole hblank h rest
      have hcount := count_read c (text ++ rest)
      rw [hleft hopen, List.nil_append] at hrest
      rw [List.cons_append, scanned_cons, scanned_cons, hleft hopen, scanned_nil, hcount, hrest,
        List.append_nil, halike, ← Nat.add_assoc, Nat.add_sub_cancel]

end Token
end ProjectAssembler
