import ProjectAssembler.Proofs.Source.ActiveLines
import ProjectAssembler.Proofs.Source.AnnotationTree
import ProjectAssembler.Proofs.Source.DirectiveLines
import ProjectAssembler.Proofs.Source.LiteralTexts
import ProjectAssembler.Proofs.Source.TokenLines
import ProjectAssembler.Proofs.Text.CarriageReturns

/-!
# Line endings of source files

A file may end its lines with a line feed or with a carriage return and a line feed.  Directives,
comments, literals and documentation lines are read in the same way, so both files have the same
declarations on the same lines.

Main definitions:

* `Lexeme.Alike`: lexemes whose tokens a scan cannot tell apart;
* `Lexeme.Continues`: how a text with carriage returns goes on beside one without them;
* `SourceTree.withReturns`: a file with the other line endings.

Main results:

* `ActiveText.activeText_withReturns`: the active text has the line endings of the text;
* `Enclosure.close_withReturns`: literals end at the same place;
* `Lexeme.alikeReading_read`: so does every lexeme;
* `SourceTree.declarations_withReturns`: the declarations do not depend on the line endings.
-/

namespace ProjectAssembler

open Text (withReturns IsUnescaped)

/-! ## The active text -/

namespace Directive

/-- White space at the end of a line decides nothing about directives. -/
theorem ofLine?_append_blank (line : List Char) {tail : List Char}
    (h : ∀ c ∈ tail, Text.isBlank c = true) : ofLine? (line ++ tail) = ofLine? line := by
  rw [ofLine?, ofLine?, Text.trimEnd_append_blank line h]

end Directive

namespace ActiveText

/-- A line has the same effect with a carriage return at its end, and what is left of it keeps the
carriage return. -/
theorem step_withReturns (state : State) {content : List Char} (hfeed : '\n' ∉ content)
    (hreturn : '\r' ∉ content) :
    step state (withReturns (content ++ ['\n'])) =
      ((step state (content ++ ['\n'])).1, withReturns (step state (content ++ ['\n'])).2) := by
  have hdirective : Directive.ofLine? (content ++ ['\r'] ++ ['\n']) =
      Directive.ofLine? (content ++ ['\n']) := by
    rw [List.append_assoc, Directive.ofLine?_append_blank content (List.all_eq_true.1 rfl),
      Directive.ofLine?_append_blank content (List.all_eq_true.1 rfl)]
  have hterminator : Text.terminator (content ++ ['\n']) = ['\n'] := by
    rw [Text.terminator_feed, if_neg]
    exact fun hlast => hreturn (List.mem_of_getLast? hlast)
  have hterminator' : Text.terminator (content ++ ['\r'] ++ ['\n']) = withReturns ['\n'] := by
    rw [Text.terminator_feed, if_pos (List.getLast?_concat)]
    rfl
  rw [← Text.withReturns_append_feed hfeed] at hdirective hterminator'
  unfold step
  rw [hdirective, hterminator, hterminator']
  cases Directive.ofLine? (content ++ ['\n']) with
  | some directive => rfl
  | none => cases state.active <;> rfl

theorem readLines_withReturns {lines : List (List Char)} (hcut : Text.Cut lines)
    (hreturn : '\r' ∉ lines.flatten) (state : State) :
    readLines state (lines.map withReturns) = (readLines state lines).map withReturns := by
  induction hcut generalizing state with
  | nil => rfl
  | @last line hne hline =>
      have hkept : withReturns (step state line).2 = (step state line).2 := by
        refine Text.withReturns_of_not_mem ?_
        rcases kept_or_terminator_step state line with heq | heq
        · rwa [heq]
        · rw [heq, Text.terminator_of_not_mem hline]
          exact List.not_mem_nil
      simp only [List.map_cons, List.map_nil, readLines, Text.withReturns_of_not_mem hline, hkept]
  | @cons content rest hcontent _ ih =>
      rw [List.flatten_cons, List.mem_append, not_or] at hreturn
      have hcontent' : '\r' ∉ content := fun hmem => hreturn.1 (List.mem_append_left _ hmem)
      simp only [List.map_cons, readLines, step_withReturns state hcontent hcontent',
        ih hreturn.2]

/-- The active text of a text with carriage returns has these in the same places. -/
theorem activeText_withReturns (symbols : Symbols) {text : List Char} (h : '\r' ∉ text) :
    activeText symbols (withReturns text) = withReturns (activeText symbols text) := by
  have hreturn : '\r' ∉ (Text.lines text).flatten := by rwa [Text.flatten_lines]
  rw [activeText, Text.lines_withReturns, readLines_withReturns (Text.cut_lines text) hreturn,
    Text.flatten_map_withReturns, activeText]

/-- Blanking lines puts no line feed behind a backslash. -/
theorem isUnescaped_of_kept {kept lines : List (List Char)} (hcut : Text.Cut lines)
    (hkept : List.Forall₂ (fun kept line => kept = line ∨ kept = Text.terminator line) kept lines)
    (h : IsUnescaped lines.flatten) : IsUnescaped kept.flatten := by
  unfold IsUnescaped at h ⊢
  induction hcut generalizing kept with
  | nil =>
      cases hkept
      exact List.IsChain.nil
  | @last line hne hline =>
      obtain _ | ⟨hfirst, hrest⟩ := hkept
      cases hrest
      rw [Text.terminator_of_not_mem hline] at hfirst
      rcases hfirst with rfl | rfl
      · exact h
      · exact List.IsChain.nil
  | @cons content rest hcontent _ ih =>
      obtain _ | ⟨hfirst, hrest⟩ := hkept
      obtain ⟨ending, hsuffix, -, rfl⟩ := exists_suffix_of_kept hcontent hfirst
      rw [List.flatten_cons, List.isChain_append] at h ⊢
      have hline : ending ++ ['\n'] <:+ content ++ ['\n'] :=
        List.suffix_append_self_iff.2 hsuffix
      refine ⟨h.1.suffix hline, ih hrest h.2.1, fun c hc _ _ hescape => ?_⟩
      rw [List.getLast?_concat, Option.mem_some_iff] at hc
      rw [← hc] at hescape
      exact absurd hescape.1 (by decide)

theorem isUnescaped_activeText (symbols : Symbols) {text : List Char} (h : IsUnescaped text) :
    IsUnescaped (activeText symbols text) := by
  refine isUnescaped_of_kept (Text.cut_lines text) (kept_or_terminator_readLines _ _) ?_
  rwa [Text.flatten_lines]

end ActiveText

/-! ## Literals -/

namespace Enclosure

/-- Whether a raw string literal is closed by at least one quotation mark. -/
def IsProper : Enclosure → Prop
  | raw quotes => 0 < quotes
  | _ => True

/-- What the beginning of a string literal opens. -/
theorem openString?_withReturns (text : List Char) :
    openString? (withReturns text) =
      (openString? text).map fun opened => (opened.1, withReturns opened.2) := by
  have hmarks : (withReturns text).takeWhile isStringMark = text.takeWhile isStringMark :=
    Text.takeWhile_withReturns rfl rfl text
  have hrest : (withReturns text).dropWhile isStringMark =
      withReturns (text.dropWhile isStringMark) :=
    Text.dropWhile_withReturns rfl text
  unfold openString?
  simp only [hmarks, hrest]
  generalize text.dropWhile isStringMark = rest
  have hquotes : (withReturns rest).takeWhile (· == '"') = rest.takeWhile (· == '"') :=
    Text.takeWhile_withReturns rfl rfl rest
  have hdrop : ∀ n, n ≤ (rest.takeWhile (· == '"')).length →
      (withReturns rest).drop n = withReturns (rest.drop n) := by
    intro n hn
    refine Text.drop_withReturns fun hmem => ?_
    have hquote : '\n' ∈ rest.takeWhile (· == '"') := by
      rw [← List.takeWhile_append_dropWhile (p := (· == '"')) (l := rest),
        List.take_append_of_le_length hn] at hmem
      exact List.mem_of_mem_take hmem
    exact absurd (List.mem_takeWhile_imp hquote) (by decide)
  rw [hquotes]
  split
  · rfl
  · rename_i hsome
    split
    · rw [hdrop _ (Nat.le_refl _)]
      rfl
    · rw [hdrop 1 (by omega)]
      rfl

/-- No carriage return ends or opens anything inside of a literal. -/
theorem step_return {innermost : Enclosure} (h : innermost.IsProper) (outer : List Enclosure)
    (text : List Char) : step innermost outer '\r' text = (innermost :: outer, text) := by
  cases innermost with
  | quoted verbatim interpolated => simp [step]
  | raw quotes =>
      obtain ⟨quotes, rfl⟩ : ∃ n, quotes = n + 1 := ⟨quotes - 1, by unfold IsProper at h; omega⟩
      simp [step, List.replicate_succ, List.isPrefixOf]
  | character => simp [step]
  | hole braces =>
      have hopen : openString? ('\r' :: text) = none := by
        simp [openString?, isStringMark]
      simp [step, hopen]

/-- A line feed has an effect that does not depend on what follows it, and all that follows is left
to be read. -/
theorem exists_step_feed {innermost : Enclosure} (h : innermost.IsProper)
    (outer : List Enclosure) :
    ∃ stack, ∀ text, step innermost outer '\n' text = (stack, text) := by
  cases innermost with
  | quoted verbatim interpolated => cases verbatim <;> simp [step]
  | raw quotes =>
      obtain ⟨quotes, rfl⟩ : ∃ n, quotes = n + 1 := ⟨quotes - 1, by unfold IsProper at h; omega⟩
      simp [step, List.replicate_succ, List.isPrefixOf]
  | character => simp [step]
  | hole braces =>
      have hopen (text : List Char) : openString? ('\n' :: text) = none := by
        simp [openString?, isStringMark]
      simp [step, hopen]

/-- A character that is no line feed has the same effect, and what it leaves to be read has its
carriage returns. -/
theorem step_withReturns (innermost : Enclosure) (outer : List Enclosure) {c : Char}
    (hc : c ≠ '\n') {text : List Char} (hescape : c = '\\' → text.head? ≠ some '\n') :
    step innermost outer c (withReturns text) =
      ((step innermost outer c text).1, withReturns (step innermost outer c text).2) := by
  have hdrop {d : Char} (hd : text.head? = some d) (hne : d ≠ '\n') :
      (withReturns text).drop 1 = withReturns (text.drop 1) :=
    Text.drop_one_withReturns (by simpa [hd] using hne)
  cases innermost with
  | quoted verbatim interpolated =>
      have hquote := @Text.head?_withReturns text '"' (by decide) (by decide)
      have hbrace := @Text.head?_withReturns text '{' (by decide) (by decide)
      simp only [step, hquote, hbrace]
      split
      · rename_i hback
        rw [Text.drop_one_withReturns (hescape hback.1)]
      · split
        · split
          · rename_i hpair
            rw [hdrop hpair.2 (by decide)]
          · rfl
        · split
          · rfl
          · split
            · split
              · rename_i hpair
                rw [hdrop hpair (by decide)]
              · rfl
            · rfl
  | raw quotes =>
      have hprefix := Text.isPrefixOf_withReturns quotes (c :: text)
      rw [Text.withReturns_cons hc] at hprefix
      simp only [step, hprefix]
      split
      · rename_i hclosing
        have hquotes : '\n' ∉ text.take (quotes - 1) := by
          rw [List.isPrefixOf_iff_prefix] at hclosing
          have htake := List.prefix_iff_eq_take.1 hclosing
          rw [List.length_replicate] at htake
          intro hmem
          have hall : '\n' ∈ (c :: text).take quotes := by
            cases quotes with
            | zero => exact absurd hmem List.not_mem_nil
            | succ quotes => exact List.mem_cons_of_mem c hmem
          rw [← htake] at hall
          exact absurd (List.eq_of_mem_replicate hall) (by decide)
        rw [Text.drop_withReturns hquotes, Text.dropWhile_withReturns rfl]
      · rfl
  | character =>
      simp only [step]
      split
      · rename_i hback
        rw [Text.drop_one_withReturns (hescape hback)]
      · split <;> rfl
  | hole braces =>
      have hopen := openString?_withReturns (c :: text)
      rw [Text.withReturns_cons hc] at hopen
      simp only [step, hopen]
      cases openString? (c :: text) with
      | some opened => rfl
      | none =>
          simp only [Option.map_none]
          split
          · rfl
          · split
            · rfl
            · split
              · cases braces <;> rfl
              · rfl

/-- A string literal that begins is a proper enclosure. -/
theorem isProper_of_openString? {text inside : List Char} {opened : Enclosure}
    (h : openString? text = some (opened, inside)) : opened.IsProper := by
  unfold openString? at h
  simp only at h
  split at h
  · contradiction
  · split at h
    · rename_i hquotes
      cases h
      exact Nat.lt_of_lt_of_le (by decide) hquotes
    · cases h
      exact trivial

/-- A step opens proper enclosures only. -/
theorem isProper_step {innermost : Enclosure} {outer : List Enclosure}
    (h : ∀ enclosure ∈ innermost :: outer, enclosure.IsProper) (c : Char) (text : List Char) :
    ∀ enclosure ∈ (step innermost outer c text).1, enclosure.IsProper := by
  have houter : ∀ enclosure ∈ outer, enclosure.IsProper := (List.forall_mem_cons.1 h).2
  cases innermost with
  | quoted verbatim interpolated =>
      simp only [step]
      repeat' split
      all_goals first
        | exact h
        | exact houter
        | exact List.forall_mem_cons.2 ⟨trivial, h⟩
  | raw quotes =>
      simp only [step]
      split
      · exact houter
      · exact h
  | character =>
      simp only [step]
      repeat' split
      all_goals first
        | exact h
        | exact houter
  | hole braces =>
      simp only [step]
      split
      · rename_i hopened
        exact List.forall_mem_cons.2 ⟨isProper_of_openString? hopened, h⟩
      · repeat' split
        all_goals first
          | exact h
          | exact houter
          | exact List.forall_mem_cons.2 ⟨trivial, houter⟩
          | exact List.forall_mem_cons.2 ⟨trivial, h⟩

/-- A literal ends at the same place, and what follows it has its carriage returns. -/
theorem close_withReturns {stack : List Enclosure} {text : List Char}
    (hstack : ∀ enclosure ∈ stack, enclosure.IsProper) (h : IsUnescaped text) :
    close stack (withReturns text) = withReturns (close stack text) := by
  fun_induction close stack text with
  | case1 text => rw [close_nil]
  | case2 innermost outer => rw [Text.withReturns_nil, close_end]
  | case3 innermost outer c text ih =>
      have hrest : IsUnescaped (step innermost outer c text).2 :=
        h.suffix ((step_isSuffix innermost outer c text).trans (List.suffix_cons c text))
      have hproper := isProper_step hstack c text
      by_cases hc : c = '\n'
      · subst hc
        have hinnermost := hstack innermost List.mem_cons_self
        obtain ⟨stack', hstep⟩ := exists_step_feed hinnermost outer
        rw [hstep] at ih hrest hproper ⊢
        rw [Text.withReturns_feed, close_cons, step_return hinnermost, close_cons, hstep]
        exact ih hproper hrest
      · have hescape : c = '\\' → text.head? ≠ some '\n' := by
          intro hback hfeed
          exact (List.isChain_cons.1 h).1 '\n' hfeed ⟨hback, rfl⟩
        rw [Text.withReturns_cons hc, close_cons, step_withReturns innermost outer hc hescape]
        exact ih hproper hrest

end Enclosure
/-! ## Lexemes -/

namespace Lexeme

/-- Whether the tokens of two lexemes look the same to a scan. -/
def Alike (first second : Lexeme) : Prop :=
  ∀ documentation line, (first.token? documentation line).map Token.asScanned =
    (second.token? documentation line).map Token.asScanned

/-- How a text with carriage returns goes on beside one without them: in the same way, or its next
carriage return has been read with a comment already. -/
def Continues (text text' : List Char) : Prop :=
  text' = withReturns text ∨
    ∃ rest, text = '\n' :: rest ∧ text' = '\n' :: withReturns rest

theorem Continues.count {text text' : List Char} (h : Continues text text') :
    text'.count '\n' = text.count '\n' := by
  rcases h with rfl | ⟨rest, rfl, rfl⟩
  · exact Text.count_withReturns text
  · rw [List.count_cons_self, List.count_cons_self, Text.count_withReturns]

theorem Continues.exists_cons {c : Char} {text text' : List Char}
    (h : Continues (c :: text) text') : ∃ c' rest', text' = c' :: rest' := by
  rcases h with rfl | ⟨rest, -, rfl⟩
  · by_cases hc : c = '\n'
    · subst hc
      exact ⟨'\r', _, Text.withReturns_feed text⟩
    · exact ⟨c, _, Text.withReturns_cons hc text⟩
  · exact ⟨'\n', _, rfl⟩

/-- At the end of a line only the line feed is left. -/
theorem continues_dropWhile_line (text : List Char) :
    Continues (text.dropWhile (· != '\n')) ((withReturns text).dropWhile (· != '\n')) := by
  induction text with
  | nil => exact Or.inl rfl
  | cons c text ih =>
      by_cases hc : c = '\n'
      · subst hc
        exact Or.inr ⟨text, rfl, rfl⟩
      · rw [Text.withReturns_cons hc, List.dropWhile_cons_of_pos (by simpa using hc),
          List.dropWhile_cons_of_pos (by simpa using hc)]
        exact ih

/-- Whether two lexemes with the texts after them look the same to a scan. -/
def AlikeReading (first second : Lexeme × List Char) : Prop :=
  first.1.Alike second.1 ∧ Continues first.2 second.2

theorem afterComment_withReturns (text : List Char) :
    afterComment (withReturns text) = withReturns (afterComment text) := by
  fun_induction afterComment text with
  | case1 => rfl
  | case2 text => rw [Text.withReturns_cons (by decide), Text.withReturns_cons (by decide)]; rfl
  | case3 c text hclosing ih =>
      by_cases hc : c = '\n'
      · subst hc
        rw [Text.withReturns_feed, afterComment, afterComment, ih]
        · exact fun _ heq => absurd heq (by decide)
        · exact fun _ heq => absurd heq (by decide)
      · rw [Text.withReturns_cons hc, afterComment, ih]
        intro rest hstar hslash
        obtain ⟨rest', rfl, -⟩ := Text.exists_cons_of_withReturns (by decide) hslash
        exact hclosing rest' hstar rfl

theorem isDocumentationLine_withReturns (text : List Char) :
    isDocumentationLine (withReturns text) = isDocumentationLine text := by
  cases text with
  | nil => rfl
  | cons c text =>
      by_cases hslash : c = '/'
      · subst hslash
        rw [Text.withReturns_cons (by decide), Bool.eq_iff_iff, isDocumentationLine_slash,
          isDocumentationLine_slash, Ne, Text.head?_withReturns (by decide) (by decide)]
      · by_cases hc : c = '\n'
        · subst hc
          rfl
        · rw [Text.withReturns_cons hc, isDocumentationLine_of_ne hslash,
            isDocumentationLine_of_ne hslash]

theorem afterNumber_withReturns (text : List Char) :
    afterNumber (withReturns text) = withReturns (afterNumber text) := by
  rw [afterNumber_eq, afterNumber_eq, Text.dropWhile_withReturns rfl]
  generalize text.dropWhile isIdentifierPart = rest
  have hpoint := @Text.head?_withReturns rest '.' (by decide) (by decide)
  simp only [hpoint]
  by_cases hhead : rest.head? = some '.'
  · have hdrop : (withReturns rest).drop 1 = withReturns (rest.drop 1) :=
      Text.drop_one_withReturns (by rw [hhead]; decide)
    rw [hdrop, Text.head?_any_withReturns rfl rfl]
    split
    · rw [Text.dropWhile_withReturns rfl]
    · rfl
  · rw [if_neg (fun hnumber => hhead hnumber.1), if_neg (fun hnumber => hhead hnumber.1)]

/-- A carriage return at the end of a documentation line does not belong to its text. -/
theorem documentationText_return (line : List Char) :
    Token.documentationText ('/' :: '/' :: '/' :: line ++ ['\r']) =
      Token.documentationText ('/' :: '/' :: '/' :: line) := by
  have hdrop : Text.dropEnd (· == '\r') (line ++ ['\r']) = Text.dropEnd (· == '\r') line := by
    simp [Text.dropEnd]
  simp only [Token.documentationText, List.cons_append, List.drop_succ_cons, List.drop_zero, hdrop]

theorem alike_documentation {text : List Char} (h : isDocumentationLine text = true) :
    Alike (documentation ('/' :: '/' :: text.takeWhile (· != '\n')))
      (documentation ('/' :: '/' :: (withReturns text).takeWhile (· != '\n'))) := by
  have htext : Token.documentationText ('/' :: '/' :: text.takeWhile (· != '\n')) =
      Token.documentationText ('/' :: '/' :: (withReturns text).takeWhile (· != '\n')) := by
    obtain ⟨rest, rfl, -⟩ := exists_of_isDocumentationLine h
    rw [Text.takeWhile_line_withReturns, List.takeWhile_cons_of_pos (by decide)]
    split
    · exact (documentationText_return _).symm
    · rw [List.append_nil]
  intro kept line
  cases kept with
  | true => simp only [token?, if_true, htext]
  | false => rfl

/-- A comment or a documentation line ends on the same line. -/
theorem readComment?_withReturns (c : Char) (text : List Char) :
    Option.Rel AlikeReading (readComment? c text) (readComment? c (withReturns text)) := by
  fun_cases readComment? c text with
  | case1 text line rest =>
      rw [Text.withReturns_cons (by decide), readComment?, isDocumentationLine_withReturns]
      refine Option.Rel.some ⟨?_, continues_dropWhile_line text⟩
      cases hkind : isDocumentationLine text with
      | true => exact alike_documentation hkind
      | false => exact fun _ _ => rfl
  | case2 text =>
      rw [Text.withReturns_cons (by decide), readComment?, afterComment_withReturns]
      exact Option.Rel.some ⟨fun _ _ => rfl, Or.inl rfl⟩
  | case3 =>
      rename_i hline hdelimited
      rw [readComment?]
      · exact Option.Rel.none
      · intro rest hc htext
        obtain ⟨rest', htext', -⟩ := Text.exists_cons_of_withReturns (by decide) htext
        exact hline rest' hc htext'
      · intro rest hc htext
        obtain ⟨rest', htext', -⟩ := Text.exists_cons_of_withReturns (by decide) htext
        exact hdelimited rest' hc htext'

/-- A literal ends at the same place. -/
theorem readLiteral?_withReturns {c : Char} (hc : c ≠ '\n') {text : List Char}
    (h : IsUnescaped (c :: text)) :
    Option.Rel AlikeReading (readLiteral? c text) (readLiteral? c (withReturns text)) := by
  have hopen := Enclosure.openString?_withReturns (c :: text)
  rw [Text.withReturns_cons hc] at hopen
  have hliteral (rest : List Char) : AlikeReading
      (literal (upTo (c :: text) rest), rest)
      (literal (upTo (c :: withReturns text) (withReturns rest)), withReturns rest) :=
    ⟨fun _ _ => rfl, Or.inl rfl⟩
  unfold readLiteral?
  simp only [hopen]
  cases hopened : Enclosure.openString? (c :: text) with
  | some opened =>
      have hproper : ∀ enclosure ∈ [opened.1], enclosure.IsProper :=
        List.forall_mem_singleton.2 (Enclosure.isProper_of_openString? hopened)
      have hinside : IsUnescaped opened.2 :=
        h.suffix ((Enclosure.openString?_isSuffix hopened).trans (List.suffix_cons c text))
      simp only [Option.map_some, Enclosure.close_withReturns hproper hinside]
      exact Option.Rel.some (hliteral _)
  | none =>
      have hrest : IsUnescaped text := h.suffix (List.suffix_cons c text)
      have hcharacter : ∀ enclosure ∈ [Enclosure.character], enclosure.IsProper :=
        List.forall_mem_singleton.2 trivial
      simp only [Option.map_none]
      split
      · rw [Enclosure.close_withReturns hcharacter hrest]
        exact Option.Rel.some (hliteral _)
      · split
        · rw [afterNumber_withReturns]
          exact Option.Rel.some (hliteral _)
        · exact Option.Rel.none

/-- A word ends at the same place. -/
theorem readWord_withReturns (c : Char) (text : List Char) :
    readWord c (withReturns text) = ((readWord c text).1, withReturns (readWord c text).2) := by
  have hpart : isIdentifierPart '\r' = false ∧ isIdentifierPart '\n' = false := by decide
  have hstart : isIdentifierStart '\r' = false ∧ isIdentifierStart '\n' = false := by decide
  unfold readWord
  rw [Text.head?_any_withReturns hstart.1 hstart.2, Text.takeWhile_withReturns hpart.1 hpart.2,
    Text.dropWhile_withReturns (hpart.1.trans hpart.2.symm)]
  split
  · rfl
  · split <;> rfl

/-- Two texts that go on in the same way begin with lexemes that look the same to a scan, and go on
in the same way after them. -/
theorem alikeReading_read {c c' : Char} {text text' : List Char}
    (hcontinues : Continues (c :: text) (c' :: text')) (h : IsUnescaped (c :: text)) :
    AlikeReading (read c text) (read c' text') := by
  have hfeed : Text.isBlank '\n' = true := rfl
  have hreturn : Text.isBlank '\r' = true := rfl
  have hblanks : (withReturns text).dropWhile Text.isBlank =
      withReturns (text.dropWhile Text.isBlank) := Text.dropWhile_withReturns rfl text
  by_cases hc : c = '\n'
  · subst hc
    -- White space begins here whether the carriage return has been read already or not.
    have hrest : Text.isBlank c' = true ∧
        text'.dropWhile Text.isBlank = withReturns (text.dropWhile Text.isBlank) := by
      rcases hcontinues with heq | ⟨rest, heq, heq'⟩
      · rw [Text.withReturns_feed, List.cons.injEq] at heq
        obtain ⟨rfl, rfl⟩ := heq
        exact ⟨hreturn, by rw [List.dropWhile_cons_of_pos hfeed, hblanks]⟩
      · rw [List.cons.injEq] at heq heq'
        obtain ⟨-, rfl⟩ := heq
        obtain ⟨rfl, rfl⟩ := heq'
        exact ⟨hfeed, hblanks⟩
    rw [read, read, if_pos hfeed, if_pos hrest.1, hrest.2]
    exact ⟨fun _ _ => rfl, Or.inl rfl⟩
  · obtain ⟨rfl, rfl⟩ : c' = c ∧ text' = withReturns text := by
      rcases hcontinues with heq | ⟨rest, heq, -⟩
      · rw [Text.withReturns_cons hc, List.cons.injEq] at heq
        exact heq
      · rw [List.cons.injEq] at heq
        exact absurd heq.1 hc
    unfold read
    split
    · rw [hblanks]
      exact ⟨fun _ _ => rfl, Or.inl rfl⟩
    · have hcomment := readComment?_withReturns c' text
      have hliteral := readLiteral?_withReturns hc h
      generalize readComment? c' text = comment? at hcomment
      generalize readComment? c' (withReturns text) = comment'? at hcomment
      generalize readLiteral? c' text = literal? at hliteral
      generalize readLiteral? c' (withReturns text) = literal'? at hliteral
      cases hcomment with
      | some halike => exact halike
      | none =>
          cases hliteral with
          | some halike => exact halike
          | none =>
              rw [readWord_withReturns]
              exact ⟨fun _ _ => rfl, Or.inl rfl⟩

/-- Lexemes that cover texts with the same line feeds before texts with the same line feeds. -/
theorem count_source_read {c c' : Char} {text text' : List Char}
    (hcontinues : Continues (c :: text) (c' :: text'))
    (hrest : Continues (read c text).2 (read c' text').2) :
    (read c' text').1.source.count '\n' = (read c text).1.source.count '\n' := by
  have hcount := hcontinues.count
  rw [← (source_read c text).1, ← (source_read c' text').1, List.count_append, List.count_append,
    hrest.count] at hcount
  exact Nat.add_right_cancel hcount

end Lexeme

namespace Token

/-- The tokens of two texts that go on in the same way look the same to a scan. -/
theorem asScanned_ofLexemes {text text' : List Char} (hcontinues : Lexeme.Continues text text')
    (h : IsUnescaped text) (documentation : Bool) (line : Nat) :
    (ofLexemes documentation line (Lexeme.ofText text)).map asScanned =
      (ofLexemes documentation line (Lexeme.ofText text')).map asScanned := by
  fun_induction Lexeme.ofText text generalizing text' line with
  | case1 =>
      rcases hcontinues with rfl | ⟨rest, heq, -⟩
      · rw [Text.withReturns_nil, Lexeme.ofText_nil]
      · contradiction
  | case2 c text ih =>
      obtain ⟨c', text'', rfl⟩ := hcontinues.exists_cons
      obtain ⟨halike, hrest⟩ := Lexeme.alikeReading_read hcontinues h
      have hcount := Lexeme.count_source_read hcontinues hrest
      have hunescaped : IsUnescaped (Lexeme.read c text).2 :=
        h.suffix ((Lexeme.source_read c text).2.trans (List.suffix_cons c text))
      have htoken := congrArg Option.toList (halike documentation line)
      rw [Option.toList_map, Option.toList_map] at htoken
      rw [Lexeme.ofText_cons, ofLexemes, ofLexemes, List.map_append, List.map_append, htoken,
        hcount, ih hrest hunescaped]

/-- The tokens of a text with carriage returns look to a scan like those of the text. -/
theorem asScanned_ofText {text : List Char} (h : IsUnescaped text) (documentation : Bool) :
    (ofText documentation text).map asScanned =
      (ofText documentation (withReturns text)).map asScanned :=
  asScanned_ofLexemes (Or.inl rfl) h documentation 1

end Token

namespace SourceTree

/-- The declarations of a text do not depend on its line endings. -/
theorem declarationsOf_withReturns (options : ParseOptions) {text : List Char}
    (hreturn : '\r' ∉ text) (h : IsUnescaped text) :
    declarationsOf options (withReturns text) = declarationsOf options text := by
  have hactive := ActiveText.isUnescaped_activeText options.symbols h
  rw [declarationsOf, ActiveText.activeText_withReturns options.symbols hreturn, declarationsOf]
  exact (Declaration.ofTokens_asScanned (Token.asScanned_ofText hactive _)).symm

/-- The text of a file in which every line feed stands behind a carriage return. -/
def withReturns (text : String) : String :=
  String.ofList (Text.withReturns text.toList)

theorem toList_withoutMark_withReturns (text : String) :
    (withoutMark (withReturns text)).toList = Text.withReturns (withoutMark text).toList := by
  have hmark := @Text.head?_withReturns text.toList '\uFEFF' (by decide) (by decide)
  rw [toList_withoutMark_eq, toList_withoutMark_eq, withReturns, String.toList_ofList]
  simp only [hmark]
  split
  · rename_i hhead
    obtain ⟨rest, hrest⟩ := List.head?_eq_some_iff.1 hhead
    rw [hrest, Text.withReturns_cons (by decide)]
    rfl
  · rfl

/-- A file without carriage returns, in which no backslash stands directly before a line feed,
declares the same types on the same lines when a carriage return is put before every line feed, and
it declares the marking attribute if it did before. -/
theorem declarations_withReturns (path : Path) (text : String) (options : ParseOptions)
    (hreturn : '\r' ∉ text.toList) (hescape : ¬ ['\\', '\n'] <:+: text.toList) :
    (parse path (withReturns text) options).declarations = (parse path text options).declarations ∧
      (parse path (withReturns text) options).declaresMarker =
        (parse path text options).declaresMarker := by
  have hsuffix : (withoutMark text).toList <:+ text.toList := by
    rw [toList_withoutMark_eq]
    split
    · exact List.tail_suffix _
    · exact List.suffix_refl _
  have hdeclarations : (parse path (withReturns text) options).declarations =
      (parse path text options).declarations := by
    change declarationsOf options _ = declarationsOf options _
    rw [toList_withoutMark_withReturns]
    exact declarationsOf_withReturns options (fun hmem => hreturn (hsuffix.subset hmem))
      ((Text.isUnescaped_of_not_infix hescape).suffix hsuffix)
  exact ⟨hdeclarations, by rw [declaresMarker, hdeclarations, declaresMarker]⟩

/-- A file with a conditional, a documentation line, a comment and literals that go over the end of
a line. -/
def sampleText : String :=
  "#if ? // Malformed.
class Hidden \x7b \x7d
#else
namespace Game; // Models.
/// A player.
[Saved(@\"a
b\")]
class Player : Model(\"open
) \x7b \x7d
#endif
"

set_option maxRecDepth 2000 in
/-- The text of a sample file is read in the same way with both line endings. -/
theorem declarations_withReturns_sampleText :
    '\r' ∉ sampleText.toList ∧ ¬ ['\\', '\n'] <:+: sampleText.toList ∧
      (parse ⟨"Player.cs"⟩ (withReturns sampleText)
          (ParseOptions.ofSymbols Symbols.empty)).declarations =
        [⟨.classType, "Player", some "Game", [], ["Saved"], some "A player.", 8⟩] := by
  obtain ⟨text, htext, hhead, hreturn, hescape, hdeclarations⟩ :
      ∃ text, sampleText = String.ofList text ∧ text.head? = some '#' ∧ '\r' ∉ text ∧
        ¬ ['\\', '\n'] <:+: text ∧
        declarationsOf (ParseOptions.ofSymbols Symbols.empty) text =
          [⟨.classType, "Player", some "Game", [], ["Saved"], some "A player.", 8⟩] :=
    -- The characters are taken from the literal by unification; decoding it would be expensive.
    ⟨_, rfl, by decide +kernel, by decide +kernel, by decide +kernel, by decide +kernel⟩
  have hchars : sampleText.toList = text := by rw [htext, String.toList_ofList]
  rw [← hchars] at hreturn hescape hhead
  refine ⟨hreturn, hescape, ?_⟩
  rw [(declarations_withReturns ⟨"Player.cs"⟩ sampleText
    (ParseOptions.ofSymbols Symbols.empty) hreturn hescape).1]
  change declarationsOf _ (withoutMark sampleText).toList = _
  rw [withoutMark_of_head? hhead (by decide), hchars, hdeclarations]

end SourceTree
end ProjectAssembler
