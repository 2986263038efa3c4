import ProjectAssembler.Proofs.Source.LiteralEnds

/-!
# The grammar of literals

String literals hold escapes, and interpolated ones hold holes with code between braces, in which
literals stand again.  The grammar here says which texts are literals, nested to any depth; the
stack of enclosures with which they are read finds the end of each of them.

Main definitions:

* `Delimiter`: what stands at both ends of a string or of a character literal;
* `Spells`: which texts are literals, contents of literals and code in holes.

Main results:

* `Spells.isClosed`: what each stretch of a literal does to the stack of enclosures;
* `isOneLiteral_of_spells`: every literal is read as one.
-/

namespace ProjectAssembler

open Enclosure

/-! ## The grammar -/

/-- What stands at both ends of a literal: quotation marks, with or without interpolation, or
apostrophes. -/
inductive Delimiter where
  | quotation (interpolated : Bool)
  | apostrophe
deriving DecidableEq, Repr

namespace Delimiter

/-- The character at both ends. -/
def mark : Delimiter → Char
  | quotation _ => '"'
  | apostrophe => '\''

/-- Whether a brace opens a hole. -/
def isInterpolated : Delimiter → Bool
  | quotation interpolated => interpolated
  | apostrophe => false

/-- What is open between the ends. -/
def enclosure : Delimiter → Enclosure
  | quotation interpolated => .quoted false interpolated
  | apostrophe => .character

end Delimiter

/-- The stretches of text that a literal is made of. -/
inductive Stretch where
  /-- A whole literal. -/
  | literal
  /-- The content between the ends of a literal. -/
  | content (delimiter : Delimiter)
  /-- The code in a hole. -/
  | code
deriving DecidableEq, Repr

/-- Which texts are literals, contents of literals, and code in holes. -/
inductive Spells : Stretch → List Char → Prop where
  /-- A string between quotation marks. -/
  | string {content : List Char} (hcontent : Spells (.content (.quotation false)) content) :
      Spells .literal ('"' :: (content ++ ['"']))
  /-- An interpolated string. -/
  | interpolated {content : List Char} (hcontent : Spells (.content (.quotation true)) content) :
      Spells .literal ('$' :: '"' :: (content ++ ['"']))
  /-- A character between apostrophes. -/
  | character {content : List Char} (hcontent : Spells (.content .apostrophe) content) :
      Spells .literal ('\'' :: (content ++ ['\'']))
  /-- A raw string: three or more quotation marks, a text without as many in a row that neither
  begins nor ends with one, and as many again. -/
  | raw {quotes : Nat} {content : List Char} (hquotes : 3 ≤ quotes) (hne : content ≠ [])
      (hrun : ¬ quoteRun quotes <:+: content) (hbegins : content.head? ≠ some '"')
      (hends : content.getLast? ≠ some '"') :
      Spells .literal (quoteRun quotes ++ (content ++ quoteRun quotes))
  /-- Empty content. -/
  | empty (delimiter : Delimiter) : Spells (.content delimiter) []
  /-- A character of the content that stands for itself. -/
  | plain {delimiter : Delimiter} {c : Char} {rest : List Char} (hmark : c ≠ delimiter.mark)
      (hescape : c ≠ '\\') (hfeed : c ≠ '\n')
      (hbrace : delimiter.isInterpolated = true → c ≠ '{')
      (hrest : Spells (.content delimiter) rest) : Spells (.content delimiter) (c :: rest)
  /-- A backslash and what it escapes. -/
  | escape {delimiter : Delimiter} (c : Char) {rest : List Char}
      (hrest : Spells (.content delimiter) rest) :
      Spells (.content delimiter) ('\\' :: c :: rest)
  /-- Two braces, which stand for one. -/
  | brace {rest : List Char} (hrest : Spells (.content (.quotation true)) rest) :
      Spells (.content (.quotation true)) ('{' :: '{' :: rest)
  /-- A hole. -/
  | hole {code rest : List Char} (hcode : Spells .code code) (hbegins : code.head? ≠ some '{')
      (hrest : Spells (.content (.quotation true)) rest) :
      Spells (.content (.quotation true)) ('{' :: (code ++ '}' :: rest))
  /-- No code. -/
  | nothing : Spells .code []
  /-- A character of the code that neither begins a literal nor is a brace. -/
  | other {c : Char} {rest : List Char}
      (hstring : ((c :: rest).dropWhile isStringMark).head? ≠ some '"') (hapostrophe : c ≠ '\'')
      (hopening : c ≠ '{') (hclosing : c ≠ '}') (hrest : Spells .code rest) :
      Spells .code (c :: rest)
  /-- Code between braces. -/
  | braces {code rest : List Char} (hcode : Spells .code code) (hrest : Spells .code rest) :
      Spells .code ('{' :: (code ++ '}' :: rest))
  /-- A literal in the code, with no quotation mark behind it. -/
  | literal {literal rest : List Char} (hliteral : Spells .literal literal)
      (hbehind : rest.head? ≠ some '"') (hrest : Spells .code rest) : Spells .code (literal ++ rest)

/-! ## Steps inside of literals -/

namespace Delimiter

variable (delimiter : Delimiter) (outer : List Enclosure)

theorem step_mark (text : List Char) :
    step delimiter.enclosure outer delimiter.mark text = (outer, text) := by
  cases delimiter <;> simp [enclosure, mark, step]

theorem step_escape (c : Char) (text : List Char) :
    step delimiter.enclosure outer '\\' (c :: text) = (delimiter.enclosure :: outer, text) := by
  cases delimiter <;> simp [enclosure, step]

variable {delimiter}

theorem step_plain {c : Char} (hmark : c ≠ delimiter.mark) (hescape : c ≠ '\\') (hfeed : c ≠ '\n')
    (hbrace : delimiter.isInterpolated = true → c ≠ '{') (text : List Char) :
    step delimiter.enclosure outer c text = (delimiter.enclosure :: outer, text) := by
  cases delimiter with
  | quotation interpolated =>
      have hopens : ¬ (c = '{' ∧ interpolated = true) := fun hboth =>
        hbrace hboth.2 hboth.1
      have hquote : c ≠ '"' := hmark
      simp [enclosure, step, hquote, hescape, hfeed, hopens]
  | apostrophe =>
      have happostrophe : c ≠ '\'' := hmark
      simp [enclosure, step, happostrophe, hescape, hfeed]

end Delimiter

theorem step_brace (outer : List Enclosure) (text : List Char) :
    step (.quoted false true) outer '{' ('{' :: text) = (.quoted false true :: outer, text) := by
  simp [step]

theorem step_hole {text : List Char} (h : text.head? ≠ some '{') (outer : List Enclosure) :
    step (.quoted false true) outer '{' text =
      (.hole 0 :: .quoted false true :: outer, text) := by
  simp [step, h]

/-- In the code of a hole a character that neither begins a literal nor is a brace is passed
over. -/
theorem step_code {c : Char} {text : List Char} (hstring : openString? (c :: text) = none)
    (hapostrophe : c ≠ '\'') (hopening : c ≠ '{') (hclosing : c ≠ '}') (braces : Nat)
    (outer : List Enclosure) :
    step (.hole braces) outer c text = (.hole braces :: outer, text) := by
  simp [step, hstring, hapostrophe, hopening, hclosing]

theorem step_opening (braces : Nat) (outer : List Enclosure) (text : List Char) :
    step (.hole braces) outer '{' text = (.hole (braces + 1) :: outer, text) := by
  have hstring := openString?_eq_none rfl (by decide : '{' ≠ '"') text
  simp [step, hstring]

theorem step_closing (braces : Nat) (outer : List Enclosure) (text : List Char) :
    step (.hole (braces + 1)) outer '}' text = (.hole braces :: outer, text) := by
  have hstring := openString?_eq_none rfl (by decide : '}' ≠ '"') text
  simp [step, hstring]

theorem step_end (outer : List Enclosure) (text : List Char) :
    step (.hole 0) outer '}' text = (outer, text) := by
  have hstring := openString?_eq_none rfl (by decide : '}' ≠ '"') text
  simp [step, hstring]

/-! ## The ends of stretches -/

namespace Stretch

/-- Whether the stack of enclosures finds the end of a stretch: a literal closes what it opens,
content leaves the literal open up to the character at its end, and code leaves the hole open up to
a closing brace, whatever follows. -/
def IsClosed : Stretch → List Char → Prop
  | literal, text => ∀ following : List Char, following.head? ≠ some '"' →
      ∃ opened inside, openLiteral? (text ++ following) = some (opened, inside) ∧
        close [opened] inside = following
  | content delimiter, text => ∀ following : List Char,
      close [delimiter.enclosure] (text ++ delimiter.mark :: following) = following
  | code, text => ∀ (braces : Nat) (following : List Char),
      close [.hole braces] (text ++ '}' :: following) = close [.hole braces] ('}' :: following)

end Stretch

/-- Content does not begin with the character at the ends of its literal. -/
theorem Spells.head?_ne_mark {delimiter : Delimiter} {text : List Char}
    (h : Spells (.content delimiter) text) : text.head? ≠ some delimiter.mark := by
  cases h with
  | empty => simp
  | plain hmark _ _ _ _ => exact fun heq => hmark (Option.some.inj heq)
  | escape c _ => cases delimiter <;> simp [Delimiter.mark]
  | brace _ => simp [Delimiter.mark]
  | hole _ _ _ => simp [Delimiter.mark]

theorem Spells.ne_nil_of_literal {text : List Char} (h : Spells .literal text) : text ≠ [] := by
  cases h with
  | string _ => exact List.cons_ne_nil _ _
  | interpolated _ => exact List.cons_ne_nil _ _
  | character _ => exact List.cons_ne_nil _ _
  | raw _ hne _ _ _ => simp [hne]

/-- The end of every stretch of a literal is found. -/
theorem Spells.isClosed {stretch : Stretch} {text : List Char} (h : Spells stretch text) :
    stretch.IsClosed text := by
  induction h with
  | @string content hcontent ih =>
      intro following hfollowing
      have hopen := openString?_quoted [] (by simp) (by decide) hcontent.head?_ne_mark hfollowing
      refine ⟨.quoted false false, content ++ '"' :: following, ?_, ih following⟩
      rw [List.cons_append, List.append_assoc]
      exact openLiteral?_of_string hopen
  | @interpolated content hcontent ih =>
      intro following hfollowing
      have hopen := openString?_quoted ['$'] (by simp [isStringMark]) (by decide)
        hcontent.head?_ne_mark hfollowing
      refine ⟨.quoted false true, content ++ '"' :: following, ?_, ih following⟩
      rw [List.cons_append, List.cons_append, List.append_assoc]
      exact openLiteral?_of_string hopen
  | @character content _ ih =>
      intro following _
      refine ⟨.character, content ++ '\'' :: following, ?_, ih following⟩
      rw [List.cons_append, List.append_assoc, List.singleton_append]
      exact openLiteral?_character _
  | @raw quotes content hquotes hne hrun hbegins hends =>
      intro following hfollowing
      have hpos : 0 < quotes := Nat.lt_of_lt_of_le (by omega) hquotes
      have hinside : (content ++ (quoteRun quotes ++ following)).head? ≠ some '"' := by
        rwa [List.head?_append_of_ne_nil _ hne]
      have hopen := openString?_marks [] (by simp) (by decide) hpos hinside
      rw [if_pos hquotes, List.nil_append] at hopen
      refine ⟨.raw quotes, content ++ (quoteRun quotes ++ following), ?_, ?_⟩
      · rw [List.append_assoc, List.append_assoc]
        exact openLiteral?_of_string hopen
      · rw [close_raw_front hrun (Or.inl hends)]
        exact close_raw_quotes hpos (Nat.le_refl quotes) hfollowing
  | empty delimiter =>
      intro following
      rw [List.nil_append, close_cons, delimiter.step_mark, close_nil]
  | plain hmark hescape hfeed hbrace _ ih =>
      intro following
      rw [List.cons_append, close_cons, Delimiter.step_plain [] hmark hescape hfeed hbrace]
      exact ih following
  | @escape delimiter c rest _ ih =>
      intro following
      rw [List.cons_append, List.cons_append, close_cons, delimiter.step_escape]
      exact ih following
  | brace _ ih =>
      intro following
      rw [List.cons_append, List.cons_append, close_cons, Delimiter.enclosure, step_brace]
      exact ih following
  | @hole code rest _ hbegins _ ihcode ihrest =>
      intro following
      have hfirst : (code ++ '}' :: (rest ++ '"' :: following)).head? ≠ some '{' := by
        cases code with
        | nil => simp
        | cons c code => exact hbegins
      rw [List.cons_append, List.append_assoc, List.cons_append, close_cons, Delimiter.enclosure,
        Delimiter.mark, step_hole hfirst, close_push, ihcode 0, close_cons, step_end, close_nil]
      exact ihrest following
  | nothing => exact fun _ _ => rfl
  | @other c rest hstring hapostrophe hopening hclosing _ ih =>
      intro braces following
      have hnone : openString? (c :: (rest ++ '}' :: following)) = none := by
        refine openString?_eq_none_of_head? ?_
        rw [← List.cons_append, List.dropWhile_append]
        split
        · simp [isStringMark]
        · rename_i hne
          rwa [List.head?_append_of_ne_nil _ (by simpa using hne)]
      rw [List.cons_append, close_cons, step_code hnone hapostrophe hopening hclosing]
      exact ih braces following
  | @braces code rest _ _ ihcode ihrest =>
      intro braces following
      rw [List.cons_append, List.append_assoc, List.cons_append, close_cons, step_opening,
        ihcode (braces + 1), close_cons, step_closing]
      exact ihrest braces following
  | @literal literal rest hliteral hbehind _ ihliteral ihrest =>
      intro braces following
      have hfollowing : (rest ++ '}' :: following).head? ≠ some '"' := by
        cases rest with
        | nil => simp
        | cons c rest => exact hbehind
      obtain ⟨opened, inside, hopen, hclose⟩ := ihliteral _ hfollowing
      obtain ⟨c, literal, rfl⟩ := List.exists_cons_of_ne_nil hliteral.ne_nil_of_literal
      rw [List.cons_append] at hopen
      rw [List.append_assoc, List.cons_append, close_cons, step_hole_of_openLiteral? hopen,
        close_push, hclose]
      exact ihrest braces following

/-! ## Literals -/

/-- Every literal, with whatever is nested in it, is read as one literal where no quotation mark
follows it. -/
theorem isOneLiteral_of_spells {text following : List Char} (h : Spells .literal text)
    (hfollowing : following.head? ≠ some '"') : IsOneLiteral text following := by
  obtain ⟨opened, inside, hopen, hclose⟩ := h.isClosed following hfollowing
  exact (isOneLiteral_iff_close h.ne_nil_of_literal hopen).2 hclose

/-- A string with an opening brace as a character literal in a hole. -/
def bracedLiteral : List Char :=
  ['$', '"', '{', '\'', '{', '\'', '}', '"']

/-- A string with two literals that hold braces in a hole between escapes. -/
def nestedLiteral : List Char :=
  ['$', '"', '{', '{', '{', '"', '}', '"', '+'] ++ bracedLiteral ++ ['}', '\\', '"', '"']

theorem isOneLiteral_of_spells_nestedLiteral :
    Spells .literal nestedLiteral ∧ ['}'].head? ≠ some '"' ∧
      IsOneLiteral nestedLiteral ['}'] := by
  have hbrace : Spells .literal ['"', '}', '"'] :=
    @Spells.string ['}'] (.plain (by decide) (by decide) (by decide) (by decide) (.empty _))
  have hcharacter : Spells .literal ['\'', '{', '\''] :=
    @Spells.character ['{'] (.plain (by decide) (by decide) (by decide) (by decide) (.empty _))
  have hbraced : Spells .literal bracedLiteral :=
    @Spells.interpolated ['{', '\'', '{', '\'', '}']
      (@Spells.hole ['\'', '{', '\''] [] (@Spells.literal _ [] hcharacter (by decide) .nothing)
        (by decide) (.empty _))
  have hcode : Spells .code (['"', '}', '"'] ++ '+' :: bracedLiteral) :=
    .literal hbrace (by decide) (.other (by decide) (by decide) (by decide) (by decide)
      (@Spells.literal _ [] hbraced (by decide) .nothing))
  have hcontent : Spells (.content (.quotation true))
      ('{' :: '{' :: '{' :: (['"', '}', '"'] ++ '+' :: bracedLiteral ++ ['}', '\\', '"'])) :=
    .brace (@Spells.hole _ ['\\', '"'] hcode (by decide) (.escape '"' (.empty _)))
  have hnested : Spells .literal nestedLiteral := .interpolated hcontent
  exact ⟨hnested, by decide, isOneLiteral_of_spells hnested (by decide)⟩

end ProjectAssembler
