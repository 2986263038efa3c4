import Mathlib.Data.List.TakeWhile
import Mathlib.Data.List.Infix
import ProjectAssembler.Proofs.Source.TokenCursor

/-!
# The ends of literals

What a literal begins with decides how its end is found.  This module says what is opened by the
marks and quotation marks at the front of a text, where the contents of a raw string end, and when
all of a text is one literal.

Main definitions:

* `Enclosure.quoteRun`: a run of quotation marks;
* `Enclosure.openLiteral?`: what the beginning of a literal opens;
* `IsOneLiteral`: whether a text is read as one literal.

Main results:

* `Enclosure.openString?_marks`: what marks and a run of quotation marks open;
* `Enclosure.close_raw_front` and `Enclosure.close_raw_quotes`: raw strings are closed by the first
  run of quotation marks that is long enough;
* `isOneLiteral_iff_close`: a text is one literal if what it opens is closed where it ends.
-/

namespace ProjectAssembler
namespace Enclosure

/-- A run of quotation marks. -/
abbrev quoteRun (length : Nat) : List Char :=
  List.replicate length '"'

theorem quoteRun_succ (length : Nat) : quoteRun (length + 1) = '"' :: quoteRun length :=
  rfl

theorem quoteRun_add (first second : Nat) :
    quoteRun (first + second) = quoteRun first ++ quoteRun second :=
  List.replicate_add first second '"'

theorem eq_quote_of_mem {length : Nat} {c : Char} (h : c ∈ quoteRun length) : c = '"' :=
  List.eq_of_mem_replicate h

/-- The quotation marks at the front of a text. -/
theorem exists_quoteRun (text : List Char) :
    ∃ quotes rest, text = quoteRun quotes ++ rest ∧ rest.head? ≠ some '"' := by
  induction text with
  | nil => exact ⟨0, [], rfl, nofun⟩
  | cons c text ih =>
      by_cases hc : c = '"'
      · obtain ⟨quotes, rest, rfl, hrest⟩ := ih
        exact ⟨quotes + 1, rest, by rw [hc]; rfl, hrest⟩
      · exact ⟨0, c :: text, rfl, by simpa using hc⟩

/-! ## What is opened -/

section Opened

variable {inside : List Char} {quotes : Nat}

theorem takeWhile_quoteRun (quotes : Nat) (hinside : inside.head? ≠ some '"') :
    (quoteRun quotes ++ inside).takeWhile (· == '"') = quoteRun quotes := by
  have hnone : inside.takeWhile (· == '"') = [] := by
    cases inside with
    | nil => rfl
    | cons c inside =>
        have hc : c ≠ '"' := fun heq => hinside (by rw [heq]; rfl)
        exact List.takeWhile_cons_of_neg (by simpa using hc)
  rw [List.takeWhile_append_of_pos fun c hc => by simpa using eq_quote_of_mem hc, hnone,
    List.append_nil]

/-- Marks with at most one at sign and a run of quotation marks open a raw string, if the run is
long enough, or else the string behind the first of its quotation marks. -/
theorem openString?_marks (marks : List Char) (hmarks : ∀ c ∈ marks, isStringMark c = true)
    (hsigns : marks.count '@' ≤ 1) (hquotes : 0 < quotes) (hinside : inside.head? ≠ some '"') :
    openString? (marks ++ (quoteRun quotes ++ inside)) =
      some (if 3 ≤ quotes then (raw quotes, inside)
        else (quoted (marks.contains '@') (marks.contains '$'),
          quoteRun (quotes - 1) ++ inside)) := by
  obtain ⟨more, rfl⟩ : ∃ more, quotes = more + 1 := ⟨quotes - 1, by omega⟩
  have hmark : isStringMark '"' = false := rfl
  have htake : (marks ++ (quoteRun (more + 1) ++ inside)).takeWhile isStringMark = marks := by
    rw [List.takeWhile_append_of_pos hmarks, quoteRun_succ, List.cons_append,
      List.takeWhile_cons_of_neg (by simp [hmark]), List.append_nil]
  have hdrop : (marks ++ (quoteRun (more + 1) ++ inside)).dropWhile isStringMark =
      quoteRun (more + 1) ++ inside := by
    rw [List.dropWhile_append_of_pos hmarks, quoteRun_succ, List.cons_append,
      List.dropWhile_cons_of_neg (by simp [hmark])]
  unfold openString?
  simp only [htake, hdrop, takeWhile_quoteRun (more + 1) hinside, List.length_replicate]
  rw [if_neg (by omega)]
  split
  · rw [List.drop_left' List.length_replicate]
  · rfl

/-- A quotation mark behind marks opens a string whose contents do not begin with another one. -/
theorem openString?_quoted (marks : List Char) (hmarks : ∀ c ∈ marks, isStringMark c = true)
    (hsigns : marks.count '@' ≤ 1) {content following : List Char}
    (hcontent : content.head? ≠ some '"') (hfollowing : following.head? ≠ some '"') :
    openString? (marks ++ '"' :: (content ++ '"' :: following)) =
      some (quoted (marks.contains '@') (marks.contains '$'), content ++ '"' :: following) := by
  cases content with
  | nil => exact openString?_marks marks hmarks hsigns Nat.zero_lt_two hfollowing
  | cons c content =>
      have hinside : (c :: content ++ '"' :: following).head? ≠ some '"' := hcontent
      exact openString?_marks marks hmarks hsigns Nat.zero_lt_one hinside

/-- Where no quotation mark stands behind the marks at the front of a text, no string is opened. -/
theorem openString?_eq_none_of_head? {text : List Char}
    (h : (text.dropWhile isStringMark).head? ≠ some '"') : openString? text = none := by
  have hnone : ((text.dropWhile isStringMark).takeWhile (· == '"')).length = 0 :=
    (Cursor.length_takeWhile_quote _).2 h
  unfold openString?
  simp only
  rw [if_pos (Or.inl hnone)]

/-- What the beginning of a string or of a character literal opens, and the text inside. -/
def openLiteral? (text : List Char) : Option (Enclosure × List Char) :=
  (openString? text).or (if text.head? = some '\'' then some (character, text.tail) else none)

theorem openLiteral?_of_string {text : List Char} {opened : Enclosure × List Char}
    (h : openString? text = some opened) : openLiteral? text = some opened := by
  rw [openLiteral?, h, Option.some_or]

theorem openLiteral?_character (inside : List Char) :
    openLiteral? ('\'' :: inside) = some (character, inside) := by
  rw [openLiteral?, openString?_eq_none rfl (by decide), Option.none_or]
  rfl

/-- A literal begins with what opens a string or with an apostrophe. -/
theorem openLiteral?_cases {c : Char} {text inside : List Char} {opened : Enclosure}
    (h : openLiteral? (c :: text) = some (opened, inside)) :
    openString? (c :: text) = some (opened, inside) ∨
      openString? (c :: text) = none ∧ c = '\'' ∧ opened = character ∧ inside = text := by
  unfold openLiteral? at h
  cases hopen : openString? (c :: text) with
  | some found =>
      rw [hopen, Option.some_or] at h
      exact Or.inl h
  | none =>
      rw [hopen, Option.none_or, List.head?_cons, List.tail_cons] at h
      split at h
      · rename_i hc
        obtain ⟨rfl, rfl⟩ := Prod.mk.inj (Option.some.inj h)
        exact Or.inr ⟨rfl, Option.some.inj hc, rfl, rfl⟩
      · contradiction

/-- A literal in an interpolation hole is opened inside of it. -/
theorem step_hole_of_openLiteral? {c : Char} {text inside : List Char} {opened : Enclosure}
    (h : openLiteral? (c :: text) = some (opened, inside)) (braces : Nat)
    (outer : List Enclosure) :
    step (hole braces) outer c text = (opened :: hole braces :: outer, inside) := by
  rcases openLiteral?_cases h with hopen | ⟨hopen, rfl, rfl, rfl⟩
  · simp only [step, hopen]
  · simp only [step, hopen, if_true]

end Opened

/-! ## Raw strings -/

section Raw

variable {quotes : Nat} {front back : List Char}

/-- A run of quotation marks at the front of a text reaches over a part of it only if that part
consists of quotation marks. -/
theorem isPrefix_front_or_quotes (h : quoteRun quotes <+: front ++ back) :
    quoteRun quotes <+: front ∨
      (∀ c ∈ front, c = '"') ∧ back.head? = some '"' := by
  by_cases hlength : quotes ≤ front.length
  · refine Or.inl (List.prefix_of_prefix_length_le h (List.prefix_append front back) ?_)
    rwa [List.length_replicate]
  · have hfront : front <+: quoteRun quotes :=
      List.prefix_of_prefix_length_le (List.prefix_append front back) h
        (by rw [List.length_replicate]; omega)
    obtain ⟨more, hmore⟩ := hfront
    rw [← hmore, List.prefix_append_right_inj] at h
    refine Or.inr ⟨fun c hc => ?_, ?_⟩
    · have hmem : c ∈ quoteRun quotes := hmore ▸ List.mem_append_left more hc
      exact eq_quote_of_mem hmem
    · cases more with
      | nil =>
          have hsame := congrArg List.length hmore
          simp only [List.append_nil, List.length_replicate] at hsame
          omega
      | cons c more =>
          have hmem : c ∈ quoteRun quotes :=
            hmore ▸ List.mem_append_right front List.mem_cons_self
          obtain ⟨after, rfl⟩ := h
          rw [eq_quote_of_mem hmem]
          rfl

theorem getLast?_of_cons {c : Char} (h : (c :: front).getLast? ≠ some '"') :
    front.getLast? ≠ some '"' := by
  cases front with
  | nil => exact nofun
  | cons d front => rwa [List.getLast?_cons_cons] at h

/-- In a raw string a text without a long enough run of quotation marks is passed over. -/
theorem close_raw_front (hrun : ¬ quoteRun quotes <:+: front)
    (hends : front.getLast? ≠ some '"' ∨ back.head? ≠ some '"') :
    close [raw quotes] (front ++ back) = close [raw quotes] back := by
  induction front with
  | nil => rfl
  | cons c front ih =>
      have hnot : ¬ (List.replicate quotes '"').isPrefixOf (c :: (front ++ back)) = true := by
        rw [List.isPrefixOf_iff_prefix, ← List.cons_append]
        intro hbegins
        rcases isPrefix_front_or_quotes hbegins with hfront | ⟨hquotes, hback⟩
        · exact hrun hfront.isInfix
        · refine hends.elim (fun hlast => hlast ?_) fun hhead => hhead hback
          rw [List.getLast?_eq_some_getLast (List.cons_ne_nil c front)]
          exact congrArg some (hquotes _ (List.getLast_mem _))
      have hstep : step (raw quotes) [] c (front ++ back) = ([raw quotes], front ++ back) := by
        rw [step, if_neg hnot]
      rw [List.cons_append, close_cons, hstep]
      exact ih (fun hpart => hrun (hpart.trans (List.suffix_cons c front).isInfix))
        (hends.imp_left getLast?_of_cons)

/-- A raw string is closed by a run of quotation marks that is long enough, all of which belong to
it. -/
theorem close_raw_quotes (hquotes : 0 < quotes) {closing : Nat} (hclosing : quotes ≤ closing)
    (hback : back.head? ≠ some '"') : close [raw quotes] (quoteRun closing ++ back) = back := by
  obtain ⟨more, rfl⟩ := Nat.exists_eq_add_of_le hclosing
  obtain ⟨quotes, rfl⟩ : ∃ less, quotes = less + 1 := ⟨quotes - 1, by omega⟩
  have hrun : quoteRun (quotes + 1 + more) ++ back =
      '"' :: (quoteRun quotes ++ (quoteRun more ++ back)) := by
    rw [quoteRun_add, quoteRun_succ, List.append_assoc]
    rfl
  have hbegins : (List.replicate (quotes + 1) '"').isPrefixOf
      ('"' :: (quoteRun quotes ++ (quoteRun more ++ back))) = true := by
    rw [List.isPrefixOf_iff_prefix, List.replicate_succ]
    exact List.prefix_append _ _
  have hafter : (quoteRun more ++ back).dropWhile (· == '"') = back := by
    have hall := List.takeWhile_append_dropWhile (p := (· == '"')) (l := quoteRun more ++ back)
    rw [takeWhile_quoteRun more hback] at hall
    exact List.append_cancel_left hall
  have hstep : step (raw (quotes + 1)) [] '"' (quoteRun quotes ++ (quoteRun more ++ back)) =
      ([], back) := by
    rw [step, if_pos hbegins, Nat.add_sub_cancel, List.drop_left' List.length_replicate, hafter]
  rw [hrun, close_cons, hstep, close_nil]

/-- A run of quotation marks that is long enough closes a raw string before the end of a part that
ends with something else. -/
theorem length_lt_close_raw (hquotes : 0 < quotes) (hrun : quoteRun quotes <:+: front)
    (hends : front.getLast? ≠ some '"') (back : List Char) :
    back.length < (close [raw quotes] (front ++ back)).length := by
  induction front with
  | nil =>
      have hnil := List.infix_nil.1 hrun
      rw [List.replicate_eq_nil_iff] at hnil
      omega
  | cons c front ih =>
      rw [List.cons_append, close_cons]
      by_cases hbegins : (List.replicate quotes '"').isPrefixOf (c :: (front ++ back)) = true
      · obtain ⟨after, hafter, hdrop⟩ := exists_after_quotes hquotes hbegins
        have hother : ∃ d ∈ c :: front, ¬ (d == '"') = true := by
          refine ⟨_, List.getLast_mem (List.cons_ne_nil c front), fun hquote => hends ?_⟩
          rw [List.getLast?_eq_some_getLast (List.cons_ne_nil c front), beq_iff_eq.1 hquote]
        have hne : (c :: front).dropWhile (· == '"') ≠ [] := by
          rw [Ne, List.dropWhile_eq_nil_iff]
          obtain ⟨d, hd, hdquote⟩ := hother
          exact fun hall => hdquote (hall d hd)
        have hrest : after.dropWhile (· == '"') = (c :: front).dropWhile (· == '"') ++ back := by
          have hall : ∀ d ∈ quoteRun quotes, (d == '"') = true := fun d hd => by
            simpa using eq_quote_of_mem hd
          rw [← List.dropWhile_append_of_pos hall, hafter, ← List.cons_append,
            List.dropWhile_append, if_neg]
          rwa [List.isEmpty_iff]
        rw [step, if_pos hbegins, close_nil, hdrop, hrest, List.length_append]
        have hpos := List.length_pos_iff.2 hne
        omega
      · rw [step, if_neg hbegins]
        refine ih ((List.infix_cons_iff.1 hrun).resolve_left fun hfront => hbegins ?_)
          (getLast?_of_cons hends)
        rw [List.isPrefixOf_iff_prefix]
        exact hfront.trans (List.prefix_append _ _)

/-- A raw string takes up something of each text that does not begin with a quotation mark. -/
theorem eq_nil_of_close_raw (hquotes : 0 < quotes) (hback : back.head? ≠ some '"')
    (h : close [raw quotes] back = back) : back = [] := by
  cases back with
  | nil => rfl
  | cons c back =>
      have hnot : ¬ (List.replicate quotes '"').isPrefixOf (c :: back) = true := by
        obtain ⟨less, rfl⟩ : ∃ less, quotes = less + 1 := ⟨quotes - 1, by omega⟩
        have hc : ('"' == c) = false := beq_false_of_ne fun heq => hback (by rw [← heq]; rfl)
        simp [List.replicate_succ, List.isPrefixOf, hc]
      rw [close_cons, step, if_neg hnot] at h
      have hlength := (close_isSuffix [raw quotes] back).length_le
      rw [h, List.length_cons] at hlength
      omega

end Raw

end Enclosure

/-! ## One literal -/

open Enclosure

/-- Whether a text is read as one literal where another text follows it: the literal covers the
whole text and no more, from whatever byte and line on it stands, and reading goes on directly
behind it. -/
structure IsOneLiteral (text following : List Char) : Prop where
  lexemes : Lexeme.ofText (text ++ following) = .literal text :: Lexeme.ofText following
  tokens (documentation : Bool) (cursor : Cursor) :
    Cursor.tokensAt documentation cursor (text ++ following) =
      ⟨⟨.literal, String.ofList text, cursor.line⟩, cursor.position,
          (cursor.past text).position⟩ ::
        Cursor.tokensAt documentation (cursor.past text) following

theorem IsOneLiteral.of_lexemes {text following : List Char}
    (h : Lexeme.ofText (text ++ following) = .literal text :: Lexeme.ofText following) :
    IsOneLiteral text following where
  lexemes := h
  tokens documentation cursor := by
    rw [Cursor.tokensAt, h, SpannedToken.ofLexemes, Lexeme.spanned?, Lexeme.token?,
      Option.map_some, String.toList_ofList]
    rfl

/-- What begins a literal begins neither white space nor a comment. -/
theorem readsLiteral_of_openLiteral? {c : Char} {text inside : List Char} {opened : Enclosure}
    (h : openLiteral? (c :: text) = some (opened, inside)) :
    Lexeme.read c text =
      (.literal (Lexeme.upTo (c :: text) (close [opened] inside)), close [opened] inside) := by
  have hc : c = '"' ∨ c = '$' ∨ c = '@' ∨ c = '\'' := by
    by_contra hnone
    obtain ⟨hquote, hdollar, hsign, hapostrophe⟩ : c ≠ '"' ∧ c ≠ '$' ∧ c ≠ '@' ∧ c ≠ '\'' := by
      simpa only [not_or] using hnone
    have hmark : isStringMark c = false := by simp [isStringMark, hdollar, hsign]
    have hopen : openString? (c :: text) = none := openString?_eq_none hmark hquote text
    rcases openLiteral?_cases h with hsome | ⟨-, hc, -⟩
    · rw [hopen] at hsome
      contradiction
    · exact hapostrophe hc
  have hblank : Text.isBlank c = false := by rcases hc with rfl | rfl | rfl | rfl <;> rfl
  have hcomment : Lexeme.readComment? c text = none := by
    unfold Lexeme.readComment?
    rcases hc with rfl | rfl | rfl | rfl <;> rfl
  have hliteral : Lexeme.readLiteral? c text =
      some (.literal (Lexeme.upTo (c :: text) (close [opened] inside)),
        close [opened] inside) := by
    unfold Lexeme.readLiteral?
    rcases openLiteral?_cases h with hopen | ⟨hopen, rfl, rfl, rfl⟩
    · simp only [hopen, Option.map_some]
    · simp only [hopen, if_true, Option.map_some]
  rw [Cursor.read_of_not_comment hblank hcomment, hliteral, Option.getD_some]

/-- A text is one literal if and only if what it opens is closed where it ends. -/
theorem isOneLiteral_iff_close {text following inside : List Char} {opened : Enclosure}
    (htext : text ≠ []) (h : openLiteral? (text ++ following) = some (opened, inside)) :
    IsOneLiteral text following ↔ close [opened] inside = following := by
  obtain ⟨c, text, rfl⟩ := List.exists_cons_of_ne_nil htext
  rw [List.cons_append] at h
  have hread := readsLiteral_of_openLiteral? h
  have hsource := (Lexeme.source_read c (text ++ following)).1
  have hlexemes : Lexeme.ofText (c :: text ++ following) =
      .literal (Lexeme.upTo (c :: (text ++ following)) (close [opened] inside)) ::
        Lexeme.ofText (close [opened] inside) := by
    rw [List.cons_append, Lexeme.ofText_cons, hread]
  rw [hread] at hsource
  constructor
  · intro hone
    have hfirst := (List.cons.inj (hlexemes.symm.trans hone.lexemes)).1
    rw [hfirst] at hsource
    exact List.append_cancel_left hsource
  · intro hclose
    rw [hclose] at hlexemes hsource
    have hwhole : Lexeme.upTo (c :: (text ++ following)) following ++ following =
        c :: text ++ following := hsource
    rw [List.append_cancel_right hwhole] at hlexemes
    exact IsOneLiteral.of_lexemes hlexemes

end ProjectAssembler
