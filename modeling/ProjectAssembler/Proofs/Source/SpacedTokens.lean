import ProjectAssembler.Proofs.Source.DirectiveLines
import ProjectAssembler.Proofs.Source.LiteralBreaks

/-!
# Tokens between spaces

The texts of the tokens of a source text, joined by single spaces, have the same tokens: no token
runs into the one behind the space, and none falls apart.  A literal that is cut off by the end of
the source text gives the last token, so it is cut off in the joined text as well.

Main definitions:

* `Lexeme.bare`: a lexeme as its token spells it;
* `Token.contents`: the kinds and the texts of the tokens of a text;
* `Token.spaced`: the texts of tokens, joined by single spaces.

Main results:

* `Lexeme.afterLiteral?_break`: a literal that ends inside of a text ends there before white space;
* `Lexeme.ofText_bare`: a lexeme that gives a token is read again before white space;
* `Token.ofText_spaced`: the tokens of the texts of tokens between spaces.
-/

namespace ProjectAssembler
namespace Lexeme

open Enclosure (openString? close isStringMark)
open Text (IsBreak)

variable {c : Char} {front name text rest following : List Char} {lexeme : Lexeme}

/-! ## The characters of identifiers -/

/-- White space is no part of identifiers and numbers. -/
theorem isIdentifierPart_of_isBlank (h : Text.isBlank c = true) : isIdentifierPart c = false :=
  Text.forall_isBlank (p := fun c => isIdentifierPart c = false) (by decide +kernel) h

theorem isBlank_of_isIdentifierStart (h : isIdentifierStart c = true) : Text.isBlank c = false := by
  rw [Bool.eq_false_iff]
  intro hblank
  have hpart := isIdentifierPart_of_isIdentifierStart h
  rw [isIdentifierPart_of_isBlank hblank] at hpart
  contradiction

/-- No identifier begins with a digit. -/
theorem isIdentifierStart_of_isDigit (h : c.isDigit = true) : isIdentifierStart c = false := by
  have hdigit := toNat_of_isDigit h
  have hascii : c.toNat < 0x80 := by omega
  rw [isIdentifierStart, Text.isAlphabetic, if_pos hascii, Bool.or_eq_false_iff]
  constructor
  · rw [Bool.eq_false_iff]
    intro halpha
    have hletter := Text.toNat_of_isAlpha halpha
    omega
  · refine beq_false_of_ne ?_
    rintro rfl
    contradiction

/-- What continues identifiers and numbers ends where white space begins. -/
theorem dropWhile_isIdentifierPart (hname : ∀ c ∈ name, isIdentifierPart c = true)
    (hfollowing : IsBreak following) :
    (name ++ following).dropWhile isIdentifierPart = following := by
  rw [List.dropWhile_append_of_pos hname,
    hfollowing.dropWhile_eq_self fun _ => isIdentifierPart_of_isBlank]

theorem takeWhile_isIdentifierPart (hname : ∀ c ∈ name, isIdentifierPart c = true)
    (hfollowing : IsBreak following) :
    (name ++ following).takeWhile isIdentifierPart = name := by
  rw [List.takeWhile_append_of_pos hname,
    hfollowing.takeWhile_eq_nil fun _ => isIdentifierPart_of_isBlank, List.append_nil]

/-! ## What begins a lexeme -/

/-- A slash begins a comment only before another one or before a star. -/
theorem readComment?_eq_none
    (h : c = '/' → text.head? ≠ some '/' ∧ text.head? ≠ some '*') :
    readComment? c text = none := by
  unfold readComment?
  split
  · exact absurd rfl (h rfl).1
  · exact absurd rfl (h rfl).2
  · rfl

/-- The text after the literal that begins with a quotation mark, an apostrophe or a digit, if one
does. -/
def afterLiteral? (c : Char) (text : List Char) : Option (List Char) :=
  match openString? (c :: text) with
  | some (opened, inside) => some (close [opened] inside)
  | none =>
      if c = '\'' then some (close [.character] text)
      else if c.isDigit then some (afterNumber text)
      else none

theorem readLiteral?_eq (c : Char) (text : List Char) :
    readLiteral? c text =
      (afterLiteral? c text).map fun rest => (literal (upTo (c :: text) rest), rest) :=
  rfl

theorem exists_front_of_afterLiteral? (h : afterLiteral? c text = some rest) :
    ∃ front, front ++ rest = text := by
  have hread := readLiteral?_eq c text
  rw [h] at hread
  exact (source_readLiteral? hread).2

/-- The characters of a literal are those before the text that follows it. -/
theorem upTo_append_right (front rest : List Char) : upTo (front ++ rest) rest = front :=
  List.append_cancel_right (upTo_append (List.suffix_append front rest))

/-- A literal begins with what opens a string, with an apostrophe or with a digit. -/
theorem afterLiteral?_eq_none_iff :
    afterLiteral? c text = none ↔
      openString? (c :: text) = none ∧ c ≠ '\'' ∧ ¬ c.isDigit = true := by
  unfold afterLiteral?
  cases openString? (c :: text) with
  | some found => simp
  | none =>
      by_cases happostrophe : c = '\''
      · simp [happostrophe]
      · by_cases hdigit : c.isDigit = true <;> simp [happostrophe, hdigit]

/-- The character that begins an identifier begins nothing else. -/
theorem read_of_isIdentifierStart (h : isIdentifierStart c = true) (text : List Char) :
    read c text =
      (identifier false (c :: text.takeWhile isIdentifierPart),
        text.dropWhile isIdentifierPart) := by
  have hne (d : Char) (hd : isIdentifierStart d = false) : c ≠ d := by
    rintro rfl
    rw [h] at hd
    contradiction
  have hmark : isStringMark c = false := by
    rw [isStringMark, Bool.or_eq_false_iff]
    exact ⟨beq_false_of_ne (hne '$' (by decide)), beq_false_of_ne (hne '@' (by decide))⟩
  have hdigit : ¬ c.isDigit = true := by
    intro hdigit
    rw [isIdentifierStart_of_isDigit hdigit] at h
    contradiction
  have hcomment : readComment? c text = none :=
    readComment?_eq_none fun hslash => absurd hslash (hne '/' (by decide))
  have hstring := Enclosure.openString?_eq_none hmark (hne '"' (by decide)) text
  have hliteral : afterLiteral? c text = none :=
    afterLiteral?_eq_none_iff.2 ⟨hstring, hne '\'' (by decide), hdigit⟩
  rw [Cursor.read_of_not_comment (isBlank_of_isIdentifierStart h) hcomment, readLiteral?_eq,
    hliteral, Option.map_none, Option.getD_none, readWord,
    if_neg fun hverbatim => hne '@' (by decide) hverbatim.1, if_pos h]

/-! ## Numbers -/

/-- What may stand behind the first digit of a number. -/
inductive EndsNumber : List Char → Prop where
  | whole {digits : List Char} (hdigits : ∀ c ∈ digits, isIdentifierPart c = true) :
      EndsNumber digits
  | fraction {digits fraction : List Char} {d : Char}
      (hdigits : ∀ c ∈ digits, isIdentifierPart c = true) (hd : d.isDigit = true)
      (hfraction : ∀ c ∈ fraction, isIdentifierPart c = true) :
      EndsNumber (digits ++ '.' :: d :: fraction)

theorem exists_endsNumber (text : List Char) :
    ∃ ending, text = ending ++ afterNumber text ∧ EndsNumber ending := by
  have htaken (text : List Char) : ∀ c ∈ text.takeWhile isIdentifierPart,
      isIdentifierPart c = true := fun c hc => List.mem_takeWhile_imp hc
  have hsplit := (List.takeWhile_append_dropWhile (p := isIdentifierPart) (l := text)).symm
  unfold afterNumber
  split
  · rename_i d rest heq
    split
    · rename_i hdigit
      refine ⟨_, ?_, EndsNumber.fraction (htaken text) hdigit (htaken rest)⟩
      rw [List.append_assoc, List.cons_append, List.cons_append, List.takeWhile_append_dropWhile,
        ← heq]
      exact hsplit
    · refine ⟨_, ?_, EndsNumber.whole (htaken text)⟩
      rw [← heq]
      exact hsplit
  · exact ⟨_, hsplit, EndsNumber.whole (htaken text)⟩

/-- A number ends where white space begins. -/
theorem EndsNumber.afterNumber_append {ending : List Char} (h : EndsNumber ending)
    (hfollowing : IsBreak following) : afterNumber (ending ++ following) = following := by
  cases h with
  | whole hdigits =>
      rw [afterNumber_eq, dropWhile_isIdentifierPart hdigits hfollowing, if_neg]
      exact fun hpoint => hfollowing.head?_ne rfl hpoint.1
  | @fraction digits fraction d hdigits hd hfraction =>
      have hpoint : (digits ++ '.' :: d :: fraction ++ following).dropWhile isIdentifierPart =
          '.' :: d :: (fraction ++ following) := by
        rw [List.append_assoc, List.dropWhile_append_of_pos hdigits]
        exact List.dropWhile_cons_of_neg (by decide)
      have hpart := isIdentifierPart_of_isDigit hd
      rw [afterNumber_eq, hpoint, if_pos ⟨rfl, hd⟩, List.drop_one, List.tail_cons,
        List.dropWhile_cons_of_pos hpart, dropWhile_isIdentifierPart hfraction hfollowing]

/-! ## Lexemes before white space -/

/-- Where no literal begins, none begins before white space. -/
theorem afterLiteral?_eq_none_break (h : afterLiteral? c (front ++ rest) = none)
    (hfollowing : IsBreak following) : afterLiteral? c (front ++ following) = none := by
  rw [afterLiteral?_eq_none_iff] at h ⊢
  exact ⟨@Enclosure.openString?_eq_none_break (c :: front) rest following h.1 hfollowing, h.2⟩

/-- A literal that ends inside of a text ends at the same place where white space follows. -/
theorem afterLiteral?_break (hrest : rest ≠ [])
    (h : afterLiteral? c (front ++ rest) = some rest) (hfollowing : IsBreak following) :
    afterLiteral? c (front ++ following) = some following := by
  unfold afterLiteral? at h ⊢
  cases hopen : openString? (c :: (front ++ rest)) with
  | some found =>
      obtain ⟨opened, inside⟩ := found
      rw [hopen] at h
      have hclose : close [opened] inside = rest := Option.some.inj h
      obtain ⟨front', rfl⟩ : ∃ front', front' ++ rest = inside :=
        hclose ▸ Enclosure.close_isSuffix [opened] inside
      have hopen' : openString? (c :: (front ++ following)) = some (opened, front' ++ following) :=
        @Enclosure.openString?_break (c :: front) front' rest following opened hopen hfollowing
      rw [hopen']
      exact congrArg some (Enclosure.close_break hrest hclose hfollowing)
  | none =>
      have hnone : openString? (c :: (front ++ following)) = none :=
        @Enclosure.openString?_eq_none_break (c :: front) rest following hopen hfollowing
      rw [hopen] at h
      rw [hnone]
      dsimp only at h ⊢
      split at h
      · rename_i happostrophe
        rw [if_pos happostrophe, Enclosure.close_break hrest (Option.some.inj h) hfollowing]
      · rename_i happostrophe
        split at h
        · rename_i hdigit
          obtain ⟨ending, hsplit, hending⟩ := exists_endsNumber (front ++ rest)
          rw [Option.some.inj h] at hsplit
          rw [if_neg happostrophe, if_pos hdigit, List.append_cancel_right hsplit,
            hending.afterNumber_append hfollowing]
        · contradiction

/-- An identifier ends where white space begins. -/
theorem ofText_identifier (hstart : isIdentifierStart c = true)
    (hname : ∀ d ∈ name, isIdentifierPart d = true) (hfollowing : IsBreak following) :
    ofText (c :: name ++ following) = identifier false (c :: name) :: ofText following := by
  rw [List.cons_append, ofText_cons, read_of_isIdentifierStart hstart,
    takeWhile_isIdentifierPart hname hfollowing, dropWhile_isIdentifierPart hname hfollowing]

/-- A character that is punctuation stays so where white space follows. -/
theorem ofText_punctuation (hblank : Text.isBlank c = false)
    (hliteral : afterLiteral? c text = none) (hstart : isIdentifierStart c = false)
    (hfollowing : IsBreak following) :
    ofText (c :: following) = punctuation c :: ofText following := by
  have hcomment : readComment? c following = none :=
    readComment?_eq_none fun _ => ⟨hfollowing.head?_ne rfl, hfollowing.head?_ne rfl⟩
  have hliteral' : afterLiteral? c following = none :=
    @afterLiteral?_eq_none_break c [] text following hliteral hfollowing
  have hverbatim : ¬ (c = '@' ∧ following.head?.any isIdentifierStart = true) := by
    rintro ⟨-, hany⟩
    obtain ⟨d, hd, hdstart⟩ := (Option.any_eq_true _ _).1 hany
    have hdblank := hfollowing d hd
    rw [isBlank_of_isIdentifierStart hdstart] at hdblank
    contradiction
  rw [ofText_cons, Cursor.read_of_not_comment hblank hcomment, readLiteral?_eq, hliteral',
    Option.map_none, Option.getD_none, readWord, if_neg hverbatim, if_neg (by simp [hstart])]

/-- A literal that ends inside of a text, or where nothing follows, is read before white space. -/
theorem ofText_literal (hblank : Text.isBlank c = false)
    (h : afterLiteral? c (front ++ rest) = some rest) (hend : rest = [] → following = [])
    (hfollowing : IsBreak following) :
    ofText (c :: front ++ following) = literal (c :: front) :: ofText following := by
  have hslash : c ≠ '/' := by
    rintro rfl
    have hnone : afterLiteral? '/' (front ++ rest) = none :=
      afterLiteral?_eq_none_iff.2
        ⟨Enclosure.openString?_eq_none rfl (by decide) _, by decide, by decide⟩
    rw [hnone] at h
    contradiction
  have hliteral : afterLiteral? c (front ++ following) = some following := by
    by_cases hrest : rest = []
    · rw [hend hrest]
      rwa [hrest] at h
    · exact afterLiteral?_break hrest h hfollowing
  have hcomment : readComment? c (front ++ following) = none :=
    readComment?_eq_none fun heq => absurd heq hslash
  have hword : upTo (c :: (front ++ following)) following = c :: front :=
    upTo_append_right (c :: front) following
  rw [List.cons_append, ofText_cons, Cursor.read_of_not_comment hblank hcomment, readLiteral?_eq,
    hliteral, Option.map_some, Option.getD_some, hword]

/-- A lexeme as its token spells it: an identifier without its at sign. -/
def bare : Lexeme → Lexeme
  | identifier _ name => identifier false name
  | lexeme => lexeme

/-- The spelling of a lexeme in its token. -/
theorem token?_bare {line : Nat} {token : Token} (h : lexeme.token? false line = some token)
    (documentation : Bool) :
    lexeme.bare.token? documentation line = some token ∧
      lexeme.bare.source = token.text.toList := by
  cases lexeme with
  | blank text => contradiction
  | comment text => contradiction
  | documentation text => contradiction
  | literal text =>
      cases h
      exact ⟨rfl, String.toList_ofList.symm⟩
  | identifier verbatim name =>
      cases h
      exact ⟨rfl, String.toList_ofList.symm⟩
  | punctuation c =>
      cases h
      exact ⟨rfl, (String.toList_singleton c).symm⟩

/-- Comments give no tokens, and documentation lines give none when they are not wanted. -/
theorem token?_of_readComment? (h : readComment? c text = some (lexeme, rest)) (line : Nat) :
    lexeme.token? false line = none := by
  unfold readComment? at h
  split at h
  · cases h
    split <;> rfl
  · cases h
    rfl
  · contradiction

/-- What gives a token is neither white space nor a comment. -/
theorem read_of_token? {line : Nat} {token : Token} (h : read c text = (lexeme, rest))
    (htoken : lexeme.token? false line = some token) :
    Text.isBlank c = false ∧
      (readLiteral? c text).getD (readWord c text) = (lexeme, rest) := by
  have hblank : Text.isBlank c = false := by
    rw [Bool.eq_false_iff]
    intro hblank
    rw [read, if_pos hblank] at h
    cases h
    contradiction
  have hcomment : readComment? c text = none := by
    cases hfound : readComment? c text with
    | none => rfl
    | some result =>
        rw [read, if_neg (by simp [hblank]), hfound] at h
        obtain rfl : result = (lexeme, rest) := h
        rw [token?_of_readComment? hfound line] at htoken
        contradiction
  rw [← Cursor.read_of_not_comment hblank hcomment]
  exact ⟨hblank, h⟩

/-- A word is read again before white space. -/
theorem ofText_bare_word (h : readWord c text = (lexeme, rest)) (hblank : Text.isBlank c = false)
    (hliteral : afterLiteral? c text = none) (hfollowing : IsBreak following) :
    ofText (lexeme.bare.source ++ following) = lexeme.bare :: ofText following := by
  have hname : ∀ d ∈ text.takeWhile isIdentifierPart, isIdentifierPart d = true :=
    fun d hd => List.mem_takeWhile_imp hd
  unfold readWord at h
  split at h
  · rename_i hverbatim
    obtain ⟨rfl, rfl⟩ := Prod.mk.inj h
    obtain ⟨d, hd, hstart⟩ := (Option.any_eq_true _ _).1 hverbatim.2
    obtain ⟨after, rfl⟩ := List.head?_eq_some_iff.1 hd
    rw [List.takeWhile_cons_of_pos (isIdentifierPart_of_isIdentifierStart hstart)] at hname ⊢
    exact ofText_identifier hstart (List.forall_mem_cons.1 hname).2 hfollowing
  · split at h
    · rename_i hstart
      obtain ⟨rfl, rfl⟩ := Prod.mk.inj h
      exact ofText_identifier hstart hname hfollowing
    · rename_i hstart
      obtain ⟨rfl, rfl⟩ := Prod.mk.inj h
      exact ofText_punctuation hblank hliteral (by simpa using hstart) hfollowing

/-- A lexeme that gives a token is read again before white space, unless it is a literal that is cut
off. -/
theorem ofText_bare {line : Nat} {token : Token} (h : read c text = (lexeme, rest))
    (htoken : lexeme.token? false line = some token) (hend : rest = [] → following = [])
    (hfollowing : IsBreak following) :
    ofText (lexeme.bare.source ++ following) = lexeme.bare :: ofText following := by
  obtain ⟨hblank, hread⟩ := read_of_token? h htoken
  rw [readLiteral?_eq] at hread
  cases hliteral : afterLiteral? c text with
  | some rest' =>
      rw [hliteral, Option.map_some, Option.getD_some] at hread
      obtain ⟨rfl, rfl⟩ := Prod.mk.inj hread
      obtain ⟨front, rfl⟩ := exists_front_of_afterLiteral? hliteral
      rw [← List.cons_append, upTo_append_right]
      exact ofText_literal hblank hliteral hend hfollowing
  | none =>
      rw [hliteral, Option.map_none, Option.getD_none] at hread
      exact ofText_bare_word hread hblank hliteral hfollowing

end Lexeme

/-! ## Tokens -/

namespace Token

open Text (IsBreak)

/-- The kind and the text of a token, without its line. -/
def content (token : Token) : TokenKind × String :=
  (token.kind, token.text)

/-- The kinds and the texts of the tokens of a text. -/
def contents (documentation : Bool) (source : List Char) : List (TokenKind × String) :=
  (ofText documentation source).map content

/-- The texts of tokens, joined by single spaces. -/
def spaced (tokens : List Token) : String :=
  " ".intercalate (tokens.map Token.text)

variable {documentation : Bool} {c : Char} {source following : List Char}

/-! ## Kinds and texts -/

theorem content_token? (line : Nat) (lexeme : Lexeme) :
    (lexeme.token? documentation line).map content =
      (lexeme.token? documentation 1).map content := by
  cases lexeme with
  | documentation text => cases documentation <;> rfl
  | _ => rfl

/-- The kinds and the texts of tokens do not depend on the line that they begin on. -/
theorem content_ofLexemes (line : Nat) (lexemes : List Lexeme) :
    (ofLexemes documentation line lexemes).map content =
      (ofLexemes documentation 1 lexemes).map content := by
  induction lexemes generalizing line with
  | nil => rfl
  | cons lexeme rest ih =>
      rw [ofLexemes, ofLexemes, List.map_append, List.map_append, ← Option.toList_map,
        ← Option.toList_map, content_token?, ih, ← ih (1 + _)]

/-- The tokens of a text are those of the lexeme at its front and those of what follows it. -/
theorem contents_of_ofText {lexeme : Lexeme} {rest : List Char}
    (h : Lexeme.ofText source = lexeme :: Lexeme.ofText rest) :
    contents documentation source =
      ((lexeme.token? documentation 1).map content).toList ++ contents documentation rest := by
  rw [contents, ofText, h, ofLexemes, List.map_append, ← Option.toList_map, content_ofLexemes]
  rfl

@[simp]
theorem contents_nil : contents documentation [] = [] := by
  rw [contents, ofText, Lexeme.ofText_nil]
  rfl

/-- Kinds and texts of tokens are the same from whatever place on they are read. -/
theorem contents_eq_tokensAt (cursor : Cursor) (source : List Char) :
    contents documentation source =
      ((Cursor.tokensAt documentation cursor source).map SpannedToken.token).map content := by
  rw [Cursor.tokensAt, SpannedToken.map_token_ofLexemes, content_ofLexemes, contents, ofText]

/-- White space at the front of a text gives no tokens. -/
theorem contents_dropWhile (source : List Char) :
    contents documentation (source.dropWhile Text.isBlank) = contents documentation source := by
  rw [contents_eq_tokensAt Cursor.start source, ← Cursor.tokensAt_dropWhile_isBlank,
    ← contents_eq_tokensAt]

theorem contents_space (source : List Char) :
    contents documentation (' ' :: source) = contents documentation source := by
  rw [← contents_dropWhile, List.dropWhile_cons_of_pos (by decide), contents_dropWhile]

/-! ## Tokens between spaces -/

/-- The text of a token that was read gives the same token before white space, unless it is a
literal that is cut off. -/
theorem contents_word {text rest : List Char} {lexeme : Lexeme} {token : Token}
    (h : Lexeme.read c text = (lexeme, rest)) (htoken : lexeme.token? false 1 = some token)
    (hend : rest = [] → following = []) (hfollowing : IsBreak following) :
    contents documentation (token.text.toList ++ following) =
      token.content :: contents documentation following := by
  obtain ⟨hbare, hword⟩ := Lexeme.token?_bare htoken documentation
  have hread := Lexeme.ofText_bare h htoken hend hfollowing
  rw [hword] at hread
  rw [contents_of_ofText hread, hbare]
  rfl

/-- The texts of tokens that are given by kind and text, with single spaces between them. -/
def joined (words : List (TokenKind × String)) : List Char :=
  List.intercalate [' '] (words.map fun word => word.2.toList)

/-- One more token stands before the texts of those that follow it. -/
theorem contents_joined_cons {text rest : List Char} {lexeme : Lexeme} {token : Token}
    (h : Lexeme.read c text = (lexeme, rest)) (htoken : lexeme.token? false 1 = some token)
    (hrest : contents documentation (joined (contents false rest)) = contents false rest) :
    contents documentation (joined (token.content :: contents false rest)) =
      token.content :: contents false rest := by
  by_cases hlast : contents false rest = []
  · -- Nothing stands behind the last token, which may be a literal that is cut off.
    have hword : contents documentation (token.text.toList ++ []) =
        token.content :: contents documentation [] :=
      contents_word h htoken (fun _ => rfl) Text.isBreak_nil
    rw [hlast, joined, List.map_singleton, List.intercalate_singleton]
    rwa [List.append_nil, contents_nil] at hword
  · have hne : rest ≠ [] := fun hnil => hlast (by rw [hnil, contents_nil])
    have hword : contents documentation
          (token.text.toList ++ ' ' :: joined (contents false rest)) =
        token.content :: contents documentation (' ' :: joined (contents false rest)) :=
      contents_word h htoken (fun hnil => absurd hnil hne) (Text.isBreak_cons rfl _)
    rw [joined, List.map_cons, List.intercalate_cons_of_ne_nil (by simpa using hlast),
      List.append_assoc, List.singleton_append]
    rwa [contents_space, hrest] at hword

/-- The texts of the tokens of a text, with spaces between them, give their kinds and texts
again. -/
theorem contents_joined (documentation : Bool) (source : List Char) :
    contents documentation (joined (contents false source)) = contents false source := by
  induction source using Lexeme.ofText.induct with
  | case1 =>
      rw [contents_nil]
      exact contents_nil
  | case2 c text ih =>
      have hsource : contents false (c :: text) = _ :=
        contents_of_ofText (Lexeme.ofText_cons c text)
      cases htoken : (Lexeme.read c text).1.token? false 1 with
      | none =>
          rw [htoken] at hsource
          rw [hsource]
          exact ih
      | some token =>
          rw [htoken] at hsource
          rw [hsource]
          exact contents_joined_cons rfl htoken ih

/-- The texts of the tokens of a source text, joined by single spaces, give tokens of the same kinds
and with the same texts, in the same order, whether documentation lines are wanted or not. -/
theorem ofText_spaced (documentation : Bool) (source : String) :
    (ofText documentation (spaced (ofText false source.toList)).toList).map content =
      (ofText false source.toList).map content := by
  have hspaced : (spaced (ofText false source.toList)).toList =
      joined (contents false source.toList) := by
    rw [spaced, joined, String.toList_intercalate, contents, List.map_map, List.map_map]
    rfl
  rw [hspaced]
  exact contents_joined documentation source.toList

/-- A verbatim identifier loses its at sign, and a literal that is cut off stays so. -/
example : spaced (ofText false "@class/**/A=1..5;$\"\x7ba".toList) =
    "class A = 1 . . 5 ; $\"\x7ba" := by
  decide +kernel

end Token
end ProjectAssembler
