import ProjectAssembler.Proofs.Source.LiteralCursor
import ProjectAssembler.Proofs.Source.TokenLines

/-!
# Tokens at byte positions

The tokens of a text are read by a cursor that moves over white space, comments and documentation
lines to the next token and then over the token, whose text is sliced out of the source.  Nothing in
this reading shows that it comes to an end or that its positions lie between characters of the text;
both are proved here, with an amount of fuel that is linear in the text, together with the tokens
that it finds.

Main definitions:

* `SpannedToken`: a token with the bytes that its text takes up;
* `Cursor.nextToken?` and `Cursor.tokens?`: the next token and all tokens from a place on;
* `SpannedToken.ofLexemes`: the tokens of lexemes with their bytes.

Main results:

* `Cursor.yields_nextToken?`: what one reading finds;
* `Cursor.tokens?_eq`: reading comes to an end with the tokens of the lexemes.
-/

namespace ProjectAssembler

/-- A token with the byte positions where its text begins and ends. -/
structure SpannedToken where
  token : Token
  start : Nat
  stop : Nat
deriving DecidableEq, Repr

/-! ## Reading tokens -/

namespace Cursor

variable (source : List Char)

/-- The place before the end of a delimited comment, or behind the text. -/
def commentBody? (cursor : Cursor) : (fuel : Nat) → Option Cursor
  | 0 => none
  | fuel + 1 => do
      let rest ← cursor.rest? source
      if rest.isEmpty ∨ ['*', '/'].isPrefixOf rest = true then some cursor
      else
        let (_, after) ← cursor.advance? source
        commentBody? after fuel

/-- The place a number of bytes further, but not behind the text. -/
def skipWithin (cursor : Cursor) (bytes : Nat) : Cursor :=
  { cursor with position := min (cursor.position + bytes) (Text.utf8Length source) }

/-- The token whose text lies between two places. -/
def token? (kind : TokenKind) (cursor stop : Cursor) :
    Option (Option SpannedToken × Cursor) := do
  let text ← Text.slice? source cursor.position stop.position
  some (some ⟨⟨kind, String.ofList text, cursor.line⟩, cursor.position, stop.position⟩, stop)

/-- The token of a documentation line, between the place behind its slashes and its end. -/
def documentationToken? (cursor stop : Cursor) : Option (Option SpannedToken × Cursor) := do
  let line ← Text.slice? source cursor.position stop.position
  let trimmed := Text.dropEnd (· == '\r') line
  let spaces := if trimmed.head? = some ' ' then 1 else 0
  let text := trimmed.drop spaces
  some (some ⟨⟨.documentation, String.ofList text, cursor.line⟩, cursor.position + spaces,
    cursor.position + spaces + Text.utf8Length text⟩, stop)

/-- The token that begins at a place, if the text does not end there. -/
def tokenAt? (cursor : Cursor) (fuel : Nat) : Option (Option SpannedToken × Cursor) := do
  let (next, after) ← cursor.advance? source
  match next with
  | none => some (none, cursor)
  | some c =>
      match ← cursor.opening? source with
      | some opening =>
          let stop ← (cursor.skip opening.marks).string? source opening fuel
          cursor.token? source .literal stop
      | none =>
          let (following, _) ← after.advance? source
          if c = '\'' then
            let stop ← cursor.character? source fuel
            cursor.token? source .literal stop
          else if c = '@' ∧ following.any Lexeme.isIdentifierStart = true then
            let stop ← after.advanceWhile? source Lexeme.isIdentifierPart fuel
            after.token? source .identifier stop
          else if c.isDigit then
            let whole ← cursor.advanceWhile? source Lexeme.isIdentifierPart fuel
            let (point, fraction) ← whole.advance? source
            let (digit, _) ← fraction.advance? source
            if point = some '.' ∧ digit.any Char.isDigit = true then
              let stop ← fraction.advanceWhile? source Lexeme.isIdentifierPart fuel
              cursor.token? source .literal stop
            else cursor.token? source .literal whole
          else if Lexeme.isIdentifierStart c then
            let stop ← cursor.advanceWhile? source Lexeme.isIdentifierPart fuel
            cursor.token? source .identifier stop
          else cursor.token? source (.punctuation c) after

/-- The next token from a place on, if there is one, and the place behind it. -/
def nextToken? (documentation : Bool) (cursor : Cursor) :
    (fuel : Nat) → Option (Option SpannedToken × Cursor)
  | 0 => none
  | fuel + 1 => do
      let place ← cursor.advanceWhile? source Text.isBlank fuel
      let rest ← place.rest? source
      if ['/', '/', '/'].isPrefixOf rest = true ∧
          ['/', '/', '/', '/'].isPrefixOf rest = false then
        let inside := place.skip 3
        let stop ← inside.advanceWhile? source (· != '\n') fuel
        if documentation then inside.documentationToken? source stop
        else nextToken? documentation stop fuel
      else if ['/', '/'].isPrefixOf rest then
        let stop ← place.advanceWhile? source (· != '\n') fuel
        nextToken? documentation stop fuel
      else if ['/', '*'].isPrefixOf rest then
        let closing ← (place.skip 2).commentBody? source fuel
        nextToken? documentation (closing.skipWithin source 2) fuel
      else place.tokenAt? source fuel

/-- All tokens from a place on. -/
def tokens? (documentation : Bool) (cursor : Cursor) :
    (fuel : Nat) → Option (List SpannedToken)
  | 0 => none
  | fuel + 1 => do
      let (next, after) ← cursor.nextToken? source documentation fuel
      match next with
      | none => some []
      | some token =>
          let tokens ← tokens? documentation after fuel
          some (token :: tokens)

end Cursor

/-! ## The tokens of lexemes -/

/-- The characters of a lexeme before the text of its token. -/
def Lexeme.lead : Lexeme → List Char
  | .documentation text =>
      text.take 3 ++ if (Text.dropEnd (· == '\r') (text.drop 3)).head? = some ' ' then [' '] else []
  | .identifier true _ => ['@']
  | _ => []

/-- The token of a lexeme that begins at a place. -/
def Lexeme.spanned? (documentation : Bool) (cursor : Cursor) (lexeme : Lexeme) :
    Option SpannedToken :=
  (lexeme.token? documentation cursor.line).map fun token =>
    ⟨token, (cursor.past lexeme.lead).position,
      (cursor.past (lexeme.lead ++ token.text.toList)).position⟩

/-- The tokens of lexemes of which the first begins at a place. -/
def SpannedToken.ofLexemes (documentation : Bool) (cursor : Cursor) :
    List Lexeme → List SpannedToken
  | [] => []
  | lexeme :: rest =>
      (lexeme.spanned? documentation cursor).toList ++
        ofLexemes documentation (cursor.past lexeme.source) rest

/-- The tokens of lexemes with their bytes are the tokens of the lexemes. -/
theorem SpannedToken.map_token_ofLexemes (documentation : Bool) (cursor : Cursor)
    (lexemes : List Lexeme) :
    (ofLexemes documentation cursor lexemes).map SpannedToken.token =
      Token.ofLexemes documentation cursor.line lexemes := by
  induction lexemes generalizing cursor with
  | nil => rfl
  | cons lexeme rest ih =>
      have htoken : (lexeme.spanned? documentation cursor).toList.map SpannedToken.token =
          (lexeme.token? documentation cursor.line).toList := by
        unfold Lexeme.spanned?
        cases lexeme.token? documentation cursor.line <;> rfl
      rw [ofLexemes, Token.ofLexemes, List.map_append, htoken, ih]
      rfl

namespace Cursor

variable {source : List Char} {documentation : Bool} {cursor : Cursor} {rest : List Char}

/-- The tokens of the rest of a text, which begins at a place. -/
def tokensAt (documentation : Bool) (cursor : Cursor) (rest : List Char) : List SpannedToken :=
  SpannedToken.ofLexemes documentation cursor (Lexeme.ofText rest)

theorem tokensAt_nil (documentation : Bool) (cursor : Cursor) :
    tokensAt documentation cursor [] = [] := by
  rw [tokensAt, Lexeme.ofText_nil, SpannedToken.ofLexemes]

theorem tokensAt_cons (documentation : Bool) (cursor : Cursor) (c : Char) (text : List Char) :
    tokensAt documentation cursor (c :: text) =
      ((Lexeme.read c text).1.spanned? documentation cursor).toList ++
        tokensAt documentation (cursor.past (Lexeme.read c text).1.source)
          (Lexeme.read c text).2 := by
  rw [tokensAt, Lexeme.ofText_cons, SpannedToken.ofLexemes, tokensAt]

/-- White space gives no tokens. -/
theorem tokensAt_dropWhile_isBlank (documentation : Bool) (cursor : Cursor) (rest : List Char) :
    tokensAt documentation (cursor.past (rest.takeWhile Text.isBlank))
        (rest.dropWhile Text.isBlank) =
      tokensAt documentation cursor rest := by
  cases rest with
  | nil => rfl
  | cons c text =>
      cases hblank : Text.isBlank c with
      | true =>
          have hread : Lexeme.read c text =
              (.blank (c :: text.takeWhile Text.isBlank), text.dropWhile Text.isBlank) := by
            rw [Lexeme.read, if_pos hblank]
          rw [tokensAt_cons, hread, List.takeWhile_cons_of_pos hblank,
            List.dropWhile_cons_of_pos hblank]
          rfl
      | false => simp [hblank]

/-- Whether the outcome of one reading is the first of given tokens, with the place from which the
others are read; `rest` is what has been there to be read. -/
def Yields (source : List Char) (documentation : Bool)
    (outcome : Option (Option SpannedToken × Cursor)) (rest : List Char) :
    List SpannedToken → Prop
  | [] => ∃ after, outcome = some (none, after)
  | token :: tokens => ∃ after rest', outcome = some (some token, after) ∧
      Stands source after rest' ∧ rest'.length < rest.length ∧
      tokensAt documentation after rest' = tokens

theorem Yields.mono {outcome : Option (Option SpannedToken × Cursor)} {rest' : List Char}
    {tokens : List SpannedToken} (h : Yields source documentation outcome rest tokens)
    (hlength : rest.length ≤ rest'.length) : Yields source documentation outcome rest' tokens := by
  cases tokens with
  | nil => exact h
  | cons token tokens =>
      obtain ⟨after, rest'', houtcome, hstands, hshorter, htokens⟩ := h
      exact ⟨after, rest'', houtcome, hstands, Nat.lt_of_lt_of_le hshorter hlength, htokens⟩

/-- A place in front of a lexeme, and the place behind it. -/
theorem Stands.past_source {c : Char} {text : List Char} (h : Stands source cursor (c :: text)) :
    Stands source (cursor.past (Lexeme.read c text).1.source) (Lexeme.read c text).2 := by
  refine Stands.past _ ?_
  rwa [(Lexeme.source_read c text).1]

/-- A lexeme without a token is passed over. -/
theorem yields_of_none {outcome : Option (Option SpannedToken × Cursor)} {lexeme : Lexeme}
    {stop : Cursor} {c : Char} {text after : List Char}
    (hread : Lexeme.read c text = (lexeme, after))
    (hnone : lexeme.spanned? documentation cursor = none) (h : Stands source cursor (c :: text))
    (hstop : Stands source stop after)
    (houtcome : Yields source documentation outcome after (tokensAt documentation stop after)) :
    Yields source documentation outcome (c :: text)
      (tokensAt documentation cursor (c :: text)) := by
  have hsource := Lexeme.source_read c text
  rw [hread] at hsource
  have hbehind : stop = cursor.past lexeme.source := Stands.eq_past (hsource.1 ▸ h) hstop
  rw [tokensAt_cons, hread, hnone, ← hbehind]
  exact houtcome.mono (Nat.le_succ_of_le hsource.2.length_le)

/-- A lexeme with a token is read. -/
theorem yields_of_some {token : SpannedToken} {c : Char} {text : List Char}
    (h : Stands source cursor (c :: text))
    (hsome : (Lexeme.read c text).1.spanned? documentation cursor = some token) :
    Yields source documentation
      (some (some token, cursor.past (Lexeme.read c text).1.source)) (c :: text)
      (tokensAt documentation cursor (c :: text)) := by
  rw [tokensAt_cons, hsome]
  exact ⟨_, _, rfl, h.past_source, Nat.lt_succ_of_le (Lexeme.source_read c text).2.length_le, rfl⟩

/-- The text between two places is sliced out of the source. -/
theorem Stands.slice?_eq {stop : Cursor} {part : List Char}
    (h : Stands source cursor (part ++ rest)) (hstop : Stands source stop rest) :
    Text.slice? source cursor.position stop.position = some part := by
  obtain rfl := h.eq_past hstop
  obtain ⟨before, rfl, rfl⟩ := h
  refine Text.slice?_eq_some_iff.2 ⟨before, rest, by rw [List.append_assoc], ?_, ?_⟩
  · exact (Nat.zero_add _).symm
  · rw [← past_append]
    exact (Nat.zero_add _).symm

/-- A token between two places. -/
theorem token?_eq {stop : Cursor} {part : List Char} (kind : TokenKind)
    (h : Stands source cursor (part ++ rest)) (hstop : Stands source stop rest) :
    cursor.token? source kind stop =
      some (some ⟨⟨kind, String.ofList part, cursor.line⟩, cursor.position,
        (cursor.past part).position⟩, cursor.past part) := by
  rw [token?, h.slice?_eq hstop, h.eq_past hstop]
  rfl

/-- A lexeme that is all text of its token is read by moving over it. -/
theorem yields_token {moved : Option Cursor} {kind : TokenKind} {lexeme : Lexeme} {c : Char}
    {text after : List Char} (hread : Lexeme.read c text = (lexeme, after))
    (htoken : ∀ line, lexeme.token? documentation line =
      some ⟨kind, String.ofList lexeme.source, line⟩)
    (hlead : lexeme.lead = []) (h : Stands source cursor (c :: text))
    (hmoved : Arrives source moved after) :
    Yields source documentation (moved.bind (cursor.token? source kind)) (c :: text)
      (tokensAt documentation cursor (c :: text)) := by
  obtain ⟨stop, rfl, hstop⟩ := hmoved
  have hwhole := h
  rw [← (Lexeme.source_read c text).1, hread] at hwhole
  have hspanned : (Lexeme.read c text).1.spanned? documentation cursor =
      some ⟨⟨kind, String.ofList lexeme.source, cursor.line⟩, cursor.position,
        (cursor.past lexeme.source).position⟩ := by
    rw [hread, Lexeme.spanned?, htoken, hlead, Option.map_some, List.nil_append,
      String.toList_ofList, past_nil]
  have hyields := yields_of_some h hspanned
  rw [hread] at hyields
  rw [Option.bind_some, token?_eq kind hwhole hstop]
  exact hyields

/-- What is read where neither white space nor a comment begins. -/
theorem read_of_not_comment {c : Char} {text : List Char} (hblank : Text.isBlank c = false)
    (hcomment : Lexeme.readComment? c text = none) :
    Lexeme.read c text = (Lexeme.readLiteral? c text).getD (Lexeme.readWord c text) := by
  rw [Lexeme.read, if_neg (by simp [hblank]), hcomment]
  cases Lexeme.readLiteral? c text <;> rfl

/-- A number is read up to its end. -/
theorem yields_number {fuel : Nat} {c : Char} {text : List Char}
    (h : Stands source cursor (c :: text)) (hfuel : (c :: text).length < fuel)
    (hdigit : c.isDigit = true)
    (hread : Lexeme.read c text =
      (.literal (Lexeme.upTo (c :: text) (Lexeme.afterNumber text)), Lexeme.afterNumber text)) :
    Yields source documentation
      (do
        let whole ← cursor.advanceWhile? source Lexeme.isIdentifierPart fuel
        let (point, fraction) ← whole.advance? source
        let (digit, _) ← fraction.advance? source
        if point = some '.' ∧ digit.any Char.isDigit = true then
          let stop ← fraction.advanceWhile? source Lexeme.isIdentifierPart fuel
          cursor.token? source .literal stop
        else cursor.token? source .literal whole)
      (c :: text) (tokensAt documentation cursor (c :: text)) := by
  have hpart := Lexeme.isIdentifierPart_of_isDigit hdigit
  obtain ⟨whole, hwhole, hpoint⟩ := h.arrives_advanceWhile? Lexeme.isIdentifierPart hfuel
  obtain ⟨fraction, hfraction, hdigits⟩ := hpoint.exists_advance?
  obtain ⟨further, hfurther, -⟩ := hdigits.exists_advance?
  rw [List.dropWhile_cons_of_pos hpart] at hpoint hfraction hdigits hfurther
  rw [hwhole]
  simp only [Option.bind_eq_bind, Option.bind_some, hfraction, hfurther]
  have hnumber := Lexeme.afterNumber_eq text
  split
  · rename_i hpointed
    rw [if_pos hpointed] at hnumber
    have hless : ((text.dropWhile Lexeme.isIdentifierPart).drop 1).length < fuel := by
      refine Nat.lt_of_le_of_lt ?_ (Nat.lt_of_succ_lt hfuel)
      exact ((List.drop_suffix _ _).trans (List.dropWhile_suffix _)).length_le
    refine yields_token hread (fun _ => rfl) rfl h ?_
    rw [hnumber]
    exact hdigits.arrives_advanceWhile? Lexeme.isIdentifierPart hless
  · rename_i hpointed
    rw [if_neg hpointed] at hnumber
    change Yields source documentation ((some whole).bind (cursor.token? source .literal)) _ _
    exact yields_token hread (fun _ => rfl) rfl h ⟨whole, rfl, hnumber ▸ hpoint⟩

/-- A word or a punctuation character is read up to its end. -/
theorem yields_word {fuel : Nat} {c : Char} {text : List Char}
    (h : Stands source cursor (c :: text)) (hfuel : (c :: text).length < fuel)
    (hread : Lexeme.read c text = Lexeme.readWord c text) :
    Yields source documentation
      (if c = '@' ∧ text.head?.any Lexeme.isIdentifierStart = true then do
        let stop ← (cursor.past [c]).advanceWhile? source Lexeme.isIdentifierPart fuel
        (cursor.past [c]).token? source .identifier stop
      else if Lexeme.isIdentifierStart c then do
        let stop ← cursor.advanceWhile? source Lexeme.isIdentifierPart fuel
        cursor.token? source .identifier stop
      else cursor.token? source (.punctuation c) (cursor.past [c]))
      (c :: text) (tokensAt documentation cursor (c :: text)) := by
  unfold Lexeme.readWord at hread
  split
  · rename_i hverbatim
    rw [if_pos hverbatim] at hread
    obtain ⟨rfl, -⟩ := hverbatim
    have hname : Stands source (cursor.past ['@'])
        (text.takeWhile Lexeme.isIdentifierPart ++ text.dropWhile Lexeme.isIdentifierPart) := by
      rw [List.takeWhile_append_dropWhile]
      exact h.past_cons
    obtain ⟨stop, hstop, hbehind⟩ :=
      h.past_cons.arrives_advanceWhile? Lexeme.isIdentifierPart (Nat.lt_of_succ_lt hfuel)
    have hspanned : (Lexeme.read '@' text).1.spanned? documentation cursor =
        some ⟨⟨.identifier, String.ofList (text.takeWhile Lexeme.isIdentifierPart), cursor.line⟩,
          (cursor.past ['@']).position,
          (cursor.past (['@'] ++ text.takeWhile Lexeme.isIdentifierPart)).position⟩ := by
      rw [hread, Lexeme.spanned?]
      simp only [Lexeme.token?, Lexeme.lead, Option.map_some, String.toList_ofList]
    have hyields := yields_of_some h hspanned
    rw [hread] at hyields
    rw [hstop, Option.bind_eq_bind, Option.bind_some, token?_eq _ hname hbehind, ← past_append]
    exact hyields
  · rename_i hverbatim
    rw [if_neg hverbatim] at hread
    split
    · rename_i hstart
      rw [if_pos hstart] at hread
      have hmoved := h.arrives_advanceWhile? Lexeme.isIdentifierPart hfuel
      rw [List.dropWhile_cons_of_pos (Lexeme.isIdentifierPart_of_isIdentifierStart hstart)]
        at hmoved
      exact yields_token hread (fun _ => rfl) rfl h hmoved
    · rename_i hstart
      rw [if_neg hstart] at hread
      change Yields source documentation
        ((some (cursor.past [c])).bind (cursor.token? source (.punctuation c))) _ _
      exact yields_token hread (fun _ => by rfl) rfl h ⟨_, rfl, h.past_cons⟩

/-- Where neither white space nor a comment begins, a token is read. -/
theorem yields_tokenAt? {fuel : Nat} {c : Char} {text : List Char}
    (h : Stands source cursor (c :: text)) (hfuel : 3 * (c :: text).length < fuel)
    (hblank : Text.isBlank c = false) (hcomment : Lexeme.readComment? c text = none) :
    Yields source documentation (cursor.tokenAt? source fuel) (c :: text)
      (tokensAt documentation cursor (c :: text)) := by
  have hless : (c :: text).length < fuel := by omega
  have hread := read_of_not_comment hblank hcomment
  unfold Lexeme.readLiteral? at hread
  rw [tokenAt?, h.advance?_cons]
  simp only [Option.bind_eq_bind, Option.bind_some]
  cases hopen : Enclosure.openString? (c :: text) with
  | some result =>
      obtain ⟨opened, inside⟩ := result
      rw [hopen] at hread
      obtain ⟨opening, hopening, hstring⟩ := arrives_string? h hopen hfuel
      rw [hopening, Option.bind_some]
      exact yields_token hread (fun _ => rfl) rfl h hstring
  | none =>
      rw [hopen] at hread
      obtain ⟨further, hfurther, -⟩ := h.past_cons.exists_advance?
      rw [opening?_eq_none h hopen, Option.bind_some, hfurther]
      simp only [Option.bind_some]
      split
      · rename_i hapostrophe
        subst hapostrophe
        exact yields_token hread (fun _ => rfl) rfl h
          (arrives_character? h (Nat.lt_of_succ_lt hless))
      · rename_i hapostrophe
        simp only [if_neg hapostrophe] at hread
        by_cases hdigit : c.isDigit = true
        · have hsign : ¬ (c = '@' ∧ text.head?.any Lexeme.isIdentifierStart = true) := by
            rintro ⟨rfl, -⟩
            contradiction
          simp only [if_pos hdigit] at hread
          rw [if_neg hsign, if_pos hdigit]
          exact yields_number h hless hdigit hread
        · simp only [if_neg hdigit] at hread
          rw [if_neg hdigit]
          exact yields_word h hless hread

/-! ## Comments -/

/-- A documentation line begins with three slashes and not with four. -/
theorem isDocumentationLine_iff (text : List Char) :
    ['/', '/', '/'].isPrefixOf ('/' :: '/' :: text) = true ∧
        ['/', '/', '/', '/'].isPrefixOf ('/' :: '/' :: text) = false ↔
      Lexeme.isDocumentationLine text = true := by
  cases text with
  | nil => simp [Lexeme.isDocumentationLine]
  | cons c text =>
      by_cases hthree : c = '/'
      · subst hthree
        cases text with
        | nil => simp [Lexeme.isDocumentationLine, List.isPrefixOf]
        | cons d text =>
            by_cases hfour : d = '/'
            · simp [Lexeme.isDocumentationLine, List.isPrefixOf, hfour]
            · simp [Lexeme.isDocumentationLine, List.isPrefixOf, hfour, Ne.symm hfour]
      · simp [Lexeme.isDocumentationLine, List.isPrefixOf, hthree, Ne.symm hthree]

/-- Behind the text no byte is skipped. -/
theorem Stands.skipWithin_eq_of_end (h : Stands source cursor []) (bytes : Nat) :
    cursor.skipWithin source bytes = cursor := by
  obtain ⟨before, rfl, rfl⟩ := h
  rw [List.append_nil, skipWithin, Cursor.past, Cursor.start, Nat.zero_add,
    Nat.min_eq_right (Nat.le_add_right _ _)]

/-- The two characters that close a comment can be skipped. -/
theorem Stands.skipWithin_eq_past (h : Stands source cursor (['*', '/'] ++ rest)) :
    cursor.skipWithin source 2 = cursor.past ['*', '/'] := by
  obtain ⟨before, rfl, rfl⟩ := h
  have hlength : Text.utf8Length before + 2 ≤ Text.utf8Length (before ++ (['*', '/'] ++ rest)) := by
    rw [Text.utf8Length_append, Text.utf8Length_append]
    exact Nat.add_le_add_left (Nat.le_add_right 2 _) _
  rw [skipWithin, Cursor.past, Cursor.start, Nat.zero_add, Nat.min_eq_left hlength]
  rfl

/-- A delimited comment ends behind its closing slash, or with the text. -/
theorem exists_commentBody? {fuel : Nat} (h : Stands source cursor rest)
    (hfuel : rest.length < fuel) :
    ∃ closing, cursor.commentBody? source fuel = some closing ∧
      Stands source (closing.skipWithin source 2) (Lexeme.afterComment rest) := by
  induction rest generalizing cursor fuel with
  | nil =>
      obtain ⟨fuel, rfl⟩ := Nat.exists_eq_succ_of_ne_zero (Nat.ne_zero_of_lt hfuel)
      rw [commentBody?, h.rest?_eq]
      refine ⟨cursor, rfl, ?_⟩
      rw [h.skipWithin_eq_of_end, Lexeme.afterComment]
      exact h
  | cons c text ih =>
      obtain ⟨fuel, rfl⟩ := Nat.exists_eq_succ_of_ne_zero (Nat.ne_zero_of_lt hfuel)
      rw [commentBody?, h.rest?_eq]
      by_cases hclosing : ['*', '/'].isPrefixOf (c :: text) = true
      · obtain ⟨after, hafter⟩ := List.isPrefixOf_iff_prefix.1 hclosing
        rw [← hafter] at h ⊢
        refine ⟨cursor, by rfl, ?_⟩
        rw [h.skipWithin_eq_past]
        exact h.past ['*', '/']
      · have hafter : Lexeme.afterComment (c :: text) = Lexeme.afterComment text := by
          rw [Lexeme.afterComment]
          rintro rest rfl rfl
          exact hclosing rfl
        have hopen : ¬ ((c :: text).isEmpty = true ∨ ['*', '/'].isPrefixOf (c :: text) = true) :=
          fun hor => hor.elim (fun hempty => by contradiction) hclosing
        rw [Option.bind_eq_bind, Option.bind_some, if_neg hopen, h.advance?_cons, hafter]
        exact ih h.past_cons (Nat.lt_of_succ_lt_succ hfuel)

/-- The text of a documentation line is what follows the slashes, without carriage returns at its
end and without a space at its beginning. -/
theorem documentationText_eq (line : List Char) :
    Token.documentationText ('/' :: '/' :: '/' :: line) =
      (Text.dropEnd (· == '\r') line).drop
        (if (Text.dropEnd (· == '\r') line).head? = some ' ' then 1 else 0) := by
  rw [Token.documentationText]
  simp only [List.drop_succ_cons, List.drop_zero]
  cases Text.dropEnd (· == '\r') line with
  | nil => rfl
  | cons c text =>
      by_cases hspace : c = ' '
      · subst hspace
        rfl
      · simp [hspace]

/-- The token of a documentation line is read between its slashes and its end. -/
theorem documentationToken?_eq {stop : Cursor} {line : List Char}
    (h : Stands source cursor (['/', '/', '/'] ++ (line ++ rest)))
    (hstop : Stands source stop rest) :
    (cursor.past ['/', '/', '/']).documentationToken? source stop =
      some ((Lexeme.documentation ('/' :: '/' :: '/' :: line)).spanned? true cursor, stop) := by
  rw [documentationToken?, (h.past _).slice?_eq hstop]
  simp only [Option.bind_eq_bind, Option.bind_some, Lexeme.spanned?, Lexeme.token?, if_true,
    Option.map_some, String.toList_ofList, documentationText_eq, Lexeme.lead, List.drop_succ_cons,
    List.drop_zero, List.take_succ_cons, List.take_zero]
  have hspace : ' '.utf8Size = 1 := rfl
  split <;> simp [past, Nat.add_assoc, hspace]

/-- What is read where a comment or a documentation line begins. -/
theorem read_of_comment {text : List Char} {result : Lexeme × List Char}
    (hcomment : Lexeme.readComment? '/' text = some result) : Lexeme.read '/' text = result := by
  have hblank : ¬ Text.isBlank '/' = true := by decide
  rw [Lexeme.read, if_neg hblank, hcomment]

/-- A documentation line is read if it is wanted, and passed over otherwise. -/
theorem yields_documentation {fuel : Nat} {text : List Char}
    (h : Stands source cursor ('/' :: '/' :: '/' :: text)) (hfuel : text.length < fuel)
    (hline : Lexeme.isDocumentationLine ('/' :: text) = true)
    (hnext : ∀ cursor, Stands source cursor (text.dropWhile (· != '\n')) →
      Yields source documentation (cursor.nextToken? source documentation fuel)
        (text.dropWhile (· != '\n'))
        (tokensAt documentation cursor (text.dropWhile (· != '\n')))) :
    Yields source documentation
      (do
        let stop ← (cursor.skip 3).advanceWhile? source (· != '\n') fuel
        if documentation then (cursor.skip 3).documentationToken? source stop
        else nextToken? source documentation stop fuel)
      ('/' :: '/' :: '/' :: text) (tokensAt documentation cursor ('/' :: '/' :: '/' :: text)) := by
  have hread : Lexeme.read '/' ('/' :: '/' :: text) =
      (.documentation ('/' :: '/' :: '/' :: text.takeWhile (· != '\n')),
        text.dropWhile (· != '\n')) := by
    refine read_of_comment ?_
    rw [Lexeme.readComment?, hline]
    rfl
  have hskip : cursor.skip 3 = cursor.past ['/', '/', '/'] :=
    cursor.skip_eq_past ['/', '/', '/'] (by simp [Char.utf8Size]) (by decide)
  have hinside : Stands source (cursor.past ['/', '/', '/']) text :=
    h.past ['/', '/', '/']
  obtain ⟨stop, hstop, hbehind⟩ := hinside.arrives_advanceWhile? (· != '\n') hfuel
  rw [hskip, hstop]
  cases documentation with
  | false => exact yields_of_none hread rfl h hbehind (hnext stop hbehind)
  | true =>
      have hwhole : Stands source cursor (['/', '/', '/'] ++
          (text.takeWhile (· != '\n') ++ text.dropWhile (· != '\n'))) := by
        rw [List.takeWhile_append_dropWhile]
        exact h
      have hstop' : stop =
          cursor.past (Lexeme.read '/' ('/' :: '/' :: text)).1.source := by
        rw [hread]
        exact Stands.eq_past (by rwa [← List.append_assoc] at hwhole) hbehind
      obtain ⟨token, hspanned⟩ : ∃ token,
          (Lexeme.read '/' ('/' :: '/' :: text)).1.spanned? true cursor = some token := by
        rw [hread]
        exact ⟨_, rfl⟩
      have hyields := yields_of_some h hspanned
      rw [← hstop'] at hyields
      rw [hread] at hspanned
      change Yields source true ((cursor.past ['/', '/', '/']).documentationToken? source stop) _ _
      rw [documentationToken?_eq hwhole hbehind, hspanned]
      exact hyields

/-- A comment is passed over. -/
theorem yields_comment {fuel : Nat} {moved : Option Cursor} {lexeme text after : List Char}
    (hcomment : Lexeme.readComment? '/' text = some (.comment lexeme, after))
    (h : Stands source cursor ('/' :: text)) (hmoved : Arrives source moved after)
    (hnext : ∀ cursor, Stands source cursor after →
      Yields source documentation (cursor.nextToken? source documentation fuel) after
        (tokensAt documentation cursor after)) :
    Yields source documentation
      (moved.bind fun stop => stop.nextToken? source documentation fuel) ('/' :: text)
      (tokensAt documentation cursor ('/' :: text)) := by
  obtain ⟨stop, rfl, hbehind⟩ := hmoved
  exact yields_of_none (read_of_comment hcomment) rfl h hbehind (hnext stop hbehind)

/-- The rest of a line is passed over where two slashes and no documentation line begin. -/
theorem yields_lineComment {fuel : Nat} {text : List Char}
    (h : Stands source cursor ('/' :: '/' :: text))
    (hfuel : ('/' :: '/' :: text).length < fuel)
    (hline : ¬ Lexeme.isDocumentationLine text = true)
    (hnext : ∀ cursor, Stands source cursor (text.dropWhile (· != '\n')) →
      Yields source documentation (cursor.nextToken? source documentation fuel)
        (text.dropWhile (· != '\n'))
        (tokensAt documentation cursor (text.dropWhile (· != '\n')))) :
    Yields source documentation
      ((cursor.advanceWhile? source (· != '\n') fuel).bind fun stop =>
        stop.nextToken? source documentation fuel)
      ('/' :: '/' :: text) (tokensAt documentation cursor ('/' :: '/' :: text)) := by
  have hcomment : Lexeme.readComment? '/' ('/' :: text) =
      some (.comment ('/' :: '/' :: text.takeWhile (· != '\n')), text.dropWhile (· != '\n')) := by
    rw [Lexeme.readComment?, if_neg hline]
  exact yields_comment hcomment h (h.arrives_advanceWhile? (· != '\n') hfuel) hnext

/-- A delimited comment is passed over. -/
theorem yields_delimited {fuel : Nat} {text : List Char}
    (h : Stands source cursor ('/' :: '*' :: text)) (hfuel : text.length < fuel)
    (hnext : ∀ cursor, Stands source cursor (Lexeme.afterComment text) →
      Yields source documentation (cursor.nextToken? source documentation fuel)
        (Lexeme.afterComment text) (tokensAt documentation cursor (Lexeme.afterComment text))) :
    Yields source documentation
      (((cursor.skip 2).commentBody? source fuel).bind fun closing =>
        (closing.skipWithin source 2).nextToken? source documentation fuel)
      ('/' :: '*' :: text) (tokensAt documentation cursor ('/' :: '*' :: text)) := by
  have hskip : cursor.skip 2 = cursor.past ['/', '*'] :=
    cursor.skip_eq_past ['/', '*'] (by simp [Char.utf8Size]) (by decide)
  obtain ⟨closing, hclosing, hbehind⟩ := exists_commentBody? (h.past ['/', '*']) hfuel
  rw [hskip, hclosing]
  exact yields_comment rfl h ⟨_, rfl, hbehind⟩ hnext

/-- Where no comment begins, the text does not begin like one. -/
theorem not_isPrefixOf_of_readComment?_none {c : Char} {text : List Char}
    (h : Lexeme.readComment? c text = none) :
    ['/', '/'].isPrefixOf (c :: text) = false ∧ ['/', '*'].isPrefixOf (c :: text) = false := by
  constructor
  · rw [Bool.eq_false_iff]
    intro hbegins
    obtain ⟨after, hafter⟩ := List.isPrefixOf_iff_prefix.1 hbegins
    obtain ⟨rfl, rfl⟩ := List.cons.inj hafter
    contradiction
  · rw [Bool.eq_false_iff]
    intro hbegins
    obtain ⟨after, hafter⟩ := List.isPrefixOf_iff_prefix.1 hbegins
    obtain ⟨rfl, rfl⟩ := List.cons.inj hafter
    contradiction

theorem not_isPrefixOf_three {text : List Char} (h : ['/', '/'].isPrefixOf text = false) :
    ¬ (['/', '/', '/'].isPrefixOf text = true ∧
      ['/', '/', '/', '/'].isPrefixOf text = false) := by
  rintro ⟨hbegins, -⟩
  obtain ⟨after, rfl⟩ := List.isPrefixOf_iff_prefix.1 hbegins
  contradiction

/-- What white space has been dropped from begins with another character. -/
theorem isBlank_eq_false_of_dropWhile {c : Char} {text : List Char}
    (h : rest.dropWhile Text.isBlank = c :: text) : Text.isBlank c = false := by
  have hnot := List.head?_dropWhile_not Text.isBlank rest
  rw [h] at hnot
  simpa using hnot

/-- One reading finds the first token of the rest of a text. -/
theorem yields_nextToken? {fuel : Nat} (h : Stands source cursor rest)
    (hfuel : 3 * rest.length + 1 < fuel) :
    Yields source documentation (cursor.nextToken? source documentation fuel) rest
      (tokensAt documentation cursor rest) := by
  induction hlength : rest.length using Nat.strong_induction_on generalizing cursor rest fuel with
  | _ n ih =>
      subst hlength
      obtain ⟨fuel, rfl⟩ := Nat.exists_eq_succ_of_ne_zero (Nat.ne_zero_of_lt hfuel)
      have hplace : Stands source (cursor.past (rest.takeWhile Text.isBlank))
          (rest.dropWhile Text.isBlank) := by
        refine Stands.past _ ?_
        rwa [List.takeWhile_append_dropWhile]
      have hblanks : (rest.dropWhile Text.isBlank).length ≤ rest.length :=
        (List.dropWhile_suffix _).length_le
      have hnext {rest' : List Char}
          (hrest : rest'.length < (rest.dropWhile Text.isBlank).length) (cursor' : Cursor)
          (hcursor : Stands source cursor' rest') :=
        @ih rest'.length (Nat.lt_of_lt_of_le hrest hblanks) cursor' rest' fuel hcursor
          (by omega) rfl
      rw [nextToken?, h.advanceWhile?_eq _ (by omega), ← tokensAt_dropWhile_isBlank]
      simp only [Option.bind_eq_bind, Option.bind_some]
      rw [hplace.rest?_eq, Option.bind_some]
      refine Yields.mono ?_ hblanks
      generalize cursor.past (rest.takeWhile Text.isBlank) = place at hplace
      cases htext : rest.dropWhile Text.isBlank with
      | nil =>
          rw [htext] at hplace
          rw [tokensAt_nil]
          refine ⟨place, ?_⟩
          simp [tokenAt?, hplace.advance?_nil]
      | cons c text =>
          have hblank := isBlank_eq_false_of_dropWhile htext
          rw [htext] at hplace hnext hblanks
          have hless : 3 * (c :: text).length < fuel := by omega
          cases hcomment : Lexeme.readComment? c text with
          | none =>
              obtain ⟨hline, hdelimited⟩ := not_isPrefixOf_of_readComment?_none hcomment
              rw [if_neg (not_isPrefixOf_three hline), if_neg (by simp [hline]),
                if_neg (by simp [hdelimited])]
              exact yields_tokenAt? hplace hless hblank hcomment
          | some result =>
              unfold Lexeme.readComment? at hcomment
              split at hcomment
              · rename_i text
                have hafter : (text.dropWhile (· != '\n')).length < ('/' :: '/' :: text).length :=
                  Nat.lt_succ_of_le (Nat.le_succ_of_le (List.dropWhile_suffix _).length_le)
                by_cases hline : Lexeme.isDocumentationLine text = true
                · rw [if_pos ((isDocumentationLine_iff _).2 hline)]
                  obtain ⟨following, rfl, -⟩ := Lexeme.exists_of_isDocumentationLine hline
                  refine yields_documentation hplace ?_ hline (hnext hafter)
                  simp only [List.length_cons] at hless
                  omega
                · rw [if_neg (fun hthree => hline ((isDocumentationLine_iff _).1 hthree)),
                    if_pos (by simp)]
                  exact yields_lineComment hplace (by omega) hline (hnext hafter)
              · rename_i text
                have hsuffix := Lexeme.afterComment_isSuffix text
                have hafter : (Lexeme.afterComment text).length < ('/' :: '*' :: text).length :=
                  Nat.lt_succ_of_le (Nat.le_succ_of_le hsuffix.length_le)
                rw [if_neg (by simp), if_neg (by simp), if_pos (by simp)]
                refine yields_delimited hplace ?_ (hnext hafter)
                simp only [List.length_cons] at hless
                omega
              · contradiction

/-- Reading all tokens of the rest of a text comes to an end with the tokens of its lexemes. -/
theorem tokens?_eq {fuel : Nat} (h : Stands source cursor rest)
    (hfuel : 3 * rest.length + 2 < fuel) :
    cursor.tokens? source documentation fuel = some (tokensAt documentation cursor rest) := by
  induction hlength : rest.length using Nat.strong_induction_on generalizing cursor rest fuel with
  | _ n ih =>
      subst hlength
      obtain ⟨fuel, rfl⟩ := Nat.exists_eq_succ_of_ne_zero (Nat.ne_zero_of_lt hfuel)
      have hyields : Yields source documentation _ rest _ :=
        yields_nextToken? h (Nat.lt_of_succ_lt_succ hfuel)
      rw [tokens?]
      cases htokens : tokensAt documentation cursor rest with
      | nil =>
          rw [htokens] at hyields
          obtain ⟨after, hnext⟩ := hyields
          rw [hnext]
          rfl
      | cons token tokens =>
          rw [htokens] at hyields
          obtain ⟨after, rest', hnext, hstands, hshorter, hothers⟩ := hyields
          have hafter := @ih rest'.length hshorter after rest' fuel hstands (by omega) rfl
          rw [hnext, Option.bind_eq_bind, Option.bind_some]
          simp only [hafter, hothers, Option.bind_eq_bind, Option.bind_some]

end Cursor
end ProjectAssembler
