import ProjectAssembler.Proofs.Source.TokenCursor

/-!
# The spans of tokens

The bytes of the tokens of a text follow each other without overlapping.  What lies between them is
white space, ordinary comments and the edges of documentation lines and verbatim identifiers;
nothing else of a text is passed over, however malformed the text is.

Main definitions:

* `SpannedToken.IsSkipped`: the stretches of text between tokens;
* `SpannedToken.IsFramed`: the text of a token with what surrounds it;
* `SpannedToken.Layout`: whether tokens and the stretches between them make up a text;
* `SpannedToken.IsSlice`: whether a token is the slice of the text at its bytes, on its line.

Main results:

* `SpannedToken.layout_tokensAt`: the tokens of a text and the stretches between them make it up;
* `SpannedToken.Layout.pairwise`: the bytes of later tokens come later;
* `SpannedToken.Layout.isSlice`: every token is a slice of the text;
* `Cursor.tokenize?_spans`: reading a text gives tokens with all of these properties.
-/

namespace ProjectAssembler

/-- All tokens of a text with their bytes, unless a slice of the text fails or the fuel runs out. -/
def Cursor.tokenize? (documentation : Bool) (text : List Char) (fuel : Nat) :
    Option (List SpannedToken) :=
  Cursor.start.tokens? text documentation fuel

namespace SpannedToken

/-! ## How a text is laid out -/

/-- Whether what follows a text begins a new line or is empty. -/
def EndsLine (rest : List Char) : Prop :=
  ∀ c ∈ rest.head?, c = '\n'

/-- Whether a text is an ordinary comment: up to the end of its line, up to the first asterisk and
slash, or up to the end of the text. -/
inductive IsComment : List Char → List Char → Prop where
  | line {body rest : List Char} (hdocumentation : Lexeme.isDocumentationLine body = false)
      (hfeed : '\n' ∉ body) (hrest : EndsLine rest) : IsComment (['/', '/'] ++ body) rest
  | delimited {body rest : List Char} (hbody : ¬ ['*', '/'] <:+: body) :
      IsComment (['/', '*'] ++ body ++ ['*', '/']) rest
  | unclosed {body : List Char} (hbody : ¬ ['*', '/'] <:+: body) : IsComment (['/', '*'] ++ body) []

/-- Whether a text is a documentation line: three slashes, not followed by a fourth, up to the end
of the line. -/
structure IsDocumentation (line rest : List Char) : Prop where
  exists_body : ∃ body, line = ['/', '/', '/'] ++ body ∧ body.head? ≠ some '/'
  not_mem : '\n' ∉ line
  endsLine : EndsLine rest

/-- Whether no token takes anything of a stretch of text: white space, an ordinary comment, or a
documentation line that is not wanted. -/
inductive IsSkipped (documentation : Bool) : List Char → List Char → Prop where
  | blank {part rest : List Char} (hpart : part ≠ []) (hblank : ∀ c ∈ part, Text.isBlank c = true) :
      IsSkipped documentation part rest
  | comment {part rest : List Char} (hcomment : IsComment part rest) :
      IsSkipped documentation part rest
  | line {part rest : List Char} (hunwanted : documentation = false)
      (hline : IsDocumentation part rest) : IsSkipped documentation part rest

/-- Whether a text is that of a token of a kind between what precedes and what follows it: the edges
of a documentation line, an at sign, or nothing. -/
inductive IsFramed (documentation : Bool) :
    TokenKind → List Char → List Char → List Char → List Char → Prop where
  | documentation {spaces text returns rest : List Char} (hwanted : documentation = true)
      (hspaces : spaces = [] ∨ spaces = [' ']) (hreturns : ∀ c ∈ returns, c = '\r')
      (hline : IsDocumentation (['/', '/', '/'] ++ spaces ++ text ++ returns) rest) :
      IsFramed documentation .documentation (['/', '/', '/'] ++ spaces) text returns rest
  | verbatim {name rest : List Char} (hname : name ≠ []) :
      IsFramed documentation .identifier ['@'] name [] rest
  | bare {kind : TokenKind} {c : Char} {text rest : List Char} (hkind : kind ≠ .documentation)
      (hblank : Text.isBlank c = false) (hline : ¬ ['/', '/'] <+: c :: text ++ rest)
      (hdelimited : ¬ ['/', '*'] <+: c :: text ++ rest) :
      IsFramed documentation kind [] (c :: text) [] rest

/-- The token of a text that some other text precedes from a place on. -/
def framed (cursor : Cursor) (kind : TokenKind) (lead text : List Char) : SpannedToken :=
  ⟨⟨kind, String.ofList text, cursor.line⟩, (cursor.past lead).position,
    (cursor.past (lead ++ text)).position⟩

/-- Whether the rest of a text, which begins at a place, is made up of given tokens and of stretches
that are skipped. -/
inductive Layout (documentation : Bool) :
    Cursor → List Char → List SpannedToken → Prop where
  | nil (cursor : Cursor) : Layout documentation cursor [] []
  | skip {cursor : Cursor} {part rest : List Char} {tokens : List SpannedToken}
      (hpart : IsSkipped documentation part rest)
      (hrest : Layout documentation (cursor.past part) rest tokens) :
      Layout documentation cursor (part ++ rest) tokens
  | token {cursor : Cursor} {kind : TokenKind} {lead text trail rest : List Char}
      {tokens : List SpannedToken} (hframed : IsFramed documentation kind lead text trail rest)
      (hrest : Layout documentation (cursor.past (lead ++ text ++ trail)) rest tokens) :
      Layout documentation cursor (lead ++ text ++ trail ++ rest)
        (framed cursor kind lead text :: tokens)

/-- Whether a token is the slice of a text at its bytes, and carries the number of the line on which
that slice begins. -/
def IsSlice (source : List Char) (token : SpannedToken) : Prop :=
  ∃ before after, source = before ++ token.token.text.toList ++ after ∧
    token.start = Text.utf8Length before ∧
    token.stop = Text.utf8Length (before ++ token.token.text.toList) ∧
    token.token.line = 1 + before.count '\n'

/-! ## The layout of lexemes -/

/-- An asterisk and a slash begin a text or stand behind its first character. -/
theorem not_infix_cons {c : Char} {body : List Char} (hnone : ¬ ['*', '/'] <:+: body)
    (hopen : c = '*' → body.head? ≠ some '/') : ¬ ['*', '/'] <:+: c :: body := by
  intro hinfix
  rcases List.infix_cons_iff.1 hinfix with hbegins | hinside
  · obtain ⟨after, hafter⟩ := hbegins
    obtain ⟨rfl, rfl⟩ := List.cons.inj hafter
    exact hopen rfl rfl
  · exact hnone hinside

/-- The body of a delimited comment, which its first asterisk and slash or the text ends. -/
theorem exists_body_afterComment (text : List Char) :
    ∃ body, ¬ ['*', '/'] <:+: body ∧
      (text = body ++ ['*', '/'] ++ Lexeme.afterComment text ∨
        text = body ∧ Lexeme.afterComment text = []) := by
  fun_induction Lexeme.afterComment text with
  | case1 => exact ⟨[], by decide, .inr ⟨rfl, rfl⟩⟩
  | case2 text => exact ⟨[], by decide, .inl rfl⟩
  | case3 c text hopen ih =>
      obtain ⟨body, hnone, hend⟩ := ih
      refine ⟨c :: body, not_infix_cons hnone ?_, ?_⟩
      · rintro rfl hslash
        obtain ⟨body', rfl⟩ := List.head?_eq_some_iff.1 hslash
        rcases hend with hclosed | ⟨rfl, -⟩
        · exact hopen _ rfl hclosed
        · exact hopen _ rfl rfl
      · rcases hend with hclosed | ⟨rfl, hrest⟩
        · exact .inl (congrArg (c :: ·) hclosed)
        · exact .inr ⟨rfl, hrest⟩

/-- A delimited comment reaches up to its first asterisk and slash or up to the end of the text. -/
theorem isComment_of_delimited {part text : List Char}
    (hpart : part ++ Lexeme.afterComment text = ['/', '*'] ++ text) :
    IsComment part (Lexeme.afterComment text) := by
  obtain ⟨body, hnone, hclosed | ⟨rfl, hopen⟩⟩ := exists_body_afterComment text
  · have hwhole := calc
      part ++ Lexeme.afterComment text = ['/', '*'] ++ text := hpart
      _ = ['/', '*'] ++ (body ++ ['*', '/'] ++ Lexeme.afterComment text) := congrArg _ hclosed
      _ = ['/', '*'] ++ body ++ ['*', '/'] ++ Lexeme.afterComment text := by
        simp only [List.append_assoc]
    obtain rfl := List.append_cancel_right hwhole
    exact .delimited hnone
  · rw [hopen, List.append_nil] at hpart
    rw [hopen, hpart]
    exact .unclosed hnone

/-- Behind a line stands a line feed or nothing. -/
theorem endsLine_dropWhile (text : List Char) : EndsLine (text.dropWhile (· != '\n')) := by
  intro c hc
  have hnot := List.head?_dropWhile_not (· != '\n') text
  rw [Option.mem_def.1 hc] at hnot
  simpa using hnot

/-- A line holds no line feed. -/
theorem not_mem_takeWhile (text : List Char) : '\n' ∉ text.takeWhile (· != '\n') := by
  intro hmem
  have hkept := List.mem_takeWhile_imp hmem
  contradiction

theorem isComment_of_line {text : List Char} (hline : Lexeme.isDocumentationLine text = false) :
    IsComment ('/' :: '/' :: text.takeWhile (· != '\n')) (text.dropWhile (· != '\n')) :=
  .line ((Lexeme.isDocumentationLine_takeWhile text).trans hline) (not_mem_takeWhile text)
    (endsLine_dropWhile text)

theorem isDocumentation_of_line {text : List Char}
    (hline : Lexeme.isDocumentationLine text = true) :
    IsDocumentation ('/' :: '/' :: text.takeWhile (· != '\n')) (text.dropWhile (· != '\n')) := by
  rw [← Lexeme.isDocumentationLine_takeWhile] at hline
  obtain ⟨body, hbody, hfourth⟩ := Lexeme.exists_of_isDocumentationLine hline
  refine ⟨⟨body, by rw [hbody]; rfl, hfourth⟩, ?_, endsLine_dropWhile text⟩
  intro hmem
  rcases List.mem_cons.1 hmem with heq | hmem
  · contradiction
  · rcases List.mem_cons.1 hmem with heq | hmem
    · contradiction
    · exact not_mem_takeWhile text hmem

/-- Dropping characters at the end of a text leaves these characters behind. -/
theorem exists_dropEnd_append (c : Char) (text : List Char) :
    ∃ dropped, text = Text.dropEnd (· == c) text ++ dropped ∧ ∀ d ∈ dropped, d = c := by
  refine ⟨(text.reverse.takeWhile (· == c)).reverse, ?_, fun d hd => ?_⟩
  · rw [Text.dropEnd, ← List.reverse_append, List.takeWhile_append_dropWhile, List.reverse_reverse]
  · simpa using List.mem_takeWhile_imp (List.mem_reverse.1 hd)

/-- The text of a documentation line stands between its edges. -/
theorem isFramed_documentation {body rest : List Char}
    (hline : IsDocumentation ('/' :: '/' :: '/' :: body) rest) :
    ∃ trail, '/' :: '/' :: '/' :: body =
        (Lexeme.documentation ('/' :: '/' :: '/' :: body)).lead ++
          Token.documentationText ('/' :: '/' :: '/' :: body) ++ trail ∧
      IsFramed true .documentation (Lexeme.documentation ('/' :: '/' :: '/' :: body)).lead
        (Token.documentationText ('/' :: '/' :: '/' :: body)) trail rest := by
  obtain ⟨returns, hbody, hreturns⟩ := exists_dropEnd_append '\r' body
  rw [Cursor.documentationText_eq, Lexeme.lead]
  simp only [List.drop_succ_cons, List.drop_zero, List.take_succ_cons, List.take_zero]
  generalize Text.dropEnd (· == '\r') body = trimmed at hbody
  subst hbody
  obtain ⟨spaces, text, rfl, hspaces, hlead, htext⟩ : ∃ spaces text, trimmed = spaces ++ text ∧
      (spaces = [] ∨ spaces = [' ']) ∧
      (if trimmed.head? = some ' ' then [' '] else []) = spaces ∧
      trimmed.drop (if trimmed.head? = some ' ' then 1 else 0) = text := by
    by_cases hspace : trimmed.head? = some ' '
    · obtain ⟨text, rfl⟩ := List.head?_eq_some_iff.1 hspace
      exact ⟨[' '], text, rfl, .inr rfl, rfl, rfl⟩
    · exact ⟨[], trimmed, rfl, .inl rfl, if_neg hspace, by rw [if_neg hspace, List.drop_zero]⟩
  have hparts : '/' :: '/' :: '/' :: (spaces ++ text ++ returns) =
      ['/', '/', '/'] ++ spaces ++ text ++ returns := by
    simp only [List.cons_append, List.nil_append]
  rw [hlead, htext]
  rw [hparts] at hline
  exact ⟨returns, hparts, .documentation rfl hspaces hreturns hline⟩

/-! ## What lexemes give -/

/-- Whether a lexeme is skipped or gives a token with a frame. -/
def IsLaidOut (documentation : Bool) (lexeme : Lexeme) (rest : List Char) : Prop :=
  (∀ line, lexeme.token? documentation line = none) ∧
      IsSkipped documentation lexeme.source rest ∨
    ∃ kind text trail,
      (∀ line, lexeme.token? documentation line = some ⟨kind, String.ofList text, line⟩) ∧
        lexeme.source = lexeme.lead ++ text ++ trail ∧
        IsFramed documentation kind lexeme.lead text trail rest

/-- A lexeme in front of a text that is laid out. -/
theorem layout_of_isLaidOut {documentation : Bool} {cursor : Cursor} {lexeme : Lexeme}
    {rest : List Char} {tokens : List SpannedToken} (hlexeme : IsLaidOut documentation lexeme rest)
    (hrest : Layout documentation (cursor.past lexeme.source) rest tokens) :
    Layout documentation cursor (lexeme.source ++ rest)
      ((lexeme.spanned? documentation cursor).toList ++ tokens) := by
  rcases hlexeme with ⟨hnone, hskipped⟩ | ⟨kind, text, trail, hsome, hsource, hframed⟩
  · rw [Lexeme.spanned?, hnone]
    exact .skip hskipped hrest
  · have hspanned : lexeme.spanned? documentation cursor =
        some (framed cursor kind lexeme.lead text) := by
      rw [Lexeme.spanned?, hsome, Option.map_some, String.toList_ofList]
      rfl
    rw [hsource] at hrest ⊢
    rw [hspanned]
    exact .token hframed hrest

theorem isLaidOut_readComment? {documentation : Bool} {c : Char} {text rest : List Char}
    {lexeme : Lexeme} (h : Lexeme.readComment? c text = some (lexeme, rest)) :
    IsLaidOut documentation lexeme rest := by
  have hsource := (Lexeme.source_readComment? h).1
  unfold Lexeme.readComment? at h
  split at h
  · rename_i text
    obtain ⟨rfl, rfl⟩ := Prod.mk.inj (Option.some.inj h)
    cases hline : Lexeme.isDocumentationLine text with
    | false => exact .inl ⟨fun _ => rfl, .comment (isComment_of_line hline)⟩
    | true =>
        have hdocumentation := isDocumentation_of_line hline
        cases documentation with
        | false => exact .inl ⟨fun _ => rfl, .line rfl hdocumentation⟩
        | true =>
            obtain ⟨body, rfl, -⟩ := Lexeme.exists_of_isDocumentationLine hline
            obtain ⟨trail, hparts, hframed⟩ := isFramed_documentation hdocumentation
            exact .inr ⟨_, _, trail, fun _ => rfl, hparts, hframed⟩
  · obtain ⟨rfl, rfl⟩ := Prod.mk.inj (Option.some.inj h)
    exact .inl ⟨fun _ => rfl, .comment (isComment_of_delimited hsource)⟩
  · contradiction

/-- Where neither white space nor a comment begins, what is read is a token without edges. -/
theorem isFramed_bare {documentation : Bool} {kind : TokenKind} {c : Char}
    {text part rest : List Char} (hkind : kind ≠ .documentation) (hblank : Text.isBlank c = false)
    (hcomment : Lexeme.readComment? c text = none) (hpart : part ++ rest = c :: text)
    (hrest : rest <:+ text) : IsFramed documentation kind [] part [] rest := by
  obtain ⟨hline, hdelimited⟩ := Cursor.not_isPrefixOf_of_readComment?_none hcomment
  cases part with
  | nil =>
      have hlength := hrest.length_le
      rw [List.nil_append] at hpart
      rw [hpart, List.length_cons] at hlength
      omega
  | cons d part =>
      obtain ⟨rfl, htext⟩ := List.cons.inj hpart
      refine .bare hkind hblank ?_ ?_
      · rw [hpart, ← List.isPrefixOf_iff_prefix, hline]
        exact Bool.false_ne_true
      · rw [hpart, ← List.isPrefixOf_iff_prefix, hdelimited]
        exact Bool.false_ne_true

theorem isLaidOut_readLiteral? {documentation : Bool} {c : Char} {text rest : List Char}
    {lexeme : Lexeme} (hblank : Text.isBlank c = false)
    (hcomment : Lexeme.readComment? c text = none)
    (h : Lexeme.readLiteral? c text = some (lexeme, rest)) :
    IsLaidOut documentation lexeme rest := by
  obtain ⟨hsource, hrest⟩ := Lexeme.source_readLiteral? h
  unfold Lexeme.readLiteral? at h
  obtain ⟨_, -, heq⟩ := Option.map_eq_some_iff.1 h
  obtain ⟨rfl, rfl⟩ := Prod.mk.inj heq
  exact .inr ⟨.literal, _, [], fun _ => rfl, (List.append_nil _).symm,
    isFramed_bare nofun hblank hcomment hsource hrest⟩

theorem isLaidOut_readWord {documentation : Bool} {c : Char} {text : List Char}
    (hblank : Text.isBlank c = false) (hcomment : Lexeme.readComment? c text = none) :
    IsLaidOut documentation (Lexeme.readWord c text).1 (Lexeme.readWord c text).2 := by
  obtain ⟨hsource, hrest⟩ := Lexeme.source_readWord c text
  unfold Lexeme.readWord at hsource hrest ⊢
  split
  · rename_i hverbatim
    refine .inr ⟨.identifier, _, [], fun _ => rfl, (List.append_nil _).symm, .verbatim ?_⟩
    cases text with
    | nil => exact absurd hverbatim.2 Bool.false_ne_true
    | cons d text =>
        have hpart := Lexeme.isIdentifierPart_of_isIdentifierStart hverbatim.2
        rw [List.takeWhile_cons_of_pos hpart]
        exact List.cons_ne_nil _ _
  · rename_i hverbatim
    rw [if_neg hverbatim] at hsource hrest
    split
    · rename_i hstart
      rw [if_pos hstart] at hsource hrest
      exact .inr ⟨.identifier, _, [], fun _ => rfl, (List.append_nil _).symm,
        isFramed_bare nofun hblank hcomment hsource hrest⟩
    · rename_i hstart
      rw [if_neg hstart] at hsource hrest
      exact .inr ⟨.punctuation c, _, [], fun _ => rfl, (List.append_nil _).symm,
        isFramed_bare nofun hblank hcomment hsource hrest⟩

/-- Every lexeme of a text is skipped or gives a token with a frame. -/
theorem isLaidOut_read (documentation : Bool) (c : Char) (text : List Char) :
    IsLaidOut documentation (Lexeme.read c text).1 (Lexeme.read c text).2 := by
  unfold Lexeme.read
  cases hblank : Text.isBlank c with
  | true =>
      refine .inl ⟨fun _ => rfl, .blank (List.cons_ne_nil _ _) fun d hd => ?_⟩
      rcases List.mem_cons.1 hd with rfl | hd
      · exact hblank
      · exact List.mem_takeWhile_imp hd
  | false =>
      rw [if_neg Bool.false_ne_true]
      cases hcomment : Lexeme.readComment? c text with
      | some result => exact isLaidOut_readComment? hcomment
      | none =>
          cases hliteral : Lexeme.readLiteral? c text with
          | some result => exact isLaidOut_readLiteral? hblank hcomment hliteral
          | none => exact isLaidOut_readWord hblank hcomment

/-- The tokens of a text and the stretches between them make up the text. -/
theorem layout_tokensAt (documentation : Bool) (cursor : Cursor) (rest : List Char) :
    Layout documentation cursor rest (Cursor.tokensAt documentation cursor rest) := by
  induction hlength : rest.length using Nat.strong_induction_on generalizing cursor rest with
  | _ n ih =>
      subst hlength
      cases rest with
      | nil =>
          rw [Cursor.tokensAt_nil]
          exact .nil cursor
      | cons c text =>
          obtain ⟨hsource, hrest⟩ := Lexeme.source_read c text
          have hlaidOut := layout_of_isLaidOut (isLaidOut_read documentation c text)
            (ih _ (Nat.lt_succ_of_le hrest.length_le)
              (cursor.past (Lexeme.read c text).1.source) _ rfl)
          rw [hsource] at hlaidOut
          rw [Cursor.tokensAt_cons]
          exact hlaidOut

/-! ## Spans -/

variable {documentation : Bool} {source : List Char} {cursor : Cursor} {rest : List Char}
  {tokens : List SpannedToken}

theorem position_le_past (cursor : Cursor) (part : List Char) :
    cursor.position ≤ (cursor.past part).position :=
  Nat.le_add_right _ _

/-- A place behind some text is not the place before it. -/
theorem position_lt_past (cursor : Cursor) {part : List Char} (hpart : part ≠ []) :
    cursor.position < (cursor.past part).position := by
  obtain ⟨c, part, rfl⟩ := List.exists_cons_of_ne_nil hpart
  have hsize := c.utf8Size_pos
  rw [Cursor.past, Text.utf8Length_cons]
  exact Nat.lt_add_of_pos_right (Nat.add_pos_left hsize _)

theorem IsSkipped.ne_nil {part : List Char} (h : IsSkipped documentation part rest) :
    part ≠ [] := by
  cases h with
  | blank hpart _ => exact hpart
  | comment hcomment => cases hcomment <;> exact List.cons_ne_nil _ _
  | line _ hline =>
      obtain ⟨body, rfl, -⟩ := hline.exists_body
      exact List.cons_ne_nil _ _

/-- A token begins on the line on which its frame does. -/
theorem IsFramed.not_mem {kind : TokenKind} {lead text trail : List Char}
    (h : IsFramed documentation kind lead text trail rest) : '\n' ∉ lead := by
  cases h with
  | documentation _ hspaces _ _ => rcases hspaces with rfl | rfl <;> decide
  | verbatim _ => decide
  | bare _ _ _ _ => exact List.not_mem_nil

/-- A token with its frame does not begin with a line feed. -/
theorem IsFramed.not_endsLine {kind : TokenKind} {lead text trail : List Char}
    (h : IsFramed documentation kind lead text trail rest) :
    ¬ EndsLine (lead ++ text ++ trail ++ rest) := by
  intro hends
  cases h with
  | documentation _ _ _ _ => exact absurd (hends '/' rfl) (by decide)
  | verbatim _ => exact absurd (hends '@' rfl) (by decide)
  | bare _ hblank _ _ =>
      rw [hends _ rfl] at hblank
      contradiction

/-- The text of a token is empty only on a documentation line. -/
theorem IsFramed.ne_nil_or_endsLine {kind : TokenKind} {lead text trail : List Char}
    (h : IsFramed documentation kind lead text trail rest) : text ≠ [] ∨ EndsLine rest := by
  cases h with
  | documentation _ _ _ hline => exact .inr hline.endsLine
  | verbatim hname => exact .inl hname
  | bare _ _ _ _ => exact .inl (List.cons_ne_nil _ _)

/-- No token begins before the text that it is a token of. -/
theorem Layout.le_start (h : Layout documentation cursor rest tokens) :
    ∀ token ∈ tokens, cursor.position ≤ token.start := by
  induction h with
  | nil cursor => exact fun _ hmem => absurd hmem List.not_mem_nil
  | skip _ _ ih => exact fun token hmem => (position_le_past _ _).trans (ih token hmem)
  | token _ _ ih =>
      refine List.forall_mem_cons.2 ⟨position_le_past _ _, fun token hmem => ?_⟩
      exact (position_le_past _ _).trans (ih token hmem)

/-- No token begins where a line ends. -/
theorem Layout.lt_start (h : Layout documentation cursor rest tokens) (hends : EndsLine rest) :
    ∀ token ∈ tokens, cursor.position < token.start := by
  cases h with
  | nil => exact fun _ hmem => absurd hmem List.not_mem_nil
  | skip hpart hrest =>
      exact fun token hmem =>
        (position_lt_past cursor hpart.ne_nil).trans_le (hrest.le_start token hmem)
  | token hframed _ => exact absurd hends hframed.not_endsLine

/-- The bytes of later tokens come later. -/
theorem Layout.pairwise (h : Layout documentation cursor rest tokens) :
    tokens.Pairwise fun first second => first.start < second.start ∧ first.stop ≤ second.start := by
  induction h with
  | nil cursor => exact .nil
  | skip _ _ ih => exact ih
  | @token cursor kind lead text trail rest tokens hframed hrest ih =>
      refine List.pairwise_cons.2 ⟨fun second hsecond => ?_, ih⟩
      have hstart : (cursor.past lead).position ≤ (cursor.past (lead ++ text)).position := by
        rw [Cursor.past_append]
        exact position_le_past _ _
      have hstop : (cursor.past (lead ++ text)).position ≤
          (cursor.past (lead ++ text ++ trail)).position := by
        rw [Cursor.past_append _ (lead ++ text)]
        exact position_le_past _ _
      refine ⟨?_, hstop.trans (hrest.le_start second hsecond)⟩
      rcases hframed.ne_nil_or_endsLine with hne | hends
      · have hstrict : (cursor.past lead).position < (cursor.past (lead ++ text)).position := by
          rw [Cursor.past_append]
          exact position_lt_past _ hne
        exact hstrict.trans_le (hstop.trans (hrest.le_start second hsecond))
      · exact (hstart.trans hstop).trans_lt (hrest.lt_start hends second hsecond)

/-- Every token is a slice of the text. -/
theorem Layout.isSlice (h : Layout documentation cursor rest tokens)
    (hstands : Cursor.Stands source cursor rest) : ∀ token ∈ tokens, IsSlice source token := by
  induction h with
  | nil cursor => exact fun _ hmem => absurd hmem List.not_mem_nil
  | skip _ _ ih => exact ih (hstands.past _)
  | @token cursor kind lead text trail rest tokens hframed hrest ih =>
      refine List.forall_mem_cons.2 ⟨?_, ih (hstands.past _)⟩
      obtain ⟨before, rfl, rfl⟩ := hstands
      refine ⟨before ++ lead, trail ++ rest, ?_, ?_, ?_, ?_⟩
      · simp [framed]
      · simp [framed, Cursor.past, Cursor.start]
      · simp [framed, Cursor.past, Cursor.start, Nat.add_assoc]
      · simp [framed, Cursor.past, Cursor.start, List.count_eq_zero.2 hframed.not_mem]

end SpannedToken

/-- Reading the tokens of a text comes to an end without a slice outside of the text or inside of a
character: fuel for three rounds on each character is enough, and more does not change the outcome.
The tokens are those of the lexemes; their bytes follow each other without overlapping, only white
space, comments and the edges of documentation lines and verbatim identifiers lie between them, and
every token carries the number of its line. -/
theorem Cursor.tokenize?_spans (documentation : Bool) (text : List Char) :
    ∃ tokens,
      (∀ fuel, 3 * text.length + 2 < fuel →
        Cursor.tokenize? documentation text fuel = some tokens) ∧
      tokens.map SpannedToken.token = Token.ofText documentation text ∧
      SpannedToken.Layout documentation Cursor.start text tokens ∧
      (tokens.Pairwise fun first second =>
        first.start < second.start ∧ first.stop ≤ second.start) ∧
      ∀ token ∈ tokens, token.IsSlice text := by
  have hstands := Cursor.Stands.start text
  have hlayout := SpannedToken.layout_tokensAt documentation Cursor.start text
  exact ⟨Cursor.tokensAt documentation Cursor.start text,
    fun fuel hfuel => Cursor.tokens?_eq hstands hfuel,
    SpannedToken.map_token_ofLexemes documentation Cursor.start _, hlayout, hlayout.pairwise,
    hlayout.isSlice hstands⟩

/-- The bytes of a documentation line are those of its text, and those of a verbatim identifier are
those of its name. -/
example : Cursor.tokenize? true "/// a\r\n@b".toList 40 =
    some [⟨⟨.documentation, "a", 1⟩, 4, 5⟩, ⟨⟨.identifier, "b", 2⟩, 8, 9⟩] := by
  decide +kernel

end ProjectAssembler
