import ProjectAssembler.Proofs.Text.Lines
import ProjectAssembler.Source.Token

/-!
# The lines of tokens

Every token carries the number of the line that its lexeme begins on.  Line feeds are counted in all
lexemes, also in those that give no token, so the numbers of the tokens never decrease, and the text
of an identifier stands on the line that its token names.

Main definition: `Token.IsPlaced`.

Main results:

* `Token.lines_ofText`: the lines of the tokens of a text never decrease;
* `Token.isPlaced_of_mem_ofText`: identifiers stand on the lines of their tokens.
-/

namespace ProjectAssembler
namespace Lexeme

/-! ## The characters of identifiers -/

theorem isIdentifierPart_of_isIdentifierStart {c : Char} (h : isIdentifierStart c = true) :
    isIdentifierPart c = true := by
  rw [isIdentifierStart, Bool.or_eq_true] at h
  rw [isIdentifierPart, Bool.or_eq_true]
  exact h.imp_left Text.isAlphanumeric_of_isAlphabetic

/-- The numbers of the digits of ASCII. -/
theorem toNat_of_isDigit {c : Char} (h : c.isDigit = true) : 48 ≤ c.toNat ∧ c.toNat ≤ 57 := by
  simpa [Char.isDigit, UInt32.le_iff_toNat_le] using h

theorem isIdentifierPart_of_isDigit {c : Char} (h : c.isDigit = true) :
    isIdentifierPart c = true := by
  have hdigit := toNat_of_isDigit h
  have hascii : c.toNat < 0x80 := by omega
  rw [isIdentifierPart, Text.isAlphanumeric, if_pos hascii, Char.isAlphanum, h, Bool.or_true,
    Bool.true_or]

/-- A number has a fraction where a point and a digit follow. -/
theorem afterNumber_eq (text : List Char) :
    afterNumber text =
      if (text.dropWhile isIdentifierPart).head? = some '.' ∧
          ((text.dropWhile isIdentifierPart).drop 1).head?.any Char.isDigit = true then
        ((text.dropWhile isIdentifierPart).drop 1).dropWhile isIdentifierPart
      else text.dropWhile isIdentifierPart := by
  unfold afterNumber
  generalize text.dropWhile isIdentifierPart = rest
  split
  · rename_i d rest
    cases hdigit : d.isDigit with
    | true => simp [hdigit, isIdentifierPart_of_isDigit hdigit]
    | false => simp [hdigit]
  · rename_i hpoint
    rw [if_neg]
    rintro ⟨hhead, hdigit⟩
    match rest with
    | [] => contradiction
    | [_] => contradiction
    | c :: d :: rest =>
        obtain rfl : c = '.' := Option.some.inj hhead
        exact hpoint d rest rfl

/-! ## The beginning of documentation lines -/

/-- After a third slash a documentation line goes on unless there is a fourth one. -/
theorem isDocumentationLine_slash (text : List Char) :
    isDocumentationLine ('/' :: text) = true ↔ text.head? ≠ some '/' := by
  cases text with
  | nil => simp [isDocumentationLine]
  | cons c text => by_cases hc : c = '/' <;> simp [isDocumentationLine, hc]

theorem isDocumentationLine_of_ne {c : Char} (hc : c ≠ '/') (text : List Char) :
    isDocumentationLine (c :: text) = false := by
  simp [isDocumentationLine, hc]

/-- A documentation line begins with a third slash. -/
theorem exists_of_isDocumentationLine {text : List Char} (h : isDocumentationLine text = true) :
    ∃ body, text = '/' :: body ∧ body.head? ≠ some '/' := by
  cases text with
  | nil => contradiction
  | cons c body =>
      by_cases hc : c = '/'
      · subst hc
        exact ⟨body, rfl, (isDocumentationLine_slash body).1 h⟩
      · rw [isDocumentationLine_of_ne hc] at h
        contradiction

/-- Whether a documentation line begins is seen on its line. -/
theorem isDocumentationLine_takeWhile (text : List Char) :
    isDocumentationLine (text.takeWhile (· != '\n')) = isDocumentationLine text := by
  cases text with
  | nil => rfl
  | cons c text =>
      by_cases hslash : c = '/'
      · subst hslash
        rw [List.takeWhile_cons_of_pos (by decide), Bool.eq_iff_iff, isDocumentationLine_slash,
          isDocumentationLine_slash, List.head?_takeWhile]
        cases text.head? with
        | none => rfl
        | some d => by_cases hfeed : d = '\n' <;> simp [Option.filter, hfeed]
      · by_cases hfeed : c = '\n'
        · subst hfeed
          rfl
        · rw [List.takeWhile_cons_of_pos (by simpa using hfeed), isDocumentationLine_of_ne hslash,
            isDocumentationLine_of_ne hslash]

/-! ## The spelling of identifiers -/

/-- Identifiers consist of the characters that continue identifiers. -/
def IsSpelled : Lexeme → Prop
  | identifier _ name => ∀ c ∈ name, isIdentifierPart c = true
  | _ => True

theorem isSpelled_readWord (c : Char) (text : List Char) : (readWord c text).1.IsSpelled := by
  have htaken : ∀ d ∈ text.takeWhile isIdentifierPart, isIdentifierPart d = true :=
    List.all_eq_true.1 List.all_takeWhile
  unfold readWord
  split
  · exact htaken
  · split
    · rename_i hstart
      intro d hd
      rcases List.mem_cons.1 hd with rfl | hd
      · exact isIdentifierPart_of_isIdentifierStart hstart
      · exact htaken d hd
    · exact trivial

theorem isSpelled_readComment? {c : Char} {text rest : List Char} {lexeme : Lexeme}
    (h : readComment? c text = some (lexeme, rest)) : lexeme.IsSpelled := by
  unfold readComment? at h
  split at h
  · obtain ⟨rfl, -⟩ := Prod.mk.inj (Option.some.inj h)
    split <;> exact trivial
  · obtain ⟨rfl, -⟩ := Prod.mk.inj (Option.some.inj h)
    exact trivial
  · contradiction

theorem isSpelled_readLiteral? {c : Char} {text rest : List Char} {lexeme : Lexeme}
    (h : readLiteral? c text = some (lexeme, rest)) : lexeme.IsSpelled := by
  unfold readLiteral? at h
  obtain ⟨_, -, heq⟩ := Option.map_eq_some_iff.1 h
  obtain ⟨rfl, -⟩ := Prod.mk.inj heq
  exact trivial

theorem isSpelled_read (c : Char) (text : List Char) : (read c text).1.IsSpelled := by
  unfold read
  split
  · exact trivial
  · split
    · exact isSpelled_readComment? ‹_›
    · split
      · exact isSpelled_readLiteral? ‹_›
      · exact isSpelled_readWord c text

/-- Every identifier of a text consists of the characters that continue identifiers. -/
theorem isSpelled_ofText (text : List Char) : ∀ lexeme ∈ ofText text, lexeme.IsSpelled := by
  fun_induction ofText text with
  | case1 => exact fun _ hmem => absurd hmem List.not_mem_nil
  | case2 c text ih => exact List.forall_mem_cons.2 ⟨isSpelled_read c text, ih⟩

/-- An identifier holds no line feed. -/
theorem not_mem_of_isSpelled {verbatim : Bool} {name : List Char}
    (h : (identifier verbatim name).IsSpelled) : '\n' ∉ name := by
  have hfeed : isIdentifierPart '\n' = false := by decide
  intro hmem
  rw [h '\n' hmem] at hfeed
  contradiction

end Lexeme

namespace Token

/-! ## The order of tokens -/

/-- A token carries the line of its lexeme. -/
theorem line_of_token? {documentation : Bool} {line : Nat} {lexeme : Lexeme} {token : Token}
    (h : lexeme.token? documentation line = some token) : token.line = line := by
  cases lexeme with
  | documentation text =>
      cases documentation with
      | true => cases h; rfl
      | false => contradiction
  | blank text => contradiction
  | comment text => contradiction
  | literal text => cases h; rfl
  | identifier verbatim name => cases h; rfl
  | punctuation c => cases h; rfl

/-- No token lies before the line that its lexemes begin on. -/
theorem le_line_of_mem_ofLexemes {documentation : Bool} {line : Nat} {lexemes : List Lexeme}
    {token : Token} (h : token ∈ ofLexemes documentation line lexemes) : line ≤ token.line := by
  induction lexemes generalizing line with
  | nil => exact absurd h List.not_mem_nil
  | cons lexeme rest ih =>
      rcases List.mem_append.1 h with hfirst | hrest
      · exact Nat.le_of_eq (line_of_token? (Option.mem_toList.1 hfirst)).symm
      · exact Nat.le_trans (Nat.le_add_right line _) (ih hrest)

/-- The lines of tokens never decrease. -/
theorem lines_ofLexemes (documentation : Bool) (line : Nat) (lexemes : List Lexeme) :
    (ofLexemes documentation line lexemes).Pairwise (·.line ≤ ·.line) := by
  induction lexemes generalizing line with
  | nil => exact List.Pairwise.nil
  | cons lexeme rest ih =>
      refine List.pairwise_append.2 ⟨?_, ih _, ?_⟩
      · cases lexeme.token? documentation line with
        | none => exact List.Pairwise.nil
        | some token => exact List.pairwise_singleton _ token
      · intro first hfirst second hsecond
        rw [line_of_token? (Option.mem_toList.1 hfirst)]
        exact Nat.le_trans (Nat.le_add_right line _) (le_line_of_mem_ofLexemes hsecond)

/-- The lines of the tokens of a text never decrease. -/
theorem lines_ofText (documentation : Bool) (text : List Char) :
    (ofText documentation text).Pairwise (·.line ≤ ·.line) :=
  lines_ofLexemes documentation 1 (Lexeme.ofText text)

/-! ## The places of identifiers -/

/-- Whether the text of a token stands on a line that has the token's number. -/
def IsPlaced (text : List Char) (token : Token) : Prop :=
  1 ≤ token.line ∧
    ∃ line, (text.splitOn '\n')[token.line - 1]? = some line ∧ token.text.toList <:+: line

/-- A token comes from a lexeme, and its line counts the line feeds before it. -/
theorem exists_of_mem_ofLexemes {documentation : Bool} {line : Nat} {lexemes : List Lexeme}
    {token : Token} (h : token ∈ ofLexemes documentation line lexemes) :
    ∃ before lexeme after, lexemes = before ++ lexeme :: after ∧
      lexeme.token? documentation (line + (before.map Lexeme.source).flatten.count '\n') =
        some token := by
  induction lexemes generalizing line with
  | nil => exact absurd h List.not_mem_nil
  | cons lexeme rest ih =>
      rcases List.mem_append.1 h with hfirst | hrest
      · exact ⟨[], lexeme, rest, rfl, Option.mem_toList.1 hfirst⟩
      · obtain ⟨before, own, after, rfl, htoken⟩ := ih hrest
        refine ⟨lexeme :: before, own, after, rfl, ?_⟩
        rw [List.map_cons, List.flatten_cons, List.count_append, ← Nat.add_assoc]
        exact htoken

/-- Only identifiers give tokens of identifiers. -/
theorem exists_identifier_of_token? {documentation : Bool} {line : Nat} {lexeme : Lexeme}
    {token : Token} (h : lexeme.token? documentation line = some token)
    (hkind : token.kind = .identifier) :
    ∃ verbatim name, lexeme = .identifier verbatim name ∧ token.text.toList = name := by
  cases lexeme with
  | identifier verbatim name =>
      cases h
      exact ⟨verbatim, name, rfl, String.toList_ofList⟩
  | documentation text =>
      cases documentation with
      | true => cases h; contradiction
      | false => contradiction
  | blank text => contradiction
  | comment text => contradiction
  | literal text => cases h; contradiction
  | punctuation c => cases h; contradiction

/-- An identifier is its name after an at sign or nothing. -/
theorem exists_source_identifier (verbatim : Bool) (name : List Char) :
    ∃ sign, (Lexeme.identifier verbatim name).source = sign ++ name ∧ sign.count '\n' = 0 := by
  cases verbatim with
  | true => exact ⟨['@'], rfl, rfl⟩
  | false => exact ⟨[], rfl, rfl⟩

/-- Identifiers stand on the lines of their tokens. -/
theorem isPlaced_of_mem_ofText {documentation : Bool} {text : List Char} {token : Token}
    (h : token ∈ ofText documentation text) (hkind : token.kind = .identifier) :
    token.IsPlaced text := by
  obtain ⟨before, lexeme, after, hlexemes, htoken⟩ := exists_of_mem_ofLexemes h
  obtain ⟨verbatim, name, rfl, hname⟩ := exists_identifier_of_token? htoken hkind
  have hline := line_of_token? htoken
  obtain ⟨sign, hsource, hsign⟩ := exists_source_identifier verbatim name
  have hfeed : '\n' ∉ name := by
    have hmem : Lexeme.identifier verbatim name ∈ Lexeme.ofText text := by
      rw [hlexemes]
      exact List.mem_append_right before List.mem_cons_self
    exact Lexeme.not_mem_of_isSpelled (Lexeme.isSpelled_ofText text _ hmem)
  have htext : text = ((before.map Lexeme.source).flatten ++ sign) ++ name ++
      (after.map Lexeme.source).flatten := by
    rw [← Lexeme.flatten_source_ofText text, hlexemes]
    simp [hsource]
  obtain ⟨line, hplace, hinfix⟩ := Text.exists_line_of_append hfeed
    ((before.map Lexeme.source).flatten ++ sign) (after.map Lexeme.source).flatten
  refine ⟨hline ▸ Nat.le_add_right 1 _, line, ?_, hname ▸ hinfix⟩
  rwa [hline, Nat.add_sub_cancel_left, htext, ← Nat.add_zero (List.count _ _), ← hsign,
    ← List.count_append]

end Token
end ProjectAssembler
