import Mathlib.Data.List.TakeWhile
import ProjectAssembler.Proofs.Source.ProgramScan

/-!
# Headers with braces

A header may hold braces inside of parentheses and square brackets: in the arguments of an attribute
or of a base type.

Main definitions:

* `Grammar.Tidy`: tokens that close no brace which they do not open;
* `Grammar.Enclosed`: tokens with braces only inside of other brackets;
* `Grammar.Header`: a type declaration up to its body, with braces inside of brackets;
* `Grammar.TypeMember` with its `declarations`, and with what is `recorded` of them.

Main results:

* `Grammar.exists_group_of_tidy`: a bracket and what it encloses;
* `Grammar.recordedMembers_eq_declarations_iff`: when everything that members declare is recorded;
* `Grammar.balanced_typeMemberTokens`: the brackets of members match.
-/

namespace ProjectAssembler
namespace Grammar

/-! ## Balanced tokens -/

theorem Balanced.append {first second : List Token} (hfirst : Balanced first)
    (hsecond : Balanced second) : Balanced (first ++ second) := by
  induction hfirst with
  | nil => exact hsecond
  | cons hopens hcloses _ ih => exact Balanced.cons hopens hcloses ih
  | @group bracket first last inner rest hopening hinner hclosing _ _ ih =>
      have hgroup := Balanced.group bracket hopening hinner hclosing ih
      rwa [← List.cons_append, ← List.append_assoc] at hgroup

/-- Tokens between brackets. -/
theorem Balanced.enclose (bracket : Bracket) {content : List Token} (h : Balanced content)
    (opening closing : Nat) :
    Balanced (mark bracket.opening opening :: content ++ [mark bracket.closing closing]) :=
  Balanced.group bracket rfl h rfl Balanced.nil

/-- Tokens without brackets are balanced. -/
theorem balanced_of_forall {tokens : List Token}
    (h : ∀ token ∈ tokens, ¬ Opens token ∧ ¬ Closes token) : Balanced tokens := by
  induction tokens with
  | nil => exact Balanced.nil
  | cons token rest ih =>
      obtain ⟨htoken, hrest⟩ := List.forall_mem_cons.1 h
      exact Balanced.cons htoken.1 htoken.2 (ih hrest)

theorem not_bracket_of_identifier {token : Token} (h : token.kind = .identifier) :
    ¬ Opens token ∧ ¬ Closes token := by
  constructor
  · rintro ⟨bracket, hbracket⟩
    rw [h] at hbracket
    cases hbracket
  · rintro ⟨bracket, hbracket⟩
    rw [h] at hbracket
    cases hbracket

theorem not_bracket_of_mark {c : Char} (hopening : ∀ bracket : Bracket, c ≠ bracket.opening)
    (hclosing : ∀ bracket : Bracket, c ≠ bracket.closing) (line : Nat) :
    ¬ Opens (mark c line) ∧ ¬ Closes (mark c line) := by
  constructor
  · rintro ⟨bracket, hbracket⟩
    exact hopening bracket (TokenKind.punctuation.inj hbracket)
  · rintro ⟨bracket, hbracket⟩
    exact hclosing bracket (TokenKind.punctuation.inj hbracket)

/-! ## Tokens that close no brace of others -/

/-- Tokens in which every bracket that they open is closed; they may close others as well, but no
braces. -/
inductive Tidy : List Token → Prop where
  | nil : Tidy []
  | skip {token : Token} {rest : List Token} (hopens : ¬ Opens token)
      (hbrace : token.kind ≠ .punctuation '}') (hrest : Tidy rest) : Tidy (token :: rest)
  | group (bracket : Bracket) {first last : Token} {inner rest : List Token}
      (hfirst : first.kind = .punctuation bracket.opening) (hinner : Balanced inner)
      (hlast : last.kind = .punctuation bracket.closing) (hrest : Tidy rest) :
      Tidy (first :: inner ++ last :: rest)

theorem tidy_append {inner rest : List Token} (hinner : Balanced inner) (hrest : Tidy rest) :
    Tidy (inner ++ rest) := by
  induction hinner generalizing rest with
  | nil => exact hrest
  | @cons token _ hopens hcloses _ ih =>
      have hbrace : token.kind ≠ .punctuation '}' := fun hkind => hcloses ⟨.curly, hkind⟩
      exact Tidy.skip hopens hbrace (ih hrest)
  | @group bracket first last inner rest' hfirst hinner hlast _ _ ih =>
      have hgroup := Tidy.group bracket hfirst hinner hlast (ih hrest)
      rw [List.append_assoc]
      exact hgroup

theorem tidy_of_balanced {tokens : List Token} (h : Balanced tokens) : Tidy tokens := by
  have htidy := tidy_append h Tidy.nil
  rwa [List.append_nil] at htidy

theorem ne_closing_of_tidy {token : Token} {rest : List Token} (h : Tidy (token :: rest)) :
    token.kind ≠ .punctuation '}' := by
  cases h with
  | skip _ hbrace _ => exact hbrace
  | group bracket hfirst _ _ _ =>
      rw [hfirst]
      cases bracket <;> exact nofun

/-- What follows a token that opens no brace closes no brace of others. -/
theorem tidy_of_cons {token : Token} {rest : List Token} (h : Tidy (token :: rest))
    (hbrace : token.kind ≠ .punctuation '{') : Tidy rest := by
  cases h with
  | skip _ _ hrest => exact hrest
  | @group bracket _ last inner rest hfirst hinner hlast hrest =>
      have hopens : ¬ Opens last := DeclarationScan.not_opens_of_closing hlast
      have hclosing : last.kind ≠ .punctuation '}' := by
        rw [hlast]
        rw [hfirst] at hbrace
        cases bracket <;> simp_all [Bracket.opening, Bracket.closing]
      exact tidy_append hinner (Tidy.skip hopens hclosing hrest)

/-- A bracket and what it encloses. -/
theorem exists_group_of_tidy (bracket : Bracket) {first : Token} {tokens : List Token}
    (hfirst : first.kind = .punctuation bracket.opening) (h : Tidy (first :: tokens)) :
    ∃ inner last rest, tokens = inner ++ last :: rest ∧ Balanced inner ∧
      last.kind = .punctuation bracket.closing ∧ Tidy rest := by
  cases h with
  | skip hopens _ _ => exact absurd ⟨bracket, hfirst⟩ hopens
  | group bracket' hfirst' hinner hlast hrest =>
      have hsame : bracket = bracket' := by
        rw [hfirst'] at hfirst
        cases bracket <;> cases bracket' <;> first | rfl | contradiction
      subst hsame
      exact ⟨_, _, _, rfl, hinner, hlast, hrest⟩

/-- Tokens without `namespace`, in which a type keyword stands only directly after a colon or a
comma; `previous` is the kind of the token before them. -/
def Calm (previous : Option TokenKind) : List Token → Prop
  | [] => True
  | token :: rest =>
      token.isIdentifier "namespace" = false ∧
        (isTypeKeyword token = true → isConstraintMark previous = true) ∧
        Calm (some token.kind) rest

instance decidableCalm (previous : Option TokenKind) :
    (tokens : List Token) → Decidable (Calm previous tokens)
  | [] => inferInstanceAs (Decidable True)
  | token :: rest =>
      have := decidableCalm (some token.kind) rest
      inferInstanceAs (Decidable (_ ∧ _ ∧ _))

theorem calm_append {previous : Option TokenKind} {first : List Token} {token : Token}
    {rest : List Token} (h : Calm previous (first ++ token :: rest)) :
    Calm (some token.kind) rest := by
  induction first generalizing previous with
  | nil => exact h.2.2
  | cons _ first ih => exact ih h.2.2

theorem calm_of_append {previous : Option TokenKind} {first rest : List Token}
    (h : Calm previous (first ++ rest)) : Calm previous first := by
  induction first generalizing previous with
  | nil => exact trivial
  | cons _ first ih => exact ⟨h.1, h.2.1, ih h.2.2⟩

/-! ## Headers -/

/-- Tokens whose brackets match and in which braces stand only inside of parentheses and square
brackets. -/
inductive Enclosed : List Token → Prop where
  | nil : Enclosed []
  | cons {token : Token} {rest : List Token} (hopens : ¬ Opens token) (hcloses : ¬ Closes token)
      (hrest : Enclosed rest) : Enclosed (token :: rest)
  | group (bracket : Bracket) (hbracket : bracket ≠ .curly) {first last : Token}
      {inner rest : List Token} (hfirst : first.kind = .punctuation bracket.opening)
      (hinner : Balanced inner) (hlast : last.kind = .punctuation bracket.closing)
      (hrest : Enclosed rest) : Enclosed (first :: inner ++ last :: rest)

theorem Enclosed.balanced {tokens : List Token} (h : Enclosed tokens) : Balanced tokens := by
  induction h with
  | nil => exact Balanced.nil
  | cons hopens hcloses _ ih => exact Balanced.cons hopens hcloses ih
  | group bracket _ hfirst hinner hlast _ ih => exact Balanced.group bracket hfirst hinner hlast ih

/-- Whether a token is an opening brace. -/
def isBrace (token : Token) : Bool :=
  token.isPunctuation '{'

/-- The tokens before the first opening brace. -/
def beforeBrace (tokens : List Token) : List Token :=
  tokens.takeWhile (!isBrace ·)

/-- The tokens from the first opening brace on. -/
def fromBrace (tokens : List Token) : List Token :=
  tokens.dropWhile (!isBrace ·)

/-- A type declaration up to its body: documentation and attributes, modifiers, the keywords of its
kind, its name, and whatever else comes before the body, with braces inside of other brackets. -/
structure Header where
  leads : List Lead
  modifiers : List Word
  keywords : KindWords
  name : Word
  tail : List Token
  modifiers_free : ∀ word ∈ modifiers,
    word.text ≠ "namespace" ∧ TypeKind.ofKeyword? word.text = none
  name_free : isReserved name.text = false
  tail_enclosed : Enclosed tail
  /-- No semicolon stands outside of braces before the first of them. -/
  tail_unended : ∀ token ∈ beforeBrace tail, token.isPunctuation ';' = false
  tail_calm : Calm none (fromBrace tail)

theorem exists_punctuation {token : Token} {c : Char} (h : token.isPunctuation c = true) :
    token.kind = .punctuation c :=
  beq_iff_eq.1 h

/-- Before the first opening brace no brace is closed. -/
theorem not_closing_of_mem_beforeBrace {tokens : List Token} (h : Tidy tokens) :
    ∀ token ∈ beforeBrace tokens, token.isPunctuation '}' = false := by
  induction tokens with
  | nil => exact fun _ hmem => absurd hmem List.not_mem_nil
  | cons token rest ih =>
      unfold beforeBrace
      by_cases hbrace : isBrace token = true
      · rw [List.takeWhile_cons_of_neg (by simp [hbrace])]
        exact fun _ hmem => absurd hmem List.not_mem_nil
      · have hkind : token.kind ≠ .punctuation '{' :=
          fun heq => hbrace (by simp [isBrace, Token.isPunctuation, heq])
        rw [List.takeWhile_cons_of_pos (by simpa using hbrace)]
        refine List.forall_mem_cons.2 ⟨?_, ih (tidy_of_cons h hkind)⟩
        simpa [Token.isPunctuation] using ne_closing_of_tidy h

/-- From the first opening brace on the brackets that are opened are closed. -/
theorem tidy_fromBrace {tokens : List Token} (h : Tidy tokens) : Tidy (fromBrace tokens) := by
  induction tokens with
  | nil => exact h
  | cons token rest ih =>
      unfold fromBrace
      by_cases hbrace : isBrace token = true
      · rwa [List.dropWhile_cons_of_neg (by simp [hbrace])]
      · have hkind : token.kind ≠ .punctuation '{' :=
          fun heq => hbrace (by simp [isBrace, Token.isPunctuation, heq])
        rw [List.dropWhile_cons_of_pos (by simpa using hbrace)]
        exact ih (tidy_of_cons h hkind)

namespace Header

/-- The tokens of a header. -/
def tokens (header : Header) : List Token :=
  header.leads.flatMap Lead.tokens ++ header.modifiers.map Word.token ++
    header.keywords.tokens ++ header.name.token :: header.tail

/-- Whether a header holds a brace. -/
def isBraced (header : Header) : Bool :=
  header.tail.any isBrace

/-- A header up to its first brace. -/
def heading (header : Header) : Heading where
  leads := header.leads
  modifiers := header.modifiers
  keywords := header.keywords
  name := header.name
  tail := beforeBrace header.tail
  modifiers_free := header.modifiers_free
  name_free := header.name_free
  tail_free := by
    intro token hmem
    have hopening : token.isPunctuation '{' = false := by
      simpa [isBrace] using List.mem_takeWhile_imp hmem
    have hclosing := not_closing_of_mem_beforeBrace (tidy_of_balanced header.tail_enclosed.balanced)
      token hmem
    rw [isStop, hopening, hclosing, header.tail_unended token hmem]
    rfl

theorem tokens_eq (header : Header) :
    header.tokens = header.heading.tokens ++ fromBrace header.tail := by
  have htail : header.tail = beforeBrace header.tail ++ fromBrace header.tail :=
    List.takeWhile_append_dropWhile.symm
  rw [tokens, Heading.tokens, List.append_assoc _ (_ :: _), List.cons_append]
  exact congrArg (fun tail => _ ++ header.name.token :: tail) htail

end Header

/-! ## Members -/

/-- A member of a type or of a namespace: one that declares nothing, a type without a body, or a
type with members between braces; the headers of types may hold braces. -/
inductive TypeMember where
  | filler (filler : Filler)
  | bodiless (header : Header) (semicolon : Nat)
  | type (header : Header) (opening : Nat) (members : List TypeMember) (trailing : Run)
      (closing : Nat)

mutual

/-- The tokens of a member. -/
def TypeMember.tokens : TypeMember → List Token
  | .filler filler => filler.tokens
  | .bodiless header semicolon => header.tokens ++ [mark ';' semicolon]
  | .type header opening members trailing closing =>
      header.tokens ++ (mark '{' opening ::
        (typeMemberTokens members ++ trailing.tokens) ++ [mark '}' closing])
termination_by structural member => member

/-- The tokens of members one after the other. -/
def typeMemberTokens : List TypeMember → List Token
  | [] => []
  | member :: rest => member.tokens ++ typeMemberTokens rest
termination_by structural members => members

end

mutual

/-- The types that a member declares at a place, each before those inside of it. -/
def TypeMember.declarations (place : Place) : TypeMember → List Declaration
  | .filler _ => []
  | .bodiless header _ => [header.heading.declaration place]
  | .type header _ members _ _ =>
      header.heading.declaration place ::
        typeMemberDeclarations ⟨place.spaces, place.types ++ [header.name.text]⟩ members
termination_by structural member => member

/-- The types that members declare at a place. -/
def typeMemberDeclarations (place : Place) : List TypeMember → List Declaration
  | [] => []
  | member :: rest => member.declarations place ++ typeMemberDeclarations place rest
termination_by structural members => members

end

mutual

/-- The types of a member that are recorded: those that do not lie in the body of a type with a
brace in its header. -/
def TypeMember.recorded (place : Place) : TypeMember → List Declaration
  | .filler _ => []
  | .bodiless header _ => [header.heading.declaration place]
  | .type header _ members _ _ =>
      header.heading.declaration place ::
        if header.isBraced then []
        else recordedMembers ⟨place.spaces, place.types ++ [header.name.text]⟩ members
termination_by structural member => member

/-- The types of members that are recorded. -/
def recordedMembers (place : Place) : List TypeMember → List Declaration
  | [] => []
  | member :: rest => member.recorded place ++ recordedMembers place rest
termination_by structural members => members

end

/-- Whether a member declares a type. -/
def TypeMember.isType : TypeMember → Bool
  | .filler _ => false
  | .bodiless _ _ => true
  | .type _ _ _ _ _ => true

mutual

/-- Whether no type of a member lies in the body of a type with a brace in its header. -/
def TypeMember.isExposed : TypeMember → Bool
  | .filler _ => true
  | .bodiless _ _ => true
  | .type header _ members _ _ =>
      if header.isBraced then members.all (!·.isType) else areExposed members
termination_by structural member => member

/-- Whether none of members hides a type. -/
def areExposed : List TypeMember → Bool
  | [] => true
  | member :: rest => member.isExposed && areExposed rest
termination_by structural members => members

end

/-- Members declare nothing if and only if none of them is a type. -/
theorem typeMemberDeclarations_eq_nil_iff (place : Place) (members : List TypeMember) :
    typeMemberDeclarations place members = [] ↔ members.all (!·.isType) = true := by
  induction members with
  | nil => exact iff_of_true rfl rfl
  | cons member rest ih =>
      rw [typeMemberDeclarations, List.append_eq_nil_iff, ih, List.all_cons, Bool.and_eq_true]
      refine and_congr_left fun _ => ?_
      cases member with
      | filler filler => exact iff_of_true rfl rfl
      | bodiless header semicolon => exact iff_of_false (List.cons_ne_nil _ _) Bool.false_ne_true
      | type header opening members trailing closing =>
          exact iff_of_false (List.cons_ne_nil _ _) Bool.false_ne_true

mutual

/-- What is recorded of a member is a part of what it declares. -/
theorem recorded_sublist (place : Place) (member : TypeMember) :
    (member.recorded place).Sublist (member.declarations place) := by
  cases member with
  | filler filler => exact List.Sublist.refl _
  | bodiless header semicolon => exact List.Sublist.refl _
  | type header opening members trailing closing =>
      rw [TypeMember.recorded, TypeMember.declarations]
      refine List.Sublist.cons_cons _ ?_
      split
      · exact List.nil_sublist _
      · exact recordedMembers_sublist _ members
termination_by structural member

/-- What is recorded of members is a part of what they declare. -/
theorem recordedMembers_sublist (place : Place) (members : List TypeMember) :
    (recordedMembers place members).Sublist (typeMemberDeclarations place members) := by
  cases members with
  | nil => exact List.Sublist.refl _
  | cons member rest =>
      exact (recorded_sublist place member).append (recordedMembers_sublist place rest)
termination_by structural members

end

/-- Parts of lists that make up the whole lists are the lists. -/
theorem append_eq_append_iff_of_sublist {α : Type} {first first' second second' : List α}
    (hfirst : first.Sublist first') (hsecond : second.Sublist second') :
    first ++ second = first' ++ second' ↔ first = first' ∧ second = second' := by
  refine ⟨fun heq => ?_, fun ⟨heq, heq'⟩ => by rw [heq, heq']⟩
  have hlength := congrArg List.length heq
  have hle := hfirst.length_le
  have hle' := hsecond.length_le
  rw [List.length_append, List.length_append] at hlength
  exact ⟨hfirst.eq_of_length (by omega), hsecond.eq_of_length (by omega)⟩

mutual

/-- All types of a member are recorded if and only if it hides none. -/
theorem recorded_eq_declarations_iff (place : Place) (member : TypeMember) :
    member.recorded place = member.declarations place ↔ member.isExposed = true := by
  cases member with
  | filler filler => exact iff_of_true rfl rfl
  | bodiless header semicolon => exact iff_of_true rfl rfl
  | type header opening members trailing closing =>
      rw [TypeMember.recorded, TypeMember.declarations, TypeMember.isExposed, List.cons_inj_right]
      split
      · rw [eq_comm, typeMemberDeclarations_eq_nil_iff]
      · exact recordedMembers_eq_declarations_iff _ members
termination_by structural member

/-- All types of members are recorded if and only if none of them hides any. -/
theorem recordedMembers_eq_declarations_iff (place : Place) (members : List TypeMember) :
    recordedMembers place members = typeMemberDeclarations place members ↔
      areExposed members = true := by
  cases members with
  | nil => exact iff_of_true rfl rfl
  | cons member rest =>
      rw [recordedMembers, typeMemberDeclarations, areExposed, Bool.and_eq_true,
        append_eq_append_iff_of_sublist (recorded_sublist place member)
          (recordedMembers_sublist place rest)]
      exact and_congr (recorded_eq_declarations_iff place member)
        (recordedMembers_eq_declarations_iff place rest)
termination_by structural members

end

/-! ## The brackets of members -/

theorem balanced_words (words : List Word) : Balanced (words.map Word.token) := by
  refine balanced_of_forall fun token hmem => ?_
  obtain ⟨word, -, rfl⟩ := List.mem_map.1 hmem
  exact not_bracket_of_identifier rfl

theorem balanced_segmentTokens (segments : Segments) : Balanced (segmentTokens segments) := by
  refine balanced_of_forall fun token hmem => ?_
  obtain ⟨⟨joint, word⟩, -, hmem⟩ := List.mem_flatMap.1 hmem
  rcases List.mem_append.1 hmem with hjoint | hword
  · have hplain (c : Char) (line : Nat) (hc : c = '.' ∨ c = ':') :
        ¬ Opens (mark c line) ∧ ¬ Closes (mark c line) := by
      refine not_bracket_of_mark ?_ ?_ line
      all_goals
        intro bracket
        rcases hc with rfl | rfl <;> cases bracket <;> decide
    cases joint with
    | dot line =>
        obtain rfl := List.mem_singleton.1 hjoint
        exact hplain '.' line (Or.inl rfl)
    | colons first second =>
        rcases List.mem_cons.1 hjoint with rfl | hsecond
        · exact hplain ':' first (Or.inr rfl)
        · obtain rfl := List.mem_singleton.1 hsecond
          exact hplain ':' second (Or.inr rfl)
  · obtain rfl := List.mem_singleton.1 hword
    exact not_bracket_of_identifier rfl

theorem Attribute.balanced (own : Attribute) : Balanced own.tokens := by
  obtain ⟨hopens, hcloses⟩ := not_bracket_of_identifier (DeclarationScan.kind_word own.first)
  refine Balanced.cons hopens hcloses ((balanced_segmentTokens own.segments).append ?_)
  cases own.arguments with
  | none => exact Balanced.nil
  | some arguments => exact arguments.balanced.enclose .round arguments.opening arguments.closing

theorem balanced_otherTokens (others : List (Nat × Attribute)) :
    Balanced (Section.otherTokens others) := by
  induction others with
  | nil => exact Balanced.nil
  | cons other others ih =>
      obtain ⟨hopens, hcloses⟩ : ¬ Opens (mark ',' other.1) ∧ ¬ Closes (mark ',' other.1) :=
        not_bracket_of_mark (fun bracket => by cases bracket <;> decide)
          (fun bracket => by cases bracket <;> decide) other.1
      exact Balanced.cons hopens hcloses (other.2.balanced.append ih)

theorem Lead.balanced (lead : Lead) : Balanced lead.tokens := by
  cases lead with
  | documentation text line =>
      refine Balanced.cons ?_ ?_ Balanced.nil
      all_goals
        rintro ⟨bracket, hbracket⟩
        cases hbracket
  | attributes part =>
      exact (part.first.balanced.append (balanced_otherTokens part.others)).enclose .square
        part.opening part.closing

theorem KindWords.balanced (keywords : KindWords) : Balanced keywords.tokens := by
  refine balanced_of_forall fun token hmem => not_bracket_of_identifier ?_
  cases keywords with
  | single kind word hkind =>
      obtain rfl := List.mem_singleton.1 hmem
      rfl
  | recordClass first second =>
      simp only [tokens, List.mem_cons, List.not_mem_nil, or_false] at hmem
      rcases hmem with rfl | rfl <;> rfl
  | recordStruct first second =>
      simp only [tokens, List.mem_cons, List.not_mem_nil, or_false] at hmem
      rcases hmem with rfl | rfl <;> rfl

theorem Header.balanced (header : Header) : Balanced header.tokens := by
  have hleads : Balanced (header.leads.flatMap Lead.tokens) := by
    induction header.leads with
    | nil => exact Balanced.nil
    | cons lead leads ih => exact lead.balanced.append ih
  obtain ⟨hopens, hcloses⟩ := not_bracket_of_identifier (DeclarationScan.kind_word header.name)
  exact ((hleads.append (balanced_words header.modifiers)).append header.keywords.balanced).append
    (Balanced.cons hopens hcloses header.tail_enclosed.balanced)

theorem balanced_semicolon (line : Nat) : Balanced [mark ';' line] := by
  obtain ⟨hopens, hcloses⟩ : ¬ Opens (mark ';' line) ∧ ¬ Closes (mark ';' line) :=
    not_bracket_of_mark (fun bracket => by cases bracket <;> decide)
      (fun bracket => by cases bracket <;> decide) line
  exact Balanced.cons hopens hcloses Balanced.nil

theorem Filler.balanced (filler : Filler) : Balanced filler.tokens := by
  refine filler.run.balanced.append ?_
  cases filler.ending with
  | semicolon line => exact balanced_semicolon line
  | block opening content closing hcontent => exact hcontent.enclose .curly opening closing

mutual

theorem TypeMember.balanced (member : TypeMember) : Balanced member.tokens := by
  cases member with
  | filler filler => exact filler.balanced
  | bodiless header semicolon => exact header.balanced.append (balanced_semicolon semicolon)
  | type header opening members trailing closing =>
      exact header.balanced.append
        (((balanced_typeMemberTokens members).append trailing.balanced).enclose .curly opening
          closing)
termination_by structural member

theorem balanced_typeMemberTokens (members : List TypeMember) :
    Balanced (typeMemberTokens members) := by
  cases members with
  | nil => exact Balanced.nil
  | cons member rest => exact member.balanced.append (balanced_typeMemberTokens rest)
termination_by structural members

end

end Grammar
end ProjectAssembler
