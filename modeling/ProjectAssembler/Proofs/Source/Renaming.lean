import Mathlib.Data.List.Forall2
import ProjectAssembler.Proofs.Source.ProgramScan
import ProjectAssembler.Source.Tree

/-!
# Renamed identifiers

Some identifiers of a file are replaced by another one that means nothing to a scan.  As long as no
identifier changes its role in this way, the scan finds the same declarations, up to the names.

Main definitions:

* `Replacement`: some words and what replaces them;
* `Token.Renamed` and `Declaration.Renamed`: tokens and declarations with words replaced;
* `DeclarationScan.keepsRoles`: whether every identifier keeps its role for a scan.

Main results:

* `DeclarationScan.step_renamed` and `DeclarationScan.scan_renamed`: what one step and a whole scan
  find in renamed tokens;
* `SourceTree.declarations_renamed`: the declarations of renamed texts;
* `Declaration.Renamed.eq_of_not_mentions`: a declaration that does not mention the new word is the
  same as before.
-/

namespace ProjectAssembler

/-! ## Words -/

/-- The replacement of some words by one that has no meaning of its own to a scan. -/
structure Replacement where
  words : List String
  name : String
  name_free : Grammar.isReserved name = false

namespace Replacement

variable {replacement : Replacement}

/-- Whether a word is kept or replaced. -/
def Replaces (replacement : Replacement) (old new : String) : Prop :=
  new = old ∨ old ∈ replacement.words ∧ new = replacement.name

/-- A text that is put together from words of which some are replaced. -/
inductive Respells (replacement : Replacement) : String → String → Prop where
  | word {old new : String} (h : replacement.Replaces old new) : Respells replacement old new
  | append {old new old' new' : String} (hfirst : Respells replacement old new)
      (hsecond : Respells replacement old' new') :
      Respells replacement (old ++ old') (new ++ new')

theorem Respells.refl (replacement : Replacement) (text : String) :
    replacement.Respells text text :=
  Respells.word (Or.inl rfl)

theorem respells_join {old new : List String}
    (h : List.Forall₂ replacement.Replaces old new) :
    replacement.Respells (String.join old) (String.join new) := by
  induction h with
  | nil => exact Respells.refl replacement _
  | cons hword _ ih =>
      rw [String.join_cons, String.join_cons]
      exact Respells.append (Respells.word hword) ih

theorem respells_intercalate (separator : String) {old new : List String}
    (h : List.Forall₂ replacement.Respells old new) :
    replacement.Respells (separator.intercalate old) (separator.intercalate new) := by
  induction h with
  | nil => exact Respells.refl replacement _
  | cons hfirst hrest ih =>
      cases hrest with
      | nil =>
          rw [String.intercalate_singleton, String.intercalate_singleton]
          exact hfirst
      | cons _ _ =>
          rw [String.intercalate_cons_cons, String.intercalate_cons_cons]
          exact Respells.append (Respells.append hfirst (Respells.refl replacement _)) ih

/-- A text that is not the same as before holds the new word. -/
theorem Respells.eq_or_isInfix {old new : String} (h : replacement.Respells old new) :
    new = old ∨ replacement.name.toList <:+: new.toList := by
  induction h with
  | word hword =>
      rcases hword with hsame | ⟨-, rfl⟩
      · exact Or.inl hsame
      · exact Or.inr (List.infix_refl _)
  | append _ _ hfirst hsecond =>
      rw [String.toList_append]
      rcases hfirst with rfl | hfirst
      · rcases hsecond with rfl | hsecond
        · exact Or.inl rfl
        · exact Or.inr (hsecond.trans (List.suffix_append _ _).isInfix)
      · exact Or.inr (hfirst.trans (List.prefix_append _ _).isInfix)

end Replacement

/-! ## Tokens and declarations -/

variable {replacement : Replacement}

/-- A token beside one that may be an identifier with a replaced word. -/
structure Token.Renamed (replacement : Replacement) (old new : Token) : Prop where
  kind : new.kind = old.kind
  line : new.line = old.line
  text : new.text = old.text ∨
    old.kind = .identifier ∧ old.text ∈ replacement.words ∧ new.text = replacement.name

namespace Token.Renamed

variable {old new : Token}

instance (replacement : Replacement) (old new : Token) :
    Decidable (Token.Renamed replacement old new) :=
  decidable_of_iff (new.kind = old.kind ∧ new.line = old.line ∧
      (new.text = old.text ∨
        old.kind = .identifier ∧ old.text ∈ replacement.words ∧ new.text = replacement.name))
    ⟨fun ⟨hkind, hline, htext⟩ => ⟨hkind, hline, htext⟩, fun h => ⟨h.kind, h.line, h.text⟩⟩

theorem replaces (h : Token.Renamed replacement old new) :
    replacement.Replaces old.text new.text :=
  h.text.imp_right And.right

theorem isPunctuation_eq (h : Token.Renamed replacement old new) (c : Char) :
    new.isPunctuation c = old.isPunctuation c := by
  rw [isPunctuation, isPunctuation, h.kind]

end Token.Renamed

/-- A declaration beside one with replaced words. -/
structure Declaration.Renamed (replacement : Replacement) (old new : Declaration) : Prop where
  kind : new.kind = old.kind
  name : replacement.Replaces old.name new.name
  enclosingNamespace :
    Option.Rel replacement.Respells old.enclosingNamespace new.enclosingNamespace
  containing : List.Forall₂ replacement.Replaces old.containing new.containing
  attributes : List.Forall₂ replacement.Replaces old.attributes new.attributes
  documentation : new.documentation = old.documentation
  line : new.line = old.line

/-- Whether a word occurs in the names of a declaration. -/
def Declaration.Mentions (declaration : Declaration) (word : String) : Prop :=
  word = declaration.name ∨ word ∈ declaration.containing ∨ word ∈ declaration.attributes ∨
    ∃ name ∈ declaration.enclosingNamespace, word.toList <:+: name.toList

theorem Replacement.eq_of_forall₂_replaces {old new : List String}
    (h : List.Forall₂ replacement.Replaces old new) (hnew : replacement.name ∉ new) :
    new = old := by
  induction h with
  | nil => rfl
  | cons hword _ ih =>
      rw [List.mem_cons, not_or] at hnew
      rw [ih hnew.2, hword.resolve_right fun hreplaced => hnew.1 hreplaced.2.symm]

/-- A declaration that does not mention the new word is the same as before. -/
theorem Declaration.Renamed.eq_of_not_mentions {old new : Declaration}
    (h : Declaration.Renamed replacement old new) (hnew : ¬ new.Mentions replacement.name) :
    new = old := by
  simp only [Mentions, not_or, not_exists, not_and] at hnew
  obtain ⟨hname, hcontaining, hattributes, hspace⟩ := hnew
  have hsame : new.enclosingNamespace = old.enclosingNamespace := by
    cases hold : old.enclosingNamespace with
    | none =>
        have hrel := h.enclosingNamespace
        rw [hold] at hrel
        generalize new.enclosingNamespace = space at hrel
        cases hrel
        rfl
    | some space =>
        have hrel := h.enclosingNamespace
        rw [hold] at hrel
        generalize new.enclosingNamespace = space' at hrel hspace
        cases hrel with
        | some hspelled =>
            rw [hspelled.eq_or_isInfix.resolve_right (hspace _ rfl)]
  have hown := h.name.resolve_right fun hreplaced => hname hreplaced.2.symm
  have htypes := Replacement.eq_of_forall₂_replaces h.containing hcontaining
  have hsections := Replacement.eq_of_forall₂_replaces h.attributes hattributes
  have hkind := h.kind
  have hdocumentation := h.documentation
  have hline := h.line
  cases old
  cases new
  simp only at hkind hown hsame htypes hsections hdocumentation hline
  rw [hkind, hown, hsame, htypes, hsections, hdocumentation, hline]

theorem Declaration.eq_of_forall₂_renamed {old new : List Declaration}
    (h : List.Forall₂ (Declaration.Renamed replacement) old new)
    (hnew : ∀ declaration ∈ new, ¬ declaration.Mentions replacement.name) : new = old := by
  induction h with
  | nil => rfl
  | cons hfirst _ ih =>
      obtain ⟨hdeclaration, hrest⟩ := List.forall_mem_cons.1 hnew
      rw [ih hrest, hfirst.eq_of_not_mentions hdeclaration]

namespace DeclarationScan

/-! ## States -/

/-- What braces enclose, beside the same with replaced words. -/
inductive Scope.Renamed (replacement : Replacement) : Scope → Scope → Prop where
  | space {old new : String} (h : replacement.Respells old new) :
      Scope.Renamed replacement (.space old) (.space new)
  | type {old new : String} (h : replacement.Replaces old new) :
      Scope.Renamed replacement (.type old) (.type new)
  | block : Scope.Renamed replacement .block .block

/-- What is known between two tokens, beside the same with replaced words. -/
structure State.Renamed (replacement : Replacement) (old new : State) : Prop where
  scopes : List.Forall₂ (Scope.Renamed replacement) old.scopes new.scopes
  fileNamespace : Option.Rel replacement.Respells old.fileNamespace new.fileNamespace
  attributes : List.Forall₂ replacement.Replaces old.attributes new.attributes
  documentation : new.documentation = old.documentation
  last : new.last = old.last
  pending : Option.Rel (Declaration.Renamed replacement) old.pending new.pending

/-- An outcome beside the same with replaced words. -/
structure Outcome.Renamed (replacement : Replacement) (old new : Outcome) : Prop where
  completed : List.Forall₂ (Declaration.Renamed replacement) old.completed new.completed
  state : State.Renamed replacement old.state new.state
  rest : List.Forall₂ (Token.Renamed replacement) old.rest new.rest

theorem State.Renamed.initial (replacement : Replacement) :
    State.Renamed replacement State.initial State.initial :=
  ⟨.nil, .none, .nil, rfl, rfl, .none⟩

variable {state state' : State} {tokens tokens' : List Token}

theorem dotted?_rel {parts parts' : List String}
    (h : List.Forall₂ replacement.Respells parts parts') :
    Option.Rel replacement.Respells (Grammar.dotted? parts) (Grammar.dotted? parts') := by
  cases h with
  | nil => exact .none
  | cons hpart hrest => exact .some (Replacement.respells_intercalate "." (.cons hpart hrest))

/-- The selected names of open braces are beside each other. -/
theorem namesOf_renamed {R : String → String → Prop} {select : Scope → Option String}
    (hselect : ∀ {scope scope'}, Scope.Renamed replacement scope scope' →
      Option.Rel R (select scope) (select scope')) {scopes scopes' : List Scope}
    (h : List.Forall₂ (Scope.Renamed replacement) scopes scopes') :
    List.Forall₂ R (namesOf select scopes) (namesOf select scopes') := by
  induction h with
  | nil => exact .nil
  | @cons scope scope' scopes scopes' hscope _ ih =>
      have hname := hselect hscope
      rw [namesOf, namesOf]
      generalize select scope = name at hname
      generalize select scope' = name' at hname
      cases hname with
      | none => exact ih
      | some hname => exact List.rel_append ih (.cons hname .nil)

theorem forall₂_tail {α β : Type} {R : α → β → Prop} {first : List α} {second : List β}
    (h : List.Forall₂ R first second) : List.Forall₂ R first.tail second.tail := by
  cases h with
  | nil => exact .nil
  | cons _ hrest => exact hrest

theorem forall₂_toList {α β : Type} {R : α → β → Prop} {first : Option α} {second : Option β}
    (h : Option.Rel R first second) : List.Forall₂ R first.toList second.toList := by
  cases h with
  | none => exact .nil
  | some h => exact .cons h .nil

namespace State.Renamed

theorem cleared (h : State.Renamed replacement state state') :
    State.Renamed replacement state.cleared state'.cleared :=
  ⟨h.scopes, h.fileNamespace, .nil, rfl, h.last, h.pending⟩

theorem withLast (h : State.Renamed replacement state state') (last : Option TokenKind) :
    State.Renamed replacement { state with last := last } { state' with last := last } :=
  ⟨h.scopes, h.fileNamespace, h.attributes, h.documentation, rfl, h.pending⟩

theorem tail (h : State.Renamed replacement state state') :
    State.Renamed replacement { state with scopes := state.scopes.tail }
      { state' with scopes := state'.scopes.tail } :=
  ⟨forall₂_tail h.scopes, h.fileNamespace, h.attributes, h.documentation, h.last, h.pending⟩

theorem head?_block (h : State.Renamed replacement state state') :
    state'.scopes.head? = some .block ↔ state.scopes.head? = some .block := by
  have hscopes := h.scopes
  generalize state.scopes = scopes at hscopes
  generalize state'.scopes = scopes' at hscopes
  cases hscopes with
  | nil => rfl
  | cons hscope _ => cases hscope <;> simp

theorem isSome_pending (h : State.Renamed replacement state state') :
    state'.pending.isSome = state.pending.isSome := by
  have hpending := h.pending
  generalize state.pending = pending at hpending
  generalize state'.pending = pending' at hpending
  cases hpending <;> rfl

theorem inConstraint_eq (h : State.Renamed replacement state state') :
    state'.inConstraint = state.inConstraint := by
  rw [inConstraint, inConstraint, h.last]

theorem atMemberStart_eq (h : State.Renamed replacement state state') :
    state'.atMemberStart = state.atMemberStart := by
  rw [atMemberStart, atMemberStart, h.last]

theorem namespace?_rel (h : State.Renamed replacement state state') :
    Option.Rel replacement.Respells state.namespace? state'.namespace? := by
  have hblocks : List.Forall₂ replacement.Respells (namesOf Scope.space? state.scopes)
      (namesOf Scope.space? state'.scopes) := by
    refine namesOf_renamed (fun hscope => ?_) h.scopes
    cases hscope with
    | space hname => exact .some hname
    | type _ => exact .none
    | block => exact .none
  rw [namespace?_eq, namespace?_eq]
  exact dotted?_rel (List.rel_append (forall₂_toList h.fileNamespace) hblocks)

theorem containing_rel (h : State.Renamed replacement state state') :
    List.Forall₂ replacement.Replaces state.containing state'.containing := by
  rw [containing_eq, containing_eq]
  refine namesOf_renamed (fun hscope => ?_) h.scopes
  cases hscope with
  | space _ => exact .none
  | type hname => exact .some hname
  | block => exact .none

/-- The declarations of a type with a replaced name at replaced places. -/
theorem declare (h : State.Renamed replacement state state') (kind : TypeKind) {name name' : Token}
    (hname : Token.Renamed replacement name name') :
    Declaration.Renamed replacement (state.declare kind name) (state'.declare kind name') where
  kind := rfl
  name := hname.replaces
  enclosingNamespace := h.namespace?_rel
  containing := h.containing_rel
  attributes := h.attributes
  documentation := by rw [State.declare, State.declare, h.documentation]
  line := hname.line

end State.Renamed

/-! ## What a step reads ahead -/

theorem lastSegment_renamed {segment segment' : String}
    (hsegment : replacement.Replaces segment segment')
    (h : List.Forall₂ (Token.Renamed replacement) tokens tokens') :
    replacement.Replaces (lastSegment segment tokens).1 (lastSegment segment' tokens').1 ∧
      List.Forall₂ (Token.Renamed replacement) (lastSegment segment tokens).2
        (lastSegment segment' tokens').2 := by
  fun_induction lastSegment segment tokens generalizing segment' tokens' with
  | case1 segment dot next rest hjoint ih =>
      rcases h with _ | ⟨hdot, _ | ⟨hnext, hrest⟩⟩
      rw [lastSegment.eq_def segment']
      simp only [hdot.isPunctuation_eq, hnext.kind]
      rw [if_pos hjoint]
      exact ih hnext.replaces hrest
  | case2 segment dot next hjoint third rest hcolons ih =>
      rcases h with _ | ⟨hdot, _ | ⟨hnext, _ | ⟨hthird, hrest⟩⟩⟩
      rw [lastSegment.eq_def segment']
      simp only [hdot.isPunctuation_eq, hnext.kind, hnext.isPunctuation_eq, hthird.kind]
      rw [if_neg hjoint, if_pos hcolons]
      exact ih hthird.replaces hrest
  | case3 segment dot next hjoint third rest hcolons =>
      rcases h with _ | ⟨hdot, _ | ⟨hnext, _ | ⟨hthird, hrest⟩⟩⟩
      rw [lastSegment.eq_def segment']
      simp only [hdot.isPunctuation_eq, hnext.kind, hnext.isPunctuation_eq, hthird.kind]
      rw [if_neg hjoint, if_neg hcolons]
      exact ⟨hsegment, .cons hdot (.cons hnext (.cons hthird hrest))⟩
  | case4 segment dot next hjoint =>
      rcases h with _ | ⟨hdot, _ | ⟨hnext, _ | _⟩⟩
      rw [lastSegment.eq_def segment']
      simp only [hdot.isPunctuation_eq, hnext.kind]
      rw [if_neg hjoint]
      exact ⟨hsegment, .cons hdot (.cons hnext .nil)⟩
  | case5 segment tokens hshort =>
      match tokens, tokens', h, hshort with
      | [], [], .nil, _ => exact ⟨hsegment, .nil⟩
      | [_], [_], .cons hfirst .nil, _ => exact ⟨hsegment, .cons hfirst .nil⟩
      | _ :: _ :: _, _, _, hshort => exact (hshort _ _ _ rfl).elim

theorem isTarget_renamed (h : List.Forall₂ (Token.Renamed replacement) tokens tokens') :
    isTarget tokens' = isTarget tokens := by
  rcases h with _ | ⟨hfirst, _ | ⟨hsecond, _⟩⟩
  · rfl
  · exact hfirst.isPunctuation_eq ':'
  · simp only [isTarget, hfirst.isPunctuation_eq, hsecond.isPunctuation_eq]

theorem attributeNames_renamed (depth : Nat) (expected : Bool)
    (h : List.Forall₂ (Token.Renamed replacement) tokens tokens') :
    List.Forall₂ replacement.Replaces (attributeNames depth expected tokens).1
        (attributeNames depth expected tokens').1 ∧
      List.Forall₂ (Token.Renamed replacement) (attributeNames depth expected tokens).2
        (attributeNames depth expected tokens').2 := by
  fun_induction attributeNames depth expected tokens generalizing tokens' with
  | case1 =>
      cases h
      rw [attributeNames]
      exact ⟨.nil, .nil⟩
  | case7 depth expected token rest hkind hplace htarget ih =>
      obtain ⟨token', rest', htoken, hrest, rfl⟩ := List.forall₂_cons_left_iff.1 h
      rw [attributeNames, htoken.kind]
      simp only [hkind]
      rw [if_pos hplace, isTarget_renamed hrest, if_pos htarget]
      exact ih (forall₂_tail hrest)
  | case8 depth expected token rest hkind hplace htarget name following =>
      rename_i ih
      obtain ⟨token', rest', htoken, hrest, rfl⟩ := List.forall₂_cons_left_iff.1 h
      obtain ⟨hname, hafter⟩ := lastSegment_renamed htoken.replaces hrest
      obtain ⟨hnames, hlast⟩ := ih hafter
      rw [attributeNames, htoken.kind]
      simp only [hkind]
      rw [if_pos hplace, isTarget_renamed hrest, if_neg htarget]
      exact ⟨.cons hname hnames, hlast⟩
  | case9 depth expected token rest hkind hplace ih =>
      obtain ⟨token', rest', htoken, hrest, rfl⟩ := List.forall₂_cons_left_iff.1 h
      rw [attributeNames, htoken.kind]
      simp only [hkind]
      rw [if_neg hplace]
      exact ih hrest
  | _ =>
      obtain ⟨token', rest', htoken, hrest, rfl⟩ := List.forall₂_cons_left_iff.1 h
      rw [attributeNames, htoken.kind]
      simp_all

/-! ## Headers -/

theorem isNamespacePart_renamed {token token' : Token}
    (h : Token.Renamed replacement token token') :
    isNamespacePart token' = isNamespacePart token := by
  rw [isNamespacePart, isNamespacePart, h.kind]

theorem namespaceName_renamed (h : List.Forall₂ (Token.Renamed replacement) tokens tokens') :
    List.Forall₂ replacement.Replaces ((tokens.takeWhile isNamespacePart).map Token.text)
        ((tokens'.takeWhile isNamespacePart).map Token.text) ∧
      List.Forall₂ (Token.Renamed replacement) (tokens.dropWhile isNamespacePart)
        (tokens'.dropWhile isNamespacePart) := by
  induction h with
  | nil => exact ⟨.nil, .nil⟩
  | @cons token token' rest rest' htoken hrest ih =>
      by_cases hpart : isNamespacePart token = true
      · have hpart' : isNamespacePart token' = true := (isNamespacePart_renamed htoken).trans hpart
        rw [List.takeWhile_cons_of_pos hpart, List.takeWhile_cons_of_pos hpart',
          List.dropWhile_cons_of_pos hpart, List.dropWhile_cons_of_pos hpart']
        exact ⟨.cons htoken.replaces ih.1, ih.2⟩
      · have hpart' : ¬ isNamespacePart token' = true := by
          rwa [isNamespacePart_renamed htoken]
        rw [List.takeWhile_cons_of_neg hpart, List.takeWhile_cons_of_neg hpart',
          List.dropWhile_cons_of_neg hpart, List.dropWhile_cons_of_neg hpart']
        exact ⟨.nil, .cons htoken hrest⟩

theorem enterNamespace_renamed (hstate : State.Renamed replacement state state')
    (h : List.Forall₂ (Token.Renamed replacement) tokens tokens') :
    State.Renamed replacement (enterNamespace state tokens).1 (enterNamespace state' tokens').1 ∧
      List.Forall₂ (Token.Renamed replacement) (enterNamespace state tokens).2
        (enterNamespace state' tokens').2 := by
  obtain ⟨hwords, hafter⟩ := namespaceName_renamed h
  have hname : replacement.Respells (namespaceName tokens) (namespaceName tokens') :=
    Replacement.respells_join hwords
  have hcleared := hstate.cleared
  unfold enterNamespace
  generalize tokens.dropWhile isNamespacePart = after at hafter
  generalize tokens'.dropWhile isNamespacePart = after' at hafter
  cases hafter with
  | nil => exact ⟨hcleared.withLast none, .nil⟩
  | @cons token token' rest rest' htoken hrest =>
      simp only [htoken.isPunctuation_eq, htoken.kind]
      split
      · exact ⟨⟨hcleared.scopes, .some hname, .nil, rfl, rfl, hcleared.pending⟩, hrest⟩
      · split
        · exact ⟨⟨.cons (.space hname) hcleared.scopes, hcleared.fileNamespace, .nil, rfl, rfl,
            hcleared.pending⟩, hrest⟩
        · exact ⟨hcleared.withLast _, hrest⟩

/-- Whether a token names a type after a type keyword. -/
def isName (token : Token) : Bool :=
  token.kind == .identifier && !notNames.contains token.text

/-- What a type keyword and the tokens after it introduce: a kind, the number of the tokens from the
name on, and whether a name stands there. -/
def headerShape (kind : TypeKind) (tokens : List Token) : TypeKind × Nat × Bool :=
  ((kindAndName kind tokens).1, (kindAndName kind tokens).2.length,
    (kindAndName kind tokens).2.head?.any isName)

theorem isName_iff (token : Token) :
    isName token = true ↔ token.kind = .identifier ∧ token.text ∉ notNames := by
  simp [isName]

/-- Tokens of the same number that are ends of tokens beside each other are beside each other. -/
theorem forall₂_of_isSuffix {α β : Type} {R : α → β → Prop} {first : List α} {second : List β}
    (h : List.Forall₂ R first second) {rest : List α} {rest' : List β} (hrest : rest <:+ first)
    (hrest' : rest' <:+ second) (hlength : rest.length = rest'.length) :
    List.Forall₂ R rest rest' := by
  rw [List.suffix_iff_eq_drop] at hrest hrest'
  rw [hrest, hrest', hlength, h.length_eq]
  exact List.forall₂_drop _ h

/-- Tokens that do not begin with a name are no part of a header. -/
theorem kindAndName_of_not_name (kind : TypeKind) (h : tokens.head?.any isName = false) :
    (kindAndName kind tokens).2 = tokens := by
  have hword (text : String) (htext : text ∉ notNames) {next : Token} {rest : List Token}
      (hnext : (next :: rest).head?.any isName = false) : ¬ next.isIdentifier text = true := by
    intro hidentifier
    rw [Token.isIdentifier, Bool.and_eq_true, beq_iff_eq, beq_iff_eq] at hidentifier
    have hname : isName next = true :=
      (isName_iff next).2 ⟨hidentifier.1, by rw [hidentifier.2]; exact htext⟩
    rw [List.head?_cons, Option.any_some, hname] at hnext
    contradiction
  unfold kindAndName
  split
  · rw [if_neg (hword "struct" (by decide) h), if_neg (hword "class" (by decide) h)]
  · rfl

/-- Where no name follows, a type keyword is passed over. -/
theorem enterHeader_of_not_name (state : State) (kind : TypeKind)
    (h : tokens.head?.any isName = false) :
    enterHeader state kind tokens = ({ state with last := some .identifier }, tokens) := by
  unfold enterHeader
  dsimp only
  rw [kindAndName_of_not_name kind h]
  cases tokens with
  | nil => rfl
  | cons name rest =>
      rw [List.head?_cons, Option.any_some, Bool.eq_false_iff, Ne, isName_iff] at h
      exact if_neg h

theorem enterHeader_renamed (hstate : State.Renamed replacement state state')
    (h : List.Forall₂ (Token.Renamed replacement) tokens tokens') {kind : TypeKind}
    (hshape : headerShape kind tokens = headerShape kind tokens') :
    State.Renamed replacement (enterHeader state kind tokens).1
        (enterHeader state' kind tokens').1 ∧
      List.Forall₂ (Token.Renamed replacement) (enterHeader state kind tokens).2
        (enterHeader state' kind tokens').2 := by
  have hafter : List.Forall₂ (Token.Renamed replacement) (kindAndName kind tokens).2
      (kindAndName kind tokens').2 :=
    forall₂_of_isSuffix h (kindAndName_isSuffix kind tokens) (kindAndName_isSuffix kind tokens')
      (congrArg (·.2.1) hshape)
  have hkind : (kindAndName kind tokens).1 = (kindAndName kind tokens').1 :=
    congrArg (·.1) hshape
  have hname : (kindAndName kind tokens).2.head?.any isName =
      (kindAndName kind tokens').2.head?.any isName := congrArg (·.2.2) hshape
  unfold enterHeader
  dsimp only
  rw [← hkind]
  generalize (kindAndName kind tokens).1 = own
  generalize (kindAndName kind tokens).2 = after at hafter hname
  generalize (kindAndName kind tokens').2 = after' at hafter hname
  cases hafter with
  | nil => exact ⟨hstate.withLast _, .nil⟩
  | @cons name name' rest rest' htoken hrest =>
      rw [List.head?_cons, List.head?_cons, Option.any_some, Option.any_some, Bool.eq_iff_iff,
        isName_iff, isName_iff] at hname
      dsimp only
      by_cases hdeclared : name.kind = .identifier ∧ name.text ∉ notNames
      · rw [if_pos hdeclared, if_pos (hname.1 hdeclared)]
        have hcleared := hstate.cleared
        exact ⟨⟨hcleared.scopes, hcleared.fileNamespace, .nil, rfl, rfl,
          .some (hstate.declare own htoken)⟩, hrest⟩
      · rw [if_neg hdeclared, if_neg fun hnew => hdeclared (hname.2 hnew)]
        exact ⟨hstate.withLast _, .cons htoken hrest⟩

/-! ## Roles -/

/-- Whether an identifier outside of members' bodies keeps its role when it and the tokens after it
are replaced by others: the keyword of a namespace stays one; the keyword of a type introduces the
same, or it is replaced where no name follows, so that it introduced nothing. -/
def keepsRole (state : State) (token token' : Token) (rest rest' : List Token) : Bool :=
  if token.kind = .identifier ∧ state.pending = none then
    if token.text = "namespace" then token'.text == "namespace"
    else
      match TypeKind.ofKeyword? token.text with
      | none => true
      | some kind =>
          state.inConstraint ||
            if token'.text = token.text then headerShape kind rest == headerShape kind rest'
            else !rest.head?.any isName
  else true

/-- Whether all identifiers that a scan reads keep their roles when tokens are replaced by others.
The scans of both run side by side. -/
def keepsRoles (state state' : State) : List Token → List Token → Bool
  | token :: rest, token' :: rest' =>
      (state.scopes.head? == some .block || keepsRole state token token' rest rest') &&
        keepsRoles (step state token rest).state (step state' token' rest').state
          (step state token rest).rest (step state' token' rest').rest
  | _, _ => true
termination_by tokens => tokens.length
decreasing_by exact Nat.lt_succ_of_le (step_isSuffix state token rest).length_le

/-! ## Steps -/

theorem openBrace_renamed (h : State.Renamed replacement state state') (kind : TokenKind) :
    List.Forall₂ (Declaration.Renamed replacement) (openBrace state kind).1
        (openBrace state' kind).1 ∧
      State.Renamed replacement (openBrace state kind).2 (openBrace state' kind).2 := by
  obtain ⟨scopes, fileNamespace, attributes, documentation, last, pending⟩ := state
  obtain ⟨scopes', fileNamespace', attributes', documentation', last', pending'⟩ := state'
  obtain ⟨hscopes, hspace, -, -, -, hpending⟩ := h
  dsimp only at hpending
  cases hpending with
  | none => exact ⟨.nil, .cons .block hscopes, hspace, .nil, rfl, rfl, .none⟩
  | some hdeclaration =>
      exact ⟨.cons hdeclaration .nil, .cons (.type hdeclaration.name) hscopes, hspace, .nil, rfl,
        rfl, .none⟩

theorem stepPunctuation_renamed (hstate : State.Renamed replacement state state') (c : Char)
    (h : List.Forall₂ (Token.Renamed replacement) tokens tokens') :
    Outcome.Renamed replacement (stepPunctuation state c tokens)
      (stepPunctuation state' c tokens') := by
  have hnone : state'.pending = none ↔ state.pending = none := by
    rw [← Option.isNone_iff_eq_none, ← Option.isNone_iff_eq_none, ← Option.not_isSome,
      ← Option.not_isSome, hstate.isSome_pending]
  unfold stepPunctuation
  simp only [hnone, hstate.atMemberStart_eq]
  split
  · obtain ⟨hnames, hrest⟩ := attributeNames_renamed 0 true h
    exact ⟨.nil, ⟨hstate.scopes, hstate.fileNamespace, List.rel_append hstate.attributes hnames,
      hstate.documentation, rfl, hstate.pending⟩, hrest⟩
  · split
    · obtain ⟨hcompleted, hopened⟩ := openBrace_renamed hstate (.punctuation c)
      exact ⟨hcompleted, hopened, h⟩
    · split
      · exact ⟨.nil, hstate.cleared.tail.withLast _, h⟩
      · split
        · have hcleared := hstate.cleared
          exact ⟨forall₂_toList hstate.pending, ⟨hcleared.scopes, hcleared.fileNamespace, .nil, rfl,
            rfl, .none⟩, h⟩
        · exact ⟨.nil, hstate.withLast _, h⟩

/-- The word that replaces others introduces nothing. -/
theorem stepIdentifier_name (state : State) (rest : List Token) :
    stepIdentifier state replacement.name rest =
      ⟨[], { state with last := some .identifier }, rest⟩ := by
  have hfree := replacement.name_free
  rw [Grammar.isReserved, Bool.or_eq_false_iff, Bool.or_eq_false_iff, beq_eq_false_iff_ne,
    Option.isSome_eq_false_iff, Option.isNone_iff_eq_none] at hfree
  obtain ⟨⟨hspace, hkeyword⟩, -⟩ := hfree
  exact stepIdentifier_plain hspace (fun hsome => by rw [hkeyword] at hsome; contradiction) rest

theorem stepIdentifier_renamed (hstate : State.Renamed replacement state state')
    {token token' : Token} (htoken : Token.Renamed replacement token token')
    (h : List.Forall₂ (Token.Renamed replacement) tokens tokens')
    (hidentifier : token.kind = .identifier)
    (hrole : keepsRole state token token' tokens tokens' = true) :
    Outcome.Renamed replacement (stepIdentifier state token.text tokens)
      (stepIdentifier state' token'.text tokens') := by
  have hplain : Outcome.Renamed replacement
      ⟨[], { state with last := some .identifier }, tokens⟩
      ⟨[], { state' with last := some .identifier }, tokens'⟩ :=
    ⟨.nil, hstate.withLast _, h⟩
  unfold keepsRole at hrole
  by_cases hpending : state.pending = none
  · rw [if_pos ⟨hidentifier, hpending⟩] at hrole
    by_cases hsame : token'.text = token.text
    · have hnone : ¬ state.pending.isSome = true := by simp [hpending]
      rw [hsame]
      unfold stepIdentifier
      simp only [hstate.isSome_pending, hstate.inConstraint_eq]
      rw [if_neg hnone, if_neg hnone]
      by_cases hspace : token.text = "namespace"
      · rw [if_pos hspace, if_pos hspace]
        obtain ⟨hentered, hrest⟩ := enterNamespace_renamed hstate h
        exact ⟨.nil, hentered, hrest⟩
      · rw [if_neg hspace] at hrole
        rw [if_neg hspace, if_neg hspace]
        cases hkeyword : TypeKind.ofKeyword? token.text with
        | none => exact hplain
        | some kind =>
            simp only [hkeyword, hsame, if_true, Bool.or_eq_true, beq_iff_eq] at hrole
            dsimp only
            by_cases hconstraint : state.inConstraint = true
            · rw [if_pos hconstraint, if_pos hconstraint]
              exact hplain
            · rw [if_neg hconstraint, if_neg hconstraint]
              obtain ⟨hentered, hrest⟩ :=
                enterHeader_renamed hstate h (hrole.resolve_left hconstraint)
              exact ⟨.nil, hentered, hrest⟩
    · -- The replaced identifier introduced nothing, and nothing is introduced in its place.
      have hnew : token'.text = replacement.name := (htoken.text.resolve_left hsame).2.2
      rw [hnew, stepIdentifier_name]
      by_cases hspace : token.text = "namespace"
      · rw [if_pos hspace, beq_iff_eq, ← hspace] at hrole
        exact absurd hrole hsame
      · rw [if_neg hspace] at hrole
        cases hkeyword : TypeKind.ofKeyword? token.text with
        | none =>
            rw [stepIdentifier_plain hspace fun hsome => by rw [hkeyword] at hsome; contradiction]
            exact hplain
        | some kind =>
            simp only [hkeyword, hsame, if_false, Bool.or_eq_true, Bool.not_eq_true'] at hrole
            by_cases hconstraint : state.inConstraint = true
            · rw [stepIdentifier_plain hspace fun _ => hconstraint]
              exact hplain
            · have hheader := enterHeader_of_not_name state kind (hrole.resolve_left hconstraint)
              rw [stepIdentifier_keyword hpending hkeyword (Bool.eq_false_iff.2 hconstraint),
                hheader]
              exact hplain
  · have hsome : state.pending.isSome = true := Option.isSome_iff_ne_none.2 hpending
    unfold stepIdentifier
    rw [if_pos hsome, if_pos (hstate.isSome_pending.trans hsome)]
    exact hplain

theorem stepBlock_renamed (hstate : State.Renamed replacement state state') {token token' : Token}
    (htoken : Token.Renamed replacement token token') :
    State.Renamed replacement (stepBlock state token) (stepBlock state' token') := by
  unfold stepBlock
  rw [htoken.kind]
  dsimp only
  split
  · exact ⟨.cons .block hstate.scopes, hstate.fileNamespace, hstate.attributes,
      hstate.documentation, rfl, hstate.pending⟩
  · exact hstate.tail.withLast _
  · exact hstate.withLast _

/-- What one token does is the same up to the replaced words, if it keeps its role. -/
theorem step_renamed (hstate : State.Renamed replacement state state') {token token' : Token}
    (htoken : Token.Renamed replacement token token')
    (h : List.Forall₂ (Token.Renamed replacement) tokens tokens')
    (hrole : state.scopes.head? = some .block ∨
      keepsRole state token token' tokens tokens' = true) :
    Outcome.Renamed replacement (step state token tokens) (step state' token' tokens') := by
  by_cases hblock : state.scopes.head? = some .block
  · rw [step_block hblock, step_block (hstate.head?_block.2 hblock)]
    exact ⟨.nil, stepBlock_renamed hstate htoken, h⟩
  · have hopen' : IsOpen state'.scopes := fun hblock' => hblock (hstate.head?_block.1 hblock')
    cases hkind : token.kind with
    | identifier =>
        rw [step_identifier hblock hkind, step_identifier hopen' (htoken.kind.trans hkind)]
        exact stepIdentifier_renamed hstate htoken h hkind (hrole.resolve_left hblock)
    | punctuation c =>
        rw [step_punctuation hblock hkind, step_punctuation hopen' (htoken.kind.trans hkind)]
        exact stepPunctuation_renamed hstate c h
    | literal =>
        rw [step_literal hblock hkind, step_literal hopen' (htoken.kind.trans hkind)]
        exact ⟨.nil, hstate.withLast _, h⟩
    | documentation =>
        have htext : token'.text = token.text := htoken.text.resolve_right fun hreplaced => by
          rw [hkind] at hreplaced
          cases hreplaced.1
        have hnone : state'.pending.isNone = state.pending.isNone := by
          rw [← Option.not_isSome, ← Option.not_isSome, hstate.isSome_pending]
        unfold step
        rw [if_neg hblock, if_neg hopen']
        simp only [hkind, htoken.kind, htext, hnone, hstate.documentation]
        split
        · exact ⟨.nil, ⟨hstate.scopes, hstate.fileNamespace, hstate.attributes, rfl, hstate.last,
            hstate.pending⟩, h⟩
        · exact ⟨.nil, hstate, h⟩

/-- The declarations that a scan finds are the same up to the replaced words, if all identifiers
keep their roles. -/
theorem scan_renamed (hstate : State.Renamed replacement state state')
    (h : List.Forall₂ (Token.Renamed replacement) tokens tokens')
    (hroles : keepsRoles state state' tokens tokens' = true) :
    List.Forall₂ (Declaration.Renamed replacement) (scan state tokens) (scan state' tokens') := by
  fun_induction scan state tokens generalizing state' tokens' with
  | case1 state =>
      cases h
      rw [scan_nil]
      exact forall₂_toList hstate.pending
  | case2 state token rest ih =>
      obtain ⟨token', rest', htoken, hrest, rfl⟩ := List.forall₂_cons_left_iff.1 h
      rw [keepsRoles, Bool.and_eq_true, Bool.or_eq_true, beq_iff_eq] at hroles
      obtain ⟨hcompleted, hafter, hleft⟩ := step_renamed hstate htoken hrest hroles.1
      rw [scan_cons]
      exact List.rel_append hcompleted (ih hafter hleft hroles.2)

end DeclarationScan

namespace SourceTree

open DeclarationScan

/-! ## Texts -/

/-- The tokens in the active regions of a file's text. -/
def tokensOf (options : ParseOptions) (text : String) : List Token :=
  Token.ofText (options.documentation == .kept)
    (activeText options.symbols (withoutMark text).toList)

/-- A text beside one in which identifiers have been replaced without a change of their roles. -/
structure Renamed (replacement : Replacement) (options : ParseOptions) (old new : String) :
    Prop where
  tokens : List.Forall₂ (Token.Renamed replacement) (tokensOf options old) (tokensOf options new)
  roles : keepsRoles State.initial State.initial (tokensOf options old) (tokensOf options new) =
    true

/-- Texts beside each other declare the same types up to the replaced words. -/
theorem declarations_renamed (path : Path) {options : ParseOptions} {old new : String}
    (h : Renamed replacement options old new) :
    List.Forall₂ (Declaration.Renamed replacement) (parse path old options).declarations
      (parse path new options).declarations :=
  scan_renamed (State.Renamed.initial replacement) h.tokens h.roles

end SourceTree
end ProjectAssembler
