import ProjectAssembler.Proofs.Source.ActiveLines
import ProjectAssembler.Proofs.Source.TokenLines
import ProjectAssembler.Source.Tree

/-!
# The lines of declarations

The scan takes the name and the line of a declaration from one identifier, and it emits declarations
in the order of these identifiers, also where a header is still pending.  Together with the lines of
tokens and of the active text this says where the names of declarations stand in a file.

Main results:

* `DeclarationScan.places_step` and `DeclarationScan.places_scan`: what one step and a whole scan
  take from the identifiers;
* `SourceTree.declarations_on_lines`: names stand on the lines of their declarations, in order.
-/

namespace ProjectAssembler

open scoped List

namespace DeclarationScan

/-! ## Steps -/

/-- The names of declarations with their lines. -/
def placesOf (declarations : List Declaration) : List (String × Nat) :=
  declarations.map fun declaration => (declaration.name, declaration.line)

/-- The identifiers among tokens with their lines. -/
def identifiers (tokens : List Token) : List (String × Nat) :=
  (tokens.filter (·.kind == .identifier)).map fun token => (token.text, token.line)

theorem identifiers_sublist {first second : List Token} (h : first <+ second) :
    identifiers first <+ identifiers second :=
  (h.filter _).map _

theorem identifiers_cons_of_kind {token : Token} (h : token.kind = .identifier)
    (rest : List Token) :
    identifiers (token :: rest) = (token.text, token.line) :: identifiers rest := by
  simp [identifiers, h]

/-- Whether an outcome takes its declarations, in order, from the pending one of a state and from
the identifiers of the tokens read. -/
def Outcome.Draws (outcome : Outcome) (state : State) (tokens : List Token) : Prop :=
  placesOf (outcome.completed ++ outcome.state.pending.toList) ++ identifiers outcome.rest <+
    placesOf state.pending.toList ++ identifiers tokens

/-- A step that declares nothing new completes the pending declaration or leaves it pending. -/
theorem draws_of_pending {outcome : Outcome} {state : State} {tokens : List Token}
    (hpending : outcome.completed ++ outcome.state.pending.toList = state.pending.toList)
    (hrest : outcome.rest <:+ tokens) : outcome.Draws state tokens := by
  unfold Outcome.Draws
  rw [hpending]
  exact (List.Sublist.refl _).append (identifiers_sublist hrest.sublist)

theorem pending_openBrace (state : State) (kind : TokenKind) :
    (openBrace state kind).1 ++ (openBrace state kind).2.pending.toList =
      state.pending.toList := by
  unfold openBrace
  cases hpending : state.pending with
  | none => exact congrArg Option.toList hpending
  | some declaration => rfl

theorem pending_stepPunctuation (state : State) (c : Char) (rest : List Token) :
    (stepPunctuation state c rest).completed ++
        (stepPunctuation state c rest).state.pending.toList =
      state.pending.toList := by
  unfold stepPunctuation
  simp only
  split
  · rfl
  · split
    · exact pending_openBrace state _
    · split
      · rfl
      · split
        · exact List.append_nil _
        · rfl

theorem pending_enterNamespace (state : State) (tokens : List Token) :
    (enterNamespace state tokens).1.pending = state.pending := by
  unfold enterNamespace
  simp only
  split
  · rfl
  · split
    · rfl
    · split <;> rfl

/-- A header takes the name of its declaration from an identifier and drops it with what is before
it. -/
theorem draws_enterHeader {state : State} (hpending : state.pending = none) (kind : TypeKind)
    (tokens : List Token) :
    Outcome.Draws ⟨[], (enterHeader state kind tokens).1, (enterHeader state kind tokens).2⟩ state
      tokens := by
  have hsuffix := kindAndName_isSuffix kind tokens
  unfold enterHeader
  simp only
  split
  · rename_i name rest hname
    rw [hname] at hsuffix
    split
    · rename_i hdeclared
      have hdrawn : identifiers (name :: rest) <+ identifiers tokens :=
        identifiers_sublist hsuffix.sublist
      rw [identifiers_cons_of_kind hdeclared.1] at hdrawn
      unfold Outcome.Draws
      rw [hpending]
      exact hdrawn
    · exact draws_of_pending (by rfl) hsuffix
  · exact draws_of_pending (by rfl) List.nil_suffix

theorem draws_stepIdentifier (state : State) (text : String) (rest : List Token) :
    (stepIdentifier state text rest).Draws state rest := by
  have hplain : Outcome.Draws ⟨[], { state with last := some .identifier }, rest⟩ state rest :=
    draws_of_pending rfl (List.suffix_refl rest)
  unfold stepIdentifier
  simp only
  split
  · exact hplain
  · rename_i hnone
    split
    · exact draws_of_pending (congrArg Option.toList (pending_enterNamespace state rest))
        (enterNamespace_isSuffix state rest)
    · split
      · split
        · exact hplain
        · exact draws_enterHeader (by simpa using hnone) _ rest
      · exact hplain

/-- A step takes its declarations from the pending one and from the identifiers it reads. -/
theorem draws_step (state : State) (token : Token) (rest : List Token) :
    (step state token rest).Draws state (token :: rest) := by
  have hcons {outcome : Outcome} (h : outcome.Draws state rest) :
      outcome.Draws state (token :: rest) :=
    List.Sublist.trans h ((List.Sublist.refl _).append
      (identifiers_sublist (List.sublist_cons_self token rest)))
  unfold step
  split
  · exact draws_of_pending rfl (List.suffix_cons token rest)
  · split
    · split <;> exact draws_of_pending rfl (List.suffix_cons token rest)
    · exact hcons (draws_of_pending (pending_stepPunctuation state _ rest)
        (stepPunctuation_isSuffix state _ rest))
    · exact hcons (draws_stepIdentifier state _ rest)
    · exact draws_of_pending rfl (List.suffix_cons token rest)

/-! ## The whole scan -/

/-- A scan takes its declarations, in order, from the pending one and from the identifiers. -/
theorem places_scan (state : State) (tokens : List Token) :
    placesOf (scan state tokens) <+ placesOf state.pending.toList ++ identifiers tokens := by
  fun_induction scan state tokens with
  | case1 state => exact List.sublist_append_left _ _
  | case2 state token rest ih =>
      have hstep := draws_step state token rest
      unfold Outcome.Draws placesOf at hstep
      rw [List.map_append, List.append_assoc] at hstep
      unfold placesOf at ih ⊢
      rw [List.map_append]
      exact ((List.Sublist.refl _).append ih).trans hstep

/-- The declarations of tokens are taken, in order, from the identifiers among them. -/
theorem places_ofTokens (tokens : List Token) :
    placesOf (Declaration.ofTokens tokens) <+ identifiers tokens :=
  places_scan State.initial tokens

end DeclarationScan

/-- Whether the name of a declaration stands on a line of a text that has the declaration's
number. -/
def Declaration.IsPlaced (text : List Char) (declaration : Declaration) : Prop :=
  1 ≤ declaration.line ∧
    ∃ line, (text.splitOn '\n')[declaration.line - 1]? = some line ∧
      declaration.name.toList <:+: line

namespace SourceTree

open DeclarationScan

/-- A declaration that is found in a text comes from an identifier of its active text. -/
theorem exists_token_of_mem_declarationsOf {options : ParseOptions} {text : List Char}
    {declaration : Declaration} (h : declaration ∈ declarationsOf options text) :
    ∃ token ∈ Token.ofText (options.documentation == .kept) (activeText options.symbols text),
      token.kind = .identifier ∧ token.text = declaration.name ∧
        token.line = declaration.line := by
  have hplace : (declaration.name, declaration.line) ∈
      placesOf (declarationsOf options text) := List.mem_map_of_mem h
  obtain ⟨token, htoken, heq⟩ := List.mem_map.1 ((places_ofTokens _).subset hplace)
  obtain ⟨hmem, hkind⟩ := List.mem_filter.1 htoken
  obtain ⟨hname, hline⟩ := Prod.mk.inj heq
  exact ⟨token, hmem, by simpa using hkind, hname, hline⟩

/-- What stands on a line of the active text stands on the same line of the text. -/
theorem isPlaced_of_activeText {symbols : Symbols} {text : List Char} {declaration : Declaration}
    (h : declaration.IsPlaced (activeText symbols text)) : declaration.IsPlaced text := by
  obtain ⟨hpositive, line, hline, hname⟩ := h
  have hlines := ActiveText.forall₂_activeText symbols text
  obtain ⟨hvisible, hvisible'⟩ := List.getElem?_eq_some_iff.1 hline
  have hwhole : declaration.line - 1 < (text.splitOn '\n').length :=
    hlines.length_eq ▸ hvisible
  refine ⟨hpositive, _, List.getElem?_eq_getElem hwhole, ?_⟩
  have hsuffix := hlines.get hvisible hwhole
  simp only [List.get_eq_getElem, hvisible'] at hsuffix
  exact hname.trans hsuffix.isInfix

/-- Whatever a file contains and whatever options it is read with, the name of each declaration
stands on the line that the declaration names, and the lines of the declarations never decrease. -/
theorem declarations_on_lines (path : Path) (text : String) (options : ParseOptions) :
    (∀ declaration ∈ (parse path text options).declarations,
        declaration.IsPlaced (parse path text options).text.toList) ∧
      (parse path text options).declarations.Pairwise (·.line ≤ ·.line) := by
  constructor
  · intro declaration hmem
    obtain ⟨token, htoken, hkind, hname, hline⟩ := exists_token_of_mem_declarationsOf hmem
    have hplaced := Token.isPlaced_of_mem_ofText htoken hkind
    unfold Token.IsPlaced at hplaced
    rw [hname, hline] at hplaced
    exact isPlaced_of_activeText hplaced
  · have htokens := Token.lines_ofText (options.documentation == .kept)
      (activeText options.symbols (withoutMark text).toList)
    have hidentifiers : (identifiers (Token.ofText (options.documentation == .kept)
        (activeText options.symbols (withoutMark text).toList))).Pairwise (·.2 ≤ ·.2) :=
      List.pairwise_map.2 (htokens.sublist List.filter_sublist)
    have hplaces : (placesOf (parse path text options).declarations).Pairwise (·.2 ≤ ·.2) :=
      hidentifiers.sublist (places_ofTokens _)
    unfold placesOf at hplaces
    rw [List.pairwise_map] at hplaces
    exact hplaces

end SourceTree
end ProjectAssembler
