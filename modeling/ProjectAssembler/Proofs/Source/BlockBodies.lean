import ProjectAssembler.Proofs.Source.Runs

/-!
# Bodies of members

Between the braces of a member's body, or of an initialiser, a scan waits for the closing brace and
takes no notice of anything else.  What is recorded around a body therefore does not depend on it,
whatever stands before it and after it.

Main definitions:

* `DeclarationScan.stateAfter`: the state in which tokens leave a scan;
* `DeclarationScan.braceDepth?` and `DeclarationScan.IsBraceBalanced`: the braces that tokens leave
  open, and tokens that leave none.

Main results:

* `DeclarationScan.step_append`: a step that looks at all the tokens there are leaves the scan
  outside of bodies, and any other step does the same when more tokens follow;
* `DeclarationScan.exists_scan_body`: what a scan does with a body and its closing brace;
* `DeclarationScan.ofTokens_exchangedBody`: one body in the place of another changes no declaration.
-/

namespace ProjectAssembler
namespace DeclarationScan

/-- The state in which tokens leave a scan that began in a given state. -/
def stateAfter (state : State) : List Token → State
  | [] => state
  | token :: rest => stateAfter (step state token rest).state (step state token rest).rest
termination_by tokens => tokens.length
decreasing_by exact Nat.lt_succ_of_le (step_isSuffix state token rest).length_le

@[simp]
theorem stateAfter_nil (state : State) : stateAfter state [] = state := by
  rw [stateAfter]

/-! ## How far a step looks -/

/-- Whether tokens contain the bracket that ends an attribute section. -/
def HasSectionEnd (tokens : List Token) : Prop :=
  ∃ token ∈ tokens, token.kind = .punctuation ']'

theorem HasSectionEnd.of_suffix {tokens tokens' : List Token} (h : HasSectionEnd tokens)
    (hsuffix : tokens <:+ tokens') : HasSectionEnd tokens' := by
  obtain ⟨token, hmem, hkind⟩ := h
  exact ⟨token, hsuffix.subset hmem, hkind⟩

/-- Before the end of a section a qualified name does not depend on what follows the end. -/
theorem lastSegment_append {segment : String} {tokens : List Token}
    (h : HasSectionEnd (lastSegment segment tokens).2) (more : List Token) :
    lastSegment segment (tokens ++ more) =
      ((lastSegment segment tokens).1, (lastSegment segment tokens).2 ++ more) := by
  fun_induction lastSegment segment tokens with
  | case1 segment dot next rest hdot ih =>
      rw [List.cons_append, List.cons_append, lastSegment.eq_def]
      simp only [if_pos hdot]
      exact ih h
  | case2 segment dot next hdot third rest hcolons ih =>
      simp only [List.cons_append, lastSegment, if_neg hdot, if_pos hcolons]
      exact ih h
  | case3 segment dot next hdot third rest hcolons =>
      simp only [List.cons_append, lastSegment, if_neg hdot, if_neg hcolons]
  | case4 segment dot next hdot =>
      have hcolons : ¬ (dot.isPunctuation ':' = true ∧ next.isPunctuation ':' = true) := by
        obtain ⟨token, hmem, hkind⟩ := h
        rintro ⟨hfirst, hsecond⟩
        rcases List.mem_cons.1 hmem with rfl | hmem
        · simp [isPunctuation_of_kind hkind] at hfirst
        · rw [List.mem_singleton.1 hmem] at hkind
          simp [isPunctuation_of_kind hkind] at hsecond
      cases more with
      | nil => simp [lastSegment, hdot]
      | cons third rest =>
          have hsplit : ¬ (dot.isPunctuation ':' = true ∧ next.isPunctuation ':' = true ∧
              third.kind = .identifier) := fun hall => hcolons ⟨hall.1, hall.2.1⟩
          simp only [List.cons_append, List.nil_append, lastSegment, if_neg hdot, if_neg hsplit]
  | case5 segment tokens hshort =>
      obtain ⟨token, hmem, hkind⟩ := h
      obtain ⟨only, rfl⟩ : ∃ only, tokens = [only] := by
        rcases tokens with _ | ⟨only, _ | ⟨second, rest⟩⟩
        · exact absurd hmem List.not_mem_nil
        · exact ⟨only, rfl⟩
        · exact absurd rfl (hshort only second rest)
      rw [List.mem_singleton.1 hmem] at hkind
      rcases more with _ | ⟨next, _ | ⟨third, rest⟩⟩
      · rfl
      · simp [lastSegment, isPunctuation_of_kind hkind]
      · simp [lastSegment, isPunctuation_of_kind hkind]

/-- Before the end of a section a target does not depend on what follows the end. -/
theorem isTarget_append {tokens : List Token} (h : HasSectionEnd tokens) (more : List Token) :
    isTarget (tokens ++ more) = isTarget tokens := by
  obtain ⟨token, hmem, hkind⟩ := h
  match tokens, more with
  | [only], [] => rfl
  | [only], next :: rest =>
      rw [List.mem_singleton.1 hmem] at hkind
      simp [isTarget, isPunctuation_of_kind hkind]
  | first :: second :: rest, _ => rfl

/-- A section after which tokens are left has an end. -/
theorem hasSectionEnd_of_attributeNames {depth : Nat} {expected : Bool} {tokens : List Token}
    (h : (attributeNames depth expected tokens).2 ≠ []) : HasSectionEnd tokens := by
  fun_induction attributeNames depth expected tokens with
  | case1 => exact absurd rfl h
  | case4 expected token rest hkind => exact ⟨token, List.mem_cons_self, hkind⟩
  | case7 =>
      rename_i ih
      exact (ih h).of_suffix ((List.tail_suffix _).trans (List.suffix_cons _ _))
  | case8 =>
      rename_i ih
      exact (ih h).of_suffix ((lastSegment_isSuffix _ _).trans (List.suffix_cons _ _))
  | _ =>
      rename_i ih
      exact (ih h).of_suffix (List.suffix_cons _ _)

/-- A section after which tokens are left does not depend on what follows these. -/
theorem attributeNames_append {depth : Nat} {expected : Bool} {tokens : List Token}
    (h : (attributeNames depth expected tokens).2 ≠ []) (more : List Token) :
    attributeNames depth expected (tokens ++ more) =
      ((attributeNames depth expected tokens).1,
        (attributeNames depth expected tokens).2 ++ more) := by
  fun_induction attributeNames depth expected tokens with
  | case1 => exact absurd rfl h
  | case2 depth expected token rest c hkind hopens ih =>
      rw [List.cons_append, attributeNames]
      simp only [hkind, if_pos hopens]
      exact ih h
  | case3 depth expected token rest c hkind hopens hcloses ih =>
      rw [List.cons_append, attributeNames]
      simp only [hkind, if_neg hopens, if_pos hcloses]
      exact ih h
  | case4 expected token rest hkind => rw [List.cons_append, attributeNames_end hkind]
  | case5 depth expected token rest hdepth hkind hopens hcloses ih =>
      rw [List.cons_append, attributeNames]
      simp only [hkind, if_neg hopens, if_neg hcloses, if_true, if_neg hdepth]
      exact ih h
  | case6 depth expected token rest c hkind hopens hcloses hend ih =>
      rw [List.cons_append, attributeNames]
      simp only [hkind, if_neg hopens, if_neg hcloses, if_neg hend]
      exact ih h
  | case7 depth expected token rest hkind hname htarget ih =>
      have hend : HasSectionEnd rest :=
        (hasSectionEnd_of_attributeNames h).of_suffix (List.tail_suffix _)
      have hne : rest ≠ [] := by
        obtain ⟨last, hmem, -⟩ := hend
        exact List.ne_nil_of_mem hmem
      rw [List.cons_append, attributeNames]
      simp only [hkind, if_pos hname, isTarget_append hend, if_pos htarget,
        List.tail_append_of_ne_nil hne]
      exact ih h
  | case8 depth expected token rest hkind hname htarget name following ih =>
      have hend : HasSectionEnd name.2 := hasSectionEnd_of_attributeNames h
      rw [List.cons_append, attributeNames]
      simp only [hkind, if_pos hname, isTarget_append (hend.of_suffix (lastSegment_isSuffix _ _)),
        if_neg htarget, lastSegment_append hend]
      rw [ih h]
  | case9 depth expected token rest hkind hname ih =>
      rw [List.cons_append, attributeNames]
      simp only [hkind, if_neg hname]
      exact ih h
  | case10 depth expected token rest hkind ih =>
      rw [List.cons_append, attributeNames]
      simp only [hkind]
      exact ih h
  | case11 depth expected token rest hkind ih =>
      rw [List.cons_append, attributeNames]
      simp only [hkind]
      exact ih h

/-- How the outcome of a step is related to its outcome when more tokens follow: a step that looks
at all the tokens there are leaves the scan outside of bodies, and any other one does the same. -/
def LooksNoFurther (more : List Token) (atEnd inside : Outcome) : Prop :=
  IsOpen atEnd.state.scopes ∧ atEnd.rest = [] ∨
    inside = ⟨atEnd.completed, atEnd.state, atEnd.rest ++ more⟩

/-- The outcome of a step that completes nothing. -/
def Outcome.ofPair (pair : State × List Token) : Outcome :=
  ⟨[], pair.1, pair.2⟩

theorem enterNamespace_append {state : State} (hopen : IsOpen state.scopes)
    (rest more : List Token) :
    LooksNoFurther more (.ofPair (enterNamespace state rest))
      (.ofPair (enterNamespace state (rest ++ more))) := by
  cases hname : rest.dropWhile isNamespacePart with
  | nil =>
      left
      unfold enterNamespace
      simp only [hname]
      exact ⟨hopen, rfl⟩
  | cons token following =>
      right
      have hne : (rest.takeWhile isNamespacePart).length ≠ rest.length := by
        intro hall
        have hlength := congrArg List.length
          (List.takeWhile_append_dropWhile (p := isNamespacePart) (l := rest))
        rw [List.length_append, hall, hname, List.length_cons] at hlength
        omega
      unfold enterNamespace namespaceName
      simp only [List.dropWhile_append, List.takeWhile_append, hname, if_neg hne, List.isEmpty_cons,
        Bool.false_eq_true, if_false, List.cons_append]
      repeat' split
      all_goals rfl

theorem kindAndName_append {kind : TypeKind} {tokens : List Token}
    (h : (kindAndName kind tokens).2 ≠ []) (more : List Token) :
    kindAndName kind (tokens ++ more) =
      ((kindAndName kind tokens).1, (kindAndName kind tokens).2 ++ more) := by
  cases tokens with
  | nil => cases kind <;> exact absurd rfl h
  | cons next rest =>
      cases kind with
      | recordType =>
          unfold kindAndName
          simp only [List.cons_append]
          repeat' split
          all_goals rfl
      | _ => rfl

theorem enterHeader_append {state : State} (hopen : IsOpen state.scopes) (kind : TypeKind)
    (rest more : List Token) :
    LooksNoFurther more (.ofPair (enterHeader state kind rest))
      (.ofPair (enterHeader state kind (rest ++ more))) := by
  cases hname : (kindAndName kind rest).2 with
  | nil =>
      left
      unfold enterHeader
      simp only [hname]
      exact ⟨hopen, rfl⟩
  | cons name following =>
      right
      have hne : (kindAndName kind rest).2 ≠ [] := by
        rw [hname]
        exact List.cons_ne_nil _ _
      unfold enterHeader
      simp only [kindAndName_append hne, hname, List.cons_append]
      split <;> rfl

theorem stepPunctuation_append {state : State} (hopen : IsOpen state.scopes) (c : Char)
    (rest more : List Token) :
    LooksNoFurther more (stepPunctuation state c rest)
      (stepPunctuation state c (rest ++ more)) := by
  unfold stepPunctuation
  simp only
  split
  · by_cases hend : (attributeNames 0 true rest).2 = []
    · exact Or.inl ⟨hopen, hend⟩
    · right
      simp only [attributeNames_append hend]
  · right
    repeat' split
    all_goals rfl

theorem stepIdentifier_append {state : State} (hopen : IsOpen state.scopes) (text : String)
    (rest more : List Token) :
    LooksNoFurther more (stepIdentifier state text rest)
      (stepIdentifier state text (rest ++ more)) := by
  unfold stepIdentifier
  simp only
  split
  · exact Or.inr rfl
  · split
    · exact enterNamespace_append hopen rest more
    · split
      · split
        · exact Or.inr rfl
        · exact enterHeader_append hopen _ rest more
      · exact Or.inr rfl

/-- How far a step looks. -/
theorem step_append (state : State) (token : Token) (rest more : List Token) :
    LooksNoFurther more (step state token rest) (step state token (rest ++ more)) := by
  by_cases hblock : state.scopes.head? = some .block
  · rw [step_block hblock, step_block hblock]
    exact Or.inr rfl
  · cases hkind : token.kind with
    | punctuation c =>
        rw [step_punctuation hblock hkind, step_punctuation hblock hkind]
        exact stepPunctuation_append hblock c rest more
    | identifier =>
        rw [step_identifier hblock hkind, step_identifier hblock hkind]
        exact stepIdentifier_append hblock token.text rest more
    | literal =>
        rw [step_literal hblock hkind, step_literal hblock hkind]
        exact Or.inr rfl
    | documentation =>
        unfold step
        rw [if_neg hblock, if_neg hblock]
        simp only [hkind]
        split <;> exact Or.inr rfl

/-- Tokens that leave a scan in a body are read alike whatever follows them. -/
theorem exists_scan_append {state : State} {front : List Token}
    (h : (stateAfter state front).scopes.head? = some .block) :
    ∃ declarations, ∀ more,
      scan state (front ++ more) = declarations ++ scan (stateAfter state front) more := by
  fun_induction stateAfter state front with
  | case1 state => exact ⟨[], fun _ => rfl⟩
  | case2 state token rest ih =>
      obtain ⟨declarations, hscan⟩ := ih h
      refine ⟨(step state token rest).completed ++ declarations, fun more => ?_⟩
      rcases step_append state token rest more with ⟨hopen, hrest⟩ | hstep
      · rw [hrest, stateAfter_nil] at h
        exact absurd h hopen
      · rw [List.cons_append, scan_cons, hstep, hscan more, List.append_assoc]

/-! ## Bodies -/

/-- The number of braces open after tokens, of which some are open before; none when a brace is
closed that is not open. -/
def braceDepth? (depth : Nat) : List Token → Option Nat
  | [] => some depth
  | token :: rest =>
      if token.isPunctuation '{' then braceDepth? (depth + 1) rest
      else if token.isPunctuation '}' then
        match depth with
        | 0 => none
        | outer + 1 => braceDepth? outer rest
      else braceDepth? depth rest

/-- Tokens that close every brace that they open, and no other. -/
def IsBraceBalanced (tokens : List Token) : Prop :=
  braceDepth? 0 tokens = some 0

instance (tokens : List Token) : Decidable (IsBraceBalanced tokens) :=
  inferInstanceAs (Decidable (_ = _))

/-- In a body a token is passed over, whatever follows it. -/
theorem scan_cons_of_block {state : State} (h : state.scopes.head? = some .block) (token : Token)
    (rest : List Token) : scan state (token :: rest) = scan (stepBlock state token) rest := by
  rw [scan_cons, step_block h]
  rfl

/-- In a body tokens only open and close braces. -/
theorem exists_scan_braces {scopes : List Scope} (hblock : scopes.head? = some .block)
    {depth depth' : Nat} {tokens : List Token} (h : braceDepth? depth tokens = some depth')
    {state : State} (hstate : state.scopes = List.replicate depth .block ++ scopes) :
    ∃ last, ∀ rest, scan state (tokens ++ rest) =
      scan { state with scopes := List.replicate depth' .block ++ scopes, last } rest := by
  have hbraces (depth : Nat) :
      (List.replicate depth Scope.block ++ scopes).head? = some .block := by
    cases depth with
    | zero => exact hblock
    | succ => rfl
  fun_induction braceDepth? depth tokens generalizing state with
  | case1 depth =>
      obtain rfl := Option.some.inj h
      refine ⟨state.last, fun rest => ?_⟩
      rw [List.nil_append, ← hstate]
  | case2 depth token rest hopening ih =>
      have hinside : (stepBlock state token).scopes =
          List.replicate (depth + 1) .block ++ scopes := by
        simp only [stepBlock, eq_of_beq hopening, hstate, List.replicate_succ, List.cons_append]
      obtain ⟨last, hscan⟩ := ih h hinside
      refine ⟨last, fun more => ?_⟩
      rw [List.cons_append, scan_cons_of_block (hstate ▸ hbraces depth)]
      exact hscan more
  | case3 => contradiction
  | case4 token rest _ hclosing outer ih =>
      have houtside : (stepBlock state token).scopes = List.replicate outer .block ++ scopes := by
        simp only [stepBlock, eq_of_beq hclosing, hstate, List.replicate_succ, List.cons_append,
          List.tail_cons]
      obtain ⟨last, hscan⟩ := ih h houtside
      refine ⟨last, fun more => ?_⟩
      rw [List.cons_append, scan_cons_of_block (hstate ▸ hbraces (outer + 1))]
      exact hscan more
  | case5 depth token rest hopening hclosing ih =>
      have hsame : stepBlock state token = { state with last := some token.kind } :=
        stepBlock_of_ne state (fun hkind => hopening (beq_iff_eq.2 hkind))
          (fun hkind => hclosing (beq_iff_eq.2 hkind))
      have hscopes : (stepBlock state token).scopes = state.scopes := by rw [hsame]
      obtain ⟨last, hscan⟩ := ih h (hscopes.trans hstate)
      refine ⟨last, fun more => ?_⟩
      rw [List.cons_append, scan_cons_of_block (hstate ▸ hbraces depth), hscan more, hsame]

/-- A body with the brace that closes it leaves a scan where it closes the brace at once. -/
theorem scan_body {state : State} (hblock : state.scopes.head? = some .block) {body : List Token}
    (hbody : IsBraceBalanced body) {closing : Token} (hclosing : closing.kind = .punctuation '}')
    (rest : List Token) :
    scan state (body ++ closing :: rest) = scan (stepBlock state closing) rest := by
  have hscopes : state.scopes = List.replicate 0 .block ++ state.scopes := rfl
  obtain ⟨last, hscan⟩ := exists_scan_braces hblock hbody hscopes
  rw [hscan, scan_cons_of_block (by exact hblock), stepBlock, stepBlock, hclosing]
  rfl

end DeclarationScan

namespace Declaration

open DeclarationScan

/-- What is recorded around a body does not depend on the body: in a file whose first tokens leave a
scan in a body, brace-balanced tokens before the brace that closes the body can be exchanged for any
others. -/
theorem ofTokens_exchangedBody {front first second : List Token} {closing : Token}
    (hfront : (stateAfter State.initial front).scopes.head? = some .block)
    (hfirst : IsBraceBalanced first) (hsecond : IsBraceBalanced second)
    (hclosing : closing.kind = .punctuation '}') (suffix : List Token) :
    ofTokens (front ++ first ++ closing :: suffix) =
      ofTokens (front ++ second ++ closing :: suffix) := by
  obtain ⟨declarations, hscan⟩ := exists_scan_append hfront
  unfold ofTokens
  rw [List.append_assoc, List.append_assoc, hscan, hscan, scan_body hfront hfirst hclosing,
    scan_body hfront hsecond hclosing]

/-- The tokens of a file up to the brace that opens a member's body. -/
def bodyFront : List Token :=
  [⟨.identifier, "class", 1⟩, ⟨.identifier, "Shape", 1⟩, Grammar.mark '{' 1,
    ⟨.identifier, "void", 2⟩, ⟨.identifier, "Draw", 2⟩, Grammar.mark '(' 2, Grammar.mark ')' 2,
    Grammar.mark '{' 2]

/-- A body in which a namespace, a type and an attribute section begin. -/
def strayBody : List Token :=
  [⟨.identifier, "namespace", 3⟩, ⟨.identifier, "Game", 3⟩, Grammar.mark '{' 3,
    ⟨.identifier, "class", 3⟩, ⟨.identifier, "Player", 3⟩, Grammar.mark '{' 3, Grammar.mark '}' 3,
    Grammar.mark '}' 3, ⟨.documentation, "A side.", 3⟩, Grammar.mark '[' 3]

/-- A class after the member, and the end of the class around both. -/
def bodyEnd : List Token :=
  [⟨.identifier, "class", 4⟩, ⟨.identifier, "Side", 4⟩, Grammar.mark ';' 4, Grammar.mark '}' 5]

/-- The body of a member is exchanged for an empty one. -/
theorem ofTokens_strayBody :
    (stateAfter State.initial bodyFront).scopes.head? = some .block ∧
      IsBraceBalanced strayBody ∧ IsBraceBalanced [] ∧
      (Grammar.mark '}' 4).kind = .punctuation '}' ∧
      ofTokens (bodyFront ++ strayBody ++ Grammar.mark '}' 4 :: bodyEnd) =
        ofTokens (bodyFront ++ [] ++ Grammar.mark '}' 4 :: bodyEnd) ∧
      ofTokens (bodyFront ++ [] ++ Grammar.mark '}' 4 :: bodyEnd) =
        [⟨.classType, "Shape", none, [], [], none, 1⟩,
          ⟨.classType, "Side", none, ["Shape"], [], none, 4⟩] := by
  have hfront : (stateAfter State.initial bodyFront).scopes.head? = some .block := by
    decide +kernel
  have hstray : IsBraceBalanced strayBody := by decide
  have hempty : IsBraceBalanced [] := rfl
  exact ⟨hfront, hstray, hempty, rfl, ofTokens_exchangedBody hfront hstray hempty rfl bodyEnd,
    by decide +kernel⟩

end Declaration
end ProjectAssembler
