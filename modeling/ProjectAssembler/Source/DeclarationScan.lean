import ProjectAssembler.Source.Declaration

/-!
# Finding the type declarations of a file

One pass over the tokens of a file records its type declarations.  Between two tokens the scan
knows the braces that are open, the attributes and documentation collected for the next
declaration, and the header, if any, whose body has not begun yet.

Main definitions:

* `DeclarationScan.State`: what is known between two tokens;
* `DeclarationScan.step`: the effect of a token, with the declarations that it completes;
* `Declaration.ofTokens`: the declarations of a file.

Main results: `DeclarationScan.step_isSuffix` says that a step only drops tokens, and the lemmas
`DeclarationScan.step_block` and following say what a step does inside of a member's body.
-/

namespace ProjectAssembler
namespace DeclarationScan

/-! ## State -/

/-- What a pair of braces encloses. -/
inductive Scope where
  | space (name : String)
  | type (name : String)
  /-- A member's body, an initialiser or anything else. -/
  | block
deriving DecidableEq, Repr

/-- What is known between two tokens. -/
structure State where
  /-- The open braces, innermost first. -/
  scopes : List Scope
  /-- The namespace of the whole file. -/
  fileNamespace : Option String
  /-- The attributes of the next declaration. -/
  attributes : List String
  /-- The documentation lines of the next declaration. -/
  documentation : List String
  /-- The kind of the token before. -/
  last : Option TokenKind
  /-- A declaration whose header has been read up to its name and whose body has not begun. -/
  pending : Option Declaration
deriving DecidableEq, Repr

/-- The state at the beginning of a file. -/
def State.initial : State :=
  ⟨[], none, [], [], none, none⟩

/-- The state without anything collected for the next declaration. -/
def State.cleared (state : State) : State :=
  { state with attributes := [], documentation := [] }

/-- Whether a member may begin after the token before. -/
def State.atMemberStart (state : State) : Bool :=
  match state.last with
  | none => true
  | some (.punctuation c) => c == ';' || c == '{' || c == '}' || c == ']'
  | some _ => false

/-- Whether a type keyword after the token before is a constraint and no declaration. -/
def State.inConstraint (state : State) : Bool :=
  state.last == some (.punctuation ':') || state.last == some (.punctuation ',')

/-- The namespace of the current place. -/
def State.namespace? (state : State) : Option String :=
  let blocks := state.scopes.reverse.filterMap fun scope =>
    match scope with
    | .space name => some name
    | _ => none
  match state.fileNamespace.toList ++ blocks with
  | [] => none
  | parts => some (".".intercalate parts)

/-- The types around the current place, outermost first. -/
def State.containing (state : State) : List String :=
  state.scopes.reverse.filterMap fun scope =>
    match scope with
    | .type name => some name
    | _ => none

/-! ## Attribute sections -/

/-- The last segment of a qualified name of which the first segment is given, and the tokens that
follow the name.  Segments are joined by a dot or by two colons. -/
def lastSegment (segment : String) : List Token → String × List Token
  | dot :: next :: rest =>
      if dot.isPunctuation '.' = true ∧ next.kind = .identifier then lastSegment next.text rest
      else
        match rest with
        | third :: rest' =>
            if dot.isPunctuation ':' = true ∧ next.isPunctuation ':' = true ∧
                third.kind = .identifier then lastSegment third.text rest'
            else (segment, dot :: next :: rest)
        | [] => (segment, dot :: next :: rest)
  | rest => (segment, rest)

theorem lastSegment_isSuffix (segment : String) (tokens : List Token) :
    (lastSegment segment tokens).2 <:+ tokens := by
  fun_induction lastSegment segment tokens with
  | case1 segment dot next rest h ih =>
      exact ih.trans ((List.suffix_cons _ _).trans (List.suffix_cons _ _))
  | case2 segment dot next third rest' h₁ h₂ ih =>
      exact ih.trans ((List.suffix_cons _ _).trans
        ((List.suffix_cons _ _).trans (List.suffix_cons _ _)))
  | case3 => exact List.suffix_refl _
  | case4 => exact List.suffix_refl _
  | case5 => exact List.suffix_refl _

/-- Whether the tokens after an identifier make it the target of an attribute section: one colon and
no second one. -/
def isTarget : List Token → Bool
  | first :: second :: _ => first.isPunctuation ':' && !second.isPunctuation ':'
  | [first] => first.isPunctuation ':'
  | [] => false

/-- Whether a mark opens a group inside of an attribute section. -/
def opensGroup (c : Char) : Bool :=
  c == '(' || c == '[' || c == '{'

/-- Whether a mark closes a group that is not a section. -/
def closesGroup (c : Char) : Bool :=
  c == ')' || c == '}'

/-- The attribute names of a section whose opening bracket has been read, and the tokens that follow
its closing bracket.  `depth` counts the brackets open inside of the section; a name is taken where
one is expected. -/
def attributeNames (depth : Nat) (expected : Bool) : List Token → List String × List Token
  | [] => ([], [])
  | token :: rest =>
      match token.kind with
      | .punctuation c =>
          if opensGroup c then attributeNames (depth + 1) expected rest
          else if closesGroup c then attributeNames (depth - 1) expected rest
          else if c = ']' then
            if depth = 0 then ([], rest) else attributeNames (depth - 1) expected rest
          else attributeNames depth (expected || (c == ',' && depth == 0)) rest
      | .identifier =>
          if depth = 0 ∧ expected = true then
            if isTarget rest then attributeNames depth expected rest.tail
            else
              let name := lastSegment token.text rest
              let following := attributeNames depth false name.2
              (name.1 :: following.1, following.2)
          else attributeNames depth expected rest
      | .literal | .documentation => attributeNames depth expected rest
termination_by tokens => tokens.length
decreasing_by
  all_goals simp only [List.length_cons]
  all_goals first
    | omega
    | exact Nat.lt_succ_of_le (List.tail_suffix _).length_le
    | exact Nat.lt_succ_of_le (lastSegment_isSuffix _ _).length_le

theorem attributeNames_isSuffix (depth : Nat) (expected : Bool) (tokens : List Token) :
    (attributeNames depth expected tokens).2 <:+ tokens := by
  fun_induction attributeNames depth expected tokens with
  | case1 => exact List.suffix_refl _
  | case4 => exact List.suffix_cons _ _
  | case7 =>
      rename_i ih
      exact ih.trans ((List.tail_suffix _).trans (List.suffix_cons _ _))
  | case8 =>
      rename_i ih
      exact ih.trans ((lastSegment_isSuffix _ _).trans (List.suffix_cons _ _))
  | _ =>
      rename_i ih
      exact ih.trans (List.suffix_cons _ _)

/-! ## Headers -/

/-- Whether a token continues the name of a namespace. -/
def isNamespacePart (token : Token) : Bool :=
  token.kind == .identifier || token.kind == .punctuation '.'

/-- The name of a namespace from its tokens. -/
def namespaceName (tokens : List Token) : String :=
  String.join ((tokens.takeWhile isNamespacePart).map Token.text)

/-- The state after a namespace's name and the token that follows it: a semicolon makes it the
namespace of the file, an opening brace opens it, and any other token is skipped. -/
def enterNamespace (state : State) (tokens : List Token) : State × List Token :=
  let name := namespaceName tokens
  match tokens.dropWhile isNamespacePart with
  | [] => ({ state.cleared with last := none }, [])
  | token :: rest =>
      if token.isPunctuation ';' then
        ({ state.cleared with fileNamespace := some name, last := some token.kind }, rest)
      else if token.isPunctuation '{' then
        ({ state.cleared with
            scopes := .space name :: state.scopes
            last := some token.kind }, rest)
      else ({ state.cleared with last := some token.kind }, rest)

/-- Identifiers that may follow a type keyword without naming a type. -/
def notNames : List String :=
  ["where", "new", "unmanaged", "notnull"]

/-- The kind that a type keyword and the tokens after it introduce, and the tokens from the name
on. -/
def kindAndName (kind : TypeKind) (tokens : List Token) : TypeKind × List Token :=
  match kind, tokens with
  | .recordType, next :: rest =>
      if next.isIdentifier "struct" then (.recordStructType, rest)
      else if next.isIdentifier "class" then (.recordType, rest)
      else (.recordType, next :: rest)
  | kind, tokens => (kind, tokens)

/-- The declaration of a given kind and name token at the current place. -/
def State.declare (state : State) (kind : TypeKind) (name : Token) : Declaration where
  kind := kind
  name := name.text
  enclosingNamespace := state.namespace?
  containing := state.containing
  attributes := state.attributes
  documentation :=
    match state.documentation with
    | [] => none
    | lines => some ("\n".intercalate lines)
  line := name.line

/-- The state after a type keyword and the tokens up to the name.  Where no name follows, nothing is
declared. -/
def enterHeader (state : State) (kind : TypeKind) (tokens : List Token) : State × List Token :=
  let header := kindAndName kind tokens
  match header.2 with
  | name :: rest =>
      if name.kind = .identifier ∧ name.text ∉ notNames then
        ({ state.cleared with
            last := some .identifier, pending := some (state.declare header.1 name) }, rest)
      else ({ state with last := some .identifier }, name :: rest)
  | [] => ({ state with last := some .identifier }, [])

/-! ## Steps -/

/-- The outcome of a step: declarations that are complete, the new state, and the tokens that are
still to be read. -/
structure Outcome where
  completed : List Declaration
  state : State
  rest : List Token

/-- A token inside of a member's body: only braces matter. -/
def stepBlock (state : State) (token : Token) : State :=
  let scopes :=
    match token.kind with
    | .punctuation '{' => .block :: state.scopes
    | .punctuation '}' => state.scopes.tail
    | _ => state.scopes
  { state with scopes, last := some token.kind }

/-- A token that opens braces: they belong to the pending declaration, which is complete then. -/
def openBrace (state : State) (kind : TokenKind) : List Declaration × State :=
  match state.pending with
  | some declaration =>
      ([declaration],
        { state.cleared with
          scopes := .type declaration.name :: state.scopes, pending := none, last := some kind })
  | none => ([], { state.cleared with scopes := .block :: state.scopes, last := some kind })

/-- A punctuation character outside of members' bodies. -/
def stepPunctuation (state : State) (c : Char) (rest : List Token) : Outcome :=
  let kind := TokenKind.punctuation c
  if c = '[' ∧ state.pending = none ∧ state.atMemberStart = true then
    let names := attributeNames 0 true rest
    ⟨[], { state with
      attributes := state.attributes ++ names.1, last := some (.punctuation ']') }, names.2⟩
  else if c = '{' then
    let opened := openBrace state kind
    ⟨opened.1, opened.2, rest⟩
  else if c = '}' then
    ⟨[], { state.cleared with scopes := state.scopes.tail, last := some kind }, rest⟩
  else if c = ';' then
    ⟨state.pending.toList, { state.cleared with pending := none, last := some kind }, rest⟩
  else ⟨[], { state with last := some kind }, rest⟩

/-- An identifier outside of members' bodies. -/
def stepIdentifier (state : State) (text : String) (rest : List Token) : Outcome :=
  let plain : Outcome := ⟨[], { state with last := some .identifier }, rest⟩
  if state.pending.isSome then plain
  else if text = "namespace" then
    let entered := enterNamespace state rest
    ⟨[], entered.1, entered.2⟩
  else
    match TypeKind.ofKeyword? text with
    | some kind =>
        if state.inConstraint then plain
        else
          let entered := enterHeader state kind rest
          ⟨[], entered.1, entered.2⟩
    | none => plain

/-- The effect of a token, given the tokens that follow it. -/
def step (state : State) (token : Token) (rest : List Token) : Outcome :=
  if state.scopes.head? = some .block then ⟨[], stepBlock state token, rest⟩
  else
    match token.kind with
    | .documentation =>
        if state.pending.isNone then
          ⟨[], { state with documentation := state.documentation ++ [token.text] }, rest⟩
        else ⟨[], state, rest⟩
    | .punctuation c => stepPunctuation state c rest
    | .identifier => stepIdentifier state token.text rest
    | .literal => ⟨[], { state with last := some .literal }, rest⟩

/-! ## Steps drop tokens -/

theorem enterNamespace_isSuffix (state : State) (tokens : List Token) :
    (enterNamespace state tokens).2 <:+ tokens := by
  have h : tokens.dropWhile isNamespacePart <:+ tokens := List.dropWhile_suffix _
  unfold enterNamespace
  simp only
  split
  · exact List.nil_suffix
  · rename_i token rest heq
    rw [heq] at h
    have h' : rest <:+ tokens := (List.suffix_cons _ _).trans h
    repeat' split
    all_goals exact h'

theorem kindAndName_isSuffix (kind : TypeKind) (tokens : List Token) :
    (kindAndName kind tokens).2 <:+ tokens := by
  unfold kindAndName
  split
  · repeat' split
    · exact List.suffix_cons _ _
    · exact List.suffix_cons _ _
    · exact List.suffix_refl _
  · exact List.suffix_refl _

theorem enterHeader_isSuffix (state : State) (kind : TypeKind) (tokens : List Token) :
    (enterHeader state kind tokens).2 <:+ tokens := by
  have h := kindAndName_isSuffix kind tokens
  unfold enterHeader
  simp only
  split
  · rename_i name rest heq
    rw [heq] at h
    split
    · exact (List.suffix_cons _ _).trans h
    · exact h
  · exact List.nil_suffix

theorem stepPunctuation_isSuffix (state : State) (c : Char) (rest : List Token) :
    (stepPunctuation state c rest).rest <:+ rest := by
  unfold stepPunctuation
  simp only
  split
  · exact attributeNames_isSuffix _ _ _
  · repeat' split
    all_goals exact List.suffix_refl _

theorem stepIdentifier_isSuffix (state : State) (text : String) (rest : List Token) :
    (stepIdentifier state text rest).rest <:+ rest := by
  unfold stepIdentifier
  simp only
  repeat' split
  all_goals first
    | exact List.suffix_refl _
    | exact enterNamespace_isSuffix _ _
    | exact enterHeader_isSuffix _ _ _

/-- A step only drops tokens. -/
theorem step_isSuffix (state : State) (token : Token) (rest : List Token) :
    (step state token rest).rest <:+ rest := by
  unfold step
  split
  · exact List.suffix_refl _
  · split
    · split <;> exact List.suffix_refl _
    · exact stepPunctuation_isSuffix _ _ _
    · exact stepIdentifier_isSuffix _ _ _
    · exact List.suffix_refl _

/-! ## The whole scan -/

/-- The declarations that the remaining tokens complete; a header without a body at the end of the
file counts. -/
def scan (state : State) : List Token → List Declaration
  | [] => state.pending.toList
  | token :: rest =>
      (step state token rest).completed ++ scan (step state token rest).state
        (step state token rest).rest
termination_by tokens => tokens.length
decreasing_by exact Nat.lt_succ_of_le (step_isSuffix state token rest).length_le

@[simp]
theorem scan_nil (state : State) : scan state [] = state.pending.toList := by
  unfold scan
  rfl

theorem scan_cons (state : State) (token : Token) (rest : List Token) :
    scan state (token :: rest) =
      (step state token rest).completed ++
        scan (step state token rest).state (step state token rest).rest := by
  rw [scan]

/-- Inside of a member's body a step drops exactly its token and completes nothing. -/
theorem step_block {state : State} (h : state.scopes.head? = some .block) (token : Token)
    (rest : List Token) : step state token rest = ⟨[], stepBlock state token, rest⟩ := by
  simp [step, h]

end DeclarationScan

/-- The type declarations of a file, from its tokens, in the order of their headers. -/
def Declaration.ofTokens (tokens : List Token) : List Declaration :=
  DeclarationScan.scan DeclarationScan.State.initial tokens

end ProjectAssembler
