import ProjectAssembler.Proofs.Source.Sections

/-!
# Passing over what declares nothing

What a scan does with a sequence of tokens is said by the states before it, the declarations that it
completes and the states after it.  Members that declare nothing lead from between two members to
between two members.

Main definitions:

* `DeclarationScan.Passes`: what a scan does with a sequence of tokens;
* `DeclarationScan.Between` and `DeclarationScan.Loose`: the states between two members and inside
  of one;
* `DeclarationScan.Closing`: tokens in which every bracket that they open is closed.

Main results:

* `DeclarationScan.passes_balanced`: the content of a block is passed over;
* `DeclarationScan.passes_run`: a run of tokens that declares nothing is passed over;
* `DeclarationScan.passes_filler`: so is a member that declares nothing.
-/

namespace ProjectAssembler
namespace DeclarationScan

open Grammar

/-! ## What a scan does with tokens -/

/-- From each state of the first kind a scan of the tokens completes the declarations and goes on
from a state of the second kind. -/
def Passes (before : State → Prop) (tokens : List Token) (declarations : List Declaration)
    (after : State → Prop) : Prop :=
  ∀ state, before state → ∀ rest, ∃ state', after state' ∧
    scan state (tokens ++ rest) = declarations ++ scan state' rest

namespace Passes

variable {before middle after : State → Prop} {first second : List Token}
  {declarations declarations' : List Declaration}

theorem nil (h : ∀ state, before state → after state) : Passes before [] [] after :=
  fun state hstate _ => ⟨state, h state hstate, rfl⟩

/-- Two sequences of tokens one after the other. -/
theorem append (hfirst : Passes before first declarations middle)
    (hsecond : Passes middle second declarations' after) :
    Passes before (first ++ second) (declarations ++ declarations') after := by
  intro state hstate rest
  obtain ⟨state₁, hstate₁, heq₁⟩ := hfirst state hstate (second ++ rest)
  obtain ⟨state₂, hstate₂, heq₂⟩ := hsecond state₁ hstate₁ rest
  refine ⟨state₂, hstate₂, ?_⟩
  rw [List.append_assoc, heq₁, heq₂, List.append_assoc]

/-- Two sequences of tokens of which the first completes nothing. -/
theorem andThen (hfirst : Passes before first [] middle)
    (hsecond : Passes middle second declarations after) :
    Passes before (first ++ second) declarations after :=
  hfirst.append hsecond

/-- Tokens that one step reads. -/
theorem ofStep {token : Token} {tokens : List Token}
    (h : ∀ state, before state → ∀ rest, ∃ state', after state' ∧
      step state token (tokens ++ rest) = ⟨declarations, state', rest⟩) :
    Passes before (token :: tokens) declarations after := by
  intro state hstate rest
  obtain ⟨state', hstate', heq⟩ := h state hstate rest
  refine ⟨state', hstate', ?_⟩
  rw [List.cons_append, scan_cons, heq]

/-- A token that completes nothing, and the tokens after it. -/
theorem cons {token : Token} (h : ∀ state, before state → ∀ rest, ∃ state', middle state' ∧
      step state token rest = ⟨[], state', rest⟩)
    (hrest : Passes middle second declarations after) :
    Passes before (token :: second) declarations after :=
  by
  have htoken : Passes before [token] [] middle := ofStep h
  exact htoken.andThen hrest

end Passes

/-! ## States -/

/-- Whether the innermost open brace is not that of a member's body. -/
def IsOpen (scopes : List Scope) : Prop :=
  scopes.head? ≠ some .block

/-- The states before the modifiers of a member of which attributes and documentation have been
read. -/
def Collecting (scopes : List Scope) (fileNamespace : Option String)
    (attributes documentation : List String) (state : State) : Prop :=
  ∃ last, state = ⟨scopes, fileNamespace, attributes, documentation, last, none⟩ ∧
    state.atMemberStart = true

/-- The states between two members, where given braces are open. -/
def Between (scopes : List Scope) (fileNamespace : Option String) : State → Prop :=
  Collecting scopes fileNamespace [] []

/-- The states inside of a member that is no declaration so far; `previous` is the kind of the token
before. -/
def Loose (scopes : List Scope) (fileNamespace : Option String) (previous : Option TokenKind)
    (state : State) : Prop :=
  ∃ attributes documentation last,
    state = ⟨scopes, fileNamespace, attributes, documentation, last, none⟩ ∧
      (isConstraintMark previous = true → last = previous)

/-- The states inside of a block. -/
def InBlock (scopes : List Scope) (fileNamespace : Option String) (state : State) : Prop :=
  ∃ last, state = ⟨.block :: scopes, fileNamespace, [], [], last, none⟩

/-! ## Blocks -/

theorem stepBlock_of_ne (state : State) {token : Token} (hopening : token.kind ≠ .punctuation '{')
    (hclosing : token.kind ≠ .punctuation '}') :
    stepBlock state token = { state with last := some token.kind } := by
  unfold stepBlock
  split
  · rename_i heq
    exact absurd heq hopening
  · rename_i heq
    exact absurd heq hclosing
  · rfl

/-- In a block every token but a brace is passed over. -/
theorem inBlock_token {scopes : List Scope} {fileNamespace : Option String} {token : Token}
    (hopening : token.kind ≠ .punctuation '{') (hclosing : token.kind ≠ .punctuation '}') :
    ∀ state, InBlock scopes fileNamespace state → ∀ rest, ∃ state',
      InBlock scopes fileNamespace state' ∧ step state token rest = ⟨[], state', rest⟩ := by
  rintro state ⟨last, rfl⟩ rest
  refine ⟨_, ⟨some token.kind, rfl⟩, ?_⟩
  rw [step_block rfl, stepBlock_of_ne _ hopening hclosing]

/-- In a block an opening brace begins a block inside of it. -/
theorem inBlock_opening {scopes : List Scope} {fileNamespace : Option String} {token : Token}
    (h : token.kind = .punctuation '{') :
    ∀ state, InBlock scopes fileNamespace state → ∀ rest, ∃ state',
      InBlock (.block :: scopes) fileNamespace state' ∧
        step state token rest = ⟨[], state', rest⟩ := by
  rintro state ⟨last, rfl⟩ rest
  refine ⟨_, ⟨some token.kind, rfl⟩, ?_⟩
  rw [step_block rfl, stepBlock, h]
  rfl

/-- A closing brace ends the innermost block. -/
theorem inBlock_closing {scopes : List Scope} {fileNamespace : Option String} {token : Token}
    (h : token.kind = .punctuation '}') :
    ∀ state, InBlock (.block :: scopes) fileNamespace state → ∀ rest, ∃ state',
      InBlock scopes fileNamespace state' ∧ step state token rest = ⟨[], state', rest⟩ := by
  rintro state ⟨last, rfl⟩ rest
  refine ⟨_, ⟨some token.kind, rfl⟩, ?_⟩
  rw [step_block rfl, stepBlock, h]
  rfl

/-- The content of a block is passed over. -/
theorem passes_balanced {content : List Token} (h : Balanced content) (scopes : List Scope)
    (fileNamespace : Option String) :
    Passes (InBlock scopes fileNamespace) content [] (InBlock scopes fileNamespace) := by
  induction h generalizing scopes with
  | nil => exact Passes.nil fun _ hstate => hstate
  | @cons token rest hopens hcloses _ ih =>
      have hopening : token.kind ≠ .punctuation '{' := fun hkind => hopens ⟨.curly, hkind⟩
      have hclosing : token.kind ≠ .punctuation '}' := fun hkind => hcloses ⟨.curly, hkind⟩
      exact Passes.cons (inBlock_token hopening hclosing) (ih scopes)
  | @group bracket first last inner rest hfirst _ hlast _ ihinner ihrest =>
      by_cases hbracket : bracket = .curly
      · subst hbracket
        have hinner := Passes.cons (inBlock_opening hfirst) (ihinner (.block :: scopes))
        exact hinner.append (Passes.cons (inBlock_closing hlast) (ihrest scopes))
      · have hne₁ : first.kind ≠ .punctuation '{' ∧ first.kind ≠ .punctuation '}' := by
          rw [hfirst]
          cases bracket <;> simp_all [Bracket.opening]
        have hne₂ : last.kind ≠ .punctuation '{' ∧ last.kind ≠ .punctuation '}' := by
          rw [hlast]
          cases bracket <;> simp_all [Bracket.closing]
        have hinner := Passes.cons (inBlock_token hne₁.1 hne₁.2) (ihinner scopes)
        exact hinner.append (Passes.cons (inBlock_token hne₂.1 hne₂.2) (ihrest scopes))

/-! ## Brackets of a run -/

/-- Tokens in which every bracket that they open is closed; they may close others as well. -/
inductive Closing : List Token → Prop where
  | nil : Closing []
  | skip {token : Token} {rest : List Token} (hopens : ¬ Opens token) (hrest : Closing rest) :
      Closing (token :: rest)
  | group (bracket : Bracket) {first last : Token} {inner rest : List Token}
      (hfirst : first.kind = .punctuation bracket.opening) (hinner : Balanced inner)
      (hlast : last.kind = .punctuation bracket.closing) (hrest : Closing rest) :
      Closing (first :: inner ++ last :: rest)

theorem not_opens_of_closing {token : Token} {bracket : Bracket}
    (h : token.kind = .punctuation bracket.closing) : ¬ Opens token := by
  rintro ⟨bracket', hopening⟩
  rw [h] at hopening
  cases bracket <;> cases bracket' <;> contradiction

theorem closing_append {inner rest : List Token} (hinner : Balanced inner) (hrest : Closing rest) :
    Closing (inner ++ rest) := by
  induction hinner generalizing rest with
  | nil => exact hrest
  | cons hopens _ _ ih => exact Closing.skip hopens (ih hrest)
  | @group bracket first last inner rest' hfirst hinner hlast _ _ ihrest =>
      have hclosing := Closing.group bracket hfirst hinner hlast (ihrest hrest)
      rw [List.append_assoc]
      exact hclosing

theorem closing_of_balanced {tokens : List Token} (h : Balanced tokens) : Closing tokens := by
  have hclosing := closing_append h Closing.nil
  rwa [List.append_nil] at hclosing

theorem closing_of_cons {token : Token} {rest : List Token} (h : Closing (token :: rest)) :
    Closing rest := by
  cases h with
  | skip _ hrest => exact hrest
  | group bracket _ hinner hlast hrest =>
      exact closing_append hinner (Closing.skip (not_opens_of_closing hlast) hrest)

/-- A bracket and what it encloses. -/
theorem exists_group_of_closing (bracket : Bracket) {first : Token} {tokens : List Token}
    (hfirst : first.kind = .punctuation bracket.opening) (h : Closing (first :: tokens)) :
    ∃ inner last rest, tokens = inner ++ last :: rest ∧ Balanced inner ∧
      last.kind = .punctuation bracket.closing ∧ Closing rest := by
  cases h with
  | skip hopens _ => exact absurd ⟨bracket, hfirst⟩ hopens
  | group bracket' hfirst' hinner hlast hrest =>
      have hsame : bracket = bracket' := by
        rw [hfirst'] at hfirst
        cases bracket <;> cases bracket' <;> first | rfl | contradiction
      subst hsame
      exact ⟨_, _, _, rfl, hinner, hlast, hrest⟩

/-! ## Runs -/

theorem harmless_append {previous : Option TokenKind} {first : List Token} {token : Token}
    {rest : List Token} (h : Harmless previous (first ++ token :: rest)) :
    Harmless (some token.kind) rest := by
  induction first generalizing previous with
  | nil => exact h.2.2.2
  | cons _ first ih => exact ih h.2.2.2

/-- A token that is neither a brace nor a semicolon is no punctuation character of these. -/
theorem ne_of_isStop {token : Token} {c : Char} (hstop : isStop token = false)
    (hkind : token.kind = .punctuation c) : c ≠ '{' ∧ c ≠ '}' ∧ c ≠ ';' := by
  simp only [isStop, isPunctuation_of_kind hkind, Bool.or_eq_false_iff,
    beq_eq_false_iff_ne] at hstop
  exact ⟨hstop.1.1, hstop.1.2, hstop.2⟩

theorem step_punctuation {state : State} (hopen : IsOpen state.scopes) {token : Token} {c : Char}
    (hkind : token.kind = .punctuation c) (rest : List Token) :
    step state token rest = stepPunctuation state c rest := by
  unfold step
  rw [if_neg hopen]
  simp only [hkind]

theorem step_identifier {state : State} (hopen : IsOpen state.scopes) {token : Token}
    (hkind : token.kind = .identifier) (rest : List Token) :
    step state token rest = stepIdentifier state token.text rest := by
  unfold step
  rw [if_neg hopen]
  simp only [hkind]

theorem step_literal {state : State} (hopen : IsOpen state.scopes) {token : Token}
    (hkind : token.kind = .literal) (rest : List Token) :
    step state token rest = ⟨[], { state with last := some .literal }, rest⟩ := by
  unfold step
  rw [if_neg hopen]
  simp only [hkind]

theorem stepPunctuation_section {state : State} (hpending : state.pending = none)
    (hstart : state.atMemberStart = true) (rest : List Token) :
    stepPunctuation state '[' rest =
      ⟨[], { state with
        attributes := state.attributes ++ (attributeNames 0 true rest).1
        last := some (.punctuation ']') }, (attributeNames 0 true rest).2⟩ := by
  unfold stepPunctuation
  simp only
  rw [if_pos ⟨trivial, hpending, hstart⟩]

/-- A character that begins no section and is no brace and no semicolon is passed over. -/
theorem stepPunctuation_plain {state : State} {c : Char}
    (hsection : ¬ (c = '[' ∧ state.pending = none ∧ state.atMemberStart = true))
    (hstop : c ≠ '{' ∧ c ≠ '}' ∧ c ≠ ';') (rest : List Token) :
    stepPunctuation state c rest =
      ⟨[], { state with last := some (.punctuation c) }, rest⟩ := by
  unfold stepPunctuation
  simp only
  rw [if_neg hsection, if_neg hstop.1, if_neg hstop.2.1, if_neg hstop.2.2]

/-- An identifier that begins neither a namespace nor a type is passed over. -/
theorem stepIdentifier_plain {state : State} {text : String} (hspace : text ≠ "namespace")
    (hkeyword : (TypeKind.ofKeyword? text).isSome = true → state.inConstraint = true)
    (rest : List Token) :
    stepIdentifier state text rest = ⟨[], { state with last := some .identifier }, rest⟩ := by
  unfold stepIdentifier
  simp only
  rw [if_neg hspace]
  split
  · rfl
  · split
    · rename_i heq
      rw [if_pos (hkeyword (by rw [heq]; rfl))]
    · rfl

theorem inConstraint_of_mark {state : State} {previous : Option TokenKind}
    (hmark : isConstraintMark previous = true) (hlast : state.last = previous) :
    state.inConstraint = true := by
  unfold State.inConstraint
  rw [hlast]
  exact hmark

/-- In a run a token that begins no attribute section is passed over. -/
theorem loose_token {scopes : List Scope} {fileNamespace : Option String} {token : Token}
    {previous : Option TokenKind} {state : State} (hopen : IsOpen scopes)
    (hstate : Loose scopes fileNamespace previous state)
    (hsection : ¬ (token.kind = .punctuation '[' ∧ state.atMemberStart = true))
    (hstop : isStop token = false) (hspace : token.isIdentifier "namespace" = false)
    (hkeyword : isTypeKeyword token = true → isConstraintMark previous = true)
    (rest : List Token) :
    ∃ state', Loose scopes fileNamespace (some token.kind) state' ∧
      step state token rest = ⟨[], state', rest⟩ := by
  obtain ⟨attributes, documentation, last, rfl, hlast⟩ := hstate
  cases hkind : token.kind with
  | punctuation c =>
      refine ⟨_, ⟨attributes, documentation, some (.punctuation c), rfl, fun _ => rfl⟩, ?_⟩
      rw [step_punctuation hopen hkind, stepPunctuation_plain _ (ne_of_isStop hstop hkind)]
      rintro ⟨rfl, -, hstart⟩
      exact hsection ⟨hkind, hstart⟩
  | identifier =>
      refine ⟨_, ⟨attributes, documentation, some .identifier, rfl, fun _ => rfl⟩, ?_⟩
      rw [step_identifier hopen hkind, stepIdentifier_plain]
      · intro htext
        simp [Token.isIdentifier, hkind, htext] at hspace
      · intro hsome
        have hmark := hkeyword (by simp [isTypeKeyword, hkind, hsome])
        exact inConstraint_of_mark hmark (hlast hmark)
  | literal =>
      refine ⟨_, ⟨attributes, documentation, some .literal, rfl, fun _ => rfl⟩, ?_⟩
      unfold step
      rw [if_neg hopen]
      simp only [hkind]
  | documentation =>
      refine ⟨_, ⟨attributes, documentation ++ [token.text], last, rfl, ?_⟩, ?_⟩
      · intro hmark
        contradiction
      · unfold step
        rw [if_neg hopen]
        simp only [hkind]
        rfl

/-- In a run an attribute section is passed over. -/
theorem loose_section {scopes : List Scope} {fileNamespace : Option String} {first last : Token}
    {previous : Option TokenKind} {state : State} (hopen : IsOpen scopes)
    (hstate : Loose scopes fileNamespace previous state)
    (hfirst : first.kind = .punctuation '[') (hstart : state.atMemberStart = true)
    {inner : List Token} (hinner : Balanced inner) (hlast : last.kind = .punctuation ']')
    (rest : List Token) :
    ∃ state', Loose scopes fileNamespace (some last.kind) state' ∧
      step state first (inner ++ last :: rest) = ⟨[], state', rest⟩ := by
  obtain ⟨attributes, documentation, before, rfl, -⟩ := hstate
  refine ⟨_, ⟨attributes ++ (attributeNames 0 true (inner ++ last :: rest)).1, documentation,
    some (.punctuation ']'), rfl, fun _ => by rw [hlast]⟩, ?_⟩
  rw [step_punctuation hopen hfirst, stepPunctuation_section rfl hstart,
    attributeNames_balanced hinner hlast]

/-- A run of tokens that declares nothing is passed over. -/
theorem passes_run {scopes : List Scope} (hopen : IsOpen scopes) (fileNamespace : Option String)
    {previous : Option TokenKind} {tokens : List Token} (hclosing : Closing tokens)
    (hharmless : Harmless previous tokens) :
    Passes (Loose scopes fileNamespace previous) tokens [] (Loose scopes fileNamespace none) := by
  -- A section is read in one step, so the induction is on the number of tokens that are left.
  induction hn : tokens.length using Nat.strongRecOn generalizing previous tokens with
  | ind n ih =>
      intro state hstate more
      cases tokens with
      | nil =>
          obtain ⟨attributes, documentation, last, rfl, -⟩ := hstate
          exact ⟨_, ⟨attributes, documentation, last, rfl, nofun⟩, rfl⟩
      | cons token rest =>
          obtain ⟨hstop, hspace, hkeyword, hrest⟩ := hharmless
          by_cases hsection : token.kind = .punctuation '[' ∧ state.atMemberStart = true
          · obtain ⟨hkind, hstart⟩ := hsection
            obtain ⟨inner, last, rest, rfl, hinner, hlast, hclosing⟩ :=
              exists_group_of_closing .square hkind hclosing
            obtain ⟨state₁, hstate₁, hstep⟩ :=
              loose_section hopen hstate hkind hstart hinner hlast (rest ++ more)
            have hlength : rest.length < n := by
              rw [← hn]
              simp only [List.length_cons, List.length_append]
              omega
            obtain ⟨state₂, hstate₂, hscan⟩ :=
              ih _ hlength hclosing (harmless_append hrest) rfl state₁ hstate₁ more
            refine ⟨state₂, hstate₂, ?_⟩
            rw [List.cons_append, List.append_assoc, List.cons_append, scan_cons, hstep]
            exact hscan
          · obtain ⟨state₁, hstate₁, hstep⟩ :=
              loose_token hopen hstate hsection hstop hspace hkeyword (rest ++ more)
            have hlength : rest.length < n := by
              rw [← hn]
              exact Nat.lt_succ_self _
            obtain ⟨state₂, hstate₂, hscan⟩ :=
              ih _ hlength (closing_of_cons hclosing) hrest rfl state₁ hstate₁ more
            refine ⟨state₂, hstate₂, ?_⟩
            rw [List.cons_append, scan_cons, hstep]
            exact hscan

/-! ## Members that declare nothing -/

variable {scopes : List Scope} {fileNamespace : Option String}

theorem loose_of_between {state : State} (h : Between scopes fileNamespace state) :
    Loose scopes fileNamespace none state := by
  obtain ⟨last, rfl, -⟩ := h
  exact ⟨[], [], last, rfl, nofun⟩

/-- A semicolon ends a member. -/
theorem loose_semicolon (hopen : IsOpen scopes) (line : Nat) :
    ∀ state, Loose scopes fileNamespace none state → ∀ rest, ∃ state',
      Between scopes fileNamespace state' ∧
        step state (mark ';' line) rest = ⟨[], state', rest⟩ := by
  rintro state ⟨attributes, documentation, last, rfl, -⟩ rest
  refine ⟨_, ⟨some (.punctuation ';'), rfl, rfl⟩, ?_⟩
  rw [step_punctuation hopen rfl]
  rfl

/-- An opening brace begins the block of a member. -/
theorem loose_opening (hopen : IsOpen scopes) (line : Nat) :
    ∀ state, Loose scopes fileNamespace none state → ∀ rest, ∃ state',
      InBlock scopes fileNamespace state' ∧
        step state (mark '{' line) rest = ⟨[], state', rest⟩ := by
  rintro state ⟨attributes, documentation, last, rfl, -⟩ rest
  refine ⟨_, ⟨some (.punctuation '{'), rfl⟩, ?_⟩
  rw [step_punctuation hopen rfl]
  rfl

/-- A closing brace ends the block of a member. -/
theorem inBlock_end (line : Nat) :
    ∀ state, InBlock scopes fileNamespace state → ∀ rest, ∃ state',
      Between scopes fileNamespace state' ∧
        step state (mark '}' line) rest = ⟨[], state', rest⟩ := by
  rintro state ⟨last, rfl⟩ rest
  refine ⟨_, ⟨some (.punctuation '}'), rfl, rfl⟩, ?_⟩
  rw [step_block rfl]
  rfl

theorem passes_ending (hopen : IsOpen scopes) (ending : Ending) :
    Passes (Loose scopes fileNamespace none) ending.tokens [] (Between scopes fileNamespace) := by
  cases ending with
  | semicolon line => exact Passes.ofStep (loose_semicolon hopen line)
  | block opening content closing hbalanced =>
      have hcontent := passes_balanced hbalanced scopes fileNamespace
      exact Passes.cons (loose_opening hopen opening)
        (hcontent.andThen (Passes.ofStep (inBlock_end closing)))

/-- A run from between two members. -/
theorem passes_run_of_between (hopen : IsOpen scopes) (run : Run) :
    Passes (Between scopes fileNamespace) run.tokens [] (Loose scopes fileNamespace none) :=
  fun state hstate =>
    passes_run hopen fileNamespace (closing_of_balanced run.balanced) run.harmless state
      (loose_of_between hstate)

/-- A member that declares nothing is passed over. -/
theorem passes_filler (hopen : IsOpen scopes) (filler : Filler) :
    Passes (Between scopes fileNamespace) filler.tokens [] (Between scopes fileNamespace) :=
  (passes_run_of_between hopen filler.run).andThen (passes_ending hopen filler.ending)

end DeclarationScan
end ProjectAssembler
