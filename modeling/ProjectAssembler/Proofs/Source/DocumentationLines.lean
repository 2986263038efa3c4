import Mathlib.Data.List.Infix
import ProjectAssembler.Proofs.Source.AnnotationTree
import ProjectAssembler.Proofs.Source.Runs

/-!
# Scanning with and without documentation lines

A text can be scanned with its documentation lines or without them.  The scan itself passes over a
documentation line wherever one stands, but what it reads ahead of a token does not: the name of a
namespace, the name of a type and the name of an attribute end at a documentation line.  Where no
documentation line stands in such a place, both scans find the same declarations.

Main definitions:

* `Token.withoutDocumentation`: the tokens that are left without documentation lines;
* `DeclarationScan.isUninterrupted`: whether no name that a scan reads ahead is cut off by a
  documentation line;
* `DeclarationScan.Agree`: the states of the two scans beside each other.

Main results:

* `DeclarationScan.step_withoutDocumentation` and `DeclarationScan.scan_withoutDocumentation`: what
  one step and a whole scan find without documentation lines;
* `SourceTree.documentation_dropped`: documentation lines that cut off no name change nothing but
  the documentation of declarations;
* `SourceTree.declarations_interruptedText`: a documentation line after the name of a namespace
  hides the types in it.
-/

namespace ProjectAssembler

/-! ## Tokens without documentation lines -/

namespace Token

/-- Whether a token is a documentation line. -/
def isDocumentation (token : Token) : Bool :=
  token.kind == .documentation

/-- The tokens that are no documentation lines. -/
def withoutDocumentation (tokens : List Token) : List Token :=
  tokens.filter (!·.isDocumentation)

/-- Whether a documentation line stands at the front of tokens. -/
def startsWithDocumentation (tokens : List Token) : Bool :=
  tokens.head?.any isDocumentation

variable {token : Token} {tokens : List Token}

@[simp]
theorem withoutDocumentation_nil : withoutDocumentation [] = [] :=
  rfl

theorem withoutDocumentation_cons_of_ne (h : token.kind ≠ .documentation) (rest : List Token) :
    withoutDocumentation (token :: rest) = token :: withoutDocumentation rest :=
  List.filter_cons_of_pos (by simpa [isDocumentation] using h)

theorem withoutDocumentation_cons_of_kind (h : token.kind = .documentation) (rest : List Token) :
    withoutDocumentation (token :: rest) = withoutDocumentation rest :=
  List.filter_cons_of_neg (by simp [isDocumentation, h])

theorem withoutDocumentation_cons_of_not_starts {rest : List Token}
    (h : startsWithDocumentation (token :: rest) = false) :
    withoutDocumentation (token :: rest) = token :: withoutDocumentation rest :=
  withoutDocumentation_cons_of_ne (by simpa [startsWithDocumentation, isDocumentation] using h) rest

/-- Where no documentation line stands at the front, the first token stays the first one. -/
theorem head?_withoutDocumentation (h : startsWithDocumentation tokens = false) :
    (withoutDocumentation tokens).head? = tokens.head? := by
  cases tokens with
  | nil => rfl
  | cons first rest => rw [withoutDocumentation_cons_of_not_starts h, List.head?_cons,
      List.head?_cons]

/-- Lexemes give the same tokens without documentation lines, except for these lines. -/
theorem ofLexemes_false (line : Nat) (lexemes : List Lexeme) :
    ofLexemes false line lexemes = withoutDocumentation (ofLexemes true line lexemes) := by
  induction lexemes generalizing line with
  | nil => rfl
  | cons lexeme rest ih =>
      have hfirst : (lexeme.token? false line).toList =
          withoutDocumentation (lexeme.token? true line).toList := by
        cases lexeme <;> rfl
      rw [ofLexemes, ofLexemes, withoutDocumentation, List.filter_append]
      exact congrArg₂ (· ++ ·) hfirst (ih _)

/-- The tokens of a text when documentation lines are not wanted. -/
theorem ofText_false (text : List Char) :
    ofText false text = withoutDocumentation (ofText true text) :=
  ofLexemes_false 1 (Lexeme.ofText text)

end Token

/-- A declaration without its documentation. -/
def Declaration.withoutDocumentation (declaration : Declaration) : Declaration :=
  { declaration with documentation := none }

namespace DeclarationScan

open Token (withoutDocumentation startsWithDocumentation)

/-! ## Interrupted names -/

/-- Whether a token joins the parts of an attribute's name, or the name to its target. -/
def isJoint (token : Token) : Bool :=
  token.isPunctuation '.' || token.isPunctuation ':'

/-- Whether a documentation line stands next to a joint in the tokens that follow an identifier. -/
def dividesName (tokens : List Token) : Bool :=
  startsWithDocumentation (tokens.dropWhile isJoint) &&
    (withoutDocumentation tokens).head?.any isJoint

/-- Whether no identifier of an attribute section is divided from the name that it begins; the
tokens begin after the opening bracket. -/
def isUndivided (tokens : List Token) : Bool :=
  tokens.tails.all fun tail =>
    match tail with
    | [] => true
    | token :: rest =>
        decide (rest.length < (attributeNames 0 true tokens).2.length) ||
          token.kind != .identifier || !dividesName rest

/-- Whether no documentation line cuts off what is read ahead of a token outside of members'
bodies. -/
def isReadThrough (state : State) (token : Token) (rest : List Token) : Bool :=
  match token.kind with
  | .identifier =>
      if state.pending.isSome then true
      else if token.text = "namespace" then
        !startsWithDocumentation (rest.dropWhile isNamespacePart)
      else
        match TypeKind.ofKeyword? token.text with
        | some kind =>
            state.inConstraint || !startsWithDocumentation (kindAndName kind rest).2
        | none => true
  | .punctuation c =>
      if c = '[' ∧ state.pending = none ∧ state.atMemberStart = true then isUndivided rest
      else true
  | .literal | .documentation => true

/-- Whether no name that a scan reads ahead is cut off by a documentation line. -/
def isUninterrupted (state : State) : List Token → Bool
  | [] => true
  | token :: rest =>
      (state.scopes.head? == some .block || isReadThrough state token rest) &&
        isUninterrupted (step state token rest).state (step state token rest).rest
termination_by tokens => tokens.length
decreasing_by exact Nat.lt_succ_of_le (step_isSuffix state token rest).length_le

/-! ## Attribute sections -/

variable {tokens : List Token}

/-- A joint is no documentation line. -/
theorem not_starts_of_isJoint {joint : Token} (h : isJoint joint = true) (rest : List Token) :
    startsWithDocumentation (joint :: rest) = false := by
  cases hkind : joint.kind <;>
    simp_all [isJoint, Token.isPunctuation, startsWithDocumentation, Token.isDocumentation]

theorem endsName_iff : EndsName tokens ↔ tokens.head?.any isJoint = false := by
  cases tokens <;> simp [EndsName, isJoint]

/-- Tokens that begin with a documentation line keep it when joints are dropped. -/
theorem not_starts_of_dropWhile
    (h : startsWithDocumentation (tokens.dropWhile isJoint) = false) :
    startsWithDocumentation tokens = false := by
  cases tokens with
  | nil => rfl
  | cons first rest =>
      by_cases hjoint : isJoint first = true
      · exact not_starts_of_isJoint hjoint rest
      · rwa [List.dropWhile_cons_of_neg hjoint] at h

/-- After a joint that follows an undivided name no documentation line stands, and what follows is
undivided as well. -/
theorem not_starts_of_not_dividesName {joint : Token} {rest : List Token}
    (hjoint : isJoint joint = true) (h : dividesName (joint :: rest) = false) :
    startsWithDocumentation rest = false ∧ dividesName rest = false := by
  have hkept := Token.withoutDocumentation_cons_of_not_starts (not_starts_of_isJoint hjoint rest)
  have hdropped : startsWithDocumentation (rest.dropWhile isJoint) = false := by
    rw [dividesName, hkept, List.head?_cons, List.dropWhile_cons_of_pos hjoint] at h
    simpa [hjoint] using h
  exact ⟨not_starts_of_dropWhile hdropped, by rw [dividesName, hdropped, Bool.false_and]⟩

/-- An undivided name ends with and without documentation lines, or it goes on with the same
joint. -/
theorem endsName_or_joint (h : dividesName tokens = false) :
    EndsName tokens ∧ EndsName (withoutDocumentation tokens) ∨
      ∃ joint rest, tokens = joint :: rest ∧ isJoint joint = true ∧
        withoutDocumentation tokens = joint :: withoutDocumentation rest ∧
        startsWithDocumentation rest = false ∧ dividesName rest = false := by
  rw [endsName_iff, endsName_iff]
  cases tokens with
  | nil => exact Or.inl ⟨rfl, rfl⟩
  | cons first rest =>
      by_cases hjoint : isJoint first = true
      · have hkept :=
          Token.withoutDocumentation_cons_of_not_starts (not_starts_of_isJoint hjoint rest)
        have hrest := not_starts_of_not_dividesName hjoint h
        exact Or.inr ⟨first, rest, rfl, hjoint, hkept, hrest⟩
      · refine Or.inl ⟨by simpa using hjoint, ?_⟩
        rw [dividesName, List.dropWhile_cons_of_neg hjoint, Bool.and_eq_false_iff] at h
        rcases h with hfirst | hends
        · simpa [Token.withoutDocumentation_cons_of_not_starts hfirst] using hjoint
        · exact hends

theorem isTarget_of_endsName (h : EndsName tokens) : isTarget tokens = false := by
  rw [endsName_iff] at h
  cases tokens with
  | nil => rfl
  | cons first rest =>
      have hcolon : first.isPunctuation ':' = false := by
        rw [List.head?_cons, Option.any_some, isJoint, Bool.or_eq_false_iff] at h
        exact h.2
      cases rest <;> simp [isTarget, hcolon]

/-- Whether an undivided identifier is a target does not depend on documentation lines. -/
theorem isTarget_withoutDocumentation (h : dividesName tokens = false) :
    isTarget (withoutDocumentation tokens) = isTarget tokens := by
  rcases endsName_or_joint h with ⟨hends, hends'⟩ | ⟨joint, rest, rfl, -, hkept, hstart, -⟩
  · rw [isTarget_of_endsName hends, isTarget_of_endsName hends']
  · rw [hkept]
    cases rest with
    | nil => rfl
    | cons second rest =>
        rw [Token.withoutDocumentation_cons_of_not_starts hstart]
        rfl

/-- Whether a name goes on with a joint and an identifier. -/
def continuesName : List Token → Bool
  | dot :: next :: rest =>
      dot.isPunctuation '.' && next.kind == .identifier ||
        dot.isPunctuation ':' && next.isPunctuation ':' &&
          rest.head?.any (·.kind == .identifier)
  | _ => false

theorem continuesName_of_endsName (h : EndsName tokens) : continuesName tokens = false := by
  match tokens, h with
  | [], _ => rfl
  | [_], _ => rfl
  | dot :: next :: rest, h =>
      obtain ⟨hdot, hcolon⟩ := h dot rfl
      simp [continuesName, hdot, hcolon]

theorem lastSegment_of_not_continuesName (segment : String)
    (h : continuesName tokens = false) : lastSegment segment tokens = (segment, tokens) := by
  fun_cases lastSegment segment tokens with
  | case1 dot next rest hdot => simp [continuesName, hdot] at h
  | case2 dot next third rest hdot hcolons => simp [continuesName, hcolons] at h
  | case3 => rfl
  | case4 => rfl
  | case5 => rfl

/-- Whether an undivided name goes on does not depend on documentation lines. -/
theorem continuesName_withoutDocumentation (h : dividesName tokens = false) :
    continuesName (withoutDocumentation tokens) = continuesName tokens := by
  rcases endsName_or_joint h with ⟨hends, hends'⟩ | ⟨joint, rest, rfl, -, hkept, hstart, hrest⟩
  · rw [continuesName_of_endsName hends, continuesName_of_endsName hends']
  · rw [hkept]
    cases rest with
    | nil => rfl
    | cons next rest =>
        rw [Token.withoutDocumentation_cons_of_not_starts hstart, continuesName, continuesName]
        by_cases hcolon : next.isPunctuation ':' = true
        · have hjoint : isJoint next = true := by rw [isJoint, hcolon, Bool.or_true]
          rw [Token.head?_withoutDocumentation (not_starts_of_not_dividesName hjoint hrest).1]
        · simp [hcolon]

/-- Whether no identifier among tokens is divided from the name that it begins, as long as a given
number of tokens follows. -/
def Undivided (bound : Nat) (tokens : List Token) : Prop :=
  ∀ token rest, token :: rest <:+ tokens → token.kind = .identifier → bound ≤ rest.length →
    dividesName rest = false

theorem Undivided.of_suffix {bound : Nat} {rest : List Token} (h : Undivided bound tokens)
    (hrest : rest <:+ tokens) : Undivided bound rest :=
  fun token following hsuffix => h token following (hsuffix.trans hrest)

/-- A name that does not go on is the same without documentation lines. -/
theorem lastSegment_of_stopped (segment : String) (hname : dividesName tokens = false)
    (hstop : continuesName tokens = false) :
    lastSegment segment (withoutDocumentation tokens) = (segment, withoutDocumentation tokens) :=
  lastSegment_of_not_continuesName segment
    ((continuesName_withoutDocumentation hname).trans hstop)

/-- The last segment of an undivided name is the same without documentation lines. -/
theorem lastSegment_withoutDocumentation {bound : Nat} (segment : String)
    (h : Undivided bound tokens) (hname : dividesName tokens = false)
    (hbound : bound ≤ (lastSegment segment tokens).2.length) :
    lastSegment segment (withoutDocumentation tokens) =
      ((lastSegment segment tokens).1, withoutDocumentation (lastSegment segment tokens).2) := by
  fun_induction lastSegment segment tokens with
  | case1 segment dot next rest hdot ih =>
      have hjoint : isJoint dot = true := by simp [isJoint, hdot.1]
      have hkept : withoutDocumentation (dot :: next :: rest) =
          dot :: next :: withoutDocumentation rest := by
        rw [Token.withoutDocumentation_cons_of_not_starts (not_starts_of_isJoint hjoint _),
          Token.withoutDocumentation_cons_of_ne (by simp [hdot.2])]
      have hsuffix : next :: rest <:+ dot :: next :: rest := List.suffix_cons _ _
      have hrest : dividesName rest = false := h next rest hsuffix hdot.2
        (hbound.trans (lastSegment_isSuffix next.text rest).length_le)
      rw [hkept, lastSegment.eq_def]
      dsimp only
      rw [if_pos hdot]
      exact ih (h.of_suffix ((List.suffix_cons _ _).trans hsuffix)) hrest hbound
  | case2 segment dot next hdot third rest hcolons ih =>
      have hjoint : isJoint dot = true := by simp [isJoint, hcolons.1]
      have hjoint' : isJoint next = true := by simp [isJoint, hcolons.2.1]
      have hkept : withoutDocumentation (dot :: next :: third :: rest) =
          dot :: next :: third :: withoutDocumentation rest := by
        rw [Token.withoutDocumentation_cons_of_not_starts (not_starts_of_isJoint hjoint _),
          Token.withoutDocumentation_cons_of_not_starts (not_starts_of_isJoint hjoint' _),
          Token.withoutDocumentation_cons_of_ne (by simp [hcolons.2.2])]
      have hsuffix : third :: rest <:+ dot :: next :: third :: rest :=
        (List.suffix_cons _ _).trans (List.suffix_cons _ _)
      have hrest : dividesName rest = false := h third rest hsuffix hcolons.2.2
        (hbound.trans (lastSegment_isSuffix third.text rest).length_le)
      rw [hkept, lastSegment.eq_def]
      dsimp only
      rw [if_neg hdot, if_pos hcolons]
      exact ih (h.of_suffix ((List.suffix_cons _ _).trans hsuffix)) hrest hbound
  | case3 segment dot next hdot third rest hcolons =>
      refine lastSegment_of_stopped segment hname ?_
      simp only [not_and] at hdot hcolons
      simpa [continuesName] using ⟨hdot, hcolons⟩
  | case4 segment dot next hdot =>
      refine lastSegment_of_stopped segment hname ?_
      simpa [continuesName] using hdot
  | case5 segment rest hshort =>
      refine lastSegment_of_stopped segment hname ?_
      match rest, hshort with
      | [], _ => rfl
      | [_], _ => rfl
      | _ :: _ :: _, hshort => exact (hshort _ _ _ rfl).elim

/-- Where a section passes over a token of some kind, it does so without documentation lines. -/
theorem attributeNames_passed {depth depth' : Nat} {expected expected' : Bool} {token : Token}
    {rest : List Token} (hkind : token.kind ≠ .documentation)
    (hpass : ∀ following, attributeNames depth expected (token :: following) =
      attributeNames depth' expected' following)
    (hrest : attributeNames depth' expected' (withoutDocumentation rest) =
      ((attributeNames depth' expected' rest).1,
        withoutDocumentation (attributeNames depth' expected' rest).2)) :
    attributeNames depth expected (withoutDocumentation (token :: rest)) =
      ((attributeNames depth' expected' rest).1,
        withoutDocumentation (attributeNames depth' expected' rest).2) := by
  rw [Token.withoutDocumentation_cons_of_ne hkind, hpass, hrest]

/-- The names of a section whose names are undivided are the same without documentation lines. -/
theorem attributeNames_withoutDocumentation {bound : Nat} (depth : Nat) (expected : Bool)
    (h : Undivided bound tokens)
    (hbound : bound ≤ (attributeNames depth expected tokens).2.length) :
    attributeNames depth expected (withoutDocumentation tokens) =
      ((attributeNames depth expected tokens).1,
        withoutDocumentation (attributeNames depth expected tokens).2) := by
  fun_induction attributeNames depth expected tokens with
  | case1 => rw [Token.withoutDocumentation_nil, attributeNames]
  | case2 depth expected token rest c hkind hopens ih =>
      refine attributeNames_passed (by simp [hkind]) (fun following => ?_)
        (ih (h.of_suffix (List.suffix_cons _ _)) hbound)
      rw [attributeNames]
      simp [hkind, hopens]
  | case3 depth expected token rest c hkind hopens hcloses ih =>
      refine attributeNames_passed (by simp [hkind]) (fun following => ?_)
        (ih (h.of_suffix (List.suffix_cons _ _)) hbound)
      rw [attributeNames]
      simp [hkind, hopens, hcloses]
  | case4 expected token rest hkind hopens hcloses =>
      rw [Token.withoutDocumentation_cons_of_ne (by simp [hkind]),
        attributeNames_end hkind]
  | case5 depth expected token rest hdepth hkind hopens hcloses ih =>
      refine attributeNames_passed (by simp [hkind]) (fun following => ?_)
        (ih (h.of_suffix (List.suffix_cons _ _)) hbound)
      rw [attributeNames]
      simp [hkind, hopens, hcloses, hdepth]
  | case6 depth expected token rest c hkind hopens hcloses hend ih =>
      refine attributeNames_passed (by simp [hkind]) (fun following => ?_)
        (ih (h.of_suffix (List.suffix_cons _ _)) hbound)
      rw [attributeNames]
      simp [hkind, hopens, hcloses, hend]
  | case7 depth expected token rest hkind hplace htarget ih =>
      have hname : dividesName rest = false :=
        h token rest (List.suffix_refl _) hkind
          (hbound.trans ((attributeNames_isSuffix _ _ _).trans (List.tail_suffix _)).length_le)
      have hrest : Undivided bound rest.tail :=
        h.of_suffix ((List.tail_suffix rest).trans (List.suffix_cons _ _))
      have htail : (withoutDocumentation rest).tail = withoutDocumentation rest.tail := by
        rcases endsName_or_joint hname with ⟨hends, -⟩ | ⟨joint, rest', rfl, -, hkept, -⟩
        · rw [isTarget_of_endsName hends] at htarget
          contradiction
        · rw [hkept, List.tail_cons, List.tail_cons]
      rw [Token.withoutDocumentation_cons_of_ne (by simp [hkind]), attributeNames]
      simp only [hkind]
      rw [if_pos hplace, if_pos ((isTarget_withoutDocumentation hname).trans htarget), htail]
      exact ih hrest hbound
  | case8 depth expected token rest hkind hplace htarget name following ih =>
      have hname : dividesName rest = false :=
        h token rest (List.suffix_refl _) hkind
          (hbound.trans ((attributeNames_isSuffix _ _ _).trans
            (lastSegment_isSuffix _ _)).length_le)
      have hrest : Undivided bound rest := h.of_suffix (List.suffix_cons _ _)
      have hsegment := lastSegment_withoutDocumentation token.text hrest hname
        (hbound.trans (attributeNames_isSuffix _ _ _).length_le)
      rw [Token.withoutDocumentation_cons_of_ne (by simp [hkind]), attributeNames]
      simp only [hkind]
      rw [if_pos hplace, if_neg (by rwa [isTarget_withoutDocumentation hname]), hsegment,
        ih (hrest.of_suffix (lastSegment_isSuffix _ _)) hbound]
  | case9 depth expected token rest hkind hplace ih =>
      refine attributeNames_passed (by simp [hkind]) (fun following => ?_)
        (ih (h.of_suffix (List.suffix_cons _ _)) hbound)
      rw [attributeNames]
      simp [hkind, hplace]
  | case10 depth expected token rest hkind ih =>
      refine attributeNames_passed (by simp [hkind]) (fun following => ?_)
        (ih (h.of_suffix (List.suffix_cons _ _)) hbound)
      rw [attributeNames]
      simp [hkind]
  | case11 depth expected token rest hkind ih =>
      rw [Token.withoutDocumentation_cons_of_kind hkind]
      exact ih (h.of_suffix (List.suffix_cons _ _)) hbound

theorem undivided_of_isUndivided (h : isUndivided tokens = true) :
    Undivided (attributeNames 0 true tokens).2.length tokens := by
  intro token rest hsuffix hkind hlength
  have hrest := List.all_eq_true.1 h (token :: rest) ((List.mem_tails _ _).2 hsuffix)
  simpa [hkind, Nat.not_lt.2 hlength] using hrest

/-! ## Headers -/

/-- The name of a namespace that ends before a documentation line is the whole name. -/
theorem namespaceName_withoutDocumentation
    (h : startsWithDocumentation (tokens.dropWhile isNamespacePart) = false) :
    namespaceName (withoutDocumentation tokens) = namespaceName tokens ∧
      (withoutDocumentation tokens).dropWhile isNamespacePart =
        withoutDocumentation (tokens.dropWhile isNamespacePart) := by
  unfold namespaceName
  induction tokens with
  | nil => exact ⟨rfl, rfl⟩
  | cons token rest ih =>
      by_cases hpart : isNamespacePart token = true
      · have hkind : token.kind ≠ .documentation := by
          intro hkind
          simp [isNamespacePart, hkind] at hpart
        rw [List.dropWhile_cons_of_pos hpart] at h
        obtain ⟨hname, hrest⟩ := ih h
        rw [Token.withoutDocumentation_cons_of_ne hkind, List.dropWhile_cons_of_pos hpart,
          List.dropWhile_cons_of_pos hpart, List.takeWhile_cons_of_pos hpart,
          List.takeWhile_cons_of_pos hpart, List.map_cons, List.map_cons, String.join_cons,
          String.join_cons, hname]
        exact ⟨rfl, hrest⟩
      · rw [List.dropWhile_cons_of_neg hpart] at h ⊢
        rw [Token.withoutDocumentation_cons_of_not_starts h, List.dropWhile_cons_of_neg hpart,
          List.takeWhile_cons_of_neg hpart, List.takeWhile_cons_of_neg hpart]
        exact ⟨rfl, rfl⟩

/-- A state without the documentation collected for declarations. -/
def State.withoutDocumentation (state : State) : State :=
  { state with
    documentation := []
    pending := state.pending.map Declaration.withoutDocumentation }

/-- An outcome without documentation. -/
def Outcome.withoutDocumentation (outcome : Outcome) : Outcome where
  completed := outcome.completed.map Declaration.withoutDocumentation
  state := outcome.state.withoutDocumentation
  rest := Token.withoutDocumentation outcome.rest

theorem enterNamespace_withoutDocumentation (state : State)
    (h : startsWithDocumentation (tokens.dropWhile isNamespacePart) = false) :
    enterNamespace state.withoutDocumentation (withoutDocumentation tokens) =
      ((enterNamespace state tokens).1.withoutDocumentation,
        withoutDocumentation (enterNamespace state tokens).2) := by
  obtain ⟨hname, hrest⟩ := namespaceName_withoutDocumentation h
  unfold enterNamespace
  rw [hname, hrest]
  cases hafter : tokens.dropWhile isNamespacePart with
  | nil => rfl
  | cons token rest =>
      rw [hafter] at h
      rw [Token.withoutDocumentation_cons_of_not_starts h]
      dsimp only
      split
      · rfl
      · split <;> rfl

theorem kindAndName_withoutDocumentation (kind : TypeKind)
    (h : startsWithDocumentation (kindAndName kind tokens).2 = false) :
    kindAndName kind (withoutDocumentation tokens) =
      ((kindAndName kind tokens).1, withoutDocumentation (kindAndName kind tokens).2) := by
  by_cases hrecord : kind = .recordType
  · subst hrecord
    cases tokens with
    | nil => rfl
    | cons next rest =>
        by_cases hkind : next.kind = .documentation
        · simp [kindAndName, Token.isIdentifier, hkind, startsWithDocumentation,
            Token.isDocumentation] at h
        · rw [Token.withoutDocumentation_cons_of_ne hkind, kindAndName, kindAndName]
          split
          · rfl
          · split
            · rfl
            · rw [Token.withoutDocumentation_cons_of_ne hkind]
  · have hplain (following : List Token) : kindAndName kind following = (kind, following) := by
      cases kind <;> first | rfl | contradiction
    rw [hplain, hplain]

theorem enterHeader_withoutDocumentation (state : State) (kind : TypeKind)
    (h : startsWithDocumentation (kindAndName kind tokens).2 = false) :
    enterHeader state.withoutDocumentation kind (withoutDocumentation tokens) =
      ((enterHeader state kind tokens).1.withoutDocumentation,
        withoutDocumentation (enterHeader state kind tokens).2) := by
  unfold enterHeader
  rw [kindAndName_withoutDocumentation kind h]
  generalize kindAndName kind tokens = header at h
  obtain ⟨own, after⟩ := header
  cases after with
  | nil => rfl
  | cons name rest =>
      have hkept := Token.withoutDocumentation_cons_of_not_starts h
      dsimp only
      rw [hkept]
      dsimp only
      split
      · rfl
      · rw [hkept]
        rfl

/-! ## Steps -/

variable {state : State}

theorem openBrace_withoutDocumentation (state : State) (kind : TokenKind) :
    openBrace state.withoutDocumentation kind =
      ((openBrace state kind).1.map Declaration.withoutDocumentation,
        (openBrace state kind).2.withoutDocumentation) := by
  obtain ⟨scopes, fileNamespace, attributes, documentation, last, pending⟩ := state
  cases pending <;> rfl

theorem stepPunctuation_withoutDocumentation (c : Char) {rest : List Token}
    (h : c = '[' ∧ state.pending = none ∧ state.atMemberStart = true → isUndivided rest = true) :
    stepPunctuation state.withoutDocumentation c (withoutDocumentation rest) =
      (stepPunctuation state c rest).withoutDocumentation := by
  have hpending : state.withoutDocumentation.pending = none ↔ state.pending = none :=
    Option.map_eq_none_iff
  have hstart : state.withoutDocumentation.atMemberStart = state.atMemberStart := rfl
  have hcompleted : state.withoutDocumentation.pending.toList =
      state.pending.toList.map Declaration.withoutDocumentation :=
    Option.toList_map
  unfold stepPunctuation
  simp only [hpending, hstart, hcompleted, openBrace_withoutDocumentation]
  split
  · rename_i hsection
    have hnames := attributeNames_withoutDocumentation 0 true
      (undivided_of_isUndivided (h hsection)) (Nat.le_refl _)
    rw [hnames]
    rfl
  · split
    · rfl
    · split
      · rfl
      · split <;> rfl

theorem stepIdentifier_withoutDocumentation {token : Token} {rest : List Token}
    (hkind : token.kind = .identifier) (h : isReadThrough state token rest = true) :
    stepIdentifier state.withoutDocumentation token.text (withoutDocumentation rest) =
      (stepIdentifier state token.text rest).withoutDocumentation := by
  have hpending : state.withoutDocumentation.pending.isSome = state.pending.isSome :=
    Option.isSome_map
  have hconstraint : state.withoutDocumentation.inConstraint = state.inConstraint := rfl
  unfold isReadThrough at h
  simp only [hkind] at h
  unfold stepIdentifier
  simp only [hpending, hconstraint]
  split
  · rfl
  · rename_i hnone
    rw [if_neg hnone] at h
    split
    · rename_i hspace
      rw [if_pos hspace, Bool.not_eq_true'] at h
      rw [enterNamespace_withoutDocumentation state h]
      rfl
    · rename_i hspace
      rw [if_neg hspace] at h
      split
      · rename_i kind hkeyword
        rw [hkeyword] at h
        split
        · rfl
        · rename_i hheader
          simp only [Bool.not_eq_true] at hheader
          simp only [hheader, Bool.false_or, Bool.not_eq_true'] at h
          rw [enterHeader_withoutDocumentation state kind h]
          rfl
      · rfl

/-- Outside of members' bodies a step does the same without documentation lines, where none cuts off
what the step reads ahead. -/
theorem step_withoutDocumentation {token : Token} {rest : List Token} (hopen : IsOpen state.scopes)
    (hkind : token.kind ≠ .documentation) (h : isReadThrough state token rest = true) :
    step state.withoutDocumentation token (withoutDocumentation rest) =
      (step state token rest).withoutDocumentation := by
  have hopen' : IsOpen state.withoutDocumentation.scopes := hopen
  cases hcase : token.kind with
  | identifier =>
      rw [step_identifier hopen hcase, step_identifier hopen' hcase]
      exact stepIdentifier_withoutDocumentation hcase h
  | punctuation c =>
      rw [step_punctuation hopen hcase, step_punctuation hopen' hcase]
      refine stepPunctuation_withoutDocumentation c fun hsection => ?_
      simpa [isReadThrough, hcase, hsection] using h
  | literal =>
      rw [step_literal hopen hcase, step_literal hopen' hcase]
      rfl
  | documentation => exact absurd hcase hkind

/-- The state of a scan without documentation lines beside that of a scan with them.  In a member's
body the token before does not matter: it closes a brace when the body ends. -/
def Agree (kept plain : State) : Prop :=
  ∃ last, plain = { kept.withoutDocumentation with last := last } ∧
    (IsOpen kept.scopes → last = kept.last)

theorem agree_withoutDocumentation (state : State) : Agree state state.withoutDocumentation :=
  ⟨state.last, rfl, fun _ => rfl⟩

theorem Agree.eq_of_isOpen {kept plain : State} (h : Agree kept plain)
    (hopen : IsOpen kept.scopes) : plain = kept.withoutDocumentation := by
  obtain ⟨last, rfl, hlast⟩ := h
  rw [hlast hopen]
  rfl

/-- A documentation line leaves the states beside each other. -/
theorem Agree.documentation {kept plain : State} (h : Agree kept plain) {token : Token}
    (hkind : token.kind = .documentation) (rest : List Token) :
    ∃ state', Agree state' plain ∧ step kept token rest = ⟨[], state', rest⟩ := by
  obtain ⟨last, rfl, hlast⟩ := h
  by_cases hopen : IsOpen kept.scopes
  · unfold step
    rw [if_neg hopen]
    simp only [hkind]
    split
    · refine ⟨_, ?_, rfl⟩
      exact ⟨last, rfl, hlast⟩
    · exact ⟨kept, ⟨last, rfl, hlast⟩, rfl⟩
  · rw [step_block (not_not.1 hopen), stepBlock_of_ne kept (by simp [hkind]) (by simp [hkind])]
    refine ⟨_, ?_, rfl⟩
    exact ⟨last, rfl, fun hopen' => absurd hopen' hopen⟩

/-- In a member's body every token leaves the states beside each other. -/
theorem Agree.stepBlock {kept plain : State} (h : Agree kept plain) (token : Token) :
    Agree (stepBlock kept token) (stepBlock plain token) := by
  obtain ⟨last, rfl, -⟩ := h
  exact ⟨some token.kind, rfl, fun _ => rfl⟩

/-- What a scan finds without documentation lines is what it finds with them, except for the
documentation, if they cut off no name. -/
theorem scan_withoutDocumentation {kept plain : State} (hagree : Agree kept plain)
    (h : isUninterrupted kept tokens = true) :
    scan plain (withoutDocumentation tokens) =
      (scan kept tokens).map Declaration.withoutDocumentation := by
  fun_induction scan kept tokens generalizing plain with
  | case1 kept =>
      obtain ⟨last, rfl, -⟩ := hagree
      rw [Token.withoutDocumentation_nil, scan_nil]
      exact Option.toList_map
  | case2 kept token rest ih =>
      rw [isUninterrupted, Bool.and_eq_true, Bool.or_eq_true, beq_iff_eq] at h
      obtain ⟨hread, hrest⟩ := h
      by_cases hkind : token.kind = .documentation
      · obtain ⟨state', hagree', hstep⟩ := hagree.documentation hkind rest
        rw [hstep] at ih hrest ⊢
        rw [Token.withoutDocumentation_cons_of_kind hkind, List.nil_append]
        exact ih hagree' hrest
      · rw [Token.withoutDocumentation_cons_of_ne hkind, scan_cons, List.map_append]
        by_cases hblock : kept.scopes.head? = some .block
        · have hblock' : plain.scopes.head? = some .block := by
            obtain ⟨last, rfl, -⟩ := hagree
            exact hblock
          rw [step_block hblock] at ih hrest ⊢
          rw [step_block hblock']
          exact ih (hagree.stepBlock token) hrest
        · rw [hagree.eq_of_isOpen hblock,
            step_withoutDocumentation hblock hkind (hread.resolve_left hblock)]
          exact congrArg _ (ih (agree_withoutDocumentation _) hrest)

end DeclarationScan

namespace SourceTree

open DeclarationScan

/-- Whether no documentation line of a text cuts off a name in its active regions: the name of a
namespace, the name of a type or the name of an attribute. -/
def isUninterrupted (symbols : Symbols) (text : List Char) : Bool :=
  DeclarationScan.isUninterrupted State.initial (Token.ofText true (activeText symbols text))

theorem declarationsOf_dropped {symbols : Symbols} {text : List Char}
    (h : isUninterrupted symbols text = true) :
    declarationsOf ⟨.dropped, symbols⟩ text =
      (declarationsOf ⟨.kept, symbols⟩ text).map Declaration.withoutDocumentation := by
  have htokens : Token.ofText (DocumentationMode.dropped == .kept) (activeText symbols text) =
      Token.withoutDocumentation
        (Token.ofText (DocumentationMode.kept == .kept) (activeText symbols text)) :=
    Token.ofText_false _
  unfold declarationsOf Declaration.ofTokens
  rw [htokens]
  exact scan_withoutDocumentation (agree_withoutDocumentation State.initial) h

/-- Where the documentation lines of a file cut off no name, dropping them changes nothing but the
documentation of its declarations: the same types are found with the same namespaces, enclosing
types, attributes and lines, and the same files declare the marking attribute. -/
theorem documentation_dropped (path : Path) (text : String) (symbols : Symbols)
    (h : isUninterrupted symbols (withoutMark text).toList = true) :
    (parse path text ⟨.dropped, symbols⟩).declarations =
        (parse path text ⟨.kept, symbols⟩).declarations.map Declaration.withoutDocumentation ∧
      (parse path text ⟨.dropped, symbols⟩).declaresMarker =
        (parse path text ⟨.kept, symbols⟩).declaresMarker := by
  have hdeclarations := declarationsOf_dropped h
  refine ⟨hdeclarations, ?_⟩
  change (declarationsOf _ _).any _ = (declarationsOf _ _).any _
  rw [hdeclarations, List.any_map]
  rfl

/-- A class with documentation lines between and inside of its parts, none of which cuts off a
name. -/
def documentedText : String :=
  "/// Models.
namespace Game;
/// A player.
[Saved]
/// It is saved.
class Player
/// Members.
\x7b int Run() \x7b go /// Now.
; \x7d \x7d
"

set_option maxRecDepth 2000 in
/-- The documentation lines of a class are dropped and nothing else is. -/
theorem documentation_dropped_documentedText :
    isUninterrupted Symbols.empty (withoutMark documentedText).toList = true ∧
      (parse ⟨"Player.cs"⟩ documentedText ⟨.dropped, Symbols.empty⟩).declarations =
        [⟨.classType, "Player", some "Game", [], ["Saved"], none, 6⟩] := by
  obtain ⟨text, htext, hhead, huninterrupted, hkept⟩ :
      ∃ text, documentedText = String.ofList text ∧ text.head? = some '/' ∧
        isUninterrupted Symbols.empty text = true ∧
        declarationsOf ⟨.kept, Symbols.empty⟩ text =
          [⟨.classType, "Player", some "Game", [], ["Saved"],
            some "A player.\nIt is saved.", 6⟩] :=
    -- The characters are taken from the literal by unification; decoding it would be expensive.
    ⟨_, rfl, by decide +kernel, by decide +kernel, by decide +kernel⟩
  have hchars : (withoutMark documentedText).toList = text :=
    toList_withoutMark htext hhead (by decide)
  have hwhole : isUninterrupted Symbols.empty (withoutMark documentedText).toList = true :=
    hchars ▸ huninterrupted
  refine ⟨hwhole, ?_⟩
  rw [(documentation_dropped ⟨"Player.cs"⟩ documentedText Symbols.empty hwhole).1]
  change (declarationsOf _ (withoutMark documentedText).toList).map _ = _
  rw [hchars, hkept]
  rfl

/-- A namespace with a documentation line between its name and its brace. -/
def interruptedText : String :=
  "namespace Game
/// Models of the game.
\x7b
    class Player \x7b \x7d
\x7d
"

set_option maxRecDepth 2000 in
/-- A documentation line after the name of a namespace hides the types in it: the brace that follows
opens a member's body then. -/
theorem declarations_interruptedText :
    (parse ⟨"Player.cs"⟩ interruptedText ⟨.kept, Symbols.empty⟩).declarations = [] ∧
      (parse ⟨"Player.cs"⟩ interruptedText ⟨.dropped, Symbols.empty⟩).declarations =
        [⟨.classType, "Player", some "Game", [], [], none, 4⟩] := by
  obtain ⟨text, htext, hhead, hkept, hdropped⟩ :
      ∃ text, interruptedText = String.ofList text ∧ text.head? = some 'n' ∧
        declarationsOf ⟨.kept, Symbols.empty⟩ text = [] ∧
        declarationsOf ⟨.dropped, Symbols.empty⟩ text =
          [⟨.classType, "Player", some "Game", [], [], none, 4⟩] :=
    ⟨_, rfl, by decide +kernel, by decide +kernel, by decide +kernel⟩
  have hchars : (withoutMark interruptedText).toList = text :=
    toList_withoutMark htext hhead (by decide)
  change declarationsOf _ (withoutMark interruptedText).toList = _ ∧
    declarationsOf _ (withoutMark interruptedText).toList = _
  rw [hchars]
  exact ⟨hkept, hdropped⟩

end SourceTree
end ProjectAssembler
