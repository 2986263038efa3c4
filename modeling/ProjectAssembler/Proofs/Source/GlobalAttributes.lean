import ProjectAssembler.Proofs.Source.GenericAttributes

/-!
# Attributes of the whole assembly

A section at the top of a file may have a target, which says that its attributes are those of the
assembly or of the module.  The scan drops the target and collects the names of the section like
those of any other one, until something ends the member that it takes them for.

Main definitions:

* `Grammar.GlobalSection`: a section with such a target;
* `DeclarationScan.reachesHeader`: whether the attributes collected so far come to a type;
* `DeclarationScan.addToFirst`: declarations of which the first one has got further attributes.

Main results:

* `DeclarationScan.step_ahead` and `DeclarationScan.scan_ahead`: what one step and a whole scan do
  with attributes that were collected before;
* `DeclarationScan.ofTokens_globalSections`: what sections at the top of a file do to its
  declarations.
-/

namespace ProjectAssembler
namespace Grammar

/-! ## Sections -/

/-- What the attributes of a section at the top of a file are for. -/
inductive GlobalTarget where
  | ofAssembly
  | ofModule
deriving DecidableEq, Repr

/-- The word for a target. -/
def GlobalTarget.text : GlobalTarget → String
  | ofAssembly => "assembly"
  | ofModule => "module"

/-- A section with the attributes of the assembly or of the module. -/
structure GlobalSection extends GenericSection where
  target : GlobalTarget
  word : Nat
  colon : Nat

namespace GlobalSection

/-- The tokens of a section. -/
def tokens (part : GlobalSection) : List Token :=
  mark '[' part.opening :: ⟨.identifier, part.target.text, part.word⟩ :: mark ':' part.colon ::
    (part.first.tokens ++ (GenericSection.otherTokens part.others ++ [mark ']' part.closing]))

/-- What is recorded of the attributes of a section. -/
def recorded (part : GlobalSection) : List String :=
  part.attributes.flatMap GenericAttribute.recorded

theorem recorded_ne_nil (part : GlobalSection) : part.recorded ≠ [] :=
  List.cons_ne_nil _ _

end GlobalSection

end Grammar

namespace DeclarationScan

open Grammar

variable {scopes : List Scope} {fileNamespace : Option String}
  {attributes documentation extra : List String}

/-- A target is dropped. -/
theorem attributeNames_target {target next : Token} (htarget : target.kind = .identifier)
    (hnext : next.kind = .identifier) (colon : Nat) (rest : List Token) :
    attributeNames 0 true (target :: mark ':' colon :: next :: rest) =
      attributeNames 0 true (next :: rest) := by
  have hcolon : next.isPunctuation ':' = false := by
    unfold Token.isPunctuation
    rw [hnext]
    rfl
  have hisTarget : isTarget (mark ':' colon :: next :: rest) = true := by
    rw [isTarget, hcolon]
    rfl
  rw [attributeNames]
  simp only [htarget, hisTarget, and_self, if_true, List.tail_cons]

/-- A section is collected like one without a target. -/
theorem passes_globalSection (hopen : IsOpen scopes) (part : GlobalSection) :
    Passes (Collecting scopes fileNamespace attributes documentation) part.tokens []
      (Collecting scopes fileNamespace (attributes ++ part.recorded) (documentation ++ [])) := by
  rw [List.append_nil]
  refine passes_section hopen (fun rest => ?_) part.opening
  rw [List.cons_append, List.cons_append, List.append_assoc, List.append_assoc,
    List.singleton_append]
  exact (attributeNames_target rfl rfl part.colon _).trans
    (attributeNames_genericSection part.first part.others part.closing rest)

/-- Sections at the top of a file are collected, in their order. -/
theorem passes_globalSections (hopen : IsOpen scopes) (sections : List GlobalSection) :
    Passes (Between scopes fileNamespace) (sections.flatMap GlobalSection.tokens) []
      (Collecting scopes fileNamespace (sections.flatMap GlobalSection.recorded) []) := by
  have hall : Passes (Between scopes fileNamespace) (sections.flatMap GlobalSection.tokens) []
      (Collecting scopes fileNamespace (sections.flatMap GlobalSection.recorded)
        (sections.flatMap fun _ => [])) :=
    passes_collected (fun part _ _ => passes_globalSection hopen part) sections
  rwa [List.flatMap_eq_nil_iff.2 fun _ _ => rfl] at hall

/-! ## Where attributes come to -/

/-- Whether a token ends a member, or begins a namespace, so that attributes collected for a member
are dropped. -/
def endsMember (token : Token) : Bool :=
  isStop token || token.isIdentifier "namespace"

/-- Whether a scan comes to the header of a type before it comes to a token that ends a member. -/
def reachesHeader (state : State) : List Token → Bool
  | [] => false
  | token :: rest =>
      !endsMember token &&
        ((step state token rest).state.pending.isSome ||
          reachesHeader (step state token rest).state (step state token rest).rest)
termination_by tokens => tokens.length
decreasing_by exact Nat.lt_succ_of_le (step_isSuffix state token rest).length_le

@[simp]
theorem reachesHeader_nil (state : State) : reachesHeader state [] = false := by
  rw [reachesHeader]

theorem reachesHeader_cons (state : State) (token : Token) (rest : List Token) :
    reachesHeader state (token :: rest) =
      (!endsMember token &&
        ((step state token rest).state.pending.isSome ||
          reachesHeader (step state token rest).state (step state token rest).rest)) := by
  rw [reachesHeader]

/-- The declaration with further attributes before its own. -/
def withExtra (extra : List String) (declaration : Declaration) : Declaration :=
  { declaration with attributes := extra ++ declaration.attributes }

/-- Declarations of which the first one has got further attributes before its own. -/
def addToFirst (extra : List String) : List Declaration → List Declaration
  | [] => []
  | declaration :: rest => withExtra extra declaration :: rest

theorem addToFirst_eq_self_iff (extra : List String) (declarations : List Declaration) :
    addToFirst extra declarations = declarations ↔ extra = [] ∨ declarations = [] := by
  cases declarations with
  | nil => exact iff_of_true rfl (Or.inr rfl)
  | cons declaration rest =>
      constructor
      · intro h
        have hattributes := congrArg Declaration.attributes (List.cons.inj h).1
        exact Or.inl (List.append_left_eq_self.1 hattributes)
      · rintro (rfl | hnil)
        · rfl
        · contradiction

/-! ## Headers that wait -/

/-- Outside of all braces a token leaves a declaration waiting or completes it; which of them it
does and what it leads to depends on no more of the declaration than its name. -/
theorem step_awaiting (fileNamespace : Option String) (last : Option TokenKind) (token : Token)
    (rest : List Token) :
    (∃ last', ∀ declaration,
        step ⟨[], fileNamespace, [], [], last, some declaration⟩ token rest =
          ⟨[], ⟨[], fileNamespace, [], [], last', some declaration⟩, rest⟩) ∨
      ∃ (inside : String → List Scope) (last' : Option TokenKind), ∀ declaration,
        step ⟨[], fileNamespace, [], [], last, some declaration⟩ token rest =
          ⟨[declaration], ⟨inside declaration.name, fileNamespace, [], [], last', none⟩, rest⟩ := by
  cases hkind : token.kind with
  | documentation =>
      refine Or.inl ⟨last, fun declaration => ?_⟩
      unfold step
      rw [if_neg isOpen_nil]
      simp only [hkind]
      rfl
  | literal => exact Or.inl ⟨_, fun declaration => step_literal isOpen_nil hkind rest⟩
  | identifier =>
      refine Or.inl ⟨some .identifier, fun declaration => ?_⟩
      rw [step_identifier isOpen_nil hkind]
      rfl
  | punctuation c =>
      by_cases hopening : c = '{'
      · refine Or.inr ⟨fun name => [.type name], some (.punctuation '{'), fun declaration => ?_⟩
        rw [step_punctuation isOpen_nil hkind, hopening]
        rfl
      · by_cases hsemicolon : c = ';'
        · refine Or.inr ⟨fun _ => [], some (.punctuation ';'), fun declaration => ?_⟩
          rw [step_punctuation isOpen_nil hkind, hsemicolon]
          rfl
        · refine Or.inl ⟨some (.punctuation c), fun declaration => ?_⟩
          rw [step_punctuation isOpen_nil hkind]
          unfold stepPunctuation
          simp [hopening, hsemicolon, State.cleared]

/-- Outside of all braces a declaration that waits is completed next, and what comes after it does
not depend on its attributes. -/
theorem exists_scan_awaiting (fileNamespace : Option String) (last : Option TokenKind)
    (declaration : Declaration) (tokens : List Token) :
    ∃ later, ∀ extra,
      scan ⟨[], fileNamespace, [], [], last, some (withExtra extra declaration)⟩ tokens =
        withExtra extra declaration :: later := by
  induction tokens generalizing last with
  | nil => exact ⟨[], fun _ => scan_nil _⟩
  | cons token rest ih =>
      rcases step_awaiting fileNamespace last token rest with
        ⟨last', hstep⟩ | ⟨inside, last', hstep⟩
      · obtain ⟨later, hlater⟩ := ih last'
        refine ⟨later, fun extra => ?_⟩
        rw [scan_cons, hstep]
        exact hlater extra
      · refine ⟨scan ⟨inside declaration.name, fileNamespace, [], [], last', none⟩ rest,
          fun extra => ?_⟩
        rw [scan_cons, hstep]
        rfl

/-- A type keyword makes a declaration wait or is passed over, whatever the state. -/
theorem enterHeader_cases (kind : TypeKind) (tokens : List Token) :
    (∃ own name rest, ∀ state, enterHeader state kind tokens =
        ({ state.cleared with
          last := some .identifier, pending := some (state.declare own name) }, rest)) ∨
      ∃ rest, ∀ state, enterHeader state kind tokens =
        ({ state with last := some .identifier }, rest) := by
  unfold enterHeader
  simp only
  cases (kindAndName kind tokens).2 with
  | nil => exact Or.inr ⟨[], fun _ => rfl⟩
  | cons name rest =>
      by_cases hname : name.kind = .identifier ∧ name.text ∉ notNames
      · exact Or.inl ⟨(kindAndName kind tokens).1, name, rest, fun _ => if_pos hname⟩
      · exact Or.inr ⟨name :: rest, fun _ => if_neg hname⟩

/-! ## Two scans -/

/-- The states of two scans outside of all braces, of which the second has collected further
attributes before those of the first. -/
def Ahead (extra : List String) (state state' : State) : Prop :=
  ∃ fileNamespace attributes documentation last last',
    state = ⟨[], fileNamespace, attributes, documentation, last, none⟩ ∧
      state' = ⟨[], fileNamespace, extra ++ attributes, documentation, last', none⟩ ∧
      (last' = last ∨ state'.atMemberStart = true ∧ state.atMemberStart = true)

/-- The outcomes of one step of two scans, of which the second has collected further attributes: the
step drops the attributes, declares a type with them, or keeps them. -/
inductive Follows (extra : List String) (token : Token) : Outcome → Outcome → Prop where
  | dropped (hends : endsMember token = true) (outcome : Outcome) :
      Follows extra token outcome outcome
  | declared (hends : endsMember token = false) (fileNamespace : Option String)
      (last : Option TokenKind) (declaration : Declaration) (rest : List Token) :
      Follows extra token
        ⟨[], ⟨[], fileNamespace, [], [], last, some declaration⟩, rest⟩
        ⟨[], ⟨[], fileNamespace, [], [], last, some (withExtra extra declaration)⟩, rest⟩
  | kept (hends : endsMember token = false) {state state' : State}
      (hahead : Ahead extra state state') (rest : List Token) :
      Follows extra token ⟨[], state, rest⟩ ⟨[], state', rest⟩

section

variable {state state' : State}

theorem Ahead.scopes_eq_nil (h : Ahead extra state state') :
    state.scopes = [] ∧ state'.scopes = [] := by
  obtain ⟨fileNamespace, attributes, documentation, last, last', rfl, rfl, -⟩ := h
  exact ⟨rfl, rfl⟩

theorem Ahead.pending_eq_none (h : Ahead extra state state') :
    state.pending = none ∧ state'.pending = none := by
  obtain ⟨fileNamespace, attributes, documentation, last, last', rfl, rfl, -⟩ := h
  exact ⟨rfl, rfl⟩

theorem Ahead.atMemberStart_eq (h : Ahead extra state state') :
    state'.atMemberStart = state.atMemberStart := by
  obtain ⟨fileNamespace, attributes, documentation, last, last', rfl, rfl, hlast⟩ := h
  rcases hlast with rfl | ⟨hstart', hstart⟩
  · rfl
  · rw [hstart', hstart]

theorem Ahead.inConstraint_eq (h : Ahead extra state state') :
    state'.inConstraint = state.inConstraint := by
  obtain ⟨fileNamespace, attributes, documentation, last, last', rfl, rfl, hlast⟩ := h
  rcases hlast with rfl | ⟨hstart', hstart⟩
  · rfl
  · rw [inConstraint_of_atMemberStart hstart', inConstraint_of_atMemberStart hstart]

/-- After the same token the second scan is still ahead. -/
theorem Ahead.withLast (h : Ahead extra state state') (last : Option TokenKind) :
    Ahead extra { state with last } { state' with last } := by
  obtain ⟨fileNamespace, attributes, documentation, before, before', rfl, rfl, -⟩ := h
  exact ⟨fileNamespace, attributes, documentation, last, last, rfl, rfl, Or.inl rfl⟩

theorem enterNamespace_ahead (h : Ahead extra state state') (tokens : List Token) :
    enterNamespace state' tokens = enterNamespace state tokens := by
  obtain ⟨fileNamespace, attributes, documentation, last, last', rfl, rfl, -⟩ := h
  unfold enterNamespace
  cases tokens.dropWhile isNamespacePart <;> rfl

/-- Literals and documentation end no member. -/
theorem endsMember_eq_false {token : Token}
    (hkind : token.kind = .literal ∨ token.kind = .documentation) : endsMember token = false := by
  rcases hkind with hkind | hkind <;>
    simp [endsMember, isStop, Token.isPunctuation, Token.isIdentifier, hkind]

theorem endsMember_identifier {token : Token} (hkind : token.kind = .identifier) :
    endsMember token = (token.text == "namespace") := by
  simp [endsMember, isStop, Token.isPunctuation, Token.isIdentifier, hkind]

/-- One step of two scans at an identifier. -/
theorem stepIdentifier_ahead (h : Ahead extra state state') {token : Token}
    (hkind : token.kind = .identifier) (rest : List Token) :
    Follows extra token (stepIdentifier state token.text rest)
      (stepIdentifier state' token.text rest) := by
  obtain ⟨hpending, hpending'⟩ := h.pending_eq_none
  by_cases hspace : token.text = "namespace"
  · have hends : endsMember token = true := by
      rw [endsMember_identifier hkind, hspace]
      rfl
    have hsame : stepIdentifier state' token.text rest = stepIdentifier state token.text rest := by
      unfold stepIdentifier
      simp only [hpending, hpending', hspace, enterNamespace_ahead h, Option.isSome_none,
        Bool.false_eq_true, if_false, if_true]
    rw [hsame]
    exact .dropped hends _
  · have hends : endsMember token = false := by
      rw [endsMember_identifier hkind]
      exact beq_false_of_ne hspace
    have hplain (hkeyword : (TypeKind.ofKeyword? token.text).isSome = true →
        state.inConstraint = true) :
        Follows extra token (stepIdentifier state token.text rest)
          (stepIdentifier state' token.text rest) := by
      rw [stepIdentifier_plain hspace hkeyword, stepIdentifier_plain hspace
        (by rwa [h.inConstraint_eq])]
      exact .kept hends (h.withLast _) rest
    cases hkeyword : TypeKind.ofKeyword? token.text with
    | none => exact hplain (by rw [hkeyword]; simp)
    | some kind =>
        by_cases hconstraint : state.inConstraint = true
        · exact hplain fun _ => hconstraint
        · rw [Bool.not_eq_true] at hconstraint
          rw [stepIdentifier_keyword hpending hkeyword hconstraint,
            stepIdentifier_keyword hpending' hkeyword (by rwa [h.inConstraint_eq])]
          rcases enterHeader_cases kind rest with ⟨own, name, after, henter⟩ | ⟨after, henter⟩
          · -- A header takes all that has been collected, and nothing else of it depends on that.
            obtain ⟨fileNamespace, attributes, documentation, last, last', rfl, rfl, -⟩ := h
            rw [henter, henter]
            exact .declared hends fileNamespace (some .identifier)
              (State.declare ⟨[], fileNamespace, attributes, documentation, last, none⟩ own name)
              after
          · rw [henter, henter]
            exact .kept hends (h.withLast _) after

theorem endsMember_punctuation {token : Token} {c : Char} (hkind : token.kind = .punctuation c) :
    endsMember token = (c == '{' || c == '}' || c == ';') := by
  simp [endsMember, isStop, isPunctuation_of_kind hkind, Token.isIdentifier, hkind]

/-- One step of two scans at a punctuation character. -/
theorem stepPunctuation_ahead (h : Ahead extra state state') {token : Token} {c : Char}
    (hkind : token.kind = .punctuation c) (rest : List Token) :
    Follows extra token (stepPunctuation state c rest) (stepPunctuation state' c rest) := by
  have hstart := h.atMemberStart_eq
  obtain ⟨fileNamespace, attributes, documentation, last, last', rfl, rfl, -⟩ := id h
  by_cases hstop : c = '{' ∨ c = '}' ∨ c = ';'
  · have hends : endsMember token = true := by
      rw [endsMember_punctuation hkind]
      rcases hstop with rfl | rfl | rfl <;> rfl
    rcases hstop with rfl | rfl | rfl <;> exact .dropped hends _
  · obtain ⟨hopening, hclosing, hsemicolon⟩ : c ≠ '{' ∧ c ≠ '}' ∧ c ≠ ';' := by
      simpa only [not_or] using hstop
    have hends : endsMember token = false := by
      rw [endsMember_punctuation hkind]
      simp [hopening, hclosing, hsemicolon]
    by_cases hsection : c = '[' ∧ State.atMemberStart
        ⟨[], fileNamespace, attributes, documentation, last, none⟩ = true
    · obtain ⟨rfl, hfirst⟩ := hsection
      rw [stepPunctuation_section rfl hfirst, stepPunctuation_section rfl (hstart.trans hfirst)]
      refine .kept hends ⟨fileNamespace, _, documentation, _, _, rfl, ?_, Or.inl rfl⟩ _
      simp only [List.append_assoc]
    · rw [stepPunctuation_plain (fun hall => hsection ⟨hall.1, hall.2.2⟩)
          ⟨hopening, hclosing, hsemicolon⟩,
        stepPunctuation_plain (fun hall => hsection ⟨hall.1, hstart ▸ hall.2.2⟩)
          ⟨hopening, hclosing, hsemicolon⟩]
      exact .kept hends (h.withLast _) rest

/-- One step of two scans. -/
theorem step_ahead (h : Ahead extra state state') (token : Token) (rest : List Token) :
    Follows extra token (step state token rest) (step state' token rest) := by
  have hopen : IsOpen state.scopes ∧ IsOpen state'.scopes := by
    rw [h.scopes_eq_nil.1, h.scopes_eq_nil.2]
    exact ⟨isOpen_nil, isOpen_nil⟩
  cases hkind : token.kind with
  | punctuation c =>
      rw [step_punctuation hopen.1 hkind, step_punctuation hopen.2 hkind]
      exact stepPunctuation_ahead h hkind rest
  | identifier =>
      rw [step_identifier hopen.1 hkind, step_identifier hopen.2 hkind]
      exact stepIdentifier_ahead h hkind rest
  | literal =>
      rw [step_literal hopen.1 hkind, step_literal hopen.2 hkind]
      exact .kept (endsMember_eq_false (Or.inl hkind)) (h.withLast _) rest
  | documentation =>
      obtain ⟨fileNamespace, attributes, documentation, last, last', rfl, rfl, hlast⟩ := h
      unfold step
      rw [if_neg isOpen_nil, if_neg isOpen_nil]
      simp only [hkind]
      exact .kept (endsMember_eq_false (Or.inr hkind))
        ⟨fileNamespace, attributes, documentation ++ [token.text], last, last', rfl, rfl, hlast⟩
        rest

/-- Two whole scans: the further attributes come to the first declaration, if they come to a type at
all. -/
theorem scan_ahead (h : Ahead extra state state') (tokens : List Token) :
    reachesHeader state' tokens = reachesHeader state tokens ∧
      (reachesHeader state tokens = true → scan state tokens ≠ []) ∧
      scan state' tokens =
        if reachesHeader state tokens = true then addToFirst extra (scan state tokens)
        else scan state tokens := by
  fun_induction scan state tokens generalizing state' with
  | case1 state =>
      rw [scan_nil, h.pending_eq_none.1, h.pending_eq_none.2]
      simp
  | case2 state token rest ih =>
      have hstep := step_ahead h token rest
      rw [scan_cons state', reachesHeader_cons state, reachesHeader_cons state']
      generalize step state token rest = outcome at hstep ih ⊢
      generalize step state' token rest = outcome' at hstep ⊢
      cases hstep with
      | dropped hends => simp [hends]
      | declared hends fileNamespace last declaration after =>
          obtain ⟨later, hlater⟩ := exists_scan_awaiting fileNamespace last declaration after
          have hplain : scan ⟨[], fileNamespace, [], [], last, some declaration⟩ after =
            declaration :: later := hlater []
          simp [hends, hlater extra, hplain, addToFirst]
      | kept hends hahead after =>
          simp only [hends, hahead.pending_eq_none.1, hahead.pending_eq_none.2,
            Option.isSome_none, Bool.not_false, Bool.true_and, Bool.false_or, List.nil_append]
          exact ih hahead

end

/-! ## Files -/

/-- Sections in front put a scan ahead of one without them. -/
theorem ahead_of_between {state state' : State} (h : Between [] fileNamespace state)
    (h' : Collecting [] fileNamespace extra [] state') : Ahead extra state state' := by
  obtain ⟨last, rfl, hstart⟩ := h
  obtain ⟨last', rfl, hstart'⟩ := h'
  refine ⟨fileNamespace, [], [], last, last', rfl, ?_, Or.inr ⟨hstart', hstart⟩⟩
  rw [List.append_nil]

/-- A scan comes to the type where its heading comes first. -/
theorem reachesHeader_heading (heading : Heading) (following : List Token) :
    reachesHeader State.initial (heading.tokens ++ following) = true := by
  -- Otherwise attributes collected before the heading would make no difference.
  have hheading (names : List String) (state : State) (hstate : Collecting [] none names [] state) :
      ∃ declaration later, declaration.attributes = names ++ heading.leads.flatMap Lead.names ∧
        scan state (heading.tokens ++ following) = declaration :: later := by
    obtain ⟨state', hstate', hscan⟩ :=
      passes_heading_collected isOpen_nil heading state hstate following
    have hattributes : (State.declare ⟨[], none, names ++ heading.leads.flatMap Lead.names,
        [] ++ heading.leads.flatMap Lead.lines, none, none⟩ heading.keywords.kind
        heading.name.token).attributes = names ++ heading.leads.flatMap Lead.names := rfl
    generalize State.declare _ _ _ = declaration at hstate' hattributes
    obtain ⟨last, rfl⟩ := hstate'
    obtain ⟨later, hlater⟩ := exists_scan_awaiting none last declaration following
    exact ⟨declaration, later, hattributes, hscan.trans (hlater [])⟩
  have hplain : Between [] none State.initial := ⟨none, rfl, rfl⟩
  have hextra : Collecting [] none [""] [] ⟨[], none, [""], [], none, none⟩ := ⟨none, rfl, rfl⟩
  obtain ⟨declaration, later, hattributes, hscan⟩ := hheading [] _ hplain
  obtain ⟨declaration', later', hattributes', hscan'⟩ := hheading [""] _ hextra
  by_contra hnot
  have hsame := (scan_ahead (ahead_of_between hplain hextra) (heading.tokens ++ following)).2.2
  rw [if_neg hnot, hscan, hscan'] at hsame
  have hnames := congrArg Declaration.attributes (List.cons.inj hsame).1
  rw [hattributes, hattributes'] at hnames
  simp at hnames

/-- What is recorded of the sections of the assembly and of the module behind the usings of a file
comes to the first type if the rest of the file comes to a type before it comes to a token that ends
a member or begins a namespace, and only then; all else is as without these sections.  The rest of
the file comes to a type if it begins with the heading of one. -/
theorem ofTokens_globalSections (fillers : List Filler) (sections : List GlobalSection)
    (rest : List Token) :
    Declaration.ofTokens (fillers.flatMap Filler.tokens ++
        (sections.flatMap GlobalSection.tokens ++ rest)) =
        (if reachesHeader State.initial rest = true then
          addToFirst (sections.flatMap GlobalSection.recorded)
            (Declaration.ofTokens (fillers.flatMap Filler.tokens ++ rest))
        else Declaration.ofTokens (fillers.flatMap Filler.tokens ++ rest)) ∧
      (Declaration.ofTokens (fillers.flatMap Filler.tokens ++
          (sections.flatMap GlobalSection.tokens ++ rest)) =
          Declaration.ofTokens (fillers.flatMap Filler.tokens ++ rest) ↔
        sections = [] ∨ reachesHeader State.initial rest = false) ∧
      ∀ (heading : Heading) (following : List Token),
        reachesHeader State.initial (heading.tokens ++ following) = true := by
  have hinitial : Between [] none State.initial := ⟨none, rfl, rfl⟩
  have hfillers : Passes (Between [] none) (fillers.flatMap Filler.tokens) [] (Between [] none) :=
    passes_fillers isOpen_nil fillers
  obtain ⟨before, hbefore, hwith⟩ :=
    (hfillers.andThen (passes_globalSections isOpen_nil sections)) State.initial hinitial rest
  obtain ⟨plain, hplain, hwithout⟩ := hfillers State.initial hinitial rest
  obtain ⟨-, hne, hscan⟩ := scan_ahead (ahead_of_between hplain hbefore) rest
  have hreaches : reachesHeader plain rest = reachesHeader State.initial rest :=
    (scan_ahead (ahead_of_between hinitial hplain) rest).1
  rw [List.append_assoc, List.nil_append] at hwith
  rw [List.nil_append] at hwithout
  rw [hreaches] at hne hscan
  unfold Declaration.ofTokens
  rw [hwith, hwithout, hscan]
  refine ⟨rfl, ?_, reachesHeader_heading⟩
  cases hheader : reachesHeader State.initial rest with
  | false => simp
  | true =>
      have hrecorded : sections.flatMap GlobalSection.recorded = [] ↔ sections = [] := by
        cases sections with
        | nil => exact iff_of_true rfl rfl
        | cons part sections => simp [part.recorded_ne_nil]
      rw [if_pos rfl, addToFirst_eq_self_iff, hrecorded]
      simp [hne hheader]

/-! ## An example -/

/-- A section with the title of the assembly. -/
def titleSection : GlobalSection where
  opening := 1
  target := .ofAssembly
  word := 1
  colon := 1
  first :=
    { first := ⟨"Title", 1⟩
      segments := []
      arguments := some ⟨1, [⟨.literal, "\"x\"", 1⟩], 1,
        balanced_of_forall (by simp [Opens, Closes])⟩
      typeArguments := none }
  others := []
  closing := 1

/-- A class without attributes. -/
def plainClass : List Token :=
  [⟨.identifier, "class", 2⟩, ⟨.identifier, "A", 2⟩, mark '{' 2, mark '}' 2]

end DeclarationScan

namespace SourceTree

open Grammar DeclarationScan

/-- The title of the assembly, and a class. -/
def titledText : String :=
  "[assembly: Title(\"x\")]
class A \x7b \x7d
"

/-- The class is recorded with the title as an attribute, and without the section it has none. -/
theorem declarations_titledText :
    Token.ofText true titledText.toList = titleSection.tokens ++ plainClass ∧
      (parse ⟨"A.cs"⟩ titledText ⟨.kept, Symbols.empty⟩).declarations =
        [⟨.classType, "A", none, [], ["Title"], none, 2⟩] ∧
      Declaration.ofTokens plainClass = [⟨.classType, "A", none, [], [], none, 2⟩] := by
  obtain ⟨text, htext, hhead, htokens, hdeclarations⟩ :
      ∃ text, titledText = String.ofList text ∧ text.head? = some '[' ∧
        Token.ofText true text = titleSection.tokens ++ plainClass ∧
        declarationsOf ⟨.kept, Symbols.empty⟩ text =
          [⟨.classType, "A", none, [], ["Title"], none, 2⟩] :=
    ⟨_, rfl, by decide +kernel, by decide +kernel, by decide +kernel⟩
  have hchars : (withoutMark titledText).toList = text :=
    toList_withoutMark htext hhead (by decide)
  have hplain : titledText.toList = text := by
    rw [htext, String.toList_ofList]
  exact ⟨by rw [hplain, htokens], (congrArg (declarationsOf _) hchars).trans hdeclarations,
    by decide +kernel⟩

end SourceTree
end ProjectAssembler
