import ProjectAssembler.Proofs.Source.Runs

/-!
# The declarations of a program

The scan of a program's tokens finds the types that the program declares, each once and in the order
of their headings, with their surroundings, attributes and documentation.

Main definitions:

* `DeclarationScan.placeOf`: the place that open braces make;
* `DeclarationScan.Awaiting`: the states in which a declaration waits for its body.

Main results:

* `DeclarationScan.passes_heading`: a heading makes its declaration wait;
* `DeclarationScan.passes_member`: a member completes its declarations and nothing is left of it;
* `Grammar.Program.ofTokens_tokens`: the declarations of a program's tokens are the program's.
-/

namespace ProjectAssembler
namespace DeclarationScan

open Grammar

/-! ## Places -/

/-- The name of a namespace that braces enclose. -/
def Scope.space? : Scope → Option String
  | .space name => some name
  | _ => none

/-- The name of a type that braces enclose. -/
def Scope.type? : Scope → Option String
  | .type name => some name
  | _ => none

/-- The selected names of open braces, outermost first. -/
def namesOf (select : Scope → Option String) : List Scope → List String
  | [] => []
  | scope :: rest =>
      match select scope with
      | some name => namesOf select rest ++ [name]
      | none => namesOf select rest

/-- The place that open braces and the namespace of the file make. -/
def placeOf (scopes : List Scope) (fileNamespace : Option String) : Place :=
  ⟨fileNamespace.toList ++ namesOf Scope.space? scopes, namesOf Scope.type? scopes⟩

theorem filterMap_reverse (select : Scope → Option String) (scopes : List Scope) :
    scopes.reverse.filterMap select = namesOf select scopes := by
  induction scopes with
  | nil => rfl
  | cons scope scopes ih =>
      rw [List.reverse_cons, List.filterMap_append, ih, namesOf]
      cases hselect : select scope with
      | none => simp [hselect]
      | some name => simp [hselect]

theorem containing_eq (state : State) : state.containing = namesOf Scope.type? state.scopes :=
  filterMap_reverse Scope.type? state.scopes

theorem namespace?_eq (state : State) :
    state.namespace? =
      dotted? (state.fileNamespace.toList ++ namesOf Scope.space? state.scopes) := by
  have hdotted : state.namespace? =
      dotted? (state.fileNamespace.toList ++ state.scopes.reverse.filterMap Scope.space?) :=
    rfl
  rw [hdotted, filterMap_reverse]

/-! ## Attributes and documentation -/

variable {scopes : List Scope} {fileNamespace : Option String}
  {attributes documentation : List String}

/-- A documentation line is collected. -/
theorem passes_documentation (hopen : IsOpen scopes) (text : String) (line : Nat) :
    Passes (Collecting scopes fileNamespace attributes documentation)
      [⟨.documentation, text, line⟩] []
      (Collecting scopes fileNamespace attributes (documentation ++ [text])) := by
  refine Passes.ofStep ?_
  rintro state ⟨last, rfl, hstart⟩ rest
  refine ⟨_, ⟨last, rfl, hstart⟩, ?_⟩
  unfold step
  rw [if_neg hopen]
  rfl

/-- The names of a section are collected. -/
theorem passes_section (hopen : IsOpen scopes) {inner : List Token} {names : List String}
    (h : ∀ rest, attributeNames 0 true (inner ++ rest) = (names, rest)) (line : Nat) :
    Passes (Collecting scopes fileNamespace attributes documentation) (mark '[' line :: inner) []
      (Collecting scopes fileNamespace (attributes ++ names) documentation) := by
  refine Passes.ofStep ?_
  rintro state ⟨last, rfl, hstart⟩ rest
  refine ⟨_, ⟨some (.punctuation ']'), rfl, rfl⟩, ?_⟩
  rw [step_punctuation hopen rfl, stepPunctuation_section rfl hstart, h rest]

/-- A lead is collected. -/
theorem passes_lead (hopen : IsOpen scopes) (lead : Lead) :
    Passes (Collecting scopes fileNamespace attributes documentation) lead.tokens []
      (Collecting scopes fileNamespace (attributes ++ lead.names)
        (documentation ++ lead.lines)) := by
  cases lead with
  | documentation text line =>
      rw [Lead.names, List.append_nil]
      exact passes_documentation hopen text line
  | attributes part =>
      have htokens : part.tokens = mark '[' part.opening :: (part.first.tokens ++
          (Section.otherTokens part.others ++ [mark ']' part.closing])) := by
        simp [Section.tokens]
      rw [Lead.tokens, htokens, Lead.lines, List.append_nil]
      refine passes_section hopen (fun rest => ?_) part.opening
      rw [List.append_assoc, List.append_assoc, List.singleton_append, attributeNames_section]
      rfl

/-- Where each part of a list is collected, all of them are, in their order. -/
theorem passes_collected {α : Type} {tokens : α → List Token} {names lines : α → List String}
    (h : ∀ (part : α) (attributes documentation : List String),
      Passes (Collecting scopes fileNamespace attributes documentation) (tokens part) []
        (Collecting scopes fileNamespace (attributes ++ names part)
          (documentation ++ lines part)))
    (parts : List α) :
    Passes (Collecting scopes fileNamespace attributes documentation) (parts.flatMap tokens) []
      (Collecting scopes fileNamespace (attributes ++ parts.flatMap names)
        (documentation ++ parts.flatMap lines)) := by
  induction parts generalizing attributes documentation with
  | nil =>
      refine Passes.nil ?_
      rw [List.flatMap_nil, List.flatMap_nil, List.append_nil, List.append_nil]
      exact fun _ hstate => hstate
  | cons part parts ih =>
      rw [List.flatMap_cons, List.flatMap_cons, List.flatMap_cons, ← List.append_assoc,
        ← List.append_assoc]
      exact (h part attributes documentation).andThen ih

/-- All leads of a heading are collected, in their order. -/
theorem passes_leads (hopen : IsOpen scopes) (leads : List Lead) :
    Passes (Collecting scopes fileNamespace attributes documentation)
      (leads.flatMap Lead.tokens) []
      (Collecting scopes fileNamespace (attributes ++ leads.flatMap Lead.names)
        (documentation ++ leads.flatMap Lead.lines)) :=
  passes_collected (fun lead _ _ => passes_lead hopen lead) leads

/-! ## Headings -/

/-- The states in which a type keyword begins a declaration. -/
def Modified (scopes : List Scope) (fileNamespace : Option String)
    (attributes documentation : List String) (state : State) : Prop :=
  ∃ last, state = ⟨scopes, fileNamespace, attributes, documentation, last, none⟩ ∧
    state.inConstraint = false

/-- The states in which a declaration waits for its body. -/
def Awaiting (scopes : List Scope) (fileNamespace : Option String) (declaration : Declaration)
    (state : State) : Prop :=
  ∃ last, state = ⟨scopes, fileNamespace, [], [], last, some declaration⟩

/-- No member begins after a mark that makes a type keyword a constraint. -/
theorem inConstraint_of_atMemberStart {state : State} (h : state.atMemberStart = true) :
    state.inConstraint = false := by
  unfold State.atMemberStart at h
  unfold State.inConstraint
  split at h
  · rename_i hlast
    rw [hlast]
    rfl
  · rename_i c hlast
    rw [hlast]
    have hcolon : c ≠ ':' := by rintro rfl; contradiction
    have hcomma : c ≠ ',' := by rintro rfl; contradiction
    simp [hcolon, hcomma]
  · contradiction

/-- Modifiers are passed over. -/
theorem passes_modifiers (hopen : IsOpen scopes) (modifiers : List Word)
    (h : ∀ word ∈ modifiers, word.text ≠ "namespace" ∧ TypeKind.ofKeyword? word.text = none) :
    Passes (Modified scopes fileNamespace attributes documentation) (modifiers.map Word.token) []
      (Modified scopes fileNamespace attributes documentation) := by
  induction modifiers with
  | nil => exact Passes.nil fun _ hstate => hstate
  | cons word modifiers ih =>
      obtain ⟨hword, hmodifiers⟩ := List.forall_mem_cons.1 h
      rw [List.map_cons]
      refine Passes.cons ?_ (ih hmodifiers)
      rintro state ⟨last, rfl, -⟩ rest
      refine ⟨_, ⟨some .identifier, rfl, rfl⟩, ?_⟩
      rw [step_identifier hopen rfl, text_word, stepIdentifier_plain hword.1]
      intro hsome
      rw [hword.2] at hsome
      contradiction

theorem enterHeader_name {state : State} {kind kind' : TypeKind} {tokens rest : List Token}
    {name : Token} (htokens : kindAndName kind tokens = (kind', name :: rest))
    (hidentifier : name.kind = .identifier) (hname : name.text ∉ notNames) :
    enterHeader state kind tokens =
      ({ state.cleared with
        last := some .identifier, pending := some (state.declare kind' name) }, rest) := by
  unfold enterHeader
  simp only [htokens]
  exact if_pos ⟨hidentifier, hname⟩

/-- A type keyword begins a header. -/
theorem stepIdentifier_keyword {state : State} {text : String} {kind : TypeKind}
    (hpending : state.pending = none) (hkind : TypeKind.ofKeyword? text = some kind)
    (hconstraint : state.inConstraint = false) (rest : List Token) :
    stepIdentifier state text rest =
      ⟨[], (enterHeader state kind rest).1, (enterHeader state kind rest).2⟩ := by
  have hspace : text ≠ "namespace" := by
    rintro rfl
    contradiction
  unfold stepIdentifier
  simp only [hpending, hkind, hconstraint, hspace, Option.isSome_none, Bool.false_eq_true, if_false]

/-- A free word names a type and is no keyword. -/
theorem free_of_isReserved {text : String} (h : isReserved text = false) :
    TypeKind.ofKeyword? text = none ∧ text ∉ notNames := by
  simp only [isReserved, Bool.or_eq_false_iff, Option.isSome_eq_false_iff,
    Option.isNone_iff_eq_none, List.contains_eq_mem, decide_eq_false_iff_not] at h
  exact ⟨h.1.2, h.2⟩

/-- The keywords of a kind are read up to the name. -/
theorem exists_kindAndName (keywords : KindWords) {name : Word}
    (hname : TypeKind.ofKeyword? name.text = none) :
    ∃ keyword others kind, keywords.tokens = keyword :: others ∧ keyword.kind = .identifier ∧
      TypeKind.ofKeyword? keyword.text = some kind ∧
      ∀ rest, kindAndName kind (others ++ name.token :: rest) =
        (keywords.kind, name.token :: rest) := by
  cases keywords with
  | single kind word hkind =>
      refine ⟨word.token, [], kind, rfl, rfl, ofKeyword?_eq_some_iff.2 hkind, fun rest => ?_⟩
      have hfree (text : String) (htext : (TypeKind.ofKeyword? text).isSome = true) :
          name.token.isIdentifier text = false := by
        rw [Bool.eq_false_iff]
        intro heq
        have hsame : name.text = text := by simpa [Token.isIdentifier] using heq
        rw [← hsame, hname] at htext
        contradiction
      unfold kindAndName
      cases kind <;> simp [hfree "struct" rfl, hfree "class" rfl, KindWords.kind]
  | recordClass first second => exact ⟨_, _, .recordType, rfl, rfl, rfl, fun _ => rfl⟩
  | recordStruct first second => exact ⟨_, _, .recordType, rfl, rfl, rfl, fun _ => rfl⟩

/-- What a state with the leads of a heading declares is what the heading declares. -/
theorem declare_heading (heading : Heading) :
    State.declare ⟨scopes, fileNamespace, heading.leads.flatMap Lead.names,
        heading.leads.flatMap Lead.lines, none, none⟩ heading.keywords.kind heading.name.token =
      heading.declaration (placeOf scopes fileNamespace) := by
  unfold State.declare
  rw [namespace?_eq, containing_eq]
  rfl

/-- The keywords and the name of a heading make its declaration wait. -/
theorem passes_name (hopen : IsOpen scopes) (keywords : KindWords) {name : Word}
    (hfree : isReserved name.text = false) :
    Passes (Modified scopes fileNamespace attributes documentation)
      (keywords.tokens ++ [name.token]) []
      (Awaiting scopes fileNamespace
        (State.declare ⟨scopes, fileNamespace, attributes, documentation, none, none⟩
          keywords.kind name.token)) := by
  obtain ⟨hname, hnot⟩ := free_of_isReserved hfree
  obtain ⟨keyword, others, kind, htokens, hidentifier, hkind, hheader⟩ :=
    exists_kindAndName keywords hname
  rw [htokens, List.cons_append]
  refine Passes.ofStep ?_
  rintro state ⟨last, rfl, hconstraint⟩ rest
  refine ⟨_, ⟨some .identifier, rfl⟩, ?_⟩
  rw [List.append_assoc, List.singleton_append, step_identifier hopen hidentifier,
    stepIdentifier_keyword rfl hkind hconstraint, enterHeader_name (hheader rest) rfl hnot]
  rfl

/-- While a declaration waits, every token but a brace or a semicolon is passed over. -/
theorem passes_tail (hopen : IsOpen scopes) (declaration : Declaration) {tail : List Token}
    (h : ∀ token ∈ tail, isStop token = false) :
    Passes (Awaiting scopes fileNamespace declaration) tail []
      (Awaiting scopes fileNamespace declaration) := by
  induction tail with
  | nil => exact Passes.nil fun _ hstate => hstate
  | cons token tail ih =>
      obtain ⟨hstop, htail⟩ := List.forall_mem_cons.1 h
      refine Passes.cons ?_ (ih htail)
      rintro state ⟨last, rfl⟩ rest
      cases hkind : token.kind with
      | punctuation c =>
          refine ⟨_, ⟨some (.punctuation c), rfl⟩, ?_⟩
          rw [step_punctuation hopen hkind, stepPunctuation_plain _ (ne_of_isStop hstop hkind)]
          rintro ⟨-, hpending, -⟩
          contradiction
      | identifier =>
          refine ⟨_, ⟨some .identifier, rfl⟩, ?_⟩
          rw [step_identifier hopen hkind]
          rfl
      | literal =>
          refine ⟨_, ⟨some .literal, rfl⟩, ?_⟩
          unfold step
          rw [if_neg hopen]
          simp only [hkind]
      | documentation =>
          refine ⟨_, ⟨last, rfl⟩, ?_⟩
          unfold step
          rw [if_neg hopen]
          simp only [hkind]
          rfl

/-- Behind attributes and documentation a heading makes a declaration wait that has these too. -/
theorem passes_heading_collected (hopen : IsOpen scopes) (heading : Heading) :
    Passes (Collecting scopes fileNamespace attributes documentation) heading.tokens []
      (Awaiting scopes fileNamespace
        (State.declare ⟨scopes, fileNamespace, attributes ++ heading.leads.flatMap Lead.names,
          documentation ++ heading.leads.flatMap Lead.lines, none, none⟩ heading.keywords.kind
          heading.name.token)) := by
  have htokens : heading.tokens = heading.leads.flatMap Lead.tokens ++
      (heading.modifiers.map Word.token ++
        ((heading.keywords.tokens ++ [heading.name.token]) ++ heading.tail)) := by
    simp [Heading.tokens]
  rw [htokens]
  refine (passes_leads hopen heading.leads).andThen ?_
  generalize attributes ++ heading.leads.flatMap Lead.names = names
  generalize documentation ++ heading.leads.flatMap Lead.lines = lines
  have hmodifiers : Passes (Collecting scopes fileNamespace names lines)
      (heading.modifiers.map Word.token) [] (Modified scopes fileNamespace names lines) := by
    rintro state ⟨last, hstate, hstart⟩
    exact passes_modifiers hopen heading.modifiers heading.modifiers_free state
      ⟨last, hstate, inConstraint_of_atMemberStart hstart⟩
  exact hmodifiers.andThen ((passes_name hopen heading.keywords heading.name_free).andThen
    (passes_tail hopen _ heading.tail_free))

/-- A heading makes its declaration wait. -/
theorem passes_heading (hopen : IsOpen scopes) (heading : Heading) :
    Passes (Between scopes fileNamespace) heading.tokens []
      (Awaiting scopes fileNamespace
        (heading.declaration (placeOf scopes fileNamespace))) := by
  rw [← declare_heading]
  exact passes_heading_collected hopen heading

/-! ## Bodies -/

/-- A semicolon completes a declaration without a body. -/
theorem passes_semicolon (hopen : IsOpen scopes) (declaration : Declaration) (line : Nat) :
    Passes (Awaiting scopes fileNamespace declaration) [mark ';' line] [declaration]
      (Between scopes fileNamespace) := by
  refine Passes.ofStep ?_
  rintro state ⟨last, rfl⟩ rest
  refine ⟨_, ⟨some (.punctuation ';'), rfl, rfl⟩, ?_⟩
  rw [List.nil_append, step_punctuation hopen rfl]
  rfl

/-- An opening brace completes a declaration and begins its body. -/
theorem passes_opening (hopen : IsOpen scopes) (declaration : Declaration) (line : Nat) :
    Passes (Awaiting scopes fileNamespace declaration) [mark '{' line] [declaration]
      (Between (.type declaration.name :: scopes) fileNamespace) := by
  refine Passes.ofStep ?_
  rintro state ⟨last, rfl⟩ rest
  refine ⟨_, ⟨some (.punctuation '{'), rfl, rfl⟩, ?_⟩
  rw [List.nil_append, step_punctuation hopen rfl]
  rfl

/-- A closing brace ends the body of a type or of a namespace. -/
theorem passes_closing {scope : Scope} (hopen : IsOpen (scope :: scopes)) (line : Nat) :
    Passes (Loose (scope :: scopes) fileNamespace none) [mark '}' line] []
      (Between scopes fileNamespace) := by
  refine Passes.ofStep ?_
  rintro state ⟨attributes, documentation, last, rfl, -⟩ rest
  refine ⟨_, ⟨some (.punctuation '}'), rfl, rfl⟩, ?_⟩
  rw [List.nil_append, step_punctuation hopen rfl]
  rfl

theorem isOpen_nil : IsOpen [] :=
  nofun

theorem isOpen_type (name : String) (scopes : List Scope) : IsOpen (.type name :: scopes) :=
  nofun

theorem isOpen_space (name : String) (scopes : List Scope) : IsOpen (.space name :: scopes) :=
  nofun

/-! ## Members -/

mutual

/-- A member completes its declarations, and nothing is left of it. -/
theorem passes_member {scopes : List Scope} {fileNamespace : Option String}
    (hopen : IsOpen scopes) (member : Member) :
    Passes (Between scopes fileNamespace) member.tokens
      (member.declarations (placeOf scopes fileNamespace)) (Between scopes fileNamespace) := by
  cases member with
  | filler filler => exact passes_filler hopen filler
  | bodiless heading semicolon =>
      exact (passes_heading hopen heading).andThen (passes_semicolon hopen _ semicolon)
  | type heading opening members trailing closing =>
      have hbody := isOpen_type heading.name.text scopes
      have hheading : Passes (Between scopes fileNamespace) (heading.tokens ++ [mark '{' opening])
          [heading.declaration (placeOf scopes fileNamespace)]
          (Between (.type heading.name.text :: scopes) fileNamespace) :=
        (passes_heading hopen heading).andThen (passes_opening hopen _ opening)
      have hmembers : Passes (Between (.type heading.name.text :: scopes) fileNamespace)
          (memberTokens members) (memberDeclarations
            (placeOf (.type heading.name.text :: scopes) fileNamespace) members)
          (Between (.type heading.name.text :: scopes) fileNamespace) :=
        passes_members hbody members
      have hend : Passes (Between (.type heading.name.text :: scopes) fileNamespace)
          (trailing.tokens ++ [mark '}' closing]) [] (Between scopes fileNamespace) :=
        (passes_run_of_between hbody trailing).andThen (passes_closing hbody closing)
      have hall := hheading.append (hmembers.append hend)
      rw [List.append_nil, List.append_assoc, ← List.append_assoc (memberTokens members)] at hall
      exact hall
termination_by structural member

/-- Members one after the other complete their declarations. -/
theorem passes_members {scopes : List Scope} {fileNamespace : Option String}
    (hopen : IsOpen scopes) (members : List Member) :
    Passes (Between scopes fileNamespace) (memberTokens members)
      (memberDeclarations (placeOf scopes fileNamespace) members)
      (Between scopes fileNamespace) := by
  cases members with
  | nil => exact Passes.nil fun _ hstate => hstate
  | cons member rest => exact (passes_member hopen member).append (passes_members hopen rest)
termination_by structural members

end

/-! ## Namespaces -/

theorem isNamespacePart_of_mem {name : SpaceName} :
    ∀ token ∈ name.tokens, isNamespacePart token = true := by
  intro token htoken
  rcases List.mem_cons.1 htoken with rfl | hothers
  · rfl
  · obtain ⟨other, -, hother⟩ := List.mem_flatMap.1 hothers
    rw [List.mem_cons, List.mem_singleton] at hother
    rcases hother with rfl | rfl
    · rfl
    · rfl

/-- The texts of the tokens of a namespace's name make up the name. -/
theorem join_spaceName (name : SpaceName) :
    String.join (name.tokens.map Token.text) = name.text := by
  obtain ⟨first, others⟩ := name
  unfold SpaceName.tokens SpaceName.text
  simp only
  induction others generalizing first with
  | nil => simp
  | cons other others ih =>
      have hrest := ih other.2
      rw [List.map_cons, String.join_cons] at hrest
      rw [List.flatMap_cons, List.map_cons, List.map_cons, String.intercalate_cons_cons, ← hrest]
      simp [mark, String.append_assoc]

/-- The name of a namespace is read up to the brace or semicolon after it. -/
theorem namespaceName_append (name : SpaceName) (token : Token) (rest : List Token)
    (h : isNamespacePart token = false) :
    namespaceName (name.tokens ++ token :: rest) = name.text ∧
      (name.tokens ++ token :: rest).dropWhile isNamespacePart = token :: rest := by
  constructor
  · unfold namespaceName
    rw [List.takeWhile_append_of_pos isNamespacePart_of_mem, List.takeWhile_cons, h,
      if_neg Bool.false_ne_true, List.append_nil]
    exact join_spaceName name
  · rw [List.dropWhile_append_of_pos isNamespacePart_of_mem, List.dropWhile_cons, h,
      if_neg Bool.false_ne_true]

theorem step_spaceKeyword {state : State} (hopen : IsOpen state.scopes)
    (hpending : state.pending = none) (keyword : Nat) (rest : List Token) :
    step state (spaceKeyword keyword) rest =
      ⟨[], (enterNamespace state rest).1, (enterNamespace state rest).2⟩ := by
  rw [step_identifier hopen rfl]
  unfold stepIdentifier
  simp only [hpending, Option.isSome_none, Bool.false_eq_true, if_false]
  exact if_pos rfl

/-- The name of a namespace and a brace after it open the namespace. -/
theorem passes_space (hopen : IsOpen scopes) (keyword : Nat) (name : SpaceName) (opening : Nat) :
    Passes (Between scopes fileNamespace)
      (spaceKeyword keyword :: (name.tokens ++ [mark '{' opening])) []
      (Between (.space name.text :: scopes) fileNamespace) := by
  refine Passes.ofStep ?_
  rintro state ⟨last, rfl, -⟩ rest
  refine ⟨_, ⟨some (.punctuation '{'), rfl, rfl⟩, ?_⟩
  obtain ⟨hname, hrest⟩ := namespaceName_append name (mark '{' opening) rest rfl
  rw [List.append_assoc, List.singleton_append, step_spaceKeyword hopen rfl]
  unfold enterNamespace
  simp only [hname, hrest]
  rfl

/-- The name of a namespace and a semicolon after it make it the namespace of the file. -/
theorem passes_fileSpace (hopen : IsOpen scopes) (space : FileSpace) :
    Passes (Between scopes fileNamespace) space.tokens []
      (Between scopes (some space.name.text)) := by
  refine Passes.ofStep ?_
  rintro state ⟨last, rfl, -⟩ rest
  refine ⟨_, ⟨some (.punctuation ';'), rfl, rfl⟩, ?_⟩
  obtain ⟨hname, hrest⟩ := namespaceName_append space.name (mark ';' space.semicolon) rest rfl
  change step _ _ (space.name.tokens ++ [mark ';' space.semicolon] ++ rest) = _
  rw [List.append_assoc, List.singleton_append, step_spaceKeyword hopen rfl]
  unfold enterNamespace
  simp only [hname, hrest]
  rfl

/-! ## Programs -/

mutual

/-- A part of a program completes its declarations, and nothing is left of it. -/
theorem passes_item {scopes : List Scope} {fileNamespace : Option String}
    (hopen : IsOpen scopes) (htypes : namesOf Scope.type? scopes = []) (item : Item) :
    Passes (Between scopes fileNamespace) item.tokens
      (item.declarations (placeOf scopes fileNamespace).spaces)
      (Between scopes fileNamespace) := by
  cases item with
  | member member =>
      have hplace : placeOf scopes fileNamespace =
          ⟨(placeOf scopes fileNamespace).spaces, []⟩ := by
        unfold placeOf
        rw [htypes]
      have hmember : Passes (Between scopes fileNamespace) member.tokens
          (member.declarations (placeOf scopes fileNamespace)) (Between scopes fileNamespace) :=
        passes_member hopen member
      rw [hplace] at hmember
      exact hmember
  | space keyword name opening items closing =>
      have hbody := isOpen_space name.text scopes
      have hitems : Passes (Between (.space name.text :: scopes) fileNamespace) (itemTokens items)
          (itemDeclarations (placeOf (.space name.text :: scopes) fileNamespace).spaces items)
          (Between (.space name.text :: scopes) fileNamespace) :=
        passes_items hbody htypes items
      have hend : Passes (Between (.space name.text :: scopes) fileNamespace) [mark '}' closing] []
          (Between scopes fileNamespace) :=
        fun state hstate => passes_closing hbody closing state (loose_of_between hstate)
      have htokens : (Item.space keyword name opening items closing).tokens =
          spaceKeyword keyword :: (name.tokens ++ [mark '{' opening]) ++
            (itemTokens items ++ [mark '}' closing]) := by
        simp [Item.tokens]
      have hspaces : (placeOf (.space name.text :: scopes) fileNamespace).spaces =
          (placeOf scopes fileNamespace).spaces ++ [name.text] :=
        (List.append_assoc _ _ _).symm
      rw [htokens, Item.declarations, ← hspaces, ← List.append_nil (itemDeclarations _ items)]
      exact (passes_space hopen keyword name opening).andThen (hitems.append hend)
termination_by structural item

/-- Parts of a program one after the other complete their declarations. -/
theorem passes_items {scopes : List Scope} {fileNamespace : Option String}
    (hopen : IsOpen scopes) (htypes : namesOf Scope.type? scopes = []) (items : List Item) :
    Passes (Between scopes fileNamespace) (itemTokens items)
      (itemDeclarations (placeOf scopes fileNamespace).spaces items)
      (Between scopes fileNamespace) := by
  cases items with
  | nil => exact Passes.nil fun _ hstate => hstate
  | cons item rest =>
      exact (passes_item hopen htypes item).append (passes_items hopen htypes rest)
termination_by structural items

end

theorem passes_fillers (hopen : IsOpen scopes) (fillers : List Filler) :
    Passes (Between scopes fileNamespace) (fillers.flatMap Filler.tokens) []
      (Between scopes fileNamespace) := by
  induction fillers with
  | nil => exact Passes.nil fun _ hstate => hstate
  | cons filler fillers ih => exact (passes_filler hopen filler).andThen ih

theorem passes_space? (space : Option FileSpace) :
    Passes (Between [] none) ((space.map FileSpace.tokens).getD []) []
      (Between [] (space.map fun space => space.name.text)) := by
  cases space with
  | none => exact Passes.nil fun _ hstate => hstate
  | some space => exact passes_fileSpace isOpen_nil space

end DeclarationScan

namespace Grammar.Program

open DeclarationScan

/-- The types found in the tokens of a program are those that the program declares, in the order of
their headings, each at its place and with its attributes and documentation. -/
theorem ofTokens_tokens (program : Program) :
    Declaration.ofTokens program.tokens = program.declarations := by
  have hfillers : Passes (Between [] none) (program.fillers.flatMap Filler.tokens) []
      (Between [] none) := passes_fillers isOpen_nil program.fillers
  have hitems : Passes (Between [] (program.space.map fun space => space.name.text))
      (itemTokens program.items) program.declarations
      (Between [] (program.space.map fun space => space.name.text)) := by
    have h : Passes (Between [] (program.space.map fun space => space.name.text))
        (itemTokens program.items)
        (itemDeclarations (placeOf [] (program.space.map fun space => space.name.text)).spaces
          program.items) (Between [] (program.space.map fun space => space.name.text)) :=
      passes_items isOpen_nil rfl program.items
    unfold placeOf namesOf at h
    rw [List.append_nil] at h
    exact h
  have hall := (hfillers.andThen (passes_space? program.space)).andThen hitems
  obtain ⟨state, ⟨last, rfl, -⟩, hscan⟩ := hall State.initial ⟨none, rfl, rfl⟩ []
  rw [List.append_nil, scan_nil] at hscan
  unfold Declaration.ofTokens
  exact hscan.trans (List.append_nil _)

end Grammar.Program
end ProjectAssembler
