import ProjectAssembler.Proofs.Source.Headers
import ProjectAssembler.Source.Tree

/-!
# The scan of headers with braces

A scan takes the first brace after the name of a type for the beginning of its body.  Where that is
a brace of the header, the braces that follow the header enclose a block and the types in them are
not found.

Main results:

* `DeclarationScan.passes_tidy`: what follows the braces of a header is passed over;
* `DeclarationScan.passes_bracedType`: of a type with braces in its header nothing but the type is
  found;
* `DeclarationScan.nested_types_recorded`: the types that a scan finds, and when these are all;
* `SourceTree.declarations_bracedText`: a class that is declared and not recorded.
-/

namespace ProjectAssembler
namespace DeclarationScan

open Grammar

/-! ## Punctuation of any spelling -/

/-- Of a punctuation token a step reads the character only. -/
theorem step_of_kind {token : Token} {c : Char} (h : token.kind = .punctuation c) (state : State)
    (line : Nat) (rest : List Token) :
    step state token rest = step state (mark c line) rest := by
  unfold step stepBlock
  rw [h]
  rfl

theorem Passes.of_mark {before after : State → Prop} {declarations : List Declaration}
    {token : Token} {c : Char} (line : Nat) (hkind : token.kind = .punctuation c)
    (h : Passes before [mark c line] declarations after) :
    Passes before [token] declarations after := by
  intro state hstate rest
  obtain ⟨state', hstate', heq⟩ := h state hstate rest
  refine ⟨state', hstate', ?_⟩
  rw [List.singleton_append, scan_cons] at heq
  rw [List.singleton_append, scan_cons, step_of_kind hkind state line]
  exact heq

variable {scopes : List Scope} {fileNamespace : Option String}

/-! ## What follows the braces of a header -/

/-- Braces inside of a member enclose a block, which is passed over. -/
theorem passes_braces (hopen : IsOpen scopes) {first last : Token} {content : List Token}
    (hfirst : first.kind = .punctuation '{') (hcontent : Balanced content)
    (hlast : last.kind = .punctuation '}') :
    Passes (Loose scopes fileNamespace none) (first :: (content ++ [last])) []
      (Between scopes fileNamespace) := by
  have hopening : Passes (Loose scopes fileNamespace none) [first] []
      (InBlock scopes fileNamespace) :=
    Passes.of_mark first.line hfirst (Passes.ofStep (loose_opening hopen first.line))
  have hclosing : Passes (InBlock scopes fileNamespace) [last] [] (Between scopes fileNamespace) :=
    Passes.of_mark last.line hlast (Passes.ofStep (inBlock_end last.line))
  exact hopening.andThen ((passes_balanced hcontent scopes fileNamespace).andThen hclosing)

/-- The state between two members is one inside of a member after any token that marks no
constraint. -/
theorem loose_of_not_mark {previous : Option TokenKind}
    (hprevious : isConstraintMark previous = false) {state : State}
    (h : Between scopes fileNamespace state) : Loose scopes fileNamespace previous state := by
  obtain ⟨last, rfl, -⟩ := h
  refine ⟨[], [], last, rfl, fun hmark => ?_⟩
  rw [hprevious] at hmark
  contradiction

theorem loose_of_loose {previous : Option TokenKind} {state : State}
    (h : Loose scopes fileNamespace previous state) : Loose scopes fileNamespace none state := by
  obtain ⟨attributes, documentation, last, rfl, -⟩ := h
  exact ⟨attributes, documentation, last, rfl, nofun⟩

/-- What comes first in a member and ends it, before what follows it. -/
theorem Passes.restart {previous previous' : Option TokenKind} {first rest : List Token}
    (hfirst : Passes (Loose scopes fileNamespace none) first [] (Between scopes fileNamespace))
    (hprevious : isConstraintMark previous' = false)
    (hrest : Passes (Loose scopes fileNamespace previous') rest []
      (Loose scopes fileNamespace none)) :
    Passes (Loose scopes fileNamespace previous) (first ++ rest) []
      (Loose scopes fileNamespace none) := by
  have hfirst' : Passes (Loose scopes fileNamespace previous) first []
      (Loose scopes fileNamespace previous') := by
    intro state hstate more
    obtain ⟨state', hstate', heq⟩ := hfirst state (loose_of_loose hstate) more
    exact ⟨state', loose_of_not_mark hprevious hstate', heq⟩
  exact hfirst'.andThen hrest

/-- Tokens that close no brace which they do not open are passed over, and so are the blocks in
them. -/
theorem passes_tidy (hopen : IsOpen scopes) {previous : Option TokenKind} {tokens : List Token}
    (htidy : Tidy tokens) (hcalm : Calm previous tokens) :
    Passes (Loose scopes fileNamespace previous) tokens []
      (Loose scopes fileNamespace none) := by
  -- Sections and blocks are read as wholes, so the induction is on the number of tokens.
  induction hn : tokens.length using Nat.strongRecOn generalizing previous tokens with
  | ind n ih =>
      subst hn
      cases tokens with
      | nil => exact Passes.nil fun _ hstate => loose_of_loose hstate
      | cons token rest =>
          obtain ⟨hspace, hkeyword, hrest⟩ := hcalm
          by_cases hbrace : token.kind = .punctuation '{'
          · obtain ⟨inner, last, rest, rfl, hinner, hlast, htidy⟩ :=
              exists_group_of_tidy .curly hbrace htidy
            have hlength : rest.length < (token :: (inner ++ last :: rest)).length := by
              simp only [List.length_cons, List.length_append]
              omega
            have hmark : isConstraintMark (some last.kind) = false := by
              rw [hlast]
              rfl
            have hall : Passes (Loose scopes fileNamespace previous)
                ((token :: (inner ++ [last])) ++ rest) [] (Loose scopes fileNamespace none) :=
              (passes_braces hopen hbrace hinner hlast).restart hmark
                (ih _ hlength htidy (calm_append hrest) rfl)
            rwa [List.cons_append, List.append_assoc, List.singleton_append] at hall
          · have htidy' := tidy_of_cons htidy hbrace
            by_cases hend : token.kind = .punctuation ';'
            · have hmark : isConstraintMark (some token.kind) = false := by
                rw [hend]
                rfl
              have hfirst : Passes (Loose scopes fileNamespace none) [token] []
                  (Between scopes fileNamespace) :=
                Passes.of_mark token.line hend (Passes.ofStep (loose_semicolon hopen token.line))
              exact hfirst.restart hmark (ih _ (Nat.lt_succ_self _) htidy' hrest rfl)
            · have hstop : isStop token = false := by
                have hclosing := ne_closing_of_tidy htidy
                simp [isStop, Token.isPunctuation, hbrace, hclosing, hend]
              intro state hstate more
              by_cases hsection : token.kind = .punctuation '[' ∧ state.atMemberStart = true
              · obtain ⟨hkind, hstart⟩ := hsection
                obtain ⟨inner, last, rest, rfl, hinner, hlast, htidy⟩ :=
                  exists_group_of_tidy .square hkind htidy
                obtain ⟨state₁, hstate₁, hstep⟩ :=
                  loose_section hopen hstate hkind hstart hinner hlast (rest ++ more)
                have hlength : rest.length < (token :: (inner ++ last :: rest)).length := by
                  simp only [List.length_cons, List.length_append]
                  omega
                obtain ⟨state₂, hstate₂, hscan⟩ :=
                  ih _ hlength htidy (calm_append hrest) rfl state₁ hstate₁ more
                refine ⟨state₂, hstate₂, ?_⟩
                rw [List.cons_append, List.append_assoc, List.cons_append, scan_cons, hstep]
                exact hscan
              · obtain ⟨state₁, hstate₁, hstep⟩ :=
                  loose_token hopen hstate hsection hstop hspace hkeyword (rest ++ more)
                obtain ⟨state₂, hstate₂, hscan⟩ :=
                  ih _ (Nat.lt_succ_self _) htidy' hrest rfl state₁ hstate₁ more
                refine ⟨state₂, hstate₂, ?_⟩
                rw [List.cons_append, scan_cons, hstep]
                exact hscan

/-! ## Types -/

theorem fromBrace_eq_nil {header : Header} (h : header.isBraced = false) :
    fromBrace header.tail = [] := by
  unfold fromBrace
  rw [List.dropWhile_eq_nil_iff]
  intro token hmem
  have hnot := List.any_eq_false.1 h token hmem
  simpa using hnot

theorem exists_fromBrace {header : Header} (h : header.isBraced = true) :
    ∃ first rest, fromBrace header.tail = first :: rest ∧ first.kind = .punctuation '{' := by
  obtain ⟨token, hmem, htoken⟩ := List.any_eq_true.1 h
  have hne : fromBrace header.tail ≠ [] := by
    unfold fromBrace
    rw [Ne, List.dropWhile_eq_nil_iff]
    intro hnone
    have hnot := hnone token hmem
    simp [htoken] at hnot
  have hhead : isBrace ((fromBrace header.tail).head hne) = true := by
    have hnot : (!isBrace ((fromBrace header.tail).head hne)) = false :=
      List.head_dropWhile_not (!isBrace ·) hne
    rwa [Bool.not_eq_false'] at hnot
  exact ⟨_, _, (List.cons_head_tail hne).symm, exists_punctuation hhead⟩

/-- The first brace of a header begins what the scan takes for the body, and the rest of the header
is passed over after it. -/
theorem passes_bracedHeader (hopen : IsOpen scopes) {header : Header}
    (hbraced : header.isBraced = true) :
    Passes (Between scopes fileNamespace) header.tokens
      [header.heading.declaration (placeOf scopes fileNamespace)]
      (Loose scopes fileNamespace none) := by
  obtain ⟨first, rest, hfrom, hfirst⟩ := exists_fromBrace hbraced
  have htidy := tidy_fromBrace (tidy_of_balanced header.tail_enclosed.balanced)
  have hcalm := header.tail_calm
  rw [hfrom] at htidy hcalm
  obtain ⟨inner, last, post, rfl, hinner, hlast, hpost⟩ :=
    exists_group_of_tidy .curly hfirst htidy
  have hmark {token : Token} {c : Char} (hc : isConstraintMark (some (.punctuation c)) = false)
      (hkind : token.kind = .punctuation c) : isConstraintMark (some token.kind) = false := by
    rwa [hkind]
  have hbody := isOpen_type header.name.text scopes
  have hopening : Passes (Between scopes fileNamespace) (header.heading.tokens ++ [first])
      [header.heading.declaration (placeOf scopes fileNamespace)]
      (Between (.type header.name.text :: scopes) fileNamespace) :=
    (passes_heading hopen header.heading).andThen
      (Passes.of_mark first.line hfirst (passes_opening hopen _ first.line))
  have hcontent : Passes (Between (.type header.name.text :: scopes) fileNamespace) inner []
      (Loose (.type header.name.text :: scopes) fileNamespace none) := fun state hstate =>
    passes_tidy hbody (tidy_of_balanced hinner) (calm_of_append hcalm.2.2) state
      (loose_of_not_mark (hmark rfl hfirst) hstate)
  have hclosing : Passes (Loose (.type header.name.text :: scopes) fileNamespace none) [last] []
      (Between scopes fileNamespace) :=
    Passes.of_mark last.line hlast (passes_closing hbody last.line)
  have hrest : Passes (Between scopes fileNamespace) post [] (Loose scopes fileNamespace none) :=
    fun state hstate => passes_tidy hopen hpost (calm_append hcalm.2.2) state
      (loose_of_not_mark (hmark rfl hlast) hstate)
  have hall := hopening.append (hcontent.andThen (hclosing.andThen hrest))
  rw [List.append_nil, List.append_assoc, List.singleton_append, List.singleton_append] at hall
  rwa [header.tokens_eq, hfrom]

/-- A header without braces makes its declaration wait. -/
theorem passes_plainHeader (hopen : IsOpen scopes) {header : Header}
    (hbraced : header.isBraced = false) :
    Passes (Between scopes fileNamespace) header.tokens []
      (Awaiting scopes fileNamespace
        (header.heading.declaration (placeOf scopes fileNamespace))) := by
  rw [header.tokens_eq, fromBrace_eq_nil hbraced, List.append_nil]
  exact passes_heading hopen header.heading

/-- Of a type with a brace in its header nothing but the type is found, whatever its body holds. -/
theorem passes_bracedType (hopen : IsOpen scopes) {header : Header}
    (hbraced : header.isBraced = true) {body : List Token} (hbody : Balanced body)
    (opening closing : Nat) :
    Passes (Between scopes fileNamespace)
      (header.tokens ++ (mark '{' opening :: body ++ [mark '}' closing]))
      [header.heading.declaration (placeOf scopes fileNamespace)]
      (Between scopes fileNamespace) :=
  (passes_bracedHeader hopen hbraced).append
    (passes_ending hopen (.block opening body closing hbody))

mutual

/-- The scan of a member finds what is recorded of it, and nothing is left of it. -/
theorem passes_typeMember {scopes : List Scope} {fileNamespace : Option String}
    (hopen : IsOpen scopes) (member : TypeMember) :
    Passes (Between scopes fileNamespace) member.tokens
      (member.recorded (placeOf scopes fileNamespace)) (Between scopes fileNamespace) := by
  cases member with
  | filler filler => exact passes_filler hopen filler
  | bodiless header semicolon =>
      cases hbraced : header.isBraced with
      | true =>
          exact (passes_bracedHeader hopen hbraced).append
            (Passes.ofStep (loose_semicolon hopen semicolon))
      | false =>
          exact (passes_plainHeader hopen hbraced).andThen (passes_semicolon hopen _ semicolon)
  | type header opening members trailing closing =>
      rw [TypeMember.tokens, TypeMember.recorded]
      cases hbraced : header.isBraced with
      | true =>
          rw [if_pos rfl]
          exact passes_bracedType hopen hbraced
            ((balanced_typeMemberTokens members).append trailing.balanced) opening closing
      | false =>
          rw [if_neg Bool.false_ne_true]
          have hbody := isOpen_type header.name.text scopes
          have hheader : Passes (Between scopes fileNamespace)
              (header.tokens ++ [mark '{' opening])
              [header.heading.declaration (placeOf scopes fileNamespace)]
              (Between (.type header.name.text :: scopes) fileNamespace) :=
            (passes_plainHeader hopen hbraced).andThen (passes_opening hopen _ opening)
          have hmembers : Passes (Between (.type header.name.text :: scopes) fileNamespace)
              (typeMemberTokens members) (recordedMembers
                (placeOf (.type header.name.text :: scopes) fileNamespace) members)
              (Between (.type header.name.text :: scopes) fileNamespace) :=
            passes_typeMembers hbody members
          have hend : Passes (Between (.type header.name.text :: scopes) fileNamespace)
              (trailing.tokens ++ [mark '}' closing]) [] (Between scopes fileNamespace) :=
            (passes_run_of_between hbody trailing).andThen (passes_closing hbody closing)
          have hall := hheader.append (hmembers.append hend)
          rw [List.append_nil, List.append_assoc, ← List.append_assoc (typeMemberTokens members)]
            at hall
          exact hall
termination_by structural member

/-- The scan of members one after the other finds what is recorded of them. -/
theorem passes_typeMembers {scopes : List Scope} {fileNamespace : Option String}
    (hopen : IsOpen scopes) (members : List TypeMember) :
    Passes (Between scopes fileNamespace) (typeMemberTokens members)
      (recordedMembers (placeOf scopes fileNamespace) members)
      (Between scopes fileNamespace) := by
  cases members with
  | nil => exact Passes.nil fun _ hstate => hstate
  | cons member rest =>
      exact (passes_typeMember hopen member).append (passes_typeMembers hopen rest)
termination_by structural members

end

/-- In every namespace and every type a scan finds of the types among the members, nested to any
depth, exactly those that do not lie in the body of a type with a brace in its header; all of them
if and only if no type lies in such a body. -/
theorem nested_types_recorded (hopen : IsOpen scopes) (members : List TypeMember) :
    Passes (Between scopes fileNamespace) (typeMemberTokens members)
        (recordedMembers (placeOf scopes fileNamespace) members)
        (Between scopes fileNamespace) ∧
      (recordedMembers (placeOf scopes fileNamespace) members =
          typeMemberDeclarations (placeOf scopes fileNamespace) members ↔
        areExposed members = true) :=
  ⟨passes_typeMembers hopen members, recordedMembers_eq_declarations_iff _ members⟩

/-! ## An example -/

/-- What follows the name of a class whose base type is given an object with a property. -/
def bracedTail : List Token :=
  [mark ':' 1, ⟨.identifier, "Model", 1⟩, mark '(' 1, ⟨.identifier, "new", 1⟩,
    ⟨.identifier, "Options", 1⟩, mark '{' 1, ⟨.identifier, "Depth", 1⟩, mark '=' 1,
    ⟨.literal, "1", 1⟩, mark '}' 1, mark ')' 1]

theorem enclosed_bracedTail : Enclosed bracedTail := by
  have hword (text : String) :
      ¬ Opens ⟨.identifier, text, 1⟩ ∧ ¬ Closes ⟨.identifier, text, 1⟩ :=
    not_bracket_of_identifier rfl
  have hcolon : ¬ Opens (mark ':' 1) ∧ ¬ Closes (mark ':' 1) :=
    not_bracket_of_mark (fun bracket => by cases bracket <;> decide)
      (fun bracket => by cases bracket <;> decide) 1
  have hequals : ¬ Opens (mark '=' 1) ∧ ¬ Closes (mark '=' 1) :=
    not_bracket_of_mark (fun bracket => by cases bracket <;> decide)
      (fun bracket => by cases bracket <;> decide) 1
  have hliteral : ¬ Opens ⟨.literal, "1", 1⟩ ∧ ¬ Closes ⟨.literal, "1", 1⟩ := by
    constructor
    all_goals
      rintro ⟨bracket, hbracket⟩
      cases hbracket
  have hproperty : Balanced [⟨.identifier, "Depth", 1⟩, mark '=' 1, ⟨.literal, "1", 1⟩] := by
    refine balanced_of_forall ?_
    simp only [List.forall_mem_cons]
    exact ⟨hword "Depth", hequals, hliteral, fun _ hmem => absurd hmem List.not_mem_nil⟩
  have harguments : Balanced [⟨.identifier, "new", 1⟩, ⟨.identifier, "Options", 1⟩, mark '{' 1,
      ⟨.identifier, "Depth", 1⟩, mark '=' 1, ⟨.literal, "1", 1⟩, mark '}' 1] :=
    Balanced.cons (hword "new").1 (hword "new").2
      (Balanced.cons (hword "Options").1 (hword "Options").2 (hproperty.enclose .curly 1 1))
  exact Enclosed.cons hcolon.1 hcolon.2 (Enclosed.cons (hword "Model").1 (hword "Model").2
    (Enclosed.group .round (by decide) rfl harguments rfl Enclosed.nil))

/-- A class with a brace in its header and a class in its body. -/
def bracedMember : TypeMember :=
  .type
    { leads := []
      modifiers := []
      keywords := .single .classType ⟨"class", 1⟩ (by decide)
      name := ⟨"Player", 1⟩
      tail := bracedTail
      modifiers_free := by decide
      name_free := by decide
      tail_enclosed := enclosed_bracedTail
      tail_unended := by decide
      tail_calm := by decide } 2
    [.type
      { leads := []
        modifiers := []
        keywords := .single .classType ⟨"class", 3⟩ (by decide)
        name := ⟨"State", 3⟩
        tail := []
        modifiers_free := by decide
        name_free := by decide
        tail_enclosed := Enclosed.nil
        tail_unended := by decide
        tail_calm := by decide } 3 [] ⟨[], Balanced.nil, trivial⟩ 3]
    ⟨[], Balanced.nil, trivial⟩ 4

/-- Outside of all namespaces and types the class in the body is not found. -/
theorem nested_types_recorded_bracedMember :
    IsOpen [] ∧
      Declaration.ofTokens (typeMemberTokens [bracedMember]) =
        [⟨.classType, "Player", none, [], [], none, 1⟩] ∧
      areExposed [bracedMember] = false := by
  have hpasses : Passes (Between [] none) (typeMemberTokens [bracedMember])
      (recordedMembers (placeOf [] none) [bracedMember]) (Between [] none) :=
    (nested_types_recorded isOpen_nil [bracedMember]).1
  obtain ⟨state, ⟨last, rfl, -⟩, hscan⟩ := hpasses State.initial ⟨none, rfl, rfl⟩ []
  rw [List.append_nil, scan_nil] at hscan
  exact ⟨isOpen_nil, hscan, rfl⟩

end DeclarationScan

namespace SourceTree

open Grammar DeclarationScan

/-- A class with a brace in its header and a class in its body. -/
def bracedText : String :=
  "class Player : Model(new Options \x7b Depth = 1 \x7d)
\x7b
    class State \x7b \x7d
\x7d
"

set_option maxRecDepth 2000 in
/-- The class in the body of a class with a brace in its header is declared and not recorded. -/
theorem declarations_bracedText :
    Token.ofText true bracedText.toList = typeMemberTokens [bracedMember] ∧
      typeMemberDeclarations ⟨[], []⟩ [bracedMember] =
        [⟨.classType, "Player", none, [], [], none, 1⟩,
          ⟨.classType, "State", none, ["Player"], [], none, 3⟩] ∧
      (parse ⟨"Player.cs"⟩ bracedText ⟨.kept, Symbols.empty⟩).declarations =
        [⟨.classType, "Player", none, [], [], none, 1⟩] := by
  obtain ⟨text, htext, hhead, htokens, hdeclarations⟩ :
      ∃ text, bracedText = String.ofList text ∧ text.head? = some 'c' ∧
        Token.ofText true text = typeMemberTokens [bracedMember] ∧
        declarationsOf ⟨.kept, Symbols.empty⟩ text =
          [⟨.classType, "Player", none, [], [], none, 1⟩] :=
    ⟨_, rfl, by decide +kernel, by decide +kernel, by decide +kernel⟩
  have hchars : (withoutMark bracedText).toList = text :=
    toList_withoutMark htext hhead (by decide)
  have hplain : bracedText.toList = text := by
    rw [htext, String.toList_ofList]
  refine ⟨by rw [hplain, htokens], rfl, ?_⟩
  change declarationsOf _ (withoutMark bracedText).toList = _
  rw [hchars]
  exact hdeclarations

end SourceTree
end ProjectAssembler
