import ProjectAssembler.Proofs.Source.Renaming
import ProjectAssembler.Proofs.Source.TokenLines

/-!
# Verbatim identifiers

An identifier with a leading `@` may be spelled like a keyword.  Its token does not tell that it was
written in this way, so a scan takes it for the keyword wherever it expects one.  Everywhere else it
can be replaced by an ordinary identifier without a change of the declarations.

Main definition: `Lexeme.renamed`.

Main results:

* `Token.renamed_ofLexemes`: the tokens of lexemes with replaced verbatim identifiers;
* `SourceTree.verbatim_renamed`: verbatim identifiers that keep their roles can be replaced;
* `SourceTree.declarations_ruleText`: a parameter whose type is found as the keyword of a type.
-/

namespace ProjectAssembler

variable {replacement : Replacement}

namespace Lexeme

/-- A lexeme, or an ordinary identifier in its place if it is a verbatim identifier that is to be
replaced. -/
def renamed (replacement : Replacement) : Lexeme → Lexeme
  | identifier true name =>
      if String.ofList name ∈ replacement.words then identifier false replacement.name.toList
      else identifier true name
  | lexeme => lexeme

/-- A verbatim identifier that is replaced, or a lexeme that stays the same. -/
theorem renamed_cases (replacement : Replacement) (lexeme : Lexeme) :
    lexeme.renamed replacement = lexeme ∨
      ∃ name, lexeme = identifier true name ∧ String.ofList name ∈ replacement.words ∧
        lexeme.renamed replacement = identifier false replacement.name.toList := by
  unfold renamed
  split
  · rename_i name
    split
    · rename_i hword
      exact Or.inr ⟨name, rfl, hword, rfl⟩
    · exact Or.inl rfl
  · exact Or.inl rfl

/-- Identifiers hold no line feeds, so lines end at the same places. -/
theorem count_renamed {lexeme : Lexeme} (h : lexeme.IsSpelled)
    (hnew : (lexeme.renamed replacement).IsSpelled) :
    (lexeme.renamed replacement).source.count '\n' = lexeme.source.count '\n' := by
  rcases renamed_cases replacement lexeme with hsame | ⟨name, rfl, -, heq⟩
  · rw [hsame]
  · rw [heq] at hnew ⊢
    have hold : (identifier true name).source.count '\n' = 0 := by
      rw [List.count_eq_zero, source, List.mem_cons, not_or]
      exact ⟨by decide, not_mem_of_isSpelled h⟩
    have hnone : (identifier false replacement.name.toList).source.count '\n' = 0 :=
      List.count_eq_zero.2 (not_mem_of_isSpelled hnew)
    rw [hold, hnone]

/-- The tokens of a lexeme and of the one in its place are beside each other. -/
theorem renamed_token? (documentation : Bool) (line : Nat) (lexeme : Lexeme) :
    Option.Rel (Token.Renamed replacement) (lexeme.token? documentation line)
      ((lexeme.renamed replacement).token? documentation line) := by
  rcases renamed_cases replacement lexeme with hsame | ⟨name, rfl, hword, heq⟩
  · rw [hsame]
    cases lexeme.token? documentation line with
    | none => exact .none
    | some token => exact .some ⟨rfl, rfl, Or.inl rfl⟩
  · rw [heq]
    exact .some ⟨rfl, rfl, Or.inr ⟨rfl, hword, String.ofList_toList⟩⟩

end Lexeme

/-- The tokens of lexemes with replaced verbatim identifiers are beside the tokens of the lexemes
themselves. -/
theorem Token.renamed_ofLexemes (documentation : Bool) (line : Nat) {lexemes : List Lexeme}
    (h : ∀ lexeme ∈ lexemes, lexeme.IsSpelled ∧ (lexeme.renamed replacement).IsSpelled) :
    List.Forall₂ (Token.Renamed replacement) (ofLexemes documentation line lexemes)
      (ofLexemes documentation line (lexemes.map (Lexeme.renamed replacement))) := by
  induction lexemes generalizing line with
  | nil => exact .nil
  | cons lexeme rest ih =>
      obtain ⟨⟨hlexeme, hnew⟩, hrest⟩ := List.forall_mem_cons.1 h
      rw [List.map_cons, ofLexemes, ofLexemes, Lexeme.count_renamed hlexeme hnew]
      exact List.rel_append
        (DeclarationScan.forall₂_toList (Lexeme.renamed_token? documentation line lexeme))
        (ih _ hrest)

namespace SourceTree

open DeclarationScan

/-! ## The declarations of renamed texts -/

/-- The lexemes in the active regions of a file's text. -/
def lexemesOf (options : ParseOptions) (text : String) : List Lexeme :=
  Lexeme.ofText (activeText options.symbols (withoutMark text).toList)

theorem renamed_tokensOf {options : ParseOptions} {old new : String}
    (h : lexemesOf options new = (lexemesOf options old).map (Lexeme.renamed replacement)) :
    List.Forall₂ (Token.Renamed replacement) (tokensOf options old) (tokensOf options new) := by
  have hspelled : ∀ lexeme ∈ lexemesOf options new, lexeme.IsSpelled := Lexeme.isSpelled_ofText _
  have hboth : ∀ lexeme ∈ lexemesOf options old,
      lexeme.IsSpelled ∧ (lexeme.renamed replacement).IsSpelled := by
    intro lexeme hmem
    have hnew : lexeme.renamed replacement ∈ lexemesOf options new := by
      rw [h]
      exact List.mem_map_of_mem hmem
    exact ⟨Lexeme.isSpelled_ofText _ lexeme hmem, hspelled _ hnew⟩
  have htokens := Token.renamed_ofLexemes (options.documentation == .kept) 1 hboth
  rw [← h] at htokens
  exact htokens

/-- Where verbatim identifiers are replaced by an ordinary one without a change of their roles, the
same types are declared up to the replacement. -/
theorem verbatim_renamed (path : Path) (options : ParseOptions) (old new : String)
    (replacement : Replacement)
    (hlexemes : lexemesOf options new =
      (lexemesOf options old).map (Lexeme.renamed replacement))
    (hroles : keepsRoles State.initial State.initial (tokensOf options old)
      (tokensOf options new) = true) :
    List.Forall₂ (Declaration.Renamed replacement) (parse path old options).declarations
      (parse path new options).declarations :=
  declarations_renamed path ⟨renamed_tokensOf hlexemes, hroles⟩

/-- A class whose name, field, variable and namespace are spelled like keywords. -/
def verbatimText : String :=
  "namespace Game.@class;
class @struct : Model
\x7b
    Model @class;
    void Run() \x7b Model @class = this; \x7d
\x7d
"

/-- The same class with ordinary identifiers. -/
def renamedVerbatimText : String :=
  "namespace Game.own;
class own : Model
\x7b
    Model own;
    void Run() \x7b Model own = this; \x7d
\x7d
"

/-- Type keywords that are replaced when they are written as verbatim identifiers. -/
def ownName : Replacement :=
  ⟨["class", "struct"], "own", by decide⟩

set_option maxRecDepth 4000 in
/-- The class and its namespace are declared with the other names. -/
theorem verbatim_renamed_verbatimText :
    lexemesOf ⟨.kept, Symbols.empty⟩ renamedVerbatimText =
        (lexemesOf ⟨.kept, Symbols.empty⟩ verbatimText).map (Lexeme.renamed ownName) ∧
      keepsRoles State.initial State.initial (tokensOf ⟨.kept, Symbols.empty⟩ verbatimText)
        (tokensOf ⟨.kept, Symbols.empty⟩ renamedVerbatimText) = true ∧
      (parse ⟨"Player.cs"⟩ verbatimText ⟨.kept, Symbols.empty⟩).declarations =
        [⟨.classType, "struct", some "Game.class", [], [], none, 2⟩] ∧
      List.Forall₂ (Declaration.Renamed ownName)
        (parse ⟨"Player.cs"⟩ verbatimText ⟨.kept, Symbols.empty⟩).declarations
        (parse ⟨"Player.cs"⟩ renamedVerbatimText ⟨.kept, Symbols.empty⟩).declarations := by
  obtain ⟨old, new, hold, hnew, holdHead, hnewHead, hlexemes, hroles, htypes⟩ :
      ∃ old new, verbatimText = String.ofList old ∧ renamedVerbatimText = String.ofList new ∧
        old.head? = some 'n' ∧ new.head? = some 'n' ∧
        Lexeme.ofText (activeText Symbols.empty new) =
          (Lexeme.ofText (activeText Symbols.empty old)).map (Lexeme.renamed ownName) ∧
        keepsRoles State.initial State.initial
          (Token.ofText true (activeText Symbols.empty old))
          (Token.ofText true (activeText Symbols.empty new)) = true ∧
        declarationsOf ⟨.kept, Symbols.empty⟩ old =
          [⟨.classType, "struct", some "Game.class", [], [], none, 2⟩] :=
    ⟨_, _, rfl, rfl, by decide +kernel, by decide +kernel, by decide +kernel, by decide +kernel,
      by decide +kernel⟩
  have holdChars : (withoutMark verbatimText).toList = old :=
    toList_withoutMark hold holdHead (by decide)
  have hnewChars : (withoutMark renamedVerbatimText).toList = new :=
    toList_withoutMark hnew hnewHead (by decide)
  have hlexemes' : lexemesOf ⟨.kept, Symbols.empty⟩ renamedVerbatimText =
      (lexemesOf ⟨.kept, Symbols.empty⟩ verbatimText).map (Lexeme.renamed ownName) := by
    rw [lexemesOf, lexemesOf, holdChars, hnewChars]
    exact hlexemes
  have hroles' : keepsRoles State.initial State.initial
      (tokensOf ⟨.kept, Symbols.empty⟩ verbatimText)
      (tokensOf ⟨.kept, Symbols.empty⟩ renamedVerbatimText) = true := by
    rw [tokensOf, tokensOf, holdChars, hnewChars]
    exact hroles
  exact ⟨hlexemes', hroles', (congrArg (declarationsOf _) holdChars).trans htypes,
    verbatim_renamed _ _ _ _ _ hlexemes' hroles'⟩

/-- A class with a parameter whose type is spelled like a keyword. -/
def ruleText : String :=
  "class Shape
\x7b
    void Apply(@class rule) \x7b \x7d
\x7d
"

/-- The same class with an ordinary identifier. -/
def renamedRuleText : String :=
  "class Shape
\x7b
    void Apply(own rule) \x7b \x7d
\x7d
"

set_option maxRecDepth 2000 in
/-- The type of the parameter and its name are found as a type; with another name they are not. -/
theorem declarations_ruleText :
    lexemesOf ⟨.kept, Symbols.empty⟩ renamedRuleText =
        (lexemesOf ⟨.kept, Symbols.empty⟩ ruleText).map (Lexeme.renamed ownName) ∧
      (parse ⟨"Shape.cs"⟩ ruleText ⟨.kept, Symbols.empty⟩).declarations =
        [⟨.classType, "Shape", none, [], [], none, 1⟩,
          ⟨.classType, "rule", none, ["Shape"], [], none, 3⟩] ∧
      (parse ⟨"Shape.cs"⟩ renamedRuleText ⟨.kept, Symbols.empty⟩).declarations =
        [⟨.classType, "Shape", none, [], [], none, 1⟩] := by
  obtain ⟨old, new, hold, hnew, holdHead, hnewHead, hlexemes, holdTypes, hnewTypes⟩ :
      ∃ old new, ruleText = String.ofList old ∧ renamedRuleText = String.ofList new ∧
        old.head? = some 'c' ∧ new.head? = some 'c' ∧
        Lexeme.ofText (activeText Symbols.empty new) =
          (Lexeme.ofText (activeText Symbols.empty old)).map (Lexeme.renamed ownName) ∧
        declarationsOf ⟨.kept, Symbols.empty⟩ old =
          [⟨.classType, "Shape", none, [], [], none, 1⟩,
            ⟨.classType, "rule", none, ["Shape"], [], none, 3⟩] ∧
        declarationsOf ⟨.kept, Symbols.empty⟩ new =
          [⟨.classType, "Shape", none, [], [], none, 1⟩] :=
    ⟨_, _, rfl, rfl, by decide +kernel, by decide +kernel, by decide +kernel, by decide +kernel,
      by decide +kernel⟩
  have holdChars : (withoutMark ruleText).toList = old :=
    toList_withoutMark hold holdHead (by decide)
  have hnewChars : (withoutMark renamedRuleText).toList = new :=
    toList_withoutMark hnew hnewHead (by decide)
  refine ⟨?_, (congrArg (declarationsOf _) holdChars).trans holdTypes,
    (congrArg (declarationsOf _) hnewChars).trans hnewTypes⟩
  rw [lexemesOf, lexemesOf, holdChars, hnewChars]
  exact hlexemes

end SourceTree
end ProjectAssembler
