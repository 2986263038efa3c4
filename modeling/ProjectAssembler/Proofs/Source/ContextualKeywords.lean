import ProjectAssembler.Proofs.Source.Renaming

/-!
# The word `record` as an identifier

`record` is a keyword before the name of a type and an identifier everywhere else.  A scan takes it
for the keyword wherever a name follows it outside of members' bodies, so an identifier `record` can
be renamed without a change of the declarations as long as no name follows it there.

Main definition: `Replacement.ofRecord`.

Main results:

* `SourceTree.record_renamed`: an identifier `record` that keeps its role can be renamed;
* `SourceTree.declarations_matchText`: a parameter `record` that is found as the keyword of a type.
-/

namespace ProjectAssembler

/-- The replacement of the word `record` by one without a meaning of its own. -/
def Replacement.ofRecord (name : String) (h : Grammar.isReserved name = false) : Replacement :=
  ⟨["record"], name, h⟩

namespace SourceTree

open DeclarationScan

/-! ## The declarations of renamed texts -/

/-- Where identifiers `record` are replaced by another word without a change of their roles, and the
word occurs in no name of a declaration, the same types are declared. -/
theorem record_renamed (path : Path) (options : ParseOptions) (old new name : String)
    (hname : Grammar.isReserved name = false)
    (h : Renamed (.ofRecord name hname) options old new)
    (hfresh : ∀ declaration ∈ (parse path new options).declarations,
      ¬ declaration.Mentions name) :
    (parse path new options).declarations = (parse path old options).declarations :=
  Declaration.eq_of_forall₂_renamed (declarations_renamed path h) hfresh

/-- A class with a parameter `record` in expressions and in a body, and with a record in it. -/
def recordText : String :=
  "class Shape
\x7b
    bool IsNone(object record) => record == null;
    bool Matches(object record) \x7b return record is Shape; \x7d
    record Side(int Length);
\x7d
"

/-- The same class with another name for the parameter. -/
def renamedRecordText : String :=
  "class Shape
\x7b
    bool IsNone(object entry) => entry == null;
    bool Matches(object entry) \x7b return entry is Shape; \x7d
    record Side(int Length);
\x7d
"

/-- The declarations of the class and of the record in it. -/
def recordTextDeclarations : List Declaration :=
  [⟨.classType, "Shape", none, [], [], none, 1⟩,
    ⟨.recordType, "Side", none, ["Shape"], [], none, 5⟩]

set_option maxRecDepth 4000 in
theorem renamed_recordText :
    Renamed (.ofRecord "entry" (by decide)) ⟨.kept, Symbols.empty⟩ recordText renamedRecordText ∧
      (parse ⟨"Shape.cs"⟩ recordText ⟨.kept, Symbols.empty⟩).declarations =
        recordTextDeclarations ∧
      (parse ⟨"Shape.cs"⟩ renamedRecordText ⟨.kept, Symbols.empty⟩).declarations =
        recordTextDeclarations := by
  obtain ⟨old, new, hold, hnew, holdHead, hnewHead, htokens, hroles, holdTypes, hnewTypes⟩ :
      ∃ old new, recordText = String.ofList old ∧ renamedRecordText = String.ofList new ∧
        old.head? = some 'c' ∧ new.head? = some 'c' ∧
        List.Forall₂ (Token.Renamed (.ofRecord "entry" (by decide)))
          (Token.ofText true (activeText Symbols.empty old))
          (Token.ofText true (activeText Symbols.empty new)) ∧
        keepsRoles State.initial State.initial
          (Token.ofText true (activeText Symbols.empty old))
          (Token.ofText true (activeText Symbols.empty new)) = true ∧
        declarationsOf ⟨.kept, Symbols.empty⟩ old = recordTextDeclarations ∧
        declarationsOf ⟨.kept, Symbols.empty⟩ new = recordTextDeclarations :=
    ⟨_, _, rfl, rfl, by decide +kernel, by decide +kernel, by decide +kernel, by decide +kernel,
      by decide +kernel, by decide +kernel⟩
  have holdChars : (withoutMark recordText).toList = old :=
    toList_withoutMark hold holdHead (by decide)
  have hnewChars : (withoutMark renamedRecordText).toList = new :=
    toList_withoutMark hnew hnewHead (by decide)
  refine ⟨⟨?_, ?_⟩, (congrArg (declarationsOf _) holdChars).trans holdTypes,
    (congrArg (declarationsOf _) hnewChars).trans hnewTypes⟩
  · rw [tokensOf, tokensOf, holdChars, hnewChars]
    exact htokens
  · rw [tokensOf, tokensOf, holdChars, hnewChars]
    exact hroles

/-- The parameter can be renamed. -/
theorem record_renamed_recordText :
    Renamed (.ofRecord "entry" (by decide)) ⟨.kept, Symbols.empty⟩ recordText renamedRecordText ∧
      (parse ⟨"Shape.cs"⟩ renamedRecordText ⟨.kept, Symbols.empty⟩).declarations =
        (parse ⟨"Shape.cs"⟩ recordText ⟨.kept, Symbols.empty⟩).declarations := by
  obtain ⟨hrenamed, -, hnew⟩ := renamed_recordText
  refine ⟨hrenamed, record_renamed _ _ _ _ _ _ hrenamed ?_⟩
  rw [hnew]
  simp [recordTextDeclarations, Declaration.Mentions]

/-- A class with a parameter `record` before a word in an expression. -/
def matchText : String :=
  "class Shape
\x7b
    bool Matches(object record) => record is Shape;
\x7d
"

/-- The same class with another name for the parameter. -/
def renamedMatchText : String :=
  "class Shape
\x7b
    bool Matches(object entry) => entry is Shape;
\x7d
"

set_option maxRecDepth 2000 in
/-- The parameter and the word after it are found as a type; with another name they are not. -/
theorem declarations_matchText :
    List.Forall₂ (Token.Renamed (.ofRecord "entry" (by decide)))
        (tokensOf ⟨.kept, Symbols.empty⟩ matchText)
        (tokensOf ⟨.kept, Symbols.empty⟩ renamedMatchText) ∧
      (parse ⟨"Shape.cs"⟩ matchText ⟨.kept, Symbols.empty⟩).declarations =
        [⟨.classType, "Shape", none, [], [], none, 1⟩,
          ⟨.recordType, "is", none, ["Shape"], [], none, 3⟩] ∧
      (parse ⟨"Shape.cs"⟩ renamedMatchText ⟨.kept, Symbols.empty⟩).declarations =
        [⟨.classType, "Shape", none, [], [], none, 1⟩] := by
  obtain ⟨old, new, hold, hnew, holdHead, hnewHead, htokens, holdTypes, hnewTypes⟩ :
      ∃ old new, matchText = String.ofList old ∧ renamedMatchText = String.ofList new ∧
        old.head? = some 'c' ∧ new.head? = some 'c' ∧
        List.Forall₂ (Token.Renamed (.ofRecord "entry" (by decide)))
          (Token.ofText true (activeText Symbols.empty old))
          (Token.ofText true (activeText Symbols.empty new)) ∧
        declarationsOf ⟨.kept, Symbols.empty⟩ old =
          [⟨.classType, "Shape", none, [], [], none, 1⟩,
            ⟨.recordType, "is", none, ["Shape"], [], none, 3⟩] ∧
        declarationsOf ⟨.kept, Symbols.empty⟩ new =
          [⟨.classType, "Shape", none, [], [], none, 1⟩] :=
    ⟨_, _, rfl, rfl, by decide +kernel, by decide +kernel, by decide +kernel, by decide +kernel,
      by decide +kernel⟩
  have holdChars : (withoutMark matchText).toList = old :=
    toList_withoutMark hold holdHead (by decide)
  have hnewChars : (withoutMark renamedMatchText).toList = new :=
    toList_withoutMark hnew hnewHead (by decide)
  refine ⟨?_, (congrArg (declarationsOf _) holdChars).trans holdTypes,
    (congrArg (declarationsOf _) hnewChars).trans hnewTypes⟩
  rw [tokensOf, tokensOf, holdChars, hnewChars]
  exact htokens

end SourceTree
end ProjectAssembler
