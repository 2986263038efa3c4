import Mathlib.Data.List.TakeWhile
import ProjectAssembler.Proofs.Source.Runs

/-!
# The texts of literals

A scan for declarations knows literals by their kind only.  Tokens that differ in the texts of their
literals have the same declarations.

Main definition: `Token.asScanned`.

Main results:

* `DeclarationScan.step_asScanned`: a step does not read the texts of literals;
* `Declaration.ofTokens_asScanned`: neither does a whole scan.
-/

namespace ProjectAssembler
namespace Token

/-- A token as a scan sees it: without the text of a literal. -/
def asScanned (token : Token) : Token :=
  if token.kind = .literal then { token with text := "" } else token

variable {token : Token}

theorem asScanned_of_ne (h : token.kind ≠ .literal) : token.asScanned = token :=
  if_neg h

@[simp]
theorem kind_asScanned (token : Token) : token.asScanned.kind = token.kind := by
  unfold asScanned
  split <;> rfl

@[simp]
theorem isPunctuation_asScanned (token : Token) (c : Char) :
    token.asScanned.isPunctuation c = token.isPunctuation c := by
  rw [isPunctuation, isPunctuation, kind_asScanned]

@[simp]
theorem isIdentifier_asScanned (token : Token) (text : String) :
    token.asScanned.isIdentifier text = token.isIdentifier text := by
  by_cases h : token.kind = .literal
  · have hne : (TokenKind.literal == TokenKind.identifier) = false := rfl
    rw [isIdentifier, isIdentifier, kind_asScanned, h, hne, Bool.false_and, Bool.false_and]
  · rw [asScanned_of_ne h]

theorem asScanned_of_identifier (h : token.kind = .identifier) : token.asScanned = token :=
  asScanned_of_ne (by simp [h])

end Token

namespace DeclarationScan

open Token (asScanned)

variable {tokens : List Token}

/-! ## What a step reads ahead -/

theorem lastSegment_asScanned (segment : String) (tokens : List Token) :
    lastSegment segment (tokens.map asScanned) =
      ((lastSegment segment tokens).1, (lastSegment segment tokens).2.map asScanned) := by
  fun_induction lastSegment segment tokens with
  | case1 segment dot next rest hdot ih =>
      rw [List.map_cons, List.map_cons, lastSegment.eq_def]
      simp only [Token.isPunctuation_asScanned, Token.kind_asScanned]
      rw [if_pos hdot, Token.asScanned_of_identifier hdot.2]
      exact ih
  | case2 segment dot next hdot third rest hcolons ih =>
      rw [List.map_cons, List.map_cons, List.map_cons, lastSegment.eq_def]
      simp only [Token.isPunctuation_asScanned, Token.kind_asScanned]
      rw [if_neg hdot, if_pos hcolons, Token.asScanned_of_identifier hcolons.2.2]
      exact ih
  | case3 segment dot next hdot third rest hcolons =>
      rw [List.map_cons, List.map_cons, List.map_cons, lastSegment.eq_def]
      simp only [Token.isPunctuation_asScanned, Token.kind_asScanned]
      rw [if_neg hdot, if_neg hcolons]
  | case4 segment dot next hdot =>
      rw [List.map_cons, List.map_cons, lastSegment.eq_def]
      simp only [Token.isPunctuation_asScanned, Token.kind_asScanned]
      rw [if_neg hdot]
      rfl
  | case5 segment rest hshort =>
      match rest, hshort with
      | [], _ => rfl
      | [_], _ => rfl
      | _ :: _ :: _, hshort => exact (hshort _ _ _ rfl).elim

theorem isTarget_asScanned (tokens : List Token) :
    isTarget (tokens.map asScanned) = isTarget tokens := by
  match tokens with
  | [] => rfl
  | [first] => exact Token.isPunctuation_asScanned first ':'
  | first :: second :: _ =>
      simp only [List.map_cons, isTarget, Token.isPunctuation_asScanned]

theorem attributeNames_asScanned (depth : Nat) (expected : Bool) (tokens : List Token) :
    attributeNames depth expected (tokens.map asScanned) =
      ((attributeNames depth expected tokens).1,
        (attributeNames depth expected tokens).2.map asScanned) := by
  fun_induction attributeNames depth expected tokens with
  | case1 => rw [List.map_nil, attributeNames]
  | case7 depth expected token rest hkind hplace htarget ih =>
      rw [List.map_cons, attributeNames, Token.kind_asScanned]
      simp only [hkind]
      rw [if_pos hplace, isTarget_asScanned, if_pos htarget, ← List.map_tail]
      exact ih
  | case8 depth expected token rest hkind hplace htarget name following ih =>
      rw [List.map_cons, attributeNames, Token.kind_asScanned]
      simp only [hkind]
      rw [if_pos hplace, isTarget_asScanned, if_neg htarget,
        Token.asScanned_of_identifier hkind, lastSegment_asScanned, ih]
  | _ =>
      rw [List.map_cons, attributeNames, Token.kind_asScanned]
      simp_all

theorem isNamespacePart_asScanned :
    isNamespacePart ∘ asScanned = isNamespacePart := by
  funext token
  simp only [Function.comp_apply, isNamespacePart, Token.kind_asScanned]

theorem namespaceName_asScanned (tokens : List Token) :
    namespaceName (tokens.map asScanned) = namespaceName tokens := by
  have hparts : (tokens.takeWhile isNamespacePart).map asScanned =
      tokens.takeWhile isNamespacePart := by
    refine (List.map_congr_left fun token htoken => ?_).trans (List.map_id _)
    have hpart : isNamespacePart token = true := List.mem_takeWhile_imp htoken
    refine Token.asScanned_of_ne fun hkind => ?_
    simp [isNamespacePart, hkind] at hpart
  rw [namespaceName, List.takeWhile_map, isNamespacePart_asScanned, hparts, namespaceName]

theorem enterNamespace_asScanned (state : State) (tokens : List Token) :
    enterNamespace state (tokens.map asScanned) =
      ((enterNamespace state tokens).1, (enterNamespace state tokens).2.map asScanned) := by
  unfold enterNamespace
  rw [namespaceName_asScanned, List.dropWhile_map, isNamespacePart_asScanned]
  cases tokens.dropWhile isNamespacePart with
  | nil => rfl
  | cons token rest =>
      simp only [List.map_cons, Token.isPunctuation_asScanned, Token.kind_asScanned]
      split
      · rfl
      · split <;> rfl

theorem kindAndName_asScanned (kind : TypeKind) (tokens : List Token) :
    kindAndName kind (tokens.map asScanned) =
      ((kindAndName kind tokens).1, (kindAndName kind tokens).2.map asScanned) := by
  cases tokens with
  | nil => cases kind <;> rfl
  | cons next rest =>
      cases kind with
      | recordType =>
          simp only [List.map_cons, kindAndName, Token.isIdentifier_asScanned]
          split
          · rfl
          · split <;> rfl
      | _ => rfl

theorem enterHeader_asScanned (state : State) (kind : TypeKind) (tokens : List Token) :
    enterHeader state kind (tokens.map asScanned) =
      ((enterHeader state kind tokens).1, (enterHeader state kind tokens).2.map asScanned) := by
  unfold enterHeader
  rw [kindAndName_asScanned]
  generalize kindAndName kind tokens = header
  obtain ⟨own, after⟩ := header
  cases after with
  | nil => rfl
  | cons name rest =>
      by_cases hkind : name.kind = .identifier
      · simp only [List.map_cons, Token.asScanned_of_identifier hkind]
        split
        · rfl
        · simp only [List.map_cons, Token.asScanned_of_identifier hkind]
      · simp [hkind]

/-! ## Steps -/

/-- A step does not read the texts of literals. -/
theorem step_asScanned (state : State) (token : Token) (rest : List Token) :
    step state token.asScanned (rest.map asScanned) =
      { step state token rest with rest := (step state token rest).rest.map asScanned } := by
  by_cases hblock : state.scopes.head? = some .block
  · rw [step_block hblock, step_block hblock, stepBlock, stepBlock, Token.kind_asScanned]
  · have hopen : IsOpen state.scopes := hblock
    cases hkind : token.kind with
    | identifier =>
        rw [Token.asScanned_of_identifier hkind, step_identifier hopen hkind,
          step_identifier hopen hkind]
        unfold stepIdentifier
        simp only [enterNamespace_asScanned, enterHeader_asScanned]
        split
        · rfl
        · split
          · rfl
          · split
            · split <;> rfl
            · rfl
    | punctuation c =>
        rw [Token.asScanned_of_ne (by simp [hkind]), step_punctuation hopen hkind,
          step_punctuation hopen hkind]
        unfold stepPunctuation
        simp only [attributeNames_asScanned]
        split
        · rfl
        · split
          · rfl
          · split
            · rfl
            · split <;> rfl
    | literal => simp [step, hblock, hkind]
    | documentation =>
        rw [Token.asScanned_of_ne (by simp [hkind])]
        simp only [step, hblock, hkind, if_false]
        split <;> rfl

/-- A scan does not read the texts of literals. -/
theorem scan_asScanned (state : State) (tokens : List Token) :
    scan state (tokens.map asScanned) = scan state tokens := by
  fun_induction scan state tokens with
  | case1 state => rw [List.map_nil, scan_nil]
  | case2 state token rest ih => rw [List.map_cons, scan_cons, step_asScanned, ih]

end DeclarationScan

/-- Tokens that differ in the texts of their literals have the same declarations. -/
theorem Declaration.ofTokens_asScanned {first second : List Token}
    (h : first.map Token.asScanned = second.map Token.asScanned) :
    Declaration.ofTokens first = Declaration.ofTokens second := by
  rw [Declaration.ofTokens, ← DeclarationScan.scan_asScanned, h, DeclarationScan.scan_asScanned,
    Declaration.ofTokens]

end ProjectAssembler
