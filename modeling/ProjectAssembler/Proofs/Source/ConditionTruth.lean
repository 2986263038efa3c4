import ProjectAssembler.Proofs.Source.ConditionGrammar

/-!
# The truth of conditions

A condition says something about the names that are defined: a symbol that its name is, an operator
what the operator means.  A text holds where the condition that the grammar derives for its tokens
is true, and every text that is no way to write a condition does not hold.

How a chain of `||` or of `&&` is grouped makes no difference to its truth, so such conditions may
be written without parentheses in either grouping.

Main definitions:

* `Condition.IsTrue`: what a condition says;
* `Condition.Asserts`: whether a text spells a condition that is true;
* `Condition.Writes`: the ways to write a condition, with all parentheses that are needed and any
  further ones.

Main results:

* `Condition.eval_eq_true_iff` and `Condition.holds_eq_true_iff`: conditions and texts are evaluated
  to their truth;
* `Condition.Writes.exists_derives`: what is written is derived with the same truth;
* `Condition.holds_iff_derives`: the texts that hold.
-/

namespace ProjectAssembler
namespace Condition

variable {defined : String → Prop}

/-! ## Truth -/

/-- What a condition says about the names that are defined. -/
def IsTrue (defined : String → Prop) : Condition → Prop
  | constant value => value = true
  | symbol name => defined name
  | negation operand => ¬ operand.IsTrue defined
  | equality left right => left.IsTrue defined ↔ right.IsTrue defined
  | inequality left right => ¬ (left.IsTrue defined ↔ right.IsTrue defined)
  | conjunction left right => left.IsTrue defined ∧ right.IsTrue defined
  | disjunction left right => left.IsTrue defined ∨ right.IsTrue defined

instance IsTrue.decidable (defined : String → Prop) [DecidablePred defined] :
    (condition : Condition) → Decidable (condition.IsTrue defined)
  | constant value => inferInstanceAs (Decidable (value = true))
  | symbol name => inferInstanceAs (Decidable (defined name))
  | negation operand =>
      have := decidable defined operand
      inferInstanceAs (Decidable (¬ operand.IsTrue defined))
  | equality left right =>
      have := decidable defined left
      have := decidable defined right
      inferInstanceAs (Decidable (left.IsTrue defined ↔ right.IsTrue defined))
  | inequality left right =>
      have := decidable defined left
      have := decidable defined right
      inferInstanceAs (Decidable (¬ (left.IsTrue defined ↔ right.IsTrue defined)))
  | conjunction left right =>
      have := decidable defined left
      have := decidable defined right
      inferInstanceAs (Decidable (left.IsTrue defined ∧ right.IsTrue defined))
  | disjunction left right =>
      have := decidable defined left
      have := decidable defined right
      inferInstanceAs (Decidable (left.IsTrue defined ∨ right.IsTrue defined))

/-- A condition is evaluated to its truth. -/
theorem eval_eq_true_iff (symbols : Symbols) (condition : Condition) :
    condition.eval symbols = true ↔ condition.IsTrue (· ∈ symbols.names) := by
  induction condition with
  | constant value => rfl
  | symbol name => exact List.contains_iff_mem
  | negation operand ih => rw [eval, IsTrue, ← ih, Bool.not_eq_true', Bool.not_eq_true]
  | equality left right ihleft ihright =>
      rw [eval, IsTrue, ← ihleft, ← ihright, beq_iff_eq, Bool.eq_iff_iff]
  | inequality left right ihleft ihright =>
      rw [eval, IsTrue, ← ihleft, ← ihright, bne_iff_ne, ne_eq, Bool.eq_iff_iff]
  | conjunction left right ihleft ihright =>
      rw [eval, IsTrue, ← ihleft, ← ihright, Bool.and_eq_true]
  | disjunction left right ihleft ihright =>
      rw [eval, IsTrue, ← ihleft, ← ihright, Bool.or_eq_true]

/-- Whether a text spells a condition that is true where some names are defined. -/
def Asserts (defined : String → Prop) (text : List Char) : Prop :=
  ∃ tokens condition, Token.Spells tokens text ∧ Derives .disjunction tokens condition ∧
    condition.IsTrue defined

theorem asserts_iff {text : List Char} :
    Asserts defined text ↔ ∃ condition ∈ ofText? text, condition.IsTrue defined := by
  simp only [Asserts, Option.mem_def, ofText?_eq_some_iff]
  constructor
  · rintro ⟨tokens, condition, hspells, hderives, htrue⟩
    exact ⟨condition, ⟨tokens, hspells, hderives⟩, htrue⟩
  · rintro ⟨condition, ⟨tokens, hspells, hderives⟩, htrue⟩
    exact ⟨tokens, condition, hspells, hderives, htrue⟩

instance [DecidablePred defined] (text : List Char) : Decidable (Asserts defined text) :=
  decidable_of_iff (∃ condition ∈ ofText? text, condition.IsTrue defined) asserts_iff.symm

/-- A text holds where it spells a condition that is true. -/
theorem holds_eq_true_iff (symbols : Symbols) (text : List Char) :
    holds symbols text = true ↔ Asserts (· ∈ symbols.names) text := by
  rw [asserts_iff, holds]
  cases ofText? text with
  | none => simp
  | some condition => simp [eval_eq_true_iff]

/-! ## Ways to write a condition -/

/-- The place of what may stand bare to the right of an operator: only of `||` and `&&` it makes no
difference whether a chain is grouped to the left or to the right. -/
def Operator.right : Operator → Level
  | or => .disjunction
  | and => .conjunction
  | equal => .operand
  | notEqual => .operand

/-- Whether tokens are a way to write a condition at a place.  Where the operator of a condition is
looser than the place, it has to be in parentheses; everything may be in further ones. -/
inductive Writes : Level → Condition → List Token → Prop where
  | symbol {level : Level} {name : String} (htrue : name ≠ "true") (hfalse : name ≠ "false") :
      Writes level (symbol name) [.symbol name]
  | constant {level : Level} (value : Bool) :
      Writes level (constant value) [.symbol (if value then "true" else "false")]
  | negation {level : Level} {operand : Condition} {tokens : List Token}
      (h : Writes .operand operand tokens) : Writes level (negation operand) (.bang :: tokens)
  | joined {level : Level} (operator : Operator) {left right : Condition}
      {tokens others : List Token} (hlevel : level.rank ≤ operator.level.rank)
      (hleft : Writes operator.level left tokens) (hright : Writes operator.right right others) :
      Writes level (operator.join left right) (tokens ++ operator.token :: others)
  | enclosed {level : Level} {condition : Condition} {tokens : List Token}
      (h : Writes .disjunction condition tokens) :
      Writes level condition (.opening :: (tokens ++ [.closing]))

/-- What an operator says about the truth of two conditions. -/
def Operator.relates : Operator → Prop → Prop → Prop
  | or => fun left right => left ∨ right
  | and => fun left right => left ∧ right
  | equal => fun left right => left ↔ right
  | notEqual => fun left right => ¬ (left ↔ right)

theorem isTrue_join (operator : Operator) (left right : Condition) :
    (operator.join left right).IsTrue defined ↔
      operator.relates (left.IsTrue defined) (right.IsTrue defined) := by
  cases operator <;> rfl

/-- The operators whose chains may be grouped to the right are associative. -/
theorem Operator.relates_assoc {operator : Operator} (h : operator.right = operator.level)
    (a b c : Prop) :
    operator.relates (operator.relates a b) c ↔ operator.relates a (operator.relates b c) := by
  cases operator with
  | or => exact or_assoc
  | and => exact and_assoc
  | equal => cases h
  | notEqual => cases h

/-- What is derived at a tighter place is derived at a looser one. -/
theorem Derives.loosen {level level' : Level} (hrank : level.rank ≤ level'.rank)
    {tokens : List Token} {condition : Condition} (h : Derives level' tokens condition) :
    Derives level tokens condition := by
  by_cases hlevel : level.rank = level'.rank
  · rwa [Level.eq_of_rank hlevel]
  · have hoperand : level ≠ .operand := by
      rintro rfl
      exact hlevel (Nat.le_antisymm hrank (Level.rank_le level'))
    have htighter := (Level.rank_tighter hoperand).1
    exact (h.loosen (by omega)).tighter
termination_by level'.rank - level.rank

/-- A chain that is grouped to the right has the same truth as one that the grammar derives. -/
theorem Derives.exists_regrouped {operator : Operator} (hoperator : operator.right = operator.level)
    {tokens others : List Token} {left right : Condition}
    (hleft : Derives operator.level tokens left) {level : Level} (hlevel : level = operator.level)
    (hright : Derives level others right) :
    ∃ condition, Derives operator.level (tokens ++ operator.token :: others) condition ∧
      ∀ defined, condition.IsTrue defined ↔ (operator.join left right).IsTrue defined := by
  have hunique : ∀ other : Operator, other.level = operator.level → other = operator := by
    intro other h
    revert h hoperator
    clear hleft hlevel
    cases operator <;> cases other <;> decide
  induction hright with
  | constant value => cases operator <;> cases hlevel
  | symbol _ _ => cases operator <;> cases hlevel
  | negation _ _ => cases operator <;> cases hlevel
  | enclosed _ _ => cases operator <;> cases hlevel
  | tighter h _ =>
      subst hlevel
      exact ⟨_, hleft.joined operator h, fun _ => Iff.rfl⟩
  | @joined other tokens' others' left' right' hfirst hsecond ih _ =>
      obtain rfl := hunique other hlevel
      obtain ⟨condition, hcondition, htruth⟩ := ih rfl
      refine ⟨other.join condition right', by simpa using hcondition.joined other hsecond, ?_⟩
      intro defined
      simp only [isTrue_join, htruth, Operator.relates_assoc hoperator]

/-- What is written is derived for a condition with the same truth. -/
theorem Writes.exists_derives {level : Level} {condition : Condition} {tokens : List Token}
    (h : Writes level condition tokens) :
    ∃ derived, Derives level tokens derived ∧
      ∀ defined, derived.IsTrue defined ↔ condition.IsTrue defined := by
  induction h with
  | @symbol level name htrue hfalse =>
      exact ⟨_, (Derives.symbol htrue hfalse).loosen level.rank_le, fun _ => Iff.rfl⟩
  | @constant level value =>
      exact ⟨_, (Derives.constant value).loosen level.rank_le, fun _ => Iff.rfl⟩
  | @negation level operand tokens _ ih =>
      obtain ⟨derived, hderived, htruth⟩ := ih
      exact ⟨_, hderived.negation.loosen level.rank_le, fun defined => not_congr (htruth defined)⟩
  | @joined level operator left right tokens others hlevel _ _ ihleft ihright =>
      obtain ⟨left', hleft, hlefttruth⟩ := ihleft
      obtain ⟨right', hright, hrighttruth⟩ := ihright
      obtain ⟨derived, hderived, htruth⟩ : ∃ derived,
          Derives operator.level (tokens ++ operator.token :: others) derived ∧
            ∀ defined, derived.IsTrue defined ↔ (operator.join left' right').IsTrue defined := by
        by_cases hchain : operator.right = operator.level
        · exact hleft.exists_regrouped hchain hchain hright
        · have htighter : operator.right = operator.level.tighter := by
            revert hchain
            cases operator <;> decide
          exact ⟨_, hleft.joined operator (htighter ▸ hright), fun _ => Iff.rfl⟩
      refine ⟨derived, hderived.loosen hlevel, fun defined => ?_⟩
      rw [htruth, isTrue_join, isTrue_join, hlefttruth, hrighttruth]
  | @enclosed level _ _ _ ih =>
      obtain ⟨derived, hderived, htruth⟩ := ih
      exact ⟨derived, hderived.enclosed.loosen level.rank_le, htruth⟩

/-- What may be written at a tighter place may be written at a looser one. -/
theorem Writes.loosen {level level' : Level} (hrank : level.rank ≤ level'.rank)
    {condition : Condition} {tokens : List Token} (h : Writes level' condition tokens) :
    Writes level condition tokens := by
  cases h with
  | symbol htrue hfalse => exact .symbol htrue hfalse
  | constant value => exact .constant value
  | negation h => exact .negation h
  | joined operator hlevel hleft hright =>
      exact .joined operator (Nat.le_trans hrank hlevel) hleft hright
  | enclosed h => exact .enclosed h

/-- What is derived is a way to write the condition. -/
theorem Derives.writes {level : Level} {tokens : List Token} {condition : Condition}
    (h : Derives level tokens condition) : Writes level condition tokens := by
  induction h with
  | constant value => exact .constant value
  | symbol htrue hfalse => exact .symbol htrue hfalse
  | negation _ ih => exact .negation ih
  | enclosed _ ih => exact .enclosed ih
  | @tighter level tokens condition _ ih =>
      refine ih.loosen ?_
      cases level <;> decide
  | @joined operator tokens others left right _ _ ihleft ihright =>
      refine .joined operator (Nat.le_refl _) ihleft (ihright.loosen ?_)
      cases operator <;> decide

/-! ## Conditions that can be written -/

/-- Whether a condition can be written: its symbols have names, which are not those of constants. -/
def IsProper : Condition → Prop
  | constant _ => True
  | symbol name => IsName name ∧ name ≠ "true" ∧ name ≠ "false"
  | negation operand => operand.IsProper
  | equality left right => left.IsProper ∧ right.IsProper
  | inequality left right => left.IsProper ∧ right.IsProper
  | conjunction left right => left.IsProper ∧ right.IsProper
  | disjunction left right => left.IsProper ∧ right.IsProper

/-- Whether there are tokens that write a condition at every place. -/
def IsWritable (condition : Condition) : Prop :=
  ∃ tokens, (∀ level, Writes level condition tokens) ∧ ∀ token ∈ tokens, Token.IsProper token

/-- In parentheses a joined condition may stand everywhere. -/
theorem IsWritable.join {left right : Condition} (hleft : IsWritable left)
    (hright : IsWritable right) (operator : Operator) : IsWritable (operator.join left right) := by
  obtain ⟨tokens, hwrites, hproper⟩ := hleft
  obtain ⟨others, hwrites', hproper'⟩ := hright
  have hoperator : operator.token.IsProper := by cases operator <;> trivial
  refine ⟨.opening :: ((tokens ++ operator.token :: others) ++ [.closing]), fun level => ?_, ?_⟩
  · exact .enclosed (.joined operator (Nat.zero_le _) (hwrites _) (hwrites' _))
  · have hinner : ∀ token ∈ tokens ++ operator.token :: others, Token.IsProper token :=
      List.forall_mem_append.2 ⟨hproper, List.forall_mem_cons.2 ⟨hoperator, hproper'⟩⟩
    exact List.forall_mem_cons.2
      ⟨trivial, List.forall_mem_append.2 ⟨hinner, List.forall_mem_singleton.2 trivial⟩⟩

/-- The words for the constants are names. -/
theorem isName_constant (value : Bool) : IsName (if value then "true" else "false") := by
  have htrue : "true".toList = ['t', 'r', 'u', 'e'] := rfl
  have hfalse : "false".toList = ['f', 'a', 'l', 's', 'e'] := rfl
  cases value with
  | true =>
      refine ⟨by decide, ?_⟩
      rw [if_pos rfl, htrue]
      simp only [List.forall_mem_cons]
      exact ⟨Or.inl (by decide), Or.inl (by decide), Or.inl (by decide), Or.inl (by decide), nofun⟩
  | false =>
      refine ⟨by decide, ?_⟩
      rw [if_neg Bool.false_ne_true, hfalse]
      simp only [List.forall_mem_cons]
      exact ⟨Or.inl (by decide), Or.inl (by decide), Or.inl (by decide), Or.inl (by decide),
        Or.inl (by decide), nofun⟩

/-- Every proper condition can be written. -/
theorem IsProper.isWritable {condition : Condition} (h : condition.IsProper) :
    IsWritable condition := by
  induction condition with
  | constant value =>
      exact ⟨_, fun _ => .constant value, List.forall_mem_singleton.2 (isName_constant value)⟩
  | symbol name => exact ⟨_, fun _ => .symbol h.2.1 h.2.2, List.forall_mem_singleton.2 h.1⟩
  | negation operand ih =>
      obtain ⟨tokens, hwrites, hproper⟩ := ih h
      exact ⟨_, fun _ => .negation (hwrites _), List.forall_mem_cons.2 ⟨trivial, hproper⟩⟩
  | equality left right ihleft ihright => exact (ihleft h.1).join (ihright h.2) .equal
  | inequality left right ihleft ihright => exact (ihleft h.1).join (ihright h.2) .notEqual
  | conjunction left right ihleft ihright => exact (ihleft h.1).join (ihright h.2) .and
  | disjunction left right ihleft ihright => exact (ihleft h.1).join (ihright h.2) .or

/-! ## Texts that hold -/

/-- The texts that hold are those with tokens for which the grammar derives a condition that is true
where the symbols are defined.  Every way to write a condition holds exactly where the condition is
true, with any parentheses beyond those that are needed and any white space; every proper condition
can be written; and a text that is no way to write a condition does not hold. -/
theorem holds_iff_derives (symbols : Symbols) :
    (∀ text, holds symbols text = true ↔ ∃ tokens condition, Token.Spells tokens text ∧
      Derives .disjunction tokens condition ∧ condition.IsTrue (· ∈ symbols.names)) ∧
    (∀ condition tokens text, Writes .disjunction condition tokens → Token.Spells tokens text →
      (holds symbols text = true ↔ condition.IsTrue (· ∈ symbols.names))) ∧
    (∀ condition : Condition, condition.IsProper → ∃ tokens text,
      Writes .disjunction condition tokens ∧ Token.Spells tokens text) ∧
    (∀ text, (∀ condition tokens, Writes .disjunction condition tokens →
      ¬ Token.Spells tokens text) → holds symbols text = false) := by
  refine ⟨holds_eq_true_iff symbols, ?_, ?_, fun text hnone => ?_⟩
  · intro condition tokens text hwrites hspells
    obtain ⟨derived, hderives, htruth⟩ := hwrites.exists_derives
    have hread : ofText? text = some derived := ofText?_eq_some_iff.2 ⟨tokens, hspells, hderives⟩
    rw [holds, hread]
    exact (eval_eq_true_iff symbols derived).trans (htruth _)
  · intro condition hproper
    obtain ⟨tokens, hwrites, htokens⟩ := hproper.isWritable
    obtain ⟨text, htext⟩ := Token.exists_spells htokens
    exact ⟨tokens, text, hwrites _, htext⟩
  · apply holds_of_ofText?_none
    rw [Option.eq_none_iff_forall_ne_some]
    intro condition hread
    obtain ⟨tokens, hspells, hderives⟩ := ofText?_eq_some_iff.1 hread
    exact hnone condition tokens hderives.writes hspells

end Condition
end ProjectAssembler
