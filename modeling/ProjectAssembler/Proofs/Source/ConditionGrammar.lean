import ProjectAssembler.Proofs.Source.ConditionTokens

/-!
# The grammar of conditions

The operators `||`, `&&`, and the two equalities join conditions, from the loosest to the tightest;
all of them group to the left, and `!` binds tighter than all of them.  Reading a token list finds
the condition that the grammar derives for it, if there is one.

Main definitions:

* `Condition.Level` and `Condition.Operator`: the precedences and the operators;
* `Condition.Derives`: the grammar, which groups to the left.

Main results:

* `Condition.parse?_eq_some_iff`: reading finds what the grammar derives, and nothing else;
* `Condition.ofText?_eq_some_iff`: so it does with the tokens that a text spells.
-/

namespace ProjectAssembler
namespace Condition

/-! ## Grammar -/

/-- The places of the grammar, from those where any condition may stand bare to those of
operands. -/
inductive Level where
  | disjunction
  | conjunction
  | equality
  | operand
deriving DecidableEq, Repr

/-- The place for the parts that the operators of a place join. -/
def Level.tighter : Level → Level
  | disjunction => conjunction
  | conjunction => equality
  | equality => operand
  | operand => operand

/-- The number of places that are looser. -/
def Level.rank : Level → Nat
  | disjunction => 0
  | conjunction => 1
  | equality => 2
  | operand => 3

/-- No place is tighter than that of operands. -/
theorem Level.rank_le (level : Level) : level.rank ≤ operand.rank := by
  cases level <;> decide

theorem Level.eq_of_rank {level level' : Level} (h : level.rank = level'.rank) :
    level = level' := by
  cases level <;> cases level' <;> first | rfl | cases h

/-- The next tighter place has one more looser one. -/
theorem Level.rank_tighter {level : Level} (h : level ≠ operand) :
    level.tighter.rank = level.rank + 1 ∧ level.rank < 3 := by
  cases level with
  | operand => exact absurd rfl h
  | _ => decide

/-- The operators that join two conditions. -/
inductive Operator where
  | or
  | and
  | equal
  | notEqual
deriving DecidableEq, Repr

namespace Operator

/-- The token of an operator. -/
def token : Operator → Token
  | or => .or
  | and => .and
  | equal => .equal
  | notEqual => .notEqual

/-- The place of what an operator joins. -/
def level : Operator → Level
  | or => .disjunction
  | and => .conjunction
  | equal => .equality
  | notEqual => .equality

/-- The condition that an operator makes of two. -/
def join : Operator → Condition → Condition → Condition
  | or => disjunction
  | and => conjunction
  | equal => equality
  | notEqual => inequality

end Operator

/-- Whether the grammar derives a condition for tokens at a place. -/
inductive Derives : Level → List Token → Condition → Prop where
  | constant (value : Bool) :
      Derives .operand [.symbol (if value then "true" else "false")] (constant value)
  | symbol {name : String} (htrue : name ≠ "true") (hfalse : name ≠ "false") :
      Derives .operand [.symbol name] (symbol name)
  | negation {tokens : List Token} {operand : Condition} (h : Derives .operand tokens operand) :
      Derives .operand (.bang :: tokens) (negation operand)
  | enclosed {tokens : List Token} {inner : Condition} (h : Derives .disjunction tokens inner) :
      Derives .operand (.opening :: (tokens ++ [.closing])) inner
  | tighter {level : Level} {tokens : List Token} {condition : Condition}
      (h : Derives level.tighter tokens condition) : Derives level tokens condition
  | joined (operator : Operator) {tokens others : List Token} {left right : Condition}
      (hleft : Derives operator.level tokens left)
      (hright : Derives operator.level.tighter others right) :
      Derives operator.level (tokens ++ operator.token :: others) (operator.join left right)

/-- The names of the constants spell them, and all other names are symbols. -/
theorem ofName_constant (value : Bool) :
    ofName (if value then "true" else "false") = constant value := by
  cases value <;> rfl

theorem ofName_symbol {name : String} (htrue : name ≠ "true") (hfalse : name ≠ "false") :
    ofName name = symbol name := by
  rw [ofName, if_neg htrue, if_neg hfalse]

/-- The grammar derives the condition that a name spells. -/
theorem Derives.ofName (name : String) : Derives .operand [.symbol name] (ofName name) := by
  by_cases htrue : name = "true"
  · exact htrue ▸ .constant true
  · by_cases hfalse : name = "false"
    · exact hfalse ▸ .constant false
    · rw [ofName_symbol htrue hfalse]
      exact .symbol htrue hfalse

/-! ## Steps of reading -/

/-- A reading without the proof that it leaves fewer tokens. -/
def outcome {p : List Token → Prop}
    (reading : Option (Condition × { rest : List Token // p rest })) :
    Option (Condition × List Token) :=
  reading.map fun (condition, rest) => (condition, rest.1)

/-- What is read at a place. -/
def read : Level → List Token → Option (Condition × List Token)
  | .disjunction, tokens => outcome (readDisjunction tokens)
  | .conjunction, tokens => outcome (readConjunction tokens)
  | .equality, tokens => outcome (readEquality tokens)
  | .operand, tokens => outcome (readOperand tokens)

/-- How a condition that has been read at a place goes on. -/
def extend : Level → Condition → List Token → Option (Condition × List Token)
  | .disjunction, left, tokens => outcome (extendDisjunction left tokens)
  | .conjunction, left, tokens => outcome (extendConjunction left tokens)
  | .equality, left, tokens => outcome (extendEquality left tokens)
  | .operand, left, tokens => some (left, tokens)

/-- Reading takes tokens away. -/
theorem length_read {level : Level} {tokens rest : List Token} {condition : Condition}
    (h : read level tokens = some (condition, rest)) : rest.length < tokens.length := by
  cases level <;>
    obtain ⟨⟨whole, left, hleft⟩, -, heq⟩ := Option.map_eq_some_iff.1 h <;>
    obtain ⟨-, rfl⟩ := Prod.mk.inj heq <;>
    exact hleft

/-- A condition at a place begins with one at the next tighter place. -/
theorem read_eq_bind {level : Level} (h : level ≠ .operand) (tokens : List Token) :
    read level tokens =
      (read level.tighter tokens).bind fun (left, rest) => extend level left rest := by
  cases level with
  | operand => exact absurd rfl h
  | disjunction =>
      rw [read, readDisjunction, Level.tighter, read]
      rcases readConjunction tokens with _ | ⟨left, rest, hrest⟩
      · rfl
      · simp only [outcome, extend, Option.map_some, Option.bind_some]
        rcases extendDisjunction left rest with _ | whole <;> rfl
  | conjunction =>
      rw [read, readConjunction, Level.tighter, read]
      rcases readEquality tokens with _ | ⟨left, rest, hrest⟩
      · rfl
      · simp only [outcome, extend, Option.map_some, Option.bind_some]
        rcases extendConjunction left rest with _ | whole <;> rfl
  | equality =>
      rw [read, readEquality, Level.tighter, read]
      rcases readOperand tokens with _ | ⟨left, rest, hrest⟩
      · rfl
      · simp only [outcome, extend, Option.map_some, Option.bind_some]
        rcases extendEquality left rest with _ | whole <;> rfl

/-- After an operator of a place a condition at the next tighter place is joined. -/
theorem extend_operator (operator : Operator) (left : Condition) (tokens : List Token) :
    extend operator.level left (operator.token :: tokens) =
      (read operator.level.tighter tokens).bind fun (right, rest) =>
        extend operator.level (operator.join left right) rest := by
  cases operator with
  | or =>
      simp only [Operator.level, Operator.token, Level.tighter, extend, read, extendDisjunction]
      rcases readConjunction tokens with _ | ⟨right, rest, hrest⟩
      · rfl
      · simp only [outcome, Operator.join, Option.map_some, Option.bind_some]
        rcases extendDisjunction (disjunction left right) rest with _ | whole <;> rfl
  | and =>
      simp only [Operator.level, Operator.token, Level.tighter, extend, read, extendConjunction]
      rcases readEquality tokens with _ | ⟨right, rest, hrest⟩
      · rfl
      · simp only [outcome, Operator.join, Option.map_some, Option.bind_some]
        rcases extendConjunction (conjunction left right) rest with _ | whole <;> rfl
  | equal =>
      simp only [Operator.level, Operator.token, Level.tighter, extend, read, extendEquality]
      rcases readOperand tokens with _ | ⟨right, rest, hrest⟩
      · rfl
      · simp only [outcome, Operator.join, Option.map_some, Option.bind_some]
        rcases extendEquality (equality left right) rest with _ | whole <;> rfl
  | notEqual =>
      simp only [Operator.level, Operator.token, Level.tighter, extend, read, extendEquality]
      rcases readOperand tokens with _ | ⟨right, rest, hrest⟩
      · rfl
      · simp only [outcome, Operator.join, Option.map_some, Option.bind_some]
        rcases extendEquality (inequality left right) rest with _ | whole <;> rfl

/-- Without an operator of the place a condition is complete. -/
theorem extend_other {level : Level} {tokens : List Token}
    (h : ∀ operator : Operator, operator.level = level → tokens.head? ≠ some operator.token)
    (left : Condition) : extend level left tokens = some (left, tokens) := by
  have hnot : ∀ operator : Operator, operator.level = level →
      ∀ others, tokens = operator.token :: others → False := by
    rintro operator hlevel others rfl
    exact h operator hlevel rfl
  cases level with
  | operand => rfl
  | disjunction =>
      rw [extend, extendDisjunction]
      · rfl
      · exact hnot .or rfl
  | conjunction =>
      rw [extend, extendConjunction]
      · rfl
      · exact hnot .and rfl
  | equality =>
      rw [extend, extendEquality]
      · rfl
      · exact hnot .equal rfl
      · exact hnot .notEqual rfl

theorem read_symbol (name : String) (tokens : List Token) :
    read .operand (.symbol name :: tokens) = some (ofName name, tokens) := by
  rw [read, readOperand]
  rfl

theorem read_bang (tokens : List Token) :
    read .operand (.bang :: tokens) =
      (read .operand tokens).map fun (operand, rest) => (negation operand, rest) := by
  rw [read, read, readOperand]
  rcases readOperand tokens with _ | first <;> rfl

theorem read_opening (tokens : List Token) :
    read .operand (.opening :: tokens) =
      (read .disjunction tokens).bind fun (inner, rest) =>
        if rest.head? = some .closing then some (inner, rest.tail) else none := by
  rw [read, read, readOperand]
  rcases readDisjunction tokens with _ | ⟨inner, _ | ⟨token, rest⟩, hrest⟩
  · rfl
  · rfl
  · cases token <;> rfl

/-- Only symbols, `!` and opening parentheses begin an operand. -/
theorem read_operand_cases {tokens rest : List Token} {condition : Condition}
    (h : read .operand tokens = some (condition, rest)) :
    (∃ name, tokens = .symbol name :: rest ∧ condition = ofName name) ∨
      (∃ others operand, tokens = .bang :: others ∧ read .operand others = some (operand, rest) ∧
        condition = negation operand) ∨
      ∃ others, tokens = .opening :: others ∧
        read .disjunction others = some (condition, .closing :: rest) := by
  cases tokens with
  | nil => simp [read, readOperand, outcome] at h
  | cons token others =>
      cases token with
      | symbol name =>
          rw [read_symbol] at h
          obtain ⟨rfl, rfl⟩ := Prod.mk.inj (Option.some.inj h)
          exact Or.inl ⟨name, rfl, rfl⟩
      | bang =>
          rw [read_bang] at h
          obtain ⟨⟨operand, left⟩, hoperand, heq⟩ := Option.map_eq_some_iff.1 h
          obtain ⟨rfl, rfl⟩ := Prod.mk.inj heq
          exact Or.inr (Or.inl ⟨others, operand, rfl, hoperand, rfl⟩)
      | opening =>
          rw [read_opening] at h
          obtain ⟨⟨inner, left⟩, hinner, hclosing⟩ := Option.bind_eq_some_iff.1 h
          obtain ⟨hhead, heq⟩ := Option.ite_none_right_eq_some.1 hclosing
          obtain ⟨rfl, rfl⟩ := Prod.mk.inj (Option.some.inj heq)
          obtain ⟨more, rfl⟩ := List.head?_eq_some_iff.1 hhead
          exact Or.inr (Or.inr ⟨others, rfl, hinner⟩)
      | _ => simp [read, readOperand, outcome] at h

/-! ## What is read is derived -/

mutual

/-- What is read at a place is derived there. -/
theorem derives_of_read {level : Level} (tokens : List Token) {rest : List Token}
    {condition : Condition} (h : read level tokens = some (condition, rest)) :
    ∃ front, tokens = front ++ rest ∧ Derives level front condition := by
  by_cases hoperand : level = .operand
  · subst hoperand
    rcases read_operand_cases h with ⟨name, htokens, rfl⟩ | ⟨others, operand, htokens, hread, rfl⟩ |
      ⟨others, htokens, hread⟩
    · exact ⟨[.symbol name], htokens, .ofName name⟩
    · have hshorter : others.length < tokens.length := by simp [htokens]
      obtain ⟨front, hothers, hfront⟩ := derives_of_read others hread
      exact ⟨.bang :: front, by rw [htokens, hothers, List.cons_append], .negation hfront⟩
    · have hshorter : others.length < tokens.length := by simp [htokens]
      obtain ⟨front, hothers, hfront⟩ := derives_of_read others hread
      exact ⟨.opening :: (front ++ [.closing]), by simp [htokens, hothers], .enclosed hfront⟩
  · rw [read_eq_bind hoperand] at h
    obtain ⟨⟨left, middle⟩, hleft, hwhole⟩ := Option.bind_eq_some_iff.1 h
    have hshorter := length_read hleft
    have hrank := Level.rank_tighter hoperand
    obtain ⟨front, htokens, hfront⟩ := derives_of_read tokens hleft
    obtain ⟨more, hmiddle, hmore⟩ := derives_of_extend hfront.tighter middle hwhole
    exact ⟨front ++ more, by rw [htokens, hmiddle, List.append_assoc], hmore⟩
termination_by (tokens.length, 4 - level.rank)
decreasing_by
  all_goals simp only [Prod.lex_def, true_and]
  all_goals omega

/-- How a condition that is derived at a place goes on is derived there too. -/
theorem derives_of_extend {level : Level} {front : List Token} {left : Condition}
    (hleft : Derives level front left) (tokens : List Token) {rest : List Token}
    {condition : Condition} (h : extend level left tokens = some (condition, rest)) :
    ∃ more, tokens = more ++ rest ∧ Derives level (front ++ more) condition := by
  by_cases hoperator : ∃ operator : Operator, operator.level = level ∧
      tokens.head? = some operator.token
  · obtain ⟨operator, rfl, hhead⟩ := hoperator
    obtain ⟨others, htokens⟩ := List.head?_eq_some_iff.1 hhead
    rw [htokens, extend_operator] at h
    obtain ⟨⟨right, middle⟩, hright, hwhole⟩ := Option.bind_eq_some_iff.1 h
    have hothers : others.length < tokens.length := by simp [htokens]
    have hshorter := length_read hright
    obtain ⟨second, hsecond, hderives⟩ := derives_of_read others hright
    obtain ⟨more, hmiddle, hmore⟩ :=
      derives_of_extend (hleft.joined operator hderives) middle hwhole
    exact ⟨operator.token :: second ++ more, by simp [htokens, hsecond, hmiddle],
      by simpa using hmore⟩
  · rw [extend_other fun operator hlevel hhead => hoperator ⟨operator, hlevel, hhead⟩] at h
    obtain ⟨rfl, rfl⟩ := Prod.mk.inj (Option.some.inj h)
    exact ⟨[], rfl, by simpa using hleft⟩
termination_by (tokens.length, 0)
decreasing_by
  all_goals simp only [Prod.lex_def]
  all_goals omega

end

/-! ## What is derived is read -/

/-- Different operators have different tokens. -/
theorem Operator.eq_of_token {operator other : Operator} (h : operator.token = other.token) :
    operator = other := by
  cases operator <;> cases other <;> first | rfl | cases h

/-- Whether a condition at a place does not go on with given tokens: no operator of this place or of
a tighter one comes first. -/
def Stops (level : Level) (tokens : List Token) : Prop :=
  ∀ operator : Operator, level.rank ≤ operator.level.rank → tokens.head? ≠ some operator.token

theorem Stops.tighter {level : Level} {tokens : List Token} (h : Stops level tokens) :
    Stops level.tighter tokens := by
  intro operator hrank
  refine h operator (Nat.le_trans ?_ hrank)
  cases level <;> decide

theorem extend_of_stops {level : Level} {tokens : List Token} (h : Stops level tokens)
    (left : Condition) : extend level left tokens = some (left, tokens) :=
  extend_other (fun operator hlevel => h operator (hlevel ▸ Nat.le_refl _)) left

/-- What is derived at a place is read there up to the place where it may go on. -/
theorem Derives.read_append {level : Level} {front : List Token} {condition : Condition}
    (h : Derives level front condition) :
    ∀ rest, Stops level.tighter rest →
      read level (front ++ rest) = extend level condition rest := by
  induction h with
  | constant value =>
      intro rest _
      rw [List.singleton_append, read_symbol, ofName_constant]
      rfl
  | symbol htrue hfalse =>
      intro rest _
      rw [List.singleton_append, read_symbol, ofName_symbol htrue hfalse]
      rfl
  | @negation tokens operand _ ih =>
      intro rest hrest
      rw [List.cons_append, read_bang, ih rest hrest]
      rfl
  | @enclosed tokens inner _ ih =>
      intro rest _
      have hclosing : ∀ level, Stops level (.closing :: rest) := by
        intro level operator _ hhead
        cases operator <;> cases hhead
      have hread := ih (.closing :: rest) (hclosing _)
      rw [extend_of_stops (hclosing _)] at hread
      rw [List.cons_append, List.append_assoc, List.singleton_append, read_opening, hread]
      rfl
  | @tighter level tokens condition _ ih =>
      intro rest hrest
      by_cases hoperand : level = .operand
      · subst hoperand
        exact ih rest hrest
      · rw [read_eq_bind hoperand, ih rest hrest.tighter, extend_of_stops hrest]
        rfl
  | @joined operator tokens others left right _ _ ihleft ihright =>
      intro rest hrest
      have hnext : Stops operator.level.tighter (operator.token :: (others ++ rest)) := by
        intro other hrank hhead
        obtain rfl := Operator.eq_of_token (Option.some.inj hhead)
        revert hrank
        cases operator <;> decide
      rw [List.append_assoc, List.cons_append, ihleft _ hnext, extend_operator,
        ihright rest hrest.tighter, extend_of_stops hrest]
      rfl

/-- Reading finds the condition that the grammar derives, and nothing else. -/
theorem parse?_eq_some_iff {tokens : List Token} {condition : Condition} :
    parse? tokens = some condition ↔ Derives .disjunction tokens condition := by
  have hparse : parse? tokens = some condition ↔
      read .disjunction tokens = some (condition, []) := by
    rw [parse?, read]
    rcases readDisjunction tokens with _ | ⟨whole, _ | ⟨token, rest⟩, hrest⟩ <;> simp [outcome]
  rw [hparse]
  constructor
  · intro h
    obtain ⟨front, rfl, hfront⟩ := derives_of_read tokens h
    rwa [List.append_nil]
  · intro h
    have hend : ∀ level, Stops level [] := fun _ _ _ => nofun
    have hread := h.read_append [] (hend _)
    rwa [List.append_nil, extend_of_stops (hend _)] at hread

/-! ## Tokens that are read from their text -/

/-- What is derived begins with no `==` and ends with no `!`. -/
theorem Derives.ends {level : Level} {tokens : List Token} {condition : Condition}
    (h : Derives level tokens condition) :
    tokens ≠ [] ∧ tokens.head? ≠ some .equal ∧ tokens.getLast? ≠ some .bang := by
  induction h with
  | constant value => simp
  | symbol _ _ => simp
  | @negation tokens operand _ ih =>
      obtain ⟨hne, -, hlast⟩ := ih
      obtain ⟨first, others, rfl⟩ := List.exists_cons_of_ne_nil hne
      exact ⟨List.cons_ne_nil _ _, by simp, by simpa using hlast⟩
  | enclosed _ _ => simp [List.getLast?_cons]
  | tighter _ ih => exact ih
  | @joined operator tokens others left right _ _ ihleft ihright =>
      obtain ⟨first, front, rfl⟩ := List.exists_cons_of_ne_nil ihleft.1
      obtain ⟨second, back, rfl⟩ := List.exists_cons_of_ne_nil ihright.1
      refine ⟨by simp, by simpa using ihleft.2.1, ?_⟩
      rw [List.getLast?_append_of_ne_nil _ (List.cons_ne_nil _ _), List.getLast?_cons_cons]
      exact ihright.2.2

/-- No two tokens of what is derived merge. -/
theorem Derives.isChain {level : Level} {tokens : List Token} {condition : Condition}
    (h : Derives level tokens condition) :
    tokens.IsChain fun a b => Token.merges a b = false := by
  induction h with
  | constant value => exact List.isChain_singleton _
  | symbol _ _ => exact List.isChain_singleton _
  | @negation tokens operand hoperand ih =>
      refine List.isChain_cons.2 ⟨fun next hnext => ?_, ih⟩
      cases next with
      | equal => exact absurd hnext hoperand.ends.2.1
      | _ => rfl
  | @enclosed tokens inner _ ih =>
      have hopening : ∀ next, Token.merges .opening next = false := fun _ => rfl
      have hclosing : ∀ last, Token.merges last .closing = false := by
        intro last
        cases last <;> rfl
      refine List.isChain_cons.2 ⟨fun next _ => hopening next, ?_⟩
      refine List.isChain_append.2 ⟨ih, List.isChain_singleton _, fun last _ next hnext => ?_⟩
      obtain rfl := Option.some.inj hnext
      exact hclosing last
  | tighter _ ih => exact ih
  | @joined operator tokens others left right hleft _ ihleft ihright =>
      have hafter : ∀ next, Token.merges operator.token next = false := by
        intro next
        cases operator <;> rfl
      have hlater := List.isChain_cons.2 ⟨fun next _ => hafter next, ihright⟩
      refine List.isChain_append.2 ⟨ihleft, hlater, fun last hlast next hnext => ?_⟩
      obtain rfl := Option.some.inj hnext
      cases last with
      | bang => exact absurd hlast hleft.ends.2.2
      | symbol name => cases operator <;> rfl
      | _ => rfl

/-- A text is read as the condition that the grammar derives for the tokens it spells. -/
theorem ofText?_eq_some_iff {text : List Char} {condition : Condition} :
    ofText? text = some condition ↔
      ∃ tokens, Token.Spells tokens text ∧ Derives .disjunction tokens condition := by
  rw [ofText?, Option.bind_eq_some_iff]
  constructor
  · rintro ⟨tokens, htokens, hparse⟩
    exact ⟨tokens, Token.spells_of_tokenize? htokens, parse?_eq_some_iff.1 hparse⟩
  · rintro ⟨tokens, hspells, hderives⟩
    exact ⟨tokens, Token.tokenize?_of_spells hspells hderives.isChain,
      parse?_eq_some_iff.2 hderives⟩

end Condition
end ProjectAssembler
