import Mathlib.Data.Bool.Basic
import Mathlib.Tactic.SplitIfs
import ProjectAssembler.Sources.Pattern

/-!
# What the segments of a pattern spell

A name in a pattern with two stars next to each other stands for every directory below, and one with
another wildcard for the file names that it matches.  Any other name is a step.

Main definitions:

* `Pattern.isWildcard`: whether a name holds a wildcard;
* `Glob.Part.StandsFor` and `Glob.StandsFor`: what a pattern for file names stands for.

Main results:

* `Pattern.Segment.ofName_eq_anyDepth_iff`, `Pattern.Segment.ofName_eq_files_iff` and
  `Pattern.Segment.ofName_eq_step_iff`: the segment that a name spells;
* `Glob.parse?_of_plain`: the pattern that a text without brackets spells;
* `Glob.accepts_iff_standsFor`: a pattern accepts what it stands for.
-/

namespace ProjectAssembler

/-! ## Names of a pattern -/

namespace Pattern

/-- Whether a name holds a wildcard. -/
def isWildcard (name : String) : Bool :=
  name.toList.any fun c => c == '*' || c == '?'

theorem isWildcard_iff {name : String} :
    isWildcard name = true ↔ '*' ∈ name.toList ∨ '?' ∈ name.toList := by
  simp [isWildcard, and_or_left, exists_or]

theorem hasDoubleStar_iff {text : List Char} :
    hasDoubleStar text = true ↔ ['*', '*'] <:+: text := by
  constructor
  · intro h
    fun_induction hasDoubleStar text with
    | case1 after => exact (List.prefix_append ['*', '*'] after).isInfix
    | case2 c rest hrest ih => exact List.infix_cons (ih h)
    | case3 => cases h
  · rintro ⟨before, after, rfl⟩
    induction before with
    | nil => rfl
    | cons c before ih =>
        rw [List.cons_append, List.cons_append]
        unfold hasDoubleStar
        split
        · rfl
        · rename_i heq
          obtain ⟨-, rfl⟩ := List.cons.inj heq
          exact ih
        · contradiction

theorem isWildcard_of_hasDoubleStar {name : String} (h : hasDoubleStar name.toList = true) :
    isWildcard name = true :=
  isWildcard_iff.2 (Or.inl ((hasDoubleStar_iff.1 h).subset List.mem_cons_self))

namespace Segment

variable {name : String}

theorem ofName_eq (name : String) : ofName name =
    if hasDoubleStar name.toList then .anyDepth
    else if isWildcard name then .files (Glob.parse? name.toList) else .step name :=
  rfl

/-- A name with two stars next to each other stands for every directory below. -/
theorem ofName_eq_anyDepth_iff : ofName name = .anyDepth ↔ ['*', '*'] <:+: name.toList := by
  rw [← hasDoubleStar_iff, ofName_eq]
  split_ifs with hstars hwildcard <;> simp [hstars]

/-- A name with another wildcard stands for the file names that match it. -/
theorem ofName_eq_files_iff {glob? : Option Glob} :
    ofName name = .files glob? ↔ ¬ ['*', '*'] <:+: name.toList ∧
      ('*' ∈ name.toList ∨ '?' ∈ name.toList) ∧ Glob.parse? name.toList = glob? := by
  rw [← hasDoubleStar_iff, ← isWildcard_iff, ofName_eq]
  split_ifs with hstars hwildcard
  · simp [hstars]
  · simp [hstars, hwildcard]
  · simp [hwildcard]

/-- A name without wildcards is a step. -/
theorem ofName_eq_step_iff {step : String} :
    ofName name = .step step ↔ ('*' ∉ name.toList ∧ '?' ∉ name.toList) ∧ name = step := by
  rw [← not_or, ← isWildcard_iff, ofName_eq]
  split_ifs with hstars hwildcard
  · simp [isWildcard_of_hasDoubleStar hstars]
  · simp [hwildcard]
  · simp [hwildcard]

end Segment

end Pattern

/-! ## File names that match -/

namespace Glob

/-- Whether a part of a pattern stands for a character.  ASCII letters stand for each other in both
cases. -/
inductive Part.StandsFor : Part → Char → Prop where
  | itself {c : Char} : StandsFor (.literal c) c
  | otherCase {c d : Char} (hc : c.toNat < 128) (hd : d.toNat < 128) (h : c.toLower = d.toLower) :
      StandsFor (.literal d) c
  | anyCharacter {c : Char} : StandsFor .anyCharacter c
  | within {members : List Member} {member : Member} {c : Char} (hmember : member ∈ members)
      (h : member.holds c = true) : StandsFor (.within members) c
  | except {members : List Member} {c : Char} (h : ∀ member ∈ members, member.holds c = false) :
      StandsFor (.except members) c

/-- Whether a pattern stands for a name: each part stands for one character, or for any run of them
if it is a star. -/
inductive StandsFor : Glob → List Char → Prop where
  | nil : StandsFor [] []
  | anyRun {rest : Glob} {name : List Char} (run : List Char) (h : StandsFor rest name) :
      StandsFor (.anyRun :: rest) (run ++ name)
  | one {part : Part} {rest : Glob} {c : Char} {name : List Char} (hpart : part.StandsFor c)
      (h : StandsFor rest name) : StandsFor (part :: rest) (c :: name)

theorem sameCharacter_iff {c d : Char} :
    sameCharacter c d = true ↔ c = d ∨ c.toNat < 128 ∧ d.toNat < 128 ∧ c.toLower = d.toLower := by
  unfold sameCharacter isAscii
  split_ifs with h
  · simp only [Bool.and_eq_true, decide_eq_true_eq] at h
    rw [beq_iff_eq]
    exact ⟨fun heq => Or.inr ⟨h.1, h.2, heq⟩, fun heq => heq.elim (congrArg _) (·.2.2)⟩
  · simp only [Bool.and_eq_true, decide_eq_true_eq, not_and] at h
    rw [beq_iff_eq]
    exact ⟨Or.inl, fun heq => heq.resolve_right fun hboth => h hboth.1 hboth.2.1⟩

/-- A part holds of the characters that it stands for. -/
theorem Part.holds_iff_standsFor {part : Part} {c : Char} :
    part.holds c = true ↔ part.StandsFor c := by
  cases part with
  | literal d =>
      rw [Part.holds, sameCharacter_iff]
      constructor
      · rintro (rfl | ⟨hc, hd, h⟩)
        · exact .itself
        · exact .otherCase hc hd h
      · intro h
        cases h with
        | itself => exact Or.inl rfl
        | otherCase hc hd h => exact Or.inr ⟨hc, hd, h⟩
  | anyCharacter => exact iff_of_true rfl .anyCharacter
  | anyRun => exact iff_of_false Bool.false_ne_true nofun
  | within members =>
      rw [Part.holds, List.any_eq_true]
      constructor
      · rintro ⟨member, hmember, h⟩
        exact .within hmember h
      · intro h
        cases h with
        | within hmember h => exact ⟨_, hmember, h⟩
  | except members =>
      rw [Part.holds, Bool.not_eq_true', List.any_eq_false]
      constructor
      · exact fun h => .except fun member hmember => Bool.eq_false_of_not_eq_true (h member hmember)
      · intro h
        cases h with
        | except h => exact fun member hmember => Bool.eq_false_iff.1 (h member hmember)

/-- A pattern accepts the names that it stands for. -/
theorem accepts_iff_standsFor {glob : Glob} {name : List Char} :
    glob.accepts name = true ↔ glob.StandsFor name := by
  induction glob generalizing name with
  | nil =>
      rw [accepts_nil, List.isEmpty_iff]
      constructor
      · rintro rfl
        exact .nil
      · intro h
        cases h with
        | nil => rfl
  | cons part rest ih =>
      by_cases hrun : part = .anyRun
      · subst hrun
        rw [accepts_anyRun_iff]
        constructor
        · rintro ⟨tail, ⟨run, rfl⟩, h⟩
          exact .anyRun run (ih.1 h)
        · intro h
          cases h with
          | anyRun run h => exact ⟨_, List.suffix_append run _, ih.2 h⟩
          | one hpart h => cases hpart
      · cases name with
        | nil =>
            rw [accepts_cons_nil hrun]
            refine iff_of_false Bool.false_ne_true fun h => ?_
            generalize hname : ([] : List Char) = name at h
            cases h with
            | anyRun run h => exact hrun rfl
            | one hpart h => cases hname
        | cons c name =>
            rw [accepts_cons hrun, Bool.and_eq_true, Part.holds_iff_standsFor, ih]
            constructor
            · rintro ⟨hpart, h⟩
              exact .one hpart h
            · intro h
              generalize hname : c :: name = whole at h
              cases h with
              | anyRun run h => exact absurd rfl hrun
              | one hpart h =>
                  obtain ⟨rfl, rfl⟩ := List.cons.inj hname
                  exact ⟨hpart, h⟩

/-- A text without brackets spells its characters, and wildcards where it has `?` and `*`. -/
theorem parse?_of_plain {text : List Char} (h : '[' ∉ text) :
    parse? text = some (text.map fun c =>
      if c = '?' then .anyCharacter else if c = '*' then .anyRun else .literal c) := by
  induction text with
  | nil => rw [parse?, List.map_nil]
  | cons c text ih =>
      rw [List.mem_cons, not_or] at h
      rw [parse?, ih h.2, if_neg (Ne.symm h.1), List.map_cons]
      split_ifs <;> rfl

end Glob
end ProjectAssembler
