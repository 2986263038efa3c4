import ProjectAssembler.Path.Basic

/-!
# Wildcard patterns for file names

In a pattern `?` stands for one character, `*` for any run of characters, and brackets for one
character out of a set or outside of one.  ASCII letters match without regard to case.

Main definitions:

* `Glob.parse?`: the pattern that a text spells, if it spells one;
* `Glob.answers`: the answers for all ends of a name at once, from the last part backwards;
* `Glob.accepts`: whether a pattern matches a whole name.

Main results: `Glob.accepts_nil`, `Glob.accepts_cons` and `Glob.accepts_anyRun_iff` say what each
part takes of a name; `*` matches when the rest of the pattern matches one of the name's ends.
-/

namespace ProjectAssembler

/-- A member of a bracketed set. -/
inductive Glob.Member where
  | single (c : Char)
  | range (low high : Char)
deriving DecidableEq, Repr

/-- A part of a pattern. -/
inductive Glob.Part where
  | literal (c : Char)
  | anyCharacter
  | anyRun
  | within (members : List Glob.Member)
  | except (members : List Glob.Member)
deriving DecidableEq, Repr

/-- A pattern for a file name. -/
abbrev Glob : Type :=
  List Glob.Part

namespace Glob

/-! ## Reading -/

/-- The members that the text between brackets spells: a dash between two characters makes a
range. -/
def members : List Char → List Member
  | low :: '-' :: high :: rest => .range low high :: members rest
  | c :: rest => .single c :: members rest
  | [] => []

/-- The text before the next closing bracket and the text after it. -/
def cutBracket (text : List Char) : Option (List Char × List Char) :=
  match text.dropWhile (· != ']') with
  | [] => none
  | _ :: rest => some (text.takeWhile (· != ']'), rest)

/-- The set that the text after an opening bracket spells, and the text after it.  The first
character is always a member, also a closing bracket. -/
def readSet? : List Char → Option (Part × List Char)
  | '!' :: first :: text =>
      (cutBracket text).map fun (inside, rest) => (.except (members (first :: inside)), rest)
  | '!' :: [] => none
  | first :: text =>
      (cutBracket text).map fun (inside, rest) => (.within (members (first :: inside)), rest)
  | [] => none

theorem length_cutBracket {text inside rest : List Char}
    (h : cutBracket text = some (inside, rest)) : rest.length < text.length := by
  have hs := (List.dropWhile_suffix (· != ']') (l := text)).length_le
  unfold cutBracket at h
  split at h
  · simp at h
  · rename_i heq
    obtain ⟨-, rfl⟩ := Prod.mk.inj (Option.some.inj h)
    rw [heq] at hs
    exact hs

theorem length_readSet? {text rest : List Char} {part : Part}
    (h : readSet? text = some (part, rest)) : rest.length < text.length := by
  unfold readSet? at h
  split at h
  · obtain ⟨⟨inside, rest'⟩, hcut, heq⟩ := Option.map_eq_some_iff.1 h
    obtain ⟨-, rfl⟩ := Prod.mk.inj heq
    have := length_cutBracket hcut
    simp only [List.length_cons]
    omega
  · simp at h
  · obtain ⟨⟨inside, rest'⟩, hcut, heq⟩ := Option.map_eq_some_iff.1 h
    obtain ⟨-, rfl⟩ := Prod.mk.inj heq
    have := length_cutBracket hcut
    simp only [List.length_cons]
    omega
  · simp at h

/-- The pattern that a text spells; nothing when a bracket is not closed. -/
def parse? : List Char → Option Glob
  | [] => some []
  | c :: text =>
      if c = '?' then (parse? text).map (.anyCharacter :: ·)
      else if c = '*' then (parse? text).map (.anyRun :: ·)
      else if c = '[' then
        match _h : readSet? text with
        | some (part, rest) => (parse? rest).map (part :: ·)
        | none => none
      else (parse? text).map (.literal c :: ·)
termination_by text => text.length
decreasing_by
  all_goals simp only [List.length_cons]
  all_goals first
    | omega
    | exact Nat.lt_succ_of_lt (length_readSet? _h)

/-! ## Matching -/

/-- Whether a character is in ASCII. -/
def isAscii (c : Char) : Bool :=
  decide (c.toNat < 0x80)

/-- Whether two characters are the same up to ASCII case. -/
def sameCharacter (a b : Char) : Bool :=
  if isAscii a && isAscii b then a.toLower == b.toLower else a == b

/-- Whether a character belongs to a member of a set.  Between two ASCII letters case does not
matter. -/
def Member.holds (c : Char) : Member → Bool
  | single d => sameCharacter c d
  | range low high =>
      (isAscii c && low.isAlpha && high.isAlpha &&
        decide (low.toLower ≤ c.toLower ∧ c.toLower ≤ high.toLower)) ||
        decide (low ≤ c ∧ c ≤ high)

/-- Whether a part that stands for one character stands for a given one. -/
def Part.holds (c : Char) : Part → Bool
  | literal d => sameCharacter c d
  | anyCharacter => true
  | anyRun => false
  | within members => members.any (·.holds c)
  | except members => !members.any (·.holds c)

/-- Whether some answer from here on is positive, for each place in a list of answers. -/
def anyLater : List Bool → List Bool
  | [] => []
  | answer :: rest =>
      let later := anyLater rest
      (answer || later.headD false) :: later

/-- Whether a pattern matches, for each end of a name from the whole name to the empty end.  Each
part is compared once with each character, however many runs the pattern has. -/
def answers : Glob → List Char → List Bool
  | [], name => name.map (fun _ => false) ++ [true]
  | .anyRun :: rest, name => anyLater (answers rest name)
  | part :: rest, name =>
      List.zipWith (fun c later => part.holds c && later) name (answers rest name).tail ++ [false]

/-- Whether a pattern matches a whole name. -/
def accepts (pattern : Glob) (name : List Char) : Bool :=
  (answers pattern name).headD false

/-- The answers when the first part stands for one character. -/
theorem answers_of_ne {part : Part} (h : part ≠ .anyRun) (rest : Glob) (name : List Char) :
    answers (part :: rest) name =
      List.zipWith (fun c later => part.holds c && later) name (answers rest name).tail ++
        [false] := by
  cases part
  case anyRun => exact absurd rfl h
  all_goals rfl

theorem length_anyLater (answers : List Bool) : (anyLater answers).length = answers.length := by
  induction answers with
  | nil => rfl
  | cons answer rest ih => simp [anyLater, ih]

/-- There is one answer for each end of a name. -/
theorem length_answers (pattern : Glob) (name : List Char) :
    (answers pattern name).length = name.length + 1 := by
  induction pattern with
  | nil => simp [answers]
  | cons part rest ih => cases part <;> simp [answers, length_anyLater, ih]

/-- The answers for the ends of a name after the first are those for the ends of the name without
its first character. -/
theorem tail_answers (pattern : Glob) (c : Char) (name : List Char) :
    (answers pattern (c :: name)).tail = answers pattern name := by
  induction pattern with
  | nil => simp [answers]
  | cons part rest ih =>
      have hlength := length_answers rest name
      cases part
      case anyRun =>
        simp only [answers]
        rw [← ih]
        cases answers rest (c :: name) <;> rfl
      all_goals
        simp only [answers, ih]
        revert hlength
        cases answers rest name <;> simp

/-- The first answer is the one for the whole name. -/
theorem answers_cons (pattern : Glob) (c : Char) (name : List Char) :
    answers pattern (c :: name) = accepts pattern (c :: name) :: answers pattern name := by
  have hlength := length_answers pattern (c :: name)
  rw [← tail_answers pattern c name, accepts]
  revert hlength
  cases answers pattern (c :: name) <;> simp

/-- The empty name has one end. -/
theorem answers_nil (pattern : Glob) : answers pattern [] = [accepts pattern []] := by
  have hlength := length_answers pattern []
  rw [accepts]
  revert hlength
  cases answers pattern [] <;> simp

@[simp]
theorem accepts_nil (name : List Char) : accepts [] name = name.isEmpty := by
  cases name <;> rfl

/-- A part that stands for one character takes the first one. -/
theorem accepts_cons {part : Part} (h : part ≠ .anyRun) (rest : Glob) (c : Char)
    (name : List Char) :
    accepts (part :: rest) (c :: name) = (part.holds c && accepts rest name) := by
  have hanswers : ∃ later, answers rest name = accepts rest name :: later := by
    cases name with
    | nil => exact ⟨[], answers_nil rest⟩
    | cons d name => exact ⟨_, answers_cons rest d name⟩
  obtain ⟨later, hlater⟩ := hanswers
  rw [accepts, answers_of_ne h, tail_answers, hlater]
  rfl

/-- A part that stands for one character matches no empty name. -/
theorem accepts_cons_nil {part : Part} (h : part ≠ .anyRun) (rest : Glob) :
    accepts (part :: rest) [] = false := by
  rw [accepts, answers_of_ne h]
  rfl

/-- A run of any characters matches when the rest matches one of the ends. -/
theorem accepts_anyRun_iff (rest : Glob) (name : List Char) :
    accepts (.anyRun :: rest) name = true ↔
      ∃ tail, tail <:+ name ∧ accepts rest tail = true := by
  induction name with
  | nil =>
      rw [accepts, answers, answers_nil]
      simp [anyLater]
  | cons c name ih =>
      have hstep : accepts (.anyRun :: rest) (c :: name) =
          (accepts rest (c :: name) || accepts (.anyRun :: rest) name) := by
        rw [accepts, answers, answers_cons, anyLater, List.headD_cons, accepts.eq_def (_ :: rest),
          answers]
      simp only [hstep, Bool.or_eq_true, ih]
      constructor
      · rintro (h | ⟨tail, hs, h⟩)
        · exact ⟨_, List.suffix_refl _, h⟩
        · exact ⟨tail, hs.trans (List.suffix_cons _ _), h⟩
      · rintro ⟨tail, hs, h⟩
        rcases List.suffix_cons_iff.1 hs with rfl | hs
        · exact Or.inl h
        · exact Or.inr ⟨tail, hs, h⟩

end Glob
end ProjectAssembler
