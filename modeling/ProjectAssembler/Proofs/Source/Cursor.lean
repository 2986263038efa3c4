import Mathlib.Data.List.Infix
import ProjectAssembler.Source.Lexeme
import ProjectAssembler.Text.Utf8

/-!
# Reading a text at byte positions

A text in UTF-8 is sliced at byte positions.  A slice fails where a position lies outside of the
text or inside of a character.  A cursor is such a position with the number of its line; it moves by
whole characters or by a number of bytes that are known to be characters of one byte.

What goes on until it has found an end is given fuel, one unit for each round and for each literal
inside of another.  Without fuel there is no outcome, as there is none where a slice fails; that
some fuel is always enough is proved, not assumed.

Main definitions:

* `Text.sliceFrom?` and `Text.slice?`: the characters after a byte position and between two of them;
* `Cursor`: a byte position and a line;
* `Cursor.advance?`, `Cursor.advanceWhile?` and `Cursor.skip`: how a cursor moves;
* `Cursor.Stands`: whether a cursor stands at the end of a part of the text.

Main results: `Cursor.Stands.rest?_eq` and the lemmas after it say what a cursor that stands at
the end of a part of the text reads, and where it stands afterwards.
-/

namespace ProjectAssembler

/-! ## Slices -/

namespace Text

/-- The characters of a text from a byte position on, unless the position lies outside of the text
or inside of a character. -/
def sliceFrom? : List Char → Nat → Option (List Char)
  | text, 0 => some text
  | [], _ + 1 => none
  | c :: text, position =>
      if c.utf8Size ≤ position then sliceFrom? text (position - c.utf8Size) else none

/-- The characters of a text up to a byte position, unless the position lies outside of the text or
inside of a character. -/
def sliceUpTo? : List Char → Nat → Option (List Char)
  | _, 0 => some []
  | [], _ + 1 => none
  | c :: text, position =>
      if c.utf8Size ≤ position then (sliceUpTo? text (position - c.utf8Size)).map (c :: ·) else none

/-- The characters of a text between two byte positions, unless one of them lies outside of the text
or inside of a character or the second one lies before the first. -/
def slice? (text : List Char) (start stop : Nat) : Option (List Char) :=
  if start ≤ stop then (sliceFrom? text start).bind (sliceUpTo? · (stop - start)) else none

theorem sliceFrom?_append (before rest : List Char) :
    sliceFrom? (before ++ rest) (utf8Length before) = some rest := by
  induction before with
  | nil => simp [sliceFrom?]
  | cons c before ih =>
      have hsize := c.utf8Size_pos
      obtain ⟨n, hn⟩ : ∃ n, c.utf8Size + utf8Length before = n + 1 :=
        ⟨c.utf8Size + utf8Length before - 1, by omega⟩
      rw [utf8Length_cons, List.cons_append, hn, sliceFrom?, ← hn, if_pos (by omega),
        Nat.add_sub_cancel_left, ih]
      omega

theorem sliceUpTo?_append (part rest : List Char) :
    sliceUpTo? (part ++ rest) (utf8Length part) = some part := by
  induction part with
  | nil => simp [sliceUpTo?]
  | cons c part ih =>
      have hsize := c.utf8Size_pos
      obtain ⟨n, hn⟩ : ∃ n, c.utf8Size + utf8Length part = n + 1 :=
        ⟨c.utf8Size + utf8Length part - 1, by omega⟩
      rw [utf8Length_cons, List.cons_append, hn, sliceUpTo?, ← hn, if_pos (by omega),
        Nat.add_sub_cancel_left, ih, Option.map_some]
      omega

/-- What follows a byte position is what follows a part of the text that has as many bytes. -/
theorem sliceFrom?_eq_some_iff {text rest : List Char} {position : Nat} :
    sliceFrom? text position = some rest ↔
      ∃ before, text = before ++ rest ∧ utf8Length before = position := by
  constructor
  · intro h
    fun_induction sliceFrom? text position with
    | case1 text =>
        cases h
        exact ⟨[], rfl, rfl⟩
    | case2 position => contradiction
    | case3 c text position hzero hsize ih =>
        obtain ⟨before, htext, hlength⟩ := ih h
        refine ⟨c :: before, by rw [htext, List.cons_append], ?_⟩
        rw [utf8Length_cons, hlength, Nat.add_sub_cancel' hsize]
    | case4 c text position hzero hsize => contradiction
  · rintro ⟨before, rfl, rfl⟩
    exact sliceFrom?_append before rest

/-- What lies before a byte position is a part of the text that has as many bytes. -/
theorem sliceUpTo?_eq_some_iff {text part : List Char} {position : Nat} :
    sliceUpTo? text position = some part ↔
      ∃ after, text = part ++ after ∧ utf8Length part = position := by
  constructor
  · intro h
    fun_induction sliceUpTo? text position generalizing part with
    | case1 text =>
        cases h
        exact ⟨text, rfl, rfl⟩
    | case2 position => contradiction
    | case3 c text position hzero hsize ih =>
        obtain ⟨part', hpart, rfl⟩ := Option.map_eq_some_iff.1 h
        obtain ⟨after, htext, hlength⟩ := ih hpart
        refine ⟨after, by rw [htext, List.cons_append], ?_⟩
        rw [utf8Length_cons, hlength, Nat.add_sub_cancel' hsize]
    | case4 c text position hzero hsize => contradiction
  · rintro ⟨after, rfl, rfl⟩
    exact sliceUpTo?_append part after

/-- What lies between two byte positions is a part of the text that begins and ends there. -/
theorem slice?_eq_some_iff {text part : List Char} {start stop : Nat} :
    slice? text start stop = some part ↔
      ∃ before after, text = before ++ part ++ after ∧ utf8Length before = start ∧
        utf8Length (before ++ part) = stop := by
  unfold slice?
  constructor
  · intro h
    split at h
    · rename_i hle
      obtain ⟨rest, hrest, hpart⟩ := Option.bind_eq_some_iff.1 h
      obtain ⟨before, rfl, rfl⟩ := sliceFrom?_eq_some_iff.1 hrest
      obtain ⟨after, rfl, hlength⟩ := sliceUpTo?_eq_some_iff.1 hpart
      refine ⟨before, after, (List.append_assoc _ _ _).symm, rfl, ?_⟩
      rw [utf8Length_append, hlength, Nat.add_sub_cancel' hle]
    · contradiction
  · rintro ⟨before, after, rfl, rfl, rfl⟩
    rw [utf8Length_append, if_pos (Nat.le_add_right _ _), Nat.add_sub_cancel_left,
      List.append_assoc, sliceFrom?_append, Option.bind_some, sliceUpTo?_append]

end Text

/-- A place in a text: a byte position and the number of its line, counted from one. -/
structure Cursor where
  position : Nat
  line : Nat
deriving DecidableEq, Repr

namespace Cursor

/-- The beginning of a text. -/
def start : Cursor :=
  ⟨0, 1⟩

/-- The place behind some text. -/
def past (cursor : Cursor) (text : List Char) : Cursor :=
  ⟨cursor.position + Text.utf8Length text, cursor.line + text.count '\n'⟩

/-- The place a number of bytes further on the same line. -/
def skip (cursor : Cursor) (bytes : Nat) : Cursor :=
  { cursor with position := cursor.position + bytes }

variable (source : List Char)

/-- The text that is still to be read. -/
def rest? (cursor : Cursor) : Option (List Char) :=
  Text.sliceFrom? source cursor.position

/-- The next character, and the place behind it. -/
def advance? (cursor : Cursor) : Option (Option Char × Cursor) := do
  let rest ← cursor.rest? source
  match rest with
  | [] => some (none, cursor)
  | c :: _ => some (some c, cursor.past [c])

/-- The place behind all characters of a class. -/
def advanceWhile? (keep : Char → Bool) (cursor : Cursor) : (fuel : Nat) → Option Cursor
  | 0 => none
  | fuel + 1 => do
      let (next, after) ← cursor.advance? source
      match next with
      | none => some cursor
      | some c => if keep c then advanceWhile? keep after fuel else some cursor

/-! ## Literals -/

/-- The place behind the quotation marks that close a raw string literal, or behind the text. -/
def rawBody? (quotes : Nat) (cursor : Cursor) : (fuel : Nat) → Option Cursor
  | 0 => none
  | fuel + 1 => do
      let rest ← cursor.rest? source
      if rest.isEmpty then some cursor
      else if (List.replicate quotes '"').isPrefixOf rest then
        (cursor.skip quotes).advanceWhile? source (· == '"') fuel
      else
        let (_, after) ← cursor.advance? source
        rawBody? quotes after fuel

/-- The place behind the end of a character literal of which the apostrophe has been read. -/
def characterBody? (cursor : Cursor) : (fuel : Nat) → Option Cursor
  | 0 => none
  | fuel + 1 => do
      let (next, after) ← cursor.advance? source
      match next with
      | none => some after
      | some c =>
          if c = '\\' then
            let (_, escaped) ← after.advance? source
            characterBody? escaped fuel
          else if c = '\'' ∨ c = '\n' then some after
          else characterBody? after fuel

/-- The place behind a character literal. -/
def character? (cursor : Cursor) (fuel : Nat) : Option Cursor := do
  let (_, inside) ← cursor.advance? source
  inside.characterBody? source fuel

/-- What a string literal begins with: the number of its marks, how many of them are dollar signs,
and whether one is an at sign. -/
structure Opening where
  marks : Nat
  dollars : Nat
  verbatim : Bool

/-- What a string literal with given marks begins with. -/
def Opening.ofMarks (marks : List Char) : Opening where
  marks := marks.length
  dollars := marks.length - marks.count '@'
  verbatim := marks.count '@' == 1

/-- What the string literal begins with that begins at a place, if one does. -/
def opening? (cursor : Cursor) : Option (Option Opening) := do
  let rest ← cursor.rest? source
  let marks := rest.takeWhile Enclosure.isStringMark
  if (rest.dropWhile Enclosure.isStringMark).head? = some '"' ∧ marks.count '@' ≤ 1 then
    some (some (Opening.ofMarks marks))
  else some none

mutual

/-- The place behind a string literal, from its first quotation mark on. -/
def string? (opening : Opening) (cursor : Cursor) : (fuel : Nat) → Option Cursor
  | 0 => none
  | fuel + 1 => do
      let rest ← cursor.rest? source
      let quotes := (rest.takeWhile (· == '"')).length
      if 3 ≤ quotes then (cursor.skip quotes).rawBody? source quotes fuel
      else
        let (_, inside) ← cursor.advance? source
        stringBody? opening.verbatim (decide (0 < opening.dollars)) inside fuel

/-- The place behind the end of a string literal of which the quotation mark has been read. -/
def stringBody? (verbatim interpolated : Bool) (cursor : Cursor) : (fuel : Nat) → Option Cursor
  | 0 => none
  | fuel + 1 => do
      let (next, after) ← cursor.advance? source
      match next with
      | none => some after
      | some c =>
          let (following, further) ← after.advance? source
          if c = '\\' ∧ verbatim = false then stringBody? verbatim interpolated further fuel
          else if c = '"' ∧ verbatim = true ∧ following = some '"' then
            stringBody? verbatim interpolated further fuel
          else if c = '"' then some after
          else if c = '\n' ∧ verbatim = false then some after
          else if c = '{' ∧ interpolated = true then
            if following = some '{' then stringBody? verbatim interpolated further fuel
            else
              let closed ← hole? 1 after fuel
              stringBody? verbatim interpolated closed fuel
          else stringBody? verbatim interpolated after fuel

/-- The place behind an interpolation hole inside of which a number of braces is open. -/
def hole? (braces : Nat) (cursor : Cursor) : (fuel : Nat) → Option Cursor
  | 0 => none
  | fuel + 1 => do
      let (next, after) ← cursor.advance? source
      match next with
      | none => some cursor
      | some c =>
          match ← cursor.opening? source with
          | some opening =>
              let closed ← string? opening (cursor.skip opening.marks) fuel
              hole? braces closed fuel
          | none =>
              if c = '\'' then
                let closed ← cursor.character? source fuel
                hole? braces closed fuel
              else if c = '{' then hole? (braces + 1) after fuel
              else if c = '}' then
                if braces - 1 = 0 then some after else hole? (braces - 1) after fuel
              else hole? braces after fuel

end

/-! ## Where a cursor stands -/

variable {source}

/-- Whether a cursor stands before the rest of a text. -/
def Stands (source : List Char) (cursor : Cursor) (rest : List Char) : Prop :=
  ∃ before, source = before ++ rest ∧ cursor = start.past before

/-- Whether moving a cursor succeeds and brings it before the rest of a text. -/
def Arrives (source : List Char) (moved : Option Cursor) (rest : List Char) : Prop :=
  ∃ after, moved = some after ∧ Stands source after rest

@[simp]
theorem past_nil (cursor : Cursor) : cursor.past [] = cursor :=
  rfl

theorem past_append (cursor : Cursor) (first second : List Char) :
    cursor.past (first ++ second) = (cursor.past first).past second := by
  simp [past, Nat.add_assoc]

/-- Characters of one byte that are no line feeds can be skipped. -/
theorem skip_eq_past (cursor : Cursor) (text : List Char) (h : ∀ c ∈ text, c.utf8Size = 1)
    (hfeed : '\n' ∉ text) : cursor.skip text.length = cursor.past text := by
  have hlength : Text.utf8Length text = text.length := by
    induction text with
    | nil => rfl
    | cons c text ih =>
        rw [List.forall_mem_cons] at h
        rw [List.mem_cons, not_or] at hfeed
        rw [Text.utf8Length_cons, h.1, ih h.2 hfeed.2, List.length_cons, Nat.add_comm]
  rw [skip, past, hlength, List.count_eq_zero.2 hfeed]
  rfl

namespace Stands

variable {cursor : Cursor} {rest : List Char}

theorem start (source : List Char) : Stands source Cursor.start source :=
  ⟨[], rfl, rfl⟩

theorem past (part : List Char) (h : Stands source cursor (part ++ rest)) :
    Stands source (cursor.past part) rest := by
  obtain ⟨before, rfl, rfl⟩ := h
  exact ⟨before ++ part, by rw [List.append_assoc], (past_append _ _ _).symm⟩

/-- Only one place is followed by a given rest. -/
theorem eq_past {after : Cursor} {part : List Char} (h : Stands source cursor (part ++ rest))
    (hafter : Stands source after rest) : after = cursor.past part := by
  obtain ⟨before, rfl, rfl⟩ := h
  obtain ⟨before', heq, rfl⟩ := hafter
  rw [← List.append_assoc] at heq
  rw [← List.append_cancel_right heq, past_append]

theorem rest?_eq (h : Stands source cursor rest) : cursor.rest? source = some rest := by
  obtain ⟨before, rfl, rfl⟩ := h
  rw [rest?, Cursor.past, Cursor.start, Nat.zero_add]
  exact Text.sliceFrom?_append before rest

theorem advance?_nil (h : Stands source cursor []) :
    cursor.advance? source = some (none, cursor) := by
  rw [advance?, h.rest?_eq]
  rfl

theorem advance?_cons {c : Char} (h : Stands source cursor (c :: rest)) :
    cursor.advance? source = some (some c, cursor.past [c]) := by
  rw [advance?, h.rest?_eq]
  rfl

theorem past_cons {c : Char} (h : Stands source cursor (c :: rest)) :
    Stands source (cursor.past [c]) rest :=
  past [c] h

/-- The next character is looked at without moving, and one character is dropped by moving. -/
theorem exists_advance? (h : Stands source cursor rest) :
    ∃ after, cursor.advance? source = some (rest.head?, after) ∧
      Stands source after (rest.drop 1) := by
  cases rest with
  | nil => exact ⟨cursor, h.advance?_nil, h⟩
  | cons c rest => exact ⟨_, h.advance?_cons, h.past_cons⟩

/-- All characters of a class are passed over. -/
theorem advanceWhile?_eq {fuel : Nat} (keep : Char → Bool) (h : Stands source cursor rest)
    (hfuel : rest.length < fuel) :
    cursor.advanceWhile? source keep fuel = some (cursor.past (rest.takeWhile keep)) := by
  induction rest generalizing cursor fuel with
  | nil =>
      obtain ⟨fuel, rfl⟩ := Nat.exists_eq_succ_of_ne_zero (Nat.ne_zero_of_lt hfuel)
      rw [advanceWhile?, h.advance?_nil]
      rfl
  | cons c rest ih =>
      obtain ⟨fuel, rfl⟩ := Nat.exists_eq_succ_of_ne_zero (Nat.ne_zero_of_lt hfuel)
      rw [advanceWhile?, h.advance?_cons]
      cases hkeep : keep c with
      | true =>
          simp only [Option.bind_eq_bind, Option.bind_some, hkeep, if_true]
          rw [ih h.past_cons (Nat.lt_of_succ_lt_succ hfuel), List.takeWhile_cons_of_pos hkeep,
            ← past_append]
          rfl
      | false =>
          simp [hkeep]

theorem arrives_advanceWhile? {fuel : Nat} (keep : Char → Bool) (h : Stands source cursor rest)
    (hfuel : rest.length < fuel) :
    Arrives source (cursor.advanceWhile? source keep fuel) (rest.dropWhile keep) := by
  refine ⟨_, h.advanceWhile?_eq keep hfuel, past _ ?_⟩
  rwa [List.takeWhile_append_dropWhile]

end Stands
end Cursor
end ProjectAssembler
