import ProjectAssembler.Text.Trim

/-!
# Where a literal ends

String literals may hold interpolation holes, and holes may hold literals again.  What is open at a
place of such a text is a stack of enclosures; reading one more character pushes or pops it.  A
literal ends where the stack runs empty.

Main definitions:

* `Enclosure.openString?`: what the beginning of a string literal opens;
* `Enclosure.step`: the effect of one character on the stack;
* `Enclosure.close`: the text after everything open has been closed.

Main results: `Enclosure.close_isSuffix` says that what remains is an end of the text, and
`Enclosure.close_cons` unfolds the reading of one character.
-/

namespace ProjectAssembler

/-- Something that is open inside of a literal. -/
inductive Enclosure where
  /-- A string literal between single quotation marks. -/
  | quoted (verbatim interpolated : Bool)
  /-- A raw string literal, closed by as many quotation marks as opened it. -/
  | raw (quotes : Nat)
  /-- A character literal. -/
  | character
  /-- An interpolation hole with the number of braces open inside of it. -/
  | hole (braces : Nat)
deriving DecidableEq, Repr

namespace Enclosure

/-- The marks that may stand before the quotation mark of a string. -/
def isStringMark (c : Char) : Bool :=
  c == '$' || c == '@'

/-- What the beginning of a string literal opens, and the text inside.  Marks may precede the
quotation mark, with at most one `@`; three or more quotation marks open a raw string. -/
def openString? (text : List Char) : Option (Enclosure × List Char) :=
  let marks := text.takeWhile isStringMark
  let rest := text.dropWhile isStringMark
  let quotes := (rest.takeWhile (· == '"')).length
  if quotes = 0 ∨ 1 < marks.count '@' then none
  else if 3 ≤ quotes then some (raw quotes, rest.drop quotes)
  else some (quoted (marks.contains '@') (marks.contains '$'), rest.drop 1)

/-- The effect of one character, with the text that follows it, on the innermost enclosure: the
stack afterwards and the text that is still to be read. -/
def step (innermost : Enclosure) (outer : List Enclosure) (c : Char) (text : List Char) :
    List Enclosure × List Char :=
  match innermost with
  | quoted verbatim interpolated =>
      if c = '\\' ∧ verbatim = false then (innermost :: outer, text.drop 1)
      else if c = '"' then
        if verbatim = true ∧ text.head? = some '"' then (innermost :: outer, text.drop 1)
        else (outer, text)
      else if c = '\n' ∧ verbatim = false then (outer, text)
      else if c = '{' ∧ interpolated = true then
        if text.head? = some '{' then (innermost :: outer, text.drop 1)
        else (hole 0 :: innermost :: outer, text)
      else (innermost :: outer, text)
  | raw quotes =>
      if (List.replicate quotes '"').isPrefixOf (c :: text) then
        (outer, (text.drop (quotes - 1)).dropWhile (· == '"'))
      else (innermost :: outer, text)
  | character =>
      if c = '\\' then (innermost :: outer, text.drop 1)
      else if c = '\'' ∨ c = '\n' then (outer, text)
      else (innermost :: outer, text)
  | hole braces =>
      match openString? (c :: text) with
      | some (opened, inside) => (opened :: innermost :: outer, inside)
      | none =>
          if c = '\'' then (character :: innermost :: outer, text)
          else if c = '{' then (hole (braces + 1) :: outer, text)
          else if c = '}' then
            match braces with
            | 0 => (outer, text)
            | inner + 1 => (hole inner :: outer, text)
          else (innermost :: outer, text)

/-! ## What is read is an end of the text -/

/-- The inside of a string literal is a proper end of the text. -/
theorem openString?_isSuffix {c : Char} {text inside : List Char} {opened : Enclosure}
    (h : openString? (c :: text) = some (opened, inside)) : inside <:+ text := by
  have hrest : (c :: text).dropWhile isStringMark <:+ c :: text := List.dropWhile_suffix _
  unfold openString? at h
  simp only at h
  split at h
  · simp at h
  · rename_i hq
    have hpos : 0 < (((c :: text).dropWhile isStringMark).takeWhile (· == '"')).length := by
      omega
    have key : ∀ n, 0 < n → ((c :: text).dropWhile isStringMark).drop n <:+ text := by
      intro n hn
      rcases List.suffix_cons_iff.1 hrest with heq | hsuf
      · rw [heq]
        obtain ⟨m, rfl⟩ : ∃ m, n = m + 1 := ⟨n - 1, by omega⟩
        simpa using List.drop_suffix m text
      · exact (List.drop_suffix _ _).trans hsuf
    split at h
    · obtain ⟨-, rfl⟩ := Prod.mk.inj (Option.some.inj h)
      exact key _ hpos
    · obtain ⟨-, rfl⟩ := Prod.mk.inj (Option.some.inj h)
      exact key 1 Nat.one_pos

/-- What a step leaves to be read is an end of what followed the character. -/
theorem step_isSuffix (innermost : Enclosure) (outer : List Enclosure) (c : Char)
    (text : List Char) : (step innermost outer c text).2 <:+ text := by
  unfold step
  split
  · repeat' split
    all_goals first
      | exact List.drop_suffix _ _
      | exact List.suffix_refl _
  · split
    · exact (List.dropWhile_suffix _).trans (List.drop_suffix _ _)
    · exact List.suffix_refl _
  · repeat' split
    all_goals first
      | exact List.drop_suffix _ _
      | exact List.suffix_refl _
  · split
    · rename_i h
      exact openString?_isSuffix h
    · repeat' split
      all_goals exact List.suffix_refl _

/-- The text after everything on the stack has been closed; nothing when the text ends before. -/
def close : List Enclosure → List Char → List Char
  | [], text => text
  | _ :: _, [] => []
  | innermost :: outer, c :: text =>
      close (step innermost outer c text).1 (step innermost outer c text).2
termination_by _ text => text.length
decreasing_by
  exact Nat.lt_succ_of_le (step_isSuffix innermost outer c text).length_le

@[simp]
theorem close_nil (text : List Char) : close [] text = text := by
  unfold close
  rfl

@[simp]
theorem close_end (stack : List Enclosure) : close stack [] = [] := by
  cases stack <;> unfold close <;> rfl

/-- Reading one character of an open text. -/
theorem close_cons (innermost : Enclosure) (outer : List Enclosure) (c : Char)
    (text : List Char) :
    close (innermost :: outer) (c :: text) =
      close (step innermost outer c text).1 (step innermost outer c text).2 := by
  rw [close]

/-- What remains after a literal is an end of the text. -/
theorem close_isSuffix (stack : List Enclosure) (text : List Char) : close stack text <:+ text := by
  fun_induction close stack text with
  | case1 text => exact List.suffix_refl _
  | case2 innermost outer => exact List.suffix_refl _
  | case3 innermost outer c text ih =>
      exact ih.trans ((step_isSuffix innermost outer c text).trans (List.suffix_cons c text))

end Enclosure
end ProjectAssembler
