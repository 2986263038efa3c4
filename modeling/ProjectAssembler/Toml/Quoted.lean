import ProjectAssembler.Toml.Characters

/-!
# Quoted texts of TOML documents

A text is written between quotation marks, where escapes stand for characters, or between
apostrophes, where every character stands for itself.  Three marks instead of one enclose a text
of several lines.

Main definitions:

* `Toml.Read`: a value read from the beginning of a text, with the rest;
* `Toml.readQuoted?`: a text of one or several lines;
* `Toml.readLineText?`: a text of one line, as keys are written.

Main results: every reader leaves a shorter rest, such as `Toml.length_quoted_lt`.
-/

namespace ProjectAssembler.Toml

/-- A value read from the beginning of a text, with what is left. -/
structure Read (α : Type) (text : List Char) where
  value : α
  rest : List Char
  shorter : rest.length < text.length

/-! ## Escapes -/

/-- The value of a hexadecimal digit. -/
def hexValue? (c : Char) : Option Nat :=
  if '0' ≤ c ∧ c ≤ '9' then some (c.toNat - '0'.toNat)
  else if 'a' ≤ c ∧ c ≤ 'f' then some (c.toNat - 'a'.toNat + 10)
  else if 'A' ≤ c ∧ c ≤ 'F' then some (c.toNat - 'A'.toNat + 10)
  else none

/-- The character whose number hexadecimal digits spell, if there is one. -/
def charOfHex? (digits : List Char) : Option Char :=
  match digits.mapM hexValue? with
  | none => none
  | some values =>
      let number := values.foldl (fun number value => 16 * number + value) 0
      if h : number.isValidChar then some (Char.ofNatAux number h) else none

/-- The character that a single letter after a backslash stands for. -/
def simpleEscape? : Char → Option Char
  | 'b' => some '\x08'
  | 't' => some '\t'
  | 'n' => some '\n'
  | 'f' => some '\x0c'
  | 'r' => some '\r'
  | '"' => some '"'
  | '\\' => some '\\'
  | _ => none

/-- The number of hexadecimal digits after the letter of a numeric escape. -/
def hexDigits? : Char → Option Nat
  | 'u' => some 4
  | 'U' => some 8
  | _ => none

/-- The character that an escape stands for, given the text after its backslash, and the rest. -/
def escape? : List Char → Option (Char × List Char)
  | [] => none
  | c :: rest =>
      match hexDigits? c with
      | some count =>
          if rest.length < count then none
          else (charOfHex? (rest.take count)).map fun c => (c, rest.drop count)
      | none => (simpleEscape? c).map fun c => (c, rest)

theorem length_escape_lt {text rest : List Char} {c : Char} (h : escape? text = some (c, rest)) :
    rest.length < text.length := by
  unfold escape? at h
  split at h
  · simp at h
  · rename_i d tail
    split at h
    · split at h
      · simp at h
      · obtain ⟨e, -, he⟩ := Option.map_eq_some_iff.1 h
        rw [← (Prod.mk.inj he).2]
        simp only [List.length_drop, List.length_cons]
        omega
    · obtain ⟨e, -, he⟩ := Option.map_eq_some_iff.1 h
      rw [← (Prod.mk.inj he).2]
      simp

/-! ## Texts of one line -/

/-- Read up to the closing quotation mark, with escapes. -/
def basic (text : List Char) : Option (List Char × List Char) :=
  match text with
  | [] => none
  | '"' :: rest => some ([], rest)
  | '\\' :: rest =>
      match _hescape : escape? rest with
      | none => none
      | some (c, rest) => (basic rest).map fun (value, rest) => (c :: value, rest)
  | c :: rest =>
      if isPlain c then (basic rest).map fun (value, rest) => (c :: value, rest) else none
termination_by text.length
decreasing_by
  · have := length_escape_lt _hescape
    simp only [List.length_cons]
    omega
  · simp

/-- Read up to the closing apostrophe. -/
def literal : List Char → Option (List Char × List Char)
  | [] => none
  | '\'' :: rest => some ([], rest)
  | c :: rest =>
      if isPlain c then (literal rest).map fun (value, rest) => (c :: value, rest) else none

/-! ## Texts of several lines -/

/-- Leave out all spaces and line ends at the beginning. -/
def skipLines : List Char → List Char
  | '\n' :: rest => skipLines rest
  | '\r' :: '\n' :: rest => skipLines rest
  | c :: rest => if isSpace c then skipLines rest else c :: rest
  | [] => []

/-- The text after a backslash at the end of a line: the line end and the blanks of the next lines
are left out. -/
def joinLines? (text : List Char) : Option (List Char) :=
  (newline? (skipSpaces text)).map skipLines

/-- What quotes before the closing three stand for, and the text after a closing run.  Up to two
of the quotes belong to the text. -/
def closing? (mark : Char) : List Char → Option (List Char × List Char)
  | a :: b :: c :: rest =>
      if a = mark ∧ b = mark ∧ c = mark then
        match rest with
        | d :: e :: rest' =>
            if d = mark ∧ e = mark then some ([mark, mark], rest')
            else if d = mark then some ([mark], e :: rest')
            else some ([], rest)
        | [d] => if d = mark then some ([mark], []) else some ([], rest)
        | [] => some ([], [])
      else none
  | _ => none

theorem length_skipLines_le (text : List Char) : (skipLines text).length ≤ text.length := by
  fun_induction skipLines text with
  | case1 | case3 =>
      rename_i ih
      exact Nat.le_succ_of_le ih
  | case2 =>
      rename_i ih
      exact Nat.le_trans ih (by simp only [List.length_cons]; omega)
  | case4 => exact Nat.le_refl _
  | case5 => exact Nat.le_refl _

theorem length_newline_lt {text rest : List Char} (h : newline? text = some rest) :
    rest.length < text.length := by
  unfold newline? at h
  split at h
  · rw [← Option.some.inj h]
    simp
  · rw [← Option.some.inj h]
    simp only [List.length_cons]
    omega
  · simp at h

theorem length_joinLines_lt {text rest : List Char} (h : joinLines? text = some rest) :
    rest.length < text.length := by
  obtain ⟨line, hline, rfl⟩ := Option.map_eq_some_iff.1 h
  have h1 := length_skipLines_le line
  have h2 := length_newline_lt hline
  have h3 := length_skipSpaces_le text
  omega

theorem length_closing_lt {mark : Char} {text quotes rest : List Char}
    (h : closing? mark text = some (quotes, rest)) : rest.length < text.length := by
  unfold closing? at h
  split at h
  · split at h
    · split at h
      · split at h
        · rw [← (Prod.mk.inj (Option.some.inj h)).2]
          simp only [List.length_cons]
          omega
        · split at h
          · rw [← (Prod.mk.inj (Option.some.inj h)).2]
            simp only [List.length_cons]
            omega
          · rw [← (Prod.mk.inj (Option.some.inj h)).2]
            simp only [List.length_cons]
            omega
      · split at h <;>
        · rw [← (Prod.mk.inj (Option.some.inj h)).2]
          simp
      · rw [← (Prod.mk.inj (Option.some.inj h)).2]
        simp
    · simp at h
  · simp at h

/-- Read up to three closing quotation marks, with escapes. -/
def basicLines (text : List Char) : Option (List Char × List Char) :=
  match closing? '"' text with
  | some closed => some closed
  | none =>
      match text with
      | [] => none
      | '\n' :: rest => (basicLines rest).map fun (value, rest) => ('\n' :: value, rest)
      | '\r' :: '\n' :: rest => (basicLines rest).map fun (value, rest) => ('\n' :: value, rest)
      | '\\' :: rest =>
          match _hjoin : joinLines? rest with
          | some rest => basicLines rest
          | none =>
              match _hescape : escape? rest with
              | none => none
              | some (c, rest) => (basicLines rest).map fun (value, rest) => (c :: value, rest)
      | c :: rest =>
          if isPlain c then (basicLines rest).map fun (value, rest) => (c :: value, rest) else none
termination_by text.length
decreasing_by
  · simp
  · simp only [List.length_cons]
    omega
  · have := length_joinLines_lt _hjoin
    simp only [List.length_cons]
    omega
  · have := length_escape_lt _hescape
    simp only [List.length_cons]
    omega
  · simp

/-- Read up to three closing apostrophes. -/
def literalLines (text : List Char) : Option (List Char × List Char) :=
  match closing? '\'' text with
  | some closed => some closed
  | none =>
      match text with
      | [] => none
      | '\n' :: rest => (literalLines rest).map fun (value, rest) => ('\n' :: value, rest)
      | '\r' :: '\n' :: rest => (literalLines rest).map fun (value, rest) => ('\n' :: value, rest)
      | c :: rest =>
          if isPlain c then (literalLines rest).map fun (value, rest) => (c :: value, rest)
          else none
termination_by text.length

/-! ## Both kinds -/

/-- The text after a line end that follows opening marks directly. -/
def afterOpening (text : List Char) : List Char :=
  (newline? text).getD text

/-- Read a text of one line, from its opening mark. -/
def lineText? : List Char → Option (List Char × List Char)
  | '"' :: rest => basic rest
  | '\'' :: rest => literal rest
  | _ => none

/-- Read a text of one or several lines, from its opening mark. -/
def quoted? : List Char → Option (List Char × List Char)
  | '"' :: '"' :: '"' :: rest => basicLines (afterOpening rest)
  | '\'' :: '\'' :: '\'' :: rest => literalLines (afterOpening rest)
  | text => lineText? text

theorem length_basic_lt {text value rest : List Char} (h : basic text = some (value, rest)) :
    rest.length < text.length := by
  fun_induction basic text generalizing value rest with
  | case1 => simp at h
  | case2 tail =>
      rw [← (Prod.mk.inj (Option.some.inj h)).2]
      simp
  | case3 => simp at h
  | case4 tail c after hescape ih =>
      obtain ⟨⟨inner, left⟩, hinner, heq⟩ := Option.map_eq_some_iff.1 h
      rw [← (Prod.mk.inj heq).2]
      have h1 := ih hinner
      have h2 := length_escape_lt hescape
      simp only [List.length_cons]
      omega
  | case5 =>
      rename_i ih
      obtain ⟨⟨inner, left⟩, hinner, heq⟩ := Option.map_eq_some_iff.1 h
      rw [← (Prod.mk.inj heq).2]
      exact Nat.lt_succ_of_lt (ih hinner)
  | case6 => simp at h

theorem length_literal_lt {text value rest : List Char} (h : literal text = some (value, rest)) :
    rest.length < text.length := by
  fun_induction literal text generalizing value rest with
  | case1 => simp at h
  | case2 tail =>
      rw [← (Prod.mk.inj (Option.some.inj h)).2]
      simp
  | case3 =>
      rename_i ih
      obtain ⟨⟨inner, left⟩, hinner, heq⟩ := Option.map_eq_some_iff.1 h
      rw [← (Prod.mk.inj heq).2]
      exact Nat.lt_succ_of_lt (ih hinner)
  | case4 => simp at h

theorem length_basicLines_lt {text value rest : List Char}
    (h : basicLines text = some (value, rest)) : rest.length < text.length := by
  fun_induction basicLines text generalizing value rest with
  | case1 text closed hclosed =>
      rw [Option.some.inj h] at hclosed
      exact length_closing_lt hclosed
  | case2 => simp at h
  | case3 | case8 =>
      rename_i ih
      obtain ⟨⟨inner, left⟩, hinner, heq⟩ := Option.map_eq_some_iff.1 h
      rw [← (Prod.mk.inj heq).2]
      exact Nat.lt_succ_of_lt (ih hinner)
  | case4 =>
      rename_i ih
      obtain ⟨⟨inner, left⟩, hinner, heq⟩ := Option.map_eq_some_iff.1 h
      rw [← (Prod.mk.inj heq).2]
      exact Nat.lt_trans (ih hinner) (by simp only [List.length_cons]; omega)
  | case5 =>
      rename_i hjoin _ ih
      have h1 := ih h
      have h2 := length_joinLines_lt hjoin
      simp only [List.length_cons]
      omega
  | case6 => simp at h
  | case7 =>
      rename_i hescape _ ih
      obtain ⟨⟨inner, left⟩, hinner, heq⟩ := Option.map_eq_some_iff.1 h
      rw [← (Prod.mk.inj heq).2]
      have h1 := ih hinner
      have h2 := length_escape_lt hescape
      simp only [List.length_cons]
      omega
  | case9 => simp at h

theorem length_literalLines_lt {text value rest : List Char}
    (h : literalLines text = some (value, rest)) : rest.length < text.length := by
  fun_induction literalLines text generalizing value rest with
  | case1 text closed hclosed =>
      rw [Option.some.inj h] at hclosed
      exact length_closing_lt hclosed
  | case2 => simp at h
  | case3 | case5 =>
      rename_i ih
      obtain ⟨⟨inner, left⟩, hinner, heq⟩ := Option.map_eq_some_iff.1 h
      rw [← (Prod.mk.inj heq).2]
      exact Nat.lt_succ_of_lt (ih hinner)
  | case4 =>
      rename_i ih
      obtain ⟨⟨inner, left⟩, hinner, heq⟩ := Option.map_eq_some_iff.1 h
      rw [← (Prod.mk.inj heq).2]
      exact Nat.lt_trans (ih hinner) (by simp only [List.length_cons]; omega)
  | case6 => simp at h

theorem length_afterOpening_le (text : List Char) : (afterOpening text).length ≤ text.length := by
  unfold afterOpening
  cases hline : newline? text with
  | none => exact Nat.le_refl _
  | some rest => exact Nat.le_of_lt (length_newline_lt hline)

/-- A text of one line leaves a shorter rest. -/
theorem length_lineText_lt {text value rest : List Char}
    (h : lineText? text = some (value, rest)) : rest.length < text.length := by
  unfold lineText? at h
  split at h
  · exact Nat.lt_succ_of_lt (length_basic_lt h)
  · exact Nat.lt_succ_of_lt (length_literal_lt h)
  · simp at h

/-- A text leaves a shorter rest. -/
theorem length_quoted_lt {text value rest : List Char} (h : quoted? text = some (value, rest)) :
    rest.length < text.length := by
  unfold quoted? at h
  split at h
  · rename_i inner
    have h1 := length_basicLines_lt h
    have h2 := length_afterOpening_le inner
    simp only [List.length_cons]
    omega
  · rename_i inner
    have h1 := length_literalLines_lt h
    have h2 := length_afterOpening_le inner
    simp only [List.length_cons]
    omega
  · exact length_lineText_lt h

/-- Read a text of one or several lines. -/
def readQuoted? (text : List Char) : Option (Read String text) :=
  match h : quoted? text with
  | some (value, rest) => some ⟨String.ofList value, rest, length_quoted_lt h⟩
  | none => none

/-- Read a text of one line. -/
def readLineText? (text : List Char) : Option (Read String text) :=
  match h : lineText? text with
  | some (value, rest) => some ⟨String.ofList value, rest, length_lineText_lt h⟩
  | none => none

end ProjectAssembler.Toml
