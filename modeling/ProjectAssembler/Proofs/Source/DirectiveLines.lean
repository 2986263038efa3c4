import Mathlib.Data.List.TakeWhile
import ProjectAssembler.Source.Directive

/-!
# How directives are written

A directive may be indented, white space may follow its number sign, and whatever comes after its
name is its argument and a comment.  Reading a line finds a directive exactly where one is written.

Main definitions:

* `Directive.IsArgument`: what the rest of a line says apart from its comment;
* `Directive.Spelling`: the ways to write a directive of a given name;
* `Directive.IsWritten`: whether a line is a directive.

Main results:

* `Directive.isArgument_iff`: the rest of a line has one argument, which is read;
* `Directive.ofLine?_text`: a written directive is read;
* `Directive.isWritten_of_ofLine?`: what is read as a directive is written as one.
-/

namespace ProjectAssembler
namespace Text

/-! ## White space -/

/-- White space is no part of words. -/
theorem isWordCharacter_of_isBlank {c : Char} (h : isBlank c = true) :
    isWordCharacter c = false :=
  forall_isBlank (p := fun c => isWordCharacter c = false) (by decide +kernel) h

/-- The numbers of the letters of ASCII. -/
theorem toNat_of_isAlpha {c : Char} (h : c.isAlpha = true) :
    (65 ≤ c.toNat ∧ c.toNat ≤ 90) ∨ (97 ≤ c.toNat ∧ c.toNat ≤ 122) := by
  rcases Bool.or_eq_true_iff.1 h with hupper | hlower
  · exact .inl (of_decide_eq_true hupper)
  · obtain ⟨hleast, hgreatest⟩ := Bool.and_eq_true_iff.1 hlower
    exact .inr ⟨of_decide_eq_true hleast, of_decide_eq_true hgreatest⟩

/-- Letters of ASCII are not white space. -/
theorem isBlank_of_isAlpha {c : Char} (h : c.isAlpha = true) : isBlank c = false := by
  have hletter := toNat_of_isAlpha h
  rw [Bool.eq_false_iff]
  intro hblank
  simp only [isBlank, Bool.or_eq_true, Bool.and_eq_true, decide_eq_true_eq, beq_iff_eq] at hblank
  omega

/-- What is dropped at the end of a text is white space. -/
theorem exists_trimEnd_append (text : List Char) :
    ∃ tail, text = trimEnd text ++ tail ∧ ∀ c ∈ tail, isBlank c = true := by
  refine ⟨(text.reverse.takeWhile isBlank).reverse, ?_, ?_⟩
  · rw [trimEnd, dropEnd, ← List.reverse_append, List.takeWhile_append_dropWhile,
      List.reverse_reverse]
  · intro c hc
    exact List.mem_takeWhile_imp (List.mem_reverse.1 hc)

/-- What is dropped at the beginning of a text is white space. -/
theorem exists_append_trimStart (text : List Char) :
    ∃ lead, text = lead ++ trimStart text ∧ ∀ c ∈ lead, isBlank c = true :=
  ⟨text.takeWhile isBlank, List.takeWhile_append_dropWhile.symm, fun _ => List.mem_takeWhile_imp⟩

/-- White space at the end is dropped. -/
theorem trimEnd_append_blank (text : List Char) {tail : List Char}
    (h : ∀ c ∈ tail, isBlank c = true) : trimEnd (text ++ tail) = trimEnd text := by
  have htail : ∀ c ∈ tail.reverse, isBlank c = true := fun c hc => h c (List.mem_reverse.1 hc)
  rw [trimEnd, dropEnd, List.reverse_append, List.dropWhile_append_of_pos htail, trimEnd, dropEnd]

/-- Nothing is dropped before a character that is not white space. -/
theorem trimEnd_append_cons (lead : List Char) {c : Char} (hc : isBlank c = false)
    (rest : List Char) : trimEnd (lead ++ c :: rest) = lead ++ c :: trimEnd rest := by
  have hstop : (c :: lead.reverse).dropWhile isBlank = c :: lead.reverse :=
    List.dropWhile_cons_of_neg (by simp [hc])
  rw [trimEnd, dropEnd, trimEnd, dropEnd, List.reverse_append, List.reverse_cons, List.append_assoc,
    List.singleton_append, List.dropWhile_append, hstop]
  cases rest.reverse.dropWhile isBlank with
  | nil => simp
  | cons d others => simp

/-- White space at the beginning is dropped up to the first other character. -/
theorem trimStart_append_cons {lead : List Char} (h : ∀ c ∈ lead, isBlank c = true) {c : Char}
    (hc : isBlank c = false) (rest : List Char) :
    trimStart (lead ++ c :: rest) = c :: rest := by
  rw [trimStart, dropStart, List.dropWhile_append_of_pos h]
  exact List.dropWhile_cons_of_neg (by simp [hc])

/-- Whether a text is another one without the white space around it. -/
def IsTrimmed (core text : List Char) : Prop :=
  ∃ lead tail, text = lead ++ (core ++ tail) ∧ (∀ c ∈ lead, isBlank c = true) ∧
    (∀ c ∈ tail, isBlank c = true) ∧ (∀ c ∈ core.head?, isBlank c = false) ∧
    ∀ c ∈ core.getLast?, isBlank c = false

/-- What is left by trimming begins and ends with other characters than white space. -/
theorem isTrimmed_trim (text : List Char) : IsTrimmed (trim text) text := by
  obtain ⟨tail, htail, htailblank⟩ := exists_trimEnd_append text
  obtain ⟨lead, hlead, hleadblank⟩ := exists_append_trimStart (trimEnd text)
  refine ⟨lead, tail, ?_, hleadblank, htailblank, ?_, ?_⟩
  · rw [← List.append_assoc, trim, ← hlead, ← htail]
  · intro c hc
    have hfirst := List.head?_dropWhile_not isBlank (trimEnd text)
    rw [show (trimEnd text).dropWhile isBlank = trim text from rfl, Option.mem_def.1 hc] at hfirst
    simpa using hfirst
  · intro c hc
    have hlast : (trimEnd text).getLast? = some c := by
      rw [hlead, List.getLast?_append, show trimStart (trimEnd text) = trim text from rfl,
        Option.mem_def.1 hc, Option.some_or]
    have hfirst := List.head?_dropWhile_not isBlank text.reverse
    rw [trimEnd, dropEnd, List.getLast?_reverse] at hlast
    rw [hlast] at hfirst
    simpa using hfirst

/-- A text has one trimmed text, and trimming finds it. -/
theorem isTrimmed_iff {core text : List Char} : IsTrimmed core text ↔ trim text = core := by
  refine ⟨?_, fun h => h ▸ isTrimmed_trim text⟩
  rintro ⟨lead, tail, rfl, hlead, htail, hfirst, hlast⟩
  rw [trim, ← List.append_assoc, trimEnd_append_blank _ htail]
  have hempty : trimEnd [] = [] := rfl
  obtain rfl | ⟨front, last, hcore⟩ := List.eq_nil_or_concat core
  · have hnone : trimEnd lead = [] := trimEnd_append_blank [] hlead
    rw [List.append_nil, hnone]
    rfl
  · obtain rfl : core = front ++ [last] := hcore.trans List.concat_eq_append
    have hend : trimEnd (lead ++ (front ++ [last])) = lead ++ (front ++ [last]) := by
      have hlast : isBlank last = false := hlast last (by simp)
      simpa [hempty] using trimEnd_append_cons (lead ++ front) hlast []
    rw [hend]
    cases hcore : front ++ [last] with
    | nil => simp at hcore
    | cons c core => exact trimStart_append_cons hlead (hfirst c (by simp [hcore])) core

/-! ## Texts before a pattern -/

/-- Whether a text is what comes before the first occurrence of a pattern in another one, or all of
it if the pattern does not occur. -/
def IsBefore (pattern front text : List Char) : Prop :=
  (∃ rest, text = front ++ rest ∧ (rest = [] ∨ pattern <+: rest)) ∧
    ∀ start after, text = start ++ (pattern ++ after) → front <+: start

/-- There is one text before a pattern, and cutting finds it. -/
theorem isBefore_iff {pattern front text : List Char} :
    IsBefore pattern front text ↔ before pattern text = front := by
  induction text generalizing front with
  | nil =>
      constructor
      · rintro ⟨⟨rest, hrest, -⟩, -⟩
        exact (List.append_eq_nil_iff.1 hrest.symm).1.symm
      · rintro rfl
        exact ⟨⟨[], rfl, Or.inl rfl⟩, fun start _ _ => List.nil_prefix⟩
  | cons c text ih =>
      by_cases hpattern : pattern <+: c :: text
      · rw [before, if_pos (List.isPrefixOf_iff_prefix.2 hpattern)]
        constructor
        · rintro ⟨-, hfirst⟩
          obtain ⟨after, hafter⟩ := hpattern
          exact (List.prefix_nil.1 (hfirst [] after hafter.symm)).symm
        · rintro rfl
          exact ⟨⟨c :: text, rfl, Or.inr hpattern⟩, fun start _ _ => List.nil_prefix⟩
      · rw [before, if_neg (fun h => hpattern (List.isPrefixOf_iff_prefix.1 h))]
        -- The pattern begins in the text behind the character, or not at all.
        have hbehind : ∀ front, IsBefore pattern (c :: front) (c :: text) ↔
            IsBefore pattern front text := by
          intro front
          constructor
          · rintro ⟨⟨rest, hrest, hend⟩, hfirst⟩
            refine ⟨⟨rest, (List.cons.inj hrest).2, hend⟩, fun start after htext => ?_⟩
            exact (List.cons_prefix_cons.1 (hfirst (c :: start) after (by simp [htext]))).2
          · rintro ⟨⟨rest, hrest, hend⟩, hfirst⟩
            refine ⟨⟨rest, by rw [hrest, List.cons_append], hend⟩, fun start after htext => ?_⟩
            cases start with
            | nil => exact absurd ⟨after, htext.symm⟩ hpattern
            | cons d start =>
                obtain ⟨rfl, hbehind⟩ := List.cons.inj htext
                exact List.cons_prefix_cons.2 ⟨rfl, hfirst start after hbehind⟩
        constructor
        · intro h
          obtain ⟨⟨rest, hrest, hend⟩, -⟩ := id h
          cases front with
          | nil =>
              rw [List.nil_append] at hrest
              subst hrest
              exact absurd (hend.resolve_left (List.cons_ne_nil c text)) hpattern
          | cons d front =>
              obtain rfl : c = d := (List.cons.inj hrest).1
              rw [ih.1 ((hbehind front).1 h)]
        · rintro rfl
          exact (hbehind _).2 (ih.2 rfl)

end Text

namespace Directive

/-! ## Arguments -/

/-- White space at the end of a text stays behind what comes before a comment, or belongs to the
comment. -/
theorem exists_before_append_blank (text : List Char) {tail : List Char}
    (h : ∀ c ∈ tail, Text.isBlank c = true) :
    ∃ kept, Text.before ['/', '/'] (text ++ tail) = Text.before ['/', '/'] text ++ kept ∧
      ∀ c ∈ kept, Text.isBlank c = true := by
  have hslash : Text.isBlank '/' = false := rfl
  induction text with
  | nil =>
      refine ⟨Text.before ['/', '/'] tail, rfl, ?_⟩
      have hsub : ∀ text : List Char, ∀ c ∈ Text.before ['/', '/'] text, c ∈ text := by
        intro text c hc
        induction text with
        | nil => exact hc
        | cons d text ih =>
            unfold Text.before at hc
            split at hc
            · exact absurd hc List.not_mem_nil
            · rcases List.mem_cons.1 hc with rfl | hc
              · exact List.mem_cons_self
              · exact List.mem_cons_of_mem d (ih hc)
      exact fun c hc => h c (hsub tail c hc)
  | cons c text ih =>
      obtain ⟨kept, heq, hkept⟩ := ih
      -- The tail holds no slash, so a comment cannot begin at its boundary.
      have hsame : ['/', '/'].isPrefixOf (c :: (text ++ tail)) =
          ['/', '/'].isPrefixOf (c :: text) := by
        cases text with
        | cons d text => simp [List.isPrefixOf]
        | nil =>
            cases tail with
            | nil => rfl
            | cons d tail =>
                have hd : '/' ≠ d := by
                  rintro rfl
                  rw [h '/' List.mem_cons_self] at hslash
                  contradiction
                simp [List.isPrefixOf, hd]
      rw [List.cons_append, Text.before, Text.before, hsame]
      split
      · exact ⟨[], rfl, fun _ hc => absurd hc List.not_mem_nil⟩
      · exact ⟨kept, by rw [heq, List.cons_append], hkept⟩

/-- White space at the end of a line does not belong to the argument. -/
theorem argumentOf_append_blank (text : List Char) {tail : List Char}
    (h : ∀ c ∈ tail, Text.isBlank c = true) : argumentOf (text ++ tail) = argumentOf text := by
  obtain ⟨kept, heq, hkept⟩ := exists_before_append_blank text h
  rw [argumentOf, argumentOf, heq, Text.trim, Text.trim, Text.trimEnd_append_blank _ hkept]

/-- Whether a text is the argument in the rest of a line: what comes before a `//` comment, without
the white space around it. -/
def IsArgument (rest argument : List Char) : Prop :=
  ∃ front, Text.IsBefore ['/', '/'] front rest ∧ Text.IsTrimmed argument front

/-- The rest of a line has one argument, which is read. -/
theorem isArgument_iff {rest argument : List Char} :
    IsArgument rest argument ↔ argumentOf rest = argument := by
  simp only [IsArgument, Text.isBefore_iff, Text.isTrimmed_iff, argumentOf, exists_eq_left']

/-! ## Spellings -/

/-- What the name of a directive may be: letters, and at least one. -/
def IsName (name : String) : Prop :=
  name.toList ≠ [] ∧ ∀ c ∈ name.toList, isNameLetter c = true

instance (name : String) : Decidable (IsName name) :=
  decidable_of_iff ((!name.toList.isEmpty && name.toList.all isNameLetter) = true)
    (by simp [IsName])

/-- A way to write a directive of a given name: white space before and after the number sign, and
the rest of the line after the name, which it does not continue, with its argument. -/
structure Spelling (name : String) where
  indent : List Char
  gap : List Char
  rest : List Char
  argument : List Char
  indent_blank : ∀ c ∈ indent, Text.isBlank c = true
  gap_blank : ∀ c ∈ gap, Text.isBlank c = true
  rest_apart : rest.head?.any Text.isWordCharacter = false
  argument_of : IsArgument rest argument

namespace Spelling

/-- The line of a spelling. -/
def text {name : String} (spelling : Spelling name) : List Char :=
  spelling.indent ++ '#' :: (spelling.gap ++ (name.toList ++ spelling.rest))

end Spelling

/-- Whether a line is a directive. -/
def IsWritten (line : List Char) : Prop :=
  ∃ name, IsName name ∧ ∃ spelling : Spelling name, line = spelling.text

/-! ## Reading -/

/-- A name is read up to the white space or the mark after it. -/
theorem nameAndRest?_append {gap rest : List Char} {name : String} (hname : IsName name)
    (hgap : ∀ c ∈ gap, Text.isBlank c = true)
    (hrest : rest.head?.any Text.isWordCharacter = false) :
    nameAndRest? (gap ++ (name.toList ++ rest)) = some (name, rest) := by
  obtain ⟨hne, hletters⟩ := hname
  have htrim : Text.trimStart (gap ++ (name.toList ++ rest)) = name.toList ++ rest := by
    cases hchars : name.toList with
    | nil => exact absurd hchars hne
    | cons c chars =>
        have hc : isNameLetter c = true := hletters c (hchars ▸ List.mem_cons_self)
        exact Text.trimStart_append_cons hgap (Text.isBlank_of_isAlpha hc) (chars ++ rest)
  have hstop : rest.takeWhile isNameLetter = [] ∧ rest.dropWhile isNameLetter = rest := by
    cases rest with
    | nil => exact ⟨rfl, rfl⟩
    | cons c rest =>
        have hword : Text.isWordCharacter c = false := by simpa using hrest
        have hc : isNameLetter c = false := by
          rw [Bool.eq_false_iff]
          intro halpha
          have hsmall : c.toNat < 0x80 := by
            have hletter := Text.toNat_of_isAlpha halpha
            omega
          simp only [isNameLetter] at halpha
          simp [Text.isWordCharacter, hsmall, Char.isAlphanum, halpha] at hword
        simp [hc]
  unfold nameAndRest?
  simp only [htrim, List.takeWhile_append_of_pos hletters, List.dropWhile_append_of_pos hletters,
    hstop.1, hstop.2, List.append_nil, hrest, Bool.or_false]
  rw [if_neg (by simpa using hne), String.ofList_toList]

/-- A written directive is read. -/
theorem ofLine?_text {name : String} (hname : IsName name) (spelling : Spelling name) :
    ofLine? spelling.text = some (ofName name spelling.argument) := by
  obtain ⟨indent, gap, rest, argument, hindent, hgap, hrest, hof⟩ := spelling
  have hmark : Text.isBlank '#' = false := rfl
  obtain ⟨chars, last, hchars⟩ := (List.eq_nil_or_concat name.toList).resolve_left hname.1
  have hlast : Text.isBlank last = false :=
    Text.isBlank_of_isAlpha (hname.2 last (by simp [hchars]))
  -- Nothing of the name is trimmed away, so trimming the line trims its rest.
  have hend : Text.trimEnd (gap ++ (name.toList ++ rest)) =
      gap ++ (name.toList ++ Text.trimEnd rest) := by
    simpa [hchars] using Text.trimEnd_append_cons (gap ++ chars) hlast rest
  obtain ⟨tail, htail, hblank⟩ := Text.exists_trimEnd_append rest
  have hargument : argumentOf (Text.trimEnd rest) = argument := by
    rw [← isArgument_iff.1 hof, ← argumentOf_append_blank _ hblank, ← htail]
  have hapart : (Text.trimEnd rest).head?.any Text.isWordCharacter = false := by
    cases hkept : Text.trimEnd rest with
    | nil => rfl
    | cons c kept =>
        rw [htail, hkept] at hrest
        exact hrest
  unfold ofLine?
  simp only [Spelling.text, Text.trimEnd_append_cons indent hmark,
    Text.trimStart_append_cons hindent hmark, hend, nameAndRest?_append hname hgap hapart,
    Option.map_some, hargument]

/-- What is read as a name and a rest is a name that the rest does not continue, after white
space. -/
theorem exists_of_nameAndRest? {text rest : List Char} {name : String}
    (h : nameAndRest? text = some (name, rest)) :
    IsName name ∧ rest.head?.any Text.isWordCharacter = false ∧
      ∃ gap, (∀ c ∈ gap, Text.isBlank c = true) ∧ text = gap ++ (name.toList ++ rest) := by
  obtain ⟨gap, htext, hgap⟩ := Text.exists_append_trimStart text
  simp only [nameAndRest?, Option.ite_none_left_eq_some, Bool.or_eq_true, not_or,
    Bool.not_eq_true, List.isEmpty_eq_false_iff, Option.some.injEq, Prod.mk.injEq] at h
  obtain ⟨⟨hne, hrest⟩, rfl, rfl⟩ := h
  refine ⟨⟨by simpa using hne, ?_⟩, hrest, gap, hgap, ?_⟩
  · intro c hc
    rw [String.toList_ofList] at hc
    exact List.mem_takeWhile_imp hc
  · rw [String.toList_ofList, List.takeWhile_append_dropWhile, ← htext]

/-- What is read as a directive is written as one. -/
theorem isWritten_of_ofLine? {line : List Char} {directive : Directive}
    (h : ofLine? line = some directive) : IsWritten line := by
  obtain ⟨tail, htail, hblank⟩ := Text.exists_trimEnd_append line
  obtain ⟨indent, hindent, hlead⟩ := Text.exists_append_trimStart (Text.trimEnd line)
  unfold ofLine? at h
  split at h
  · rename_i text hstart
    obtain ⟨⟨name, rest⟩, hparts, -⟩ := Option.map_eq_some_iff.1 h
    obtain ⟨hname, hrest, gap, hgap, rfl⟩ := exists_of_nameAndRest? hparts
    have hapart : (rest ++ tail).head?.any Text.isWordCharacter = false := by
      cases rest with
      | cons c rest => exact hrest
      | nil =>
          cases tail with
          | nil => rfl
          | cons c tail =>
              exact Text.isWordCharacter_of_isBlank (hblank c List.mem_cons_self)
    refine ⟨name, hname, ⟨indent, gap, rest ++ tail, argumentOf (rest ++ tail), hlead, hgap, hapart,
      isArgument_iff.2 rfl⟩, ?_⟩
    rw [Spelling.text, htail, hindent, hstart]
    simp
  · contradiction

/-- A line that is no directive is read as none. -/
theorem ofLine?_eq_none {line : List Char} (h : ¬ IsWritten line) : ofLine? line = none := by
  cases hread : ofLine? line with
  | none => rfl
  | some directive => exact absurd (isWritten_of_ofLine? hread) h

end Directive
end ProjectAssembler
