import ProjectAssembler.Proofs.Source.LiteralEnds

/-!
# Verbatim strings

A verbatim string spells a value between quotation marks, with each quotation mark of the value
written twice, behind an at sign.  The quotation marks at the front of a literal are counted before
its marks are looked at, so a value that begins with a quotation mark makes the spelling a raw
string, which in most cases ends somewhere else.

Main definitions:

* `VerbatimMark.spelling`: the spelling of a value as a verbatim string;
* `RawReading`: a text between quotation marks that is taken for a raw string.

Main results:

* `VerbatimMark.isOneLiteral_spelling_of_head?`: the spelling of a value that does not begin with a
  quotation mark is one literal;
* `RawReading.close_eq_iff`: when a raw string ends where the text ends;
* `VerbatimMark.isOneLiteral_spelling_iff`: the values whose spellings are one literal;
* `VerbatimMark.not_isOneLiteral_quotedClass`: a spelling that swallows the class behind it.
-/

namespace ProjectAssembler

open Enclosure

/-! ## Spellings -/

/-- The marks of a verbatim string: an at sign, alone or with a dollar sign before or behind it. -/
inductive VerbatimMark where
  | sign
  | dollarSign
  | signDollar
deriving DecidableEq, Repr

namespace VerbatimMark

/-- The characters of the marks. -/
def characters : VerbatimMark → List Char
  | sign => ['@']
  | dollarSign => ['$', '@']
  | signDollar => ['@', '$']

/-- Whether the marks let braces open interpolation holes. -/
def isInterpolated : VerbatimMark → Bool
  | sign => false
  | dollarSign => true
  | signDollar => true

end VerbatimMark

/-- A value with each of its quotation marks written twice. -/
def doubled (value : List Char) : List Char :=
  value.flatMap fun c => if c = '"' then ['"', '"'] else [c]

/-- A value between quotation marks, with each of its own written twice. -/
def inQuotes (value : List Char) : List Char :=
  '"' :: (doubled value ++ ['"'])

/-- The spelling of a value as a verbatim string. -/
def VerbatimMark.spelling (mark : VerbatimMark) (value : List Char) : List Char :=
  mark.characters ++ inQuotes value

theorem doubled_quote (value : List Char) : doubled ('"' :: value) = '"' :: '"' :: doubled value :=
  rfl

theorem doubled_cons {c : Char} (hc : c ≠ '"') (value : List Char) :
    doubled (c :: value) = c :: doubled value := by
  simp [doubled, hc]

theorem head?_doubled (value : List Char) : (doubled value).head? = value.head? := by
  cases value with
  | nil => rfl
  | cons c value =>
      by_cases hc : c = '"'
      · rw [hc, doubled_quote]
        rfl
      · rw [doubled_cons hc]
        rfl

theorem VerbatimMark.isStringMark_of_mem (mark : VerbatimMark) :
    ∀ c ∈ mark.characters, isStringMark c = true := by
  cases mark <;> simp [characters, isStringMark]

theorem VerbatimMark.count_characters (mark : VerbatimMark) : mark.characters.count '@' ≤ 1 := by
  cases mark <;> decide

theorem VerbatimMark.contains_sign (mark : VerbatimMark) :
    mark.characters.contains '@' = true := by
  cases mark <;> rfl

theorem VerbatimMark.contains_dollar (mark : VerbatimMark) :
    mark.characters.contains '$' = mark.isInterpolated := by
  cases mark <;> rfl

/-! ## Values that do not begin with a quotation mark -/

/-- In a verbatim string a value is passed over up to the quotation mark that closes it. -/
theorem close_doubled {value following : List Char} {interpolated : Bool}
    (hbrace : interpolated = true → '{' ∉ value) (hfollowing : following.head? ≠ some '"') :
    close [quoted true interpolated] (doubled value ++ '"' :: following) = following := by
  induction value with
  | nil =>
      have hstep : step (quoted true interpolated) [] '"' following = ([], following) := by
        simp [step, hfollowing]
      rw [doubled, List.flatMap_nil, List.nil_append, close_cons, hstep, close_nil]
  | cons c value ih =>
      have hrest := ih fun hinterpolated hmem => hbrace hinterpolated (List.mem_cons_of_mem c hmem)
      by_cases hquote : c = '"'
      · have hstep : step (quoted true interpolated) [] '"'
            ('"' :: (doubled value ++ '"' :: following)) =
            ([quoted true interpolated], doubled value ++ '"' :: following) := by
          simp [step]
        rw [hquote, doubled_quote, List.cons_append, List.cons_append, close_cons, hstep]
        exact hrest
      · have hopens : ¬ (c = '{' ∧ interpolated = true) := fun hboth =>
          hbrace hboth.2 (hboth.1 ▸ List.mem_cons_self)
        have hstep : step (quoted true interpolated) [] c (doubled value ++ '"' :: following) =
            ([quoted true interpolated], doubled value ++ '"' :: following) := by
          simp [step, hquote, hopens]
        rw [doubled_cons hquote, List.cons_append, close_cons, hstep]
        exact hrest

/-- The spelling of a value that does not begin with a quotation mark is one literal. -/
theorem VerbatimMark.isOneLiteral_spelling_of_head? (mark : VerbatimMark)
    {value following : List Char} (hbrace : mark.isInterpolated = true → '{' ∉ value)
    (hfollowing : following.head? ≠ some '"') (hvalue : value.head? ≠ some '"') :
    IsOneLiteral (mark.spelling value) following := by
  have hdoubled : (doubled value).head? ≠ some '"' := by rwa [head?_doubled]
  have hopen := openString?_quoted mark.characters mark.isStringMark_of_mem mark.count_characters
    hdoubled hfollowing
  rw [mark.contains_sign, mark.contains_dollar] at hopen
  have hwhole : mark.spelling value ++ following =
      mark.characters ++ '"' :: (doubled value ++ '"' :: following) := by
    simp [spelling, inQuotes]
  rw [← hwhole] at hopen
  refine (isOneLiteral_iff_close ?_ (openLiteral?_of_string hopen)).2
    (close_doubled hbrace hfollowing)
  simp [spelling, inQuotes]

/-! ## Values that begin with a quotation mark -/

/-- A text between quotation marks that is taken for a raw string: the marks that open it, what
follows up to the marks at its end, and these. -/
structure RawReading (text : List Char) where
  opening : Nat
  content : List Char
  closing : Nat
  three_le : 3 ≤ opening
  parts : text = quoteRun opening ++ (content ++ quoteRun closing)
  begins : (content ++ quoteRun closing).head? ≠ some '"'
  ends : content.getLast? ≠ some '"'

/-- The quotation marks at the end of a text. -/
theorem exists_quoteRun_at_end (text : List Char) :
    ∃ content closing, text = content ++ quoteRun closing ∧ content.getLast? ≠ some '"' := by
  induction text using List.reverseRecOn with
  | nil => exact ⟨[], 0, rfl, nofun⟩
  | append_singleton text c ih =>
      by_cases hc : c = '"'
      · obtain ⟨content, closing, rfl, hends⟩ := ih
        refine ⟨content, closing + 1, ?_, hends⟩
        rw [hc, List.append_assoc, ← List.replicate_succ']
      · refine ⟨text ++ [c], 0, (List.append_nil _).symm, ?_⟩
        rw [List.getLast?_concat, Ne, Option.some.injEq]
        exact hc

namespace RawReading

variable {text following : List Char}

/-- A text with three quotation marks at its front is taken for a raw string. -/
theorem exists_of_quotes (text : List Char) :
    Nonempty (RawReading (quoteRun 3 ++ text)) := by
  obtain ⟨more, rest, rfl, hrest⟩ := exists_quoteRun text
  obtain ⟨content, closing, rfl, hends⟩ := exists_quoteRun_at_end rest
  refine ⟨⟨3 + more, content, closing, Nat.le_add_right 3 more, ?_, hrest, hends⟩⟩
  rw [quoteRun_add, List.append_assoc]

/-- What marks and the quotation marks behind them open. -/
theorem openString? (reading : RawReading text) {marks : List Char}
    (hmarks : ∀ c ∈ marks, isStringMark c = true) (hsigns : marks.count '@' ≤ 1)
    (hfollowing : following.head? ≠ some '"') :
    Enclosure.openString? (marks ++ text ++ following) =
      some (raw reading.opening,
        reading.content ++ (quoteRun reading.closing ++ following)) := by
  have hinside : (reading.content ++ (quoteRun reading.closing ++ following)).head? ≠ some '"' := by
    rw [← List.append_assoc]
    have hbegins := reading.begins
    cases hparts : reading.content ++ quoteRun reading.closing with
    | nil => exact hfollowing
    | cons c rest =>
        rw [hparts] at hbegins
        exact hbegins
  have hpos : 0 < reading.opening := Nat.lt_of_lt_of_le (by omega) reading.three_le
  have hopen := openString?_marks marks hmarks hsigns hpos hinside
  rw [if_pos reading.three_le] at hopen
  have hwhole : marks ++ text ++ following = marks ++ (quoteRun reading.opening ++
      (reading.content ++ (quoteRun reading.closing ++ following))) := by
    have hparts := congrArg (fun part => marks ++ part ++ following) reading.parts
    simpa only [List.append_assoc] using hparts
  rw [hwhole, hopen]

/-- A raw string ends where the text ends if it is not closed before, and it is closed there or
nothing follows. -/
theorem close_eq_iff (reading : RawReading text) (hfollowing : following.head? ≠ some '"') :
    close [raw reading.opening] (reading.content ++ (quoteRun reading.closing ++ following)) =
        following ↔
      ¬ quoteRun reading.opening <:+: reading.content ∧
        (reading.opening ≤ reading.closing ∨ following = []) := by
  have hpos : 0 < reading.opening := Nat.lt_of_lt_of_le (by omega) reading.three_le
  -- The marks at the end are too few to close the string, so reading goes on behind them.
  have hpast (hless : ¬ reading.opening ≤ reading.closing) :
      close [raw reading.opening] (quoteRun reading.closing ++ following) =
        close [raw reading.opening] following := by
    refine close_raw_front (fun hrun => hless ?_) (Or.inr hfollowing)
    have hlength := hrun.length_le
    rwa [List.length_replicate, List.length_replicate] at hlength
  constructor
  · intro hclose
    have hrun : ¬ quoteRun reading.opening <:+: reading.content := fun hrun => by
      have hlength := length_lt_close_raw hpos hrun reading.ends
        (quoteRun reading.closing ++ following)
      rw [hclose, List.length_append] at hlength
      omega
    rw [close_raw_front hrun (Or.inl reading.ends)] at hclose
    refine ⟨hrun, (em (reading.opening ≤ reading.closing)).imp_right fun hless => ?_⟩
    rw [hpast hless] at hclose
    exact eq_nil_of_close_raw hpos hfollowing hclose
  · rintro ⟨hrun, hends⟩
    rw [close_raw_front hrun (Or.inl reading.ends)]
    by_cases hclosed : reading.opening ≤ reading.closing
    · exact close_raw_quotes hpos hclosed hfollowing
    · rw [hpast hclosed, hends.resolve_left hclosed, close_end]

end RawReading

namespace VerbatimMark

/-- The spelling of a value as a verbatim string is one literal if and only if the value does not
begin with a quotation mark, or else the spelling is a raw string that ends where the spelling
ends: the quotation marks that open it do not stand between its contents, and as many stand at its
end or nothing follows. -/
theorem isOneLiteral_spelling_iff (mark : VerbatimMark) {value following : List Char}
    (hbrace : mark.isInterpolated = true → '{' ∉ value)
    (hfollowing : following.head? ≠ some '"') :
    IsOneLiteral (mark.spelling value) following ↔
      value.head? ≠ some '"' ∨
        ∃ reading : RawReading (inQuotes value),
          ¬ quoteRun reading.opening <:+: reading.content ∧
            (reading.opening ≤ reading.closing ∨ following = []) := by
  have hraw (reading : RawReading (inQuotes value)) :
      IsOneLiteral (mark.spelling value) following ↔
        ¬ quoteRun reading.opening <:+: reading.content ∧
          (reading.opening ≤ reading.closing ∨ following = []) := by
    have hopen := reading.openString? mark.isStringMark_of_mem mark.count_characters hfollowing
    rw [← reading.close_eq_iff hfollowing]
    exact isOneLiteral_iff_close (by simp [spelling, inQuotes]) (openLiteral?_of_string hopen)
  constructor
  · intro hone
    refine (em (value.head? = some '"')).symm.imp_right fun hquote => ?_
    obtain ⟨rest, rfl⟩ := List.head?_eq_some_iff.1 hquote
    obtain ⟨reading⟩ := RawReading.exists_of_quotes (doubled rest ++ ['"'])
    exact ⟨reading, (hraw reading).1 hone⟩
  · rintro (hvalue | ⟨reading, hreading⟩)
    · exact mark.isOneLiteral_spelling_of_head? hbrace hfollowing hvalue
    · exact (hraw reading).2 hreading

/-- The spelling of a value with quotation marks in it is one literal, and so is by chance that of a
quoted word, which is a raw string. -/
theorem isOneLiteral_spelling_iff_quotedWord :
    (dollarSign.isInterpolated = true → '{' ∉ ['a', '"', '"', 'b', '"']) ∧
      [';'].head? ≠ some '"' ∧
      IsOneLiteral (dollarSign.spelling ['a', '"', '"', 'b', '"']) [';'] ∧
      IsOneLiteral (sign.spelling ['"', 'a', '"']) [';'] := by
  have hbrace : dollarSign.isInterpolated = true → '{' ∉ ['a', '"', '"', 'b', '"'] := by decide
  have hfollowing : [';'].head? ≠ some '"' := by decide
  have hreading : ∃ reading : RawReading (inQuotes ['"', 'a', '"']),
      ¬ quoteRun reading.opening <:+: reading.content ∧
        (reading.opening ≤ reading.closing ∨ [';'] = []) :=
    ⟨⟨3, ['a'], 3, Nat.le_refl 3, rfl, by decide, by decide⟩, by decide, by decide⟩
  exact ⟨hbrace, hfollowing,
    (isOneLiteral_spelling_iff dollarSign hbrace hfollowing).2 (Or.inl (by decide)),
    (isOneLiteral_spelling_iff sign nofun hfollowing).2 (Or.inr hreading)⟩

/-- A verbatim string of which the value begins with a quotation mark, and a class behind it. -/
def quotedClassText : String :=
  "@\"\"\"a\"; class B \x7b \x7d"

/-- The literal swallows the class: the spelling of the value is not one literal, the whole text
is. -/
theorem not_isOneLiteral_quotedClass :
    quotedClassText.toList = sign.spelling ['"', 'a'] ++ "; class B \x7b \x7d".toList ∧
      Token.ofText true quotedClassText.toList = [⟨.literal, quotedClassText, 1⟩] ∧
      ¬ IsOneLiteral (sign.spelling ['"', 'a']) "; class B \x7b \x7d".toList := by
  have htext : quotedClassText.toList =
      sign.spelling ['"', 'a'] ++ "; class B \x7b \x7d".toList := by decide +kernel
  have hwhole : Lexeme.ofText quotedClassText.toList = [.literal quotedClassText.toList] := by
    decide +kernel
  refine ⟨htext, by decide +kernel, fun hone => ?_⟩
  have hfirst := (List.cons.inj (hwhole.symm.trans ((congrArg _ htext).trans hone.lexemes))).1
  have hlength := congrArg List.length (Lexeme.literal.inj hfirst)
  rw [htext, List.length_append] at hlength
  exact absurd hlength (by decide)

end VerbatimMark
end ProjectAssembler
