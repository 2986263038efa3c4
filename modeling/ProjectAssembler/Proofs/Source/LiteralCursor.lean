import Mathlib.Data.List.TakeWhile
import ProjectAssembler.Proofs.Source.Cursor

/-!
# Literals at byte positions

Moving a cursor over a literal always succeeds, and it ends where the literal ends.  String literals
and interpolation holes hold each other; what is open around them does not matter until they are
closed.

Main results:

* `Enclosure.close_append`: enclosures are closed one after the other, from the innermost on;
* `Cursor.arrives_stringBody?_and_hole?`: the ends of strings and of interpolation holes;
* `Cursor.arrives_string?` and `Cursor.arrives_character?`: the ends of literals.
-/

namespace ProjectAssembler
namespace Enclosure

/-! ## Enclosures one after the other -/

/-- A step does not read the enclosures around the innermost one. -/
theorem step_append (innermost : Enclosure) (inner outer : List Enclosure) (c : Char)
    (text : List Char) :
    step innermost (inner ++ outer) c text =
      ((step innermost inner c text).1 ++ outer, (step innermost inner c text).2) := by
  cases innermost with
  | quoted verbatim interpolated =>
      simp only [step]
      repeat' split
      all_goals rfl
  | raw quotes =>
      simp only [step]
      split <;> rfl
  | character =>
      simp only [step]
      repeat' split
      all_goals rfl
  | hole braces =>
      simp only [step]
      cases openString? (c :: text) with
      | some opened => rfl
      | none =>
          dsimp only
          repeat' split
          all_goals rfl

/-- The text after some enclosures and those around them have been closed. -/
theorem close_append (inner outer : List Enclosure) (text : List Char) :
    close (inner ++ outer) text = close outer (close inner text) := by
  fun_induction close inner text with
  | case1 text => rw [List.nil_append]
  | case2 innermost inner => rw [close_end, close_end]
  | case3 innermost inner c text ih => rw [List.cons_append, close_cons, step_append, ih]

/-- What is left behind the quotation marks that close a raw string. -/
theorem exists_after_quotes {quotes : Nat} (hquotes : 0 < quotes) {c : Char} {text : List Char}
    (h : (List.replicate quotes '"').isPrefixOf (c :: text) = true) :
    ∃ after, List.replicate quotes '"' ++ after = c :: text ∧ text.drop (quotes - 1) = after := by
  obtain ⟨after, hafter⟩ := List.isPrefixOf_iff_prefix.1 h
  refine ⟨after, hafter, ?_⟩
  obtain ⟨more, rfl⟩ : ∃ more, quotes = more + 1 := ⟨quotes - 1, by omega⟩
  rw [Nat.add_sub_cancel, ← List.drop_succ_cons (a := c), ← hafter]
  exact List.drop_left' List.length_replicate

theorem close_push (innermost : Enclosure) (outer : List Enclosure) (text : List Char) :
    close (innermost :: outer) text = close outer (close [innermost] text) :=
  close_append [innermost] outer text

/-- A character that is neither a mark nor a quotation mark opens no string. -/
theorem openString?_eq_none {c : Char} (hmark : isStringMark c = false) (hc : c ≠ '"')
    (text : List Char) : openString? (c :: text) = none := by
  simp [openString?, hmark, hc]

/-- White space is no mark of a string. -/
theorem isStringMark_of_isBlank {c : Char} (h : Text.isBlank c = true) :
    isStringMark c = false := by
  rw [isStringMark, Bool.or_eq_false_iff]
  refine ⟨beq_false_of_ne ?_, beq_false_of_ne ?_⟩ <;> rintro rfl <;> contradiction

end Enclosure

namespace Cursor

open Enclosure (close openString?)

variable {source : List Char} {cursor : Cursor} {rest : List Char}

/-! ## Raw strings and character literals -/

/-- Quotation marks can be skipped. -/
theorem skip_quotes (cursor : Cursor) (quotes : Nat) :
    cursor.skip quotes = cursor.past (List.replicate quotes '"') := by
  have hskip := cursor.skip_eq_past (List.replicate quotes '"')
    (fun c hc => by rw [List.eq_of_mem_replicate hc]; rfl)
    (fun hmem => absurd (List.eq_of_mem_replicate hmem) (by decide))
  rwa [List.length_replicate] at hskip

theorem arrives_rawBody? {quotes fuel : Nat} (hquotes : 0 < quotes)
    (h : Stands source cursor rest) (hfuel : rest.length < fuel) :
    Arrives source (cursor.rawBody? source quotes fuel) (close [.raw quotes] rest) := by
  induction rest generalizing cursor fuel with
  | nil =>
      obtain ⟨fuel, rfl⟩ := Nat.exists_eq_succ_of_ne_zero (Nat.ne_zero_of_lt hfuel)
      rw [rawBody?, h.rest?_eq, Enclosure.close_end]
      exact ⟨cursor, rfl, h⟩
  | cons c text ih =>
      obtain ⟨fuel, rfl⟩ := Nat.exists_eq_succ_of_ne_zero (Nat.ne_zero_of_lt hfuel)
      rw [rawBody?, h.rest?_eq, Enclosure.close_cons]
      simp only [Option.bind_eq_bind, Option.bind_some, List.isEmpty_cons, Bool.false_eq_true,
        if_false, Enclosure.step]
      split
      · rename_i hclosing
        obtain ⟨after, hafter, hdrop⟩ := Enclosure.exists_after_quotes hquotes hclosing
        have hshorter : after.length ≤ text.length := hdrop ▸ (List.drop_suffix _ _).length_le
        rw [skip_quotes, hdrop, Enclosure.close_nil]
        rw [← hafter] at h
        exact (h.past _).arrives_advanceWhile? _
          (Nat.lt_of_le_of_lt hshorter (Nat.lt_of_succ_lt_succ hfuel))
      · rw [h.advance?_cons]
        exact ih h.past_cons (Nat.lt_of_succ_lt_succ hfuel)

theorem arrives_characterBody? {fuel : Nat} (h : Stands source cursor rest)
    (hfuel : rest.length < fuel) :
    Arrives source (cursor.characterBody? source fuel) (close [.character] rest) := by
  induction hlength : rest.length using Nat.strong_induction_on generalizing cursor rest fuel with
  | _ n ih =>
      subst hlength
      obtain ⟨fuel, rfl⟩ := Nat.exists_eq_succ_of_ne_zero (Nat.ne_zero_of_lt hfuel)
      cases rest with
      | nil =>
          rw [characterBody?, h.advance?_nil, Enclosure.close_end]
          exact ⟨cursor, rfl, h⟩
      | cons c text =>
          have htext : text.length < (c :: text).length := Nat.lt_succ_self _
          have hless : text.length < fuel := Nat.lt_of_succ_lt_succ hfuel
          rw [characterBody?, h.advance?_cons, Enclosure.close_cons]
          simp only [Option.bind_eq_bind, Option.bind_some, Enclosure.step]
          split
          · obtain ⟨further, hfurther, hstands⟩ := h.past_cons.exists_advance?
            have hdrop := (List.drop_suffix 1 text).length_le
            rw [hfurther]
            exact ih _ (Nat.lt_of_le_of_lt hdrop htext) hstands (Nat.lt_of_le_of_lt hdrop hless) rfl
          · split
            · rw [Enclosure.close_nil]
              exact ⟨_, rfl, h.past_cons⟩
            · exact ih _ htext h.past_cons hless rfl

theorem arrives_character? {fuel : Nat} {text : List Char}
    (h : Stands source cursor ('\'' :: text)) (hfuel : text.length < fuel) :
    Arrives source (cursor.character? source fuel) (close [.character] text) := by
  rw [character?, h.advance?_cons]
  exact arrives_characterBody? h.past_cons hfuel

/-! ## Strings and interpolation holes -/

/-- Marks are at signs and dollar signs. -/
theorem length_eq_count_add_count {marks : List Char}
    (h : ∀ c ∈ marks, Enclosure.isStringMark c = true) :
    marks.length = marks.count '@' + marks.count '$' := by
  induction marks with
  | nil => rfl
  | cons c marks ih =>
      obtain ⟨hc, hmarks⟩ := List.forall_mem_cons.1 h
      have hlength := ih hmarks
      simp only [Enclosure.isStringMark, Bool.or_eq_true, beq_iff_eq] at hc
      rcases hc with rfl | rfl
      · simp only [List.length_cons, List.count_cons, beq_self_eq_true, if_true]
        simp only [show ('$' == '@') = false from rfl, Bool.false_eq_true, if_false]
        omega
      · simp only [List.length_cons, List.count_cons, beq_self_eq_true, if_true]
        simp only [show ('@' == '$') = false from rfl, Bool.false_eq_true, if_false]
        omega

/-- A text begins with a quotation mark if it begins with at least one. -/
theorem length_takeWhile_quote (text : List Char) :
    (text.takeWhile (· == '"')).length = 0 ↔ text.head? ≠ some '"' := by
  cases text with
  | nil => simp
  | cons c text => by_cases hc : c = '"' <;> simp [hc]

/-- Where no string literal begins, none is found. -/
theorem opening?_eq_none (h : Stands source cursor rest) (hopen : openString? rest = none) :
    cursor.opening? source = some none := by
  rw [opening?, h.rest?_eq]
  simp only [Option.bind_eq_bind, Option.bind_some]
  rw [if_neg]
  rintro ⟨hquote, hsigns⟩
  unfold openString? at hopen
  simp only at hopen
  split at hopen
  · rename_i hnone
    rw [length_takeWhile_quote] at hnone
    rcases hnone with hne | hmany
    · exact hne hquote
    · omega
  · split at hopen <;> contradiction

/-- At most one mark of a string literal is an at sign, which makes it verbatim; a dollar sign makes
it interpolated. -/
theorem ofMarks_eq {marks : List Char} (h : ∀ c ∈ marks, Enclosure.isStringMark c = true)
    (hsigns : marks.count '@' ≤ 1) :
    (Opening.ofMarks marks).verbatim = marks.contains '@' ∧
      decide (0 < (Opening.ofMarks marks).dollars) = marks.contains '$' := by
  have hlength := length_eq_count_add_count h
  have hsign := List.count_pos_iff (l := marks) (a := '@')
  have hdollar := List.count_pos_iff (l := marks) (a := '$')
  constructor
  · rw [Bool.eq_iff_iff, List.contains_iff_mem, ← hsign, Opening.ofMarks, beq_iff_eq]
    omega
  · rw [Bool.eq_iff_iff, List.contains_iff_mem, ← hdollar, decide_eq_true_eq]
    change 0 < marks.length - marks.count '@' ↔ _
    omega

theorem skip_marks (cursor : Cursor) {marks : List Char}
    (h : ∀ c ∈ marks, Enclosure.isStringMark c = true) :
    cursor.skip marks.length = cursor.past marks := by
  have hmark : ∀ c ∈ marks, c = '$' ∨ c = '@' := fun c hc => by
    simpa [Enclosure.isStringMark] using h c hc
  refine cursor.skip_eq_past _ (fun c hc => ?_) fun hfeed => ?_
  · rcases hmark c hc with rfl | rfl <;> rfl
  · rcases hmark '\n' hfeed with heq | heq <;> exact absurd heq (by decide)

/-- What follows the leading characters of a class is what is left when they are dropped. -/
theorem drop_length_takeWhile (p : Char → Bool) (text : List Char) :
    text.drop (text.takeWhile p).length = text.dropWhile p := by
  have hdrop : (text.takeWhile p ++ text.dropWhile p).drop (text.takeWhile p).length =
      text.dropWhile p := List.drop_left
  rwa [List.takeWhile_append_dropWhile] at hdrop

/-- A raw string literal ends where as many quotation marks follow as it begins with. -/
theorem arrives_string?_raw {fuel : Nat} (opening : Opening) (h : Stands source cursor rest)
    (hquotes : 3 ≤ (rest.takeWhile (· == '"')).length) (hfuel : rest.length < fuel) :
    Arrives source (cursor.string? source opening (fuel + 1))
      (close [.raw (rest.takeWhile (· == '"')).length]
        (rest.drop (rest.takeWhile (· == '"')).length)) := by
  have hall : rest.takeWhile (· == '"') =
      List.replicate (rest.takeWhile (· == '"')).length '"' :=
    List.eq_replicate_of_mem fun c hc => by simpa using List.mem_takeWhile_imp hc
  have hinside : Stands source (cursor.past (rest.takeWhile (· == '"')))
      (rest.dropWhile (· == '"')) := by
    refine Stands.past _ ?_
    rwa [List.takeWhile_append_dropWhile]
  rw [string?, h.rest?_eq]
  simp only [Option.bind_eq_bind, Option.bind_some]
  rw [if_pos hquotes, skip_quotes, ← hall, drop_length_takeWhile]
  exact arrives_rawBody? (by omega) hinside
    (Nat.lt_of_le_of_lt (List.dropWhile_suffix _).length_le hfuel)

/-- Another string literal ends where its inside does. -/
theorem arrives_string?_quoted {fuel : Nat} (opening : Opening) {inside : List Char}
    (h : Stands source cursor ('"' :: inside))
    (hquotes : ¬ 3 ≤ (('"' :: inside).takeWhile (· == '"')).length)
    (hbody : ∀ verbatim interpolated cursor, Stands source cursor inside →
      Arrives source (cursor.stringBody? source verbatim interpolated fuel)
        (close [.quoted verbatim interpolated] inside)) :
    Arrives source (cursor.string? source opening (fuel + 1))
      (close [.quoted opening.verbatim (decide (0 < opening.dollars))] inside) := by
  rw [string?, h.rest?_eq]
  simp only [Option.bind_eq_bind, Option.bind_some]
  rw [if_neg hquotes, h.advance?_cons]
  exact hbody _ _ _ h.past_cons

/-- Where a string literal begins, its beginning is found, and the literal ends where it is closed
if all strings inside of it do. -/
theorem exists_opening? {fuel : Nat} {opened : Enclosure} {inside : List Char}
    (h : Stands source cursor rest) (hopen : openString? rest = some (opened, inside))
    (hfuel : rest.length < fuel)
    (hbody : ∀ verbatim interpolated cursor, Stands source cursor inside →
      Arrives source (cursor.stringBody? source verbatim interpolated fuel)
        (close [.quoted verbatim interpolated] inside)) :
    ∃ opening, cursor.opening? source = some (some opening) ∧
      Arrives source ((cursor.skip opening.marks).string? source opening (fuel + 1))
        (close [opened] inside) := by
  have hmarks : ∀ c ∈ rest.takeWhile Enclosure.isStringMark, Enclosure.isStringMark c = true :=
    fun c hc => List.mem_takeWhile_imp hc
  have hstands := h
  rw [← List.takeWhile_append_dropWhile (p := Enclosure.isStringMark) (l := rest)] at hstands
  have hbehind := hstands.past _
  unfold openString? at hopen
  simp only at hopen
  split at hopen
  · contradiction
  · rename_i hbegins
    rw [not_or, length_takeWhile_quote, not_not, Nat.not_lt] at hbegins
    have hskip : cursor.skip (Opening.ofMarks (rest.takeWhile Enclosure.isStringMark)).marks =
        cursor.past (rest.takeWhile Enclosure.isStringMark) := skip_marks cursor hmarks
    refine ⟨Opening.ofMarks (rest.takeWhile Enclosure.isStringMark), ?_, ?_⟩
    · rw [opening?, h.rest?_eq]
      simp only [Option.bind_eq_bind, Option.bind_some]
      rw [if_pos hbegins]
    · rw [hskip]
      split at hopen
      · rename_i hraw
        cases hopen
        exact arrives_string?_raw _ hbehind hraw
          (Nat.lt_of_le_of_lt (List.dropWhile_suffix _).length_le hfuel)
      · rename_i hquoted
        cases hopen
        obtain ⟨inside, hinside⟩ := List.head?_eq_some_iff.1 hbegins.1
        rw [hinside] at hbehind hquoted hbody ⊢
        have hopened := ofMarks_eq hmarks hbegins.2
        rw [← hopened.1, ← hopened.2]
        exact arrives_string?_quoted _ hbehind hquoted hbody

/-- Going on from where a cursor arrives. -/
theorem Arrives.bind {moved : Option Cursor} {next : Cursor → Option Cursor} {rest' : List Char}
    (h : Arrives source moved rest)
    (hnext : ∀ cursor, Stands source cursor rest → Arrives source (next cursor) rest') :
    Arrives source (moved.bind next) rest' := by
  obtain ⟨after, rfl, hstands⟩ := h
  exact hnext after hstands

theorem arrives_stringBody?_cons {fuel : Nat} {c : Char} {text : List Char}
    (verbatim interpolated : Bool) (h : Stands source cursor (c :: text))
    (hbody : ∀ rest cursor, rest <:+ text → Stands source cursor rest →
      Arrives source (cursor.stringBody? source verbatim interpolated fuel)
        (close [.quoted verbatim interpolated] rest))
    (hhole : ∀ cursor, Stands source cursor text →
      Arrives source (cursor.hole? source 1 fuel) (close [.hole 0] text)) :
    Arrives source (cursor.stringBody? source verbatim interpolated (fuel + 1))
      (close [.quoted verbatim interpolated] (c :: text)) := by
  obtain ⟨further, hfurther, hstands⟩ := h.past_cons.exists_advance?
  have hdrop := hbody _ further (List.drop_suffix 1 text) hstands
  rw [stringBody?, h.advance?_cons, Enclosure.close_cons]
  simp only [Option.bind_eq_bind, Option.bind_some, hfurther, Enclosure.step]
  split
  · exact hdrop
  · by_cases hquote : c = '"'
    · subst hquote
      simp only [true_and, if_true]
      split
      · exact hdrop
      · rw [Enclosure.close_nil]
        exact ⟨_, rfl, h.past_cons⟩
    · simp only [hquote, false_and, if_false]
      split
      · rw [Enclosure.close_nil]
        exact ⟨_, rfl, h.past_cons⟩
      · split
        · split
          · exact hdrop
          · rw [Enclosure.close_push]
            exact (hhole _ h.past_cons).bind fun closed hclosed =>
              hbody _ closed (Enclosure.close_isSuffix _ _) hclosed
        · exact hbody text _ (List.suffix_refl _) h.past_cons

theorem arrives_hole?_cons {fuel : Nat} {c : Char} {text : List Char} (braces : Nat)
    (h : Stands source cursor (c :: text)) (hfuel : (c :: text).length < fuel)
    (hbody : ∀ verbatim interpolated rest cursor, rest <:+ text → Stands source cursor rest →
      Arrives source (cursor.stringBody? source verbatim interpolated fuel)
        (close [.quoted verbatim interpolated] rest))
    (hhole : ∀ braces rest cursor, rest <:+ text → Stands source cursor rest →
      Arrives source (cursor.hole? source (braces + 1) (fuel + 1)) (close [.hole braces] rest)) :
    Arrives source (cursor.hole? source (braces + 1) (fuel + 2))
      (close [.hole braces] (c :: text)) := by
  rw [hole?, h.advance?_cons, Enclosure.close_cons]
  simp only [Option.bind_eq_bind, Option.bind_some, Enclosure.step]
  cases hopen : openString? (c :: text) with
  | some result =>
      obtain ⟨opened, inside⟩ := result
      have hinside := Enclosure.openString?_isSuffix hopen
      obtain ⟨opening, hopening, hstring⟩ := exists_opening? h hopen hfuel
        fun verbatim interpolated cursor hcursor =>
          hbody verbatim interpolated inside cursor hinside hcursor
      rw [hopening, Option.bind_some, Enclosure.close_push]
      exact hstring.bind fun closed hclosed =>
        hhole braces _ closed ((Enclosure.close_isSuffix _ _).trans hinside) hclosed
  | none =>
      rw [opening?_eq_none h hopen, Option.bind_some]
      dsimp only
      split
      · rename_i hapostrophe
        subst hapostrophe
        have hless : text.length < fuel + 1 := by
          rw [List.length_cons] at hfuel
          omega
        rw [Enclosure.close_push]
        exact (arrives_character? h hless).bind fun closed hclosed =>
          hhole braces _ closed (Enclosure.close_isSuffix _ _) hclosed
      · split
        · exact hhole (braces + 1) text _ (List.suffix_refl _) h.past_cons
        · split
          · cases braces with
            | zero =>
                rw [if_pos rfl, Enclosure.close_nil]
                exact ⟨_, rfl, h.past_cons⟩
            | succ braces => exact hhole braces text _ (List.suffix_refl _) h.past_cons
          · exact hhole braces text _ (List.suffix_refl _) h.past_cons

/-- Strings and interpolation holes end where they are closed.  A hole reads a string with less fuel
without having moved, so each character takes up to three units. -/
theorem arrives_stringBody?_and_hole? (h : Stands source cursor rest) :
    (∀ verbatim interpolated fuel, 3 * rest.length < fuel →
      Arrives source (cursor.stringBody? source verbatim interpolated fuel)
        (close [.quoted verbatim interpolated] rest)) ∧
      ∀ braces fuel, 3 * rest.length + 2 < fuel →
        Arrives source (cursor.hole? source (braces + 1) fuel) (close [.hole braces] rest) := by
  induction hlength : rest.length using Nat.strong_induction_on generalizing cursor rest with
  | _ n ih =>
      subst hlength
      cases rest with
      | nil =>
          refine ⟨fun verbatim interpolated fuel hfuel => ?_, fun braces fuel hfuel => ?_⟩
          · obtain ⟨fuel, rfl⟩ := Nat.exists_eq_succ_of_ne_zero (Nat.ne_zero_of_lt hfuel)
            rw [stringBody?, h.advance?_nil, Enclosure.close_end]
            exact ⟨cursor, rfl, h⟩
          · obtain ⟨fuel, rfl⟩ := Nat.exists_eq_succ_of_ne_zero (Nat.ne_zero_of_lt hfuel)
            rw [hole?, h.advance?_nil, Enclosure.close_end]
            exact ⟨cursor, rfl, h⟩
      | cons c text =>
          have hshorter {rest : List Char} {cursor : Cursor} (hrest : rest <:+ text)
              (hcursor : Stands source cursor rest) :=
            ih rest.length (Nat.lt_succ_of_le hrest.length_le) hcursor rfl
          refine ⟨fun verbatim interpolated fuel hfuel => ?_, fun braces fuel hfuel => ?_⟩
          · rw [List.length_cons] at hfuel
            obtain ⟨fuel, rfl⟩ : ∃ less, fuel = less + 1 := ⟨fuel - 1, by omega⟩
            refine arrives_stringBody?_cons verbatim interpolated h ?_ ?_
            · intro rest cursor hrest hcursor
              have hlength := hrest.length_le
              exact (hshorter hrest hcursor).1 _ _ _ (by omega)
            · intro cursor hcursor
              exact (hshorter (List.suffix_refl _) hcursor).2 0 _ (by omega)
          · rw [List.length_cons] at hfuel
            obtain ⟨fuel, rfl⟩ : ∃ less, fuel = less + 2 := ⟨fuel - 2, by omega⟩
            refine arrives_hole?_cons braces h (by rw [List.length_cons]; omega) ?_ ?_
            · intro verbatim interpolated rest cursor hrest hcursor
              have hlength := hrest.length_le
              exact (hshorter hrest hcursor).1 _ _ _ (by omega)
            · intro braces rest cursor hrest hcursor
              have hlength := hrest.length_le
              exact (hshorter hrest hcursor).2 braces _ (by omega)

/-- A string literal is found where one begins, and it ends where it is closed. -/
theorem arrives_string? {fuel : Nat} {c : Char} {text inside : List Char} {opened : Enclosure}
    (h : Stands source cursor (c :: text)) (hopen : openString? (c :: text) = some (opened, inside))
    (hfuel : 3 * (c :: text).length < fuel) :
    ∃ opening, cursor.opening? source = some (some opening) ∧
      Arrives source ((cursor.skip opening.marks).string? source opening fuel)
        (close [opened] inside) := by
  rw [List.length_cons] at hfuel
  obtain ⟨fuel, rfl⟩ : ∃ less, fuel = less + 1 := ⟨fuel - 1, by omega⟩
  have hlength := (Enclosure.openString?_isSuffix hopen).length_le
  refine exists_opening? h hopen (by rw [List.length_cons]; omega) ?_
  intro verbatim interpolated _ hcursor
  exact (arrives_stringBody?_and_hole? hcursor).1 verbatim interpolated fuel (by omega)

end Cursor
end ProjectAssembler
