import ProjectAssembler.Proofs.Source.LiteralEnds

/-!
# Literals before white space

What a character of a literal does may depend on what follows it: marks and the quotation marks
behind them are looked at together, and so are braces and quotation marks that are written twice.
White space belongs to none of these, so a literal that is closed inside of a text, whatever follows
it there, is closed at the same place where white space follows it or the text ends.

Main definitions:

* `Text.IsBreak`: whether a text is empty or begins with white space;
* `Enclosure.Opens`: what marks and the quotation marks behind them open;
* `Enclosure.Acts`: what a character of a literal may do.

Main results:

* `Enclosure.openString?_break`: what is opened before white space;
* `Enclosure.step_break`: what one character of a literal does before white space;
* `Enclosure.close_break`: where a literal is closed before white space.
-/

namespace ProjectAssembler
namespace Text

/-! ## White space behind a text -/

/-- Whether a text is empty or begins with white space. -/
def IsBreak (text : List Char) : Prop :=
  ∀ c ∈ text.head?, isBlank c = true

variable {text : List Char}

theorem isBreak_nil : IsBreak [] :=
  nofun

theorem isBreak_cons {c : Char} (hblank : isBlank c = true) (text : List Char) :
    IsBreak (c :: text) := by
  intro d hd
  rwa [← Option.some.inj hd]

theorem IsBreak.head?_ne (h : IsBreak text) {c : Char} (hc : isBlank c = false) :
    text.head? ≠ some c := by
  intro hhead
  rw [h c hhead] at hc
  contradiction

/-- A class without white space ends where white space begins. -/
theorem IsBreak.takeWhile_eq_nil (h : IsBreak text) {p : Char → Bool}
    (hp : ∀ c, isBlank c = true → p c = false) : text.takeWhile p = [] := by
  cases text with
  | nil => rfl
  | cons c text => exact List.takeWhile_cons_of_neg (by simp [hp c (h c rfl)])

theorem IsBreak.dropWhile_eq_self (h : IsBreak text) {p : Char → Bool}
    (hp : ∀ c, isBlank c = true → p c = false) : text.dropWhile p = text := by
  have hall := List.takeWhile_append_dropWhile (p := p) (l := text)
  rwa [h.takeWhile_eq_nil hp, List.nil_append] at hall

end Text

namespace Enclosure

open Text (IsBreak)

variable {front front' rest following : List Char}

/-! ## What is opened -/

/-- What marks and the quotation marks behind them open, and the text inside: three or more of the
latter open a raw string, and one opens any other string, which does not begin with two more. -/
inductive Opens (marks : List Char) : Enclosure → List Char → List Char → Prop where
  | raw {quotes : Nat} {inside : List Char} (hquotes : 3 ≤ quotes)
      (hinside : inside.head? ≠ some '"') :
      Opens marks (.raw quotes) (quoteRun quotes ++ inside) inside
  | quoted {inside : List Char} (hinside : ¬ quoteRun 2 <+: inside) :
      Opens marks (.quoted (marks.contains '@') (marks.contains '$')) ('"' :: inside) inside

/-- No string literal begins where no quotation mark stands behind the marks, or where more than one
of these is an at sign. -/
theorem openString?_eq_none_iff {text : List Char} :
    openString? text = none ↔
      (text.dropWhile isStringMark).head? ≠ some '"' ∨
        1 < (text.takeWhile isStringMark).count '@' := by
  rw [← Cursor.length_takeWhile_quote]
  unfold openString?
  simp only
  split
  · rename_i hnone
    exact iff_of_true rfl hnone
  · rename_i hsome
    refine iff_of_false ?_ hsome
    split <;> exact Option.some_ne_none _

/-- What is opened at the beginning of a string literal. -/
theorem exists_opens_of_openString? {text inside : List Char} {opened : Enclosure}
    (h : openString? text = some (opened, inside)) :
    ∃ marks quotation, text = marks ++ quotation ∧ (∀ c ∈ marks, isStringMark c = true) ∧
      marks.count '@' ≤ 1 ∧ Opens marks opened quotation inside := by
  have hmarks : ∀ c ∈ text.takeWhile isStringMark, isStringMark c = true :=
    fun c hc => List.mem_takeWhile_imp hc
  have hsome := mt openString?_eq_none_iff.2 (by rw [h]; exact Option.some_ne_none _)
  obtain ⟨hquote, hsigns⟩ := not_or.1 hsome
  rw [not_not] at hquote
  rw [Nat.not_lt] at hsigns
  have hsplit := (List.takeWhile_append_dropWhile (p := isStringMark) (l := text)).symm
  refine ⟨_, _, hsplit, hmarks, hsigns, ?_⟩
  generalize text.takeWhile isStringMark = marks at *
  obtain ⟨quotes, behind, hquotes, hbehind⟩ := exists_quoteRun (text.dropWhile isStringMark)
  rw [hquotes] at hsplit hquote ⊢
  have hpos : 0 < quotes := by
    refine Nat.pos_of_ne_zero fun hzero => hbehind ?_
    rwa [hzero] at hquote
  rw [hsplit, openString?_marks marks hmarks hsigns hpos hbehind, Option.some.injEq] at h
  split at h
  · rename_i hraw
    cases h
    exact Opens.raw hraw hbehind
  · cases h
    obtain ⟨more, rfl⟩ : ∃ more, quotes = more + 1 := ⟨quotes - 1, by omega⟩
    refine Opens.quoted fun hprefix => ?_
    rcases isPrefix_front_or_quotes hprefix with hfront | ⟨-, hhead⟩
    · have hlength := hfront.length_le
      simp only [List.length_replicate] at hlength
      omega
    · exact hbehind hhead

/-- Marks and the quotation marks behind them open a string literal. -/
theorem Opens.openString?_eq {marks quotation inside : List Char} {opened : Enclosure}
    (h : Opens marks opened quotation inside) (hmarks : ∀ c ∈ marks, isStringMark c = true)
    (hsigns : marks.count '@' ≤ 1) : openString? (marks ++ quotation) = some (opened, inside) := by
  cases h with
  | @raw quotes _ hquotes hinside =>
      have hopen := openString?_marks marks hmarks hsigns (by omega : 0 < quotes) hinside
      rwa [if_pos hquotes] at hopen
  | quoted hinside =>
      obtain ⟨more, behind, rfl, hbehind⟩ := exists_quoteRun inside
      have hless : more < 2 := by
        by_contra hmany
        obtain ⟨further, rfl⟩ := Nat.exists_eq_add_of_le (Nat.le_of_not_lt hmany)
        exact hinside (by rw [quoteRun_add, List.append_assoc]; exact List.prefix_append _ _)
      have hopen := openString?_marks marks hmarks hsigns (Nat.succ_pos more) hbehind
      rwa [if_neg (by omega)] at hopen

/-! ## What is opened before white space -/

/-- Quotation marks that do not stand at the front of a part stand there before white space only if
they stand there before any other text. -/
theorem not_isPrefix_break {quotes : Nat} (h : ¬ quoteRun quotes <+: front ++ rest)
    (hfollowing : IsBreak following) : ¬ quoteRun quotes <+: front ++ following := by
  intro hprefix
  rcases isPrefix_front_or_quotes hprefix with hfront | ⟨-, hhead⟩
  · exact h (hfront.trans (List.prefix_append front rest))
  · exact hfollowing.head?_ne rfl hhead

theorem head?_break {c : Char} (h : (front ++ rest).head? ≠ some c)
    (hblank : Text.isBlank c = false) (hfollowing : IsBreak following) :
    (front ++ following).head? ≠ some c := by
  cases front with
  | nil => exact hfollowing.head?_ne hblank
  | cons d front => exact h

/-- What is opened inside of a part is opened before white space. -/
theorem Opens.before_break {marks quotation : List Char} {opened : Enclosure}
    (h : Opens marks opened quotation (front ++ rest)) (hfollowing : IsBreak following) :
    ∃ quotation', quotation = quotation' ++ rest ∧
      Opens marks opened (quotation' ++ following) (front ++ following) := by
  generalize hinside : front ++ rest = inside at h
  cases h with
  | @raw quotes _ hquotes hhead =>
      subst hinside
      refine ⟨quoteRun quotes ++ front, (List.append_assoc _ _ _).symm, ?_⟩
      rw [List.append_assoc]
      exact Opens.raw hquotes (head?_break hhead rfl hfollowing)
  | quoted hprefix =>
      subst hinside
      exact ⟨'"' :: front, rfl, Opens.quoted (not_isPrefix_break hprefix hfollowing)⟩

/-- What a string literal opens inside of a part is opened before white space. -/
theorem openString?_break {opened : Enclosure}
    (h : openString? (front ++ rest) = some (opened, front' ++ rest))
    (hfollowing : IsBreak following) :
    openString? (front ++ following) = some (opened, front' ++ following) := by
  obtain ⟨marks, quotation, hsplit, hmarks, hsigns, hopens⟩ := exists_opens_of_openString? h
  obtain ⟨quotation', rfl, hopens'⟩ := hopens.before_break hfollowing
  rw [← List.append_assoc] at hsplit
  rw [List.append_cancel_right hsplit, List.append_assoc]
  exact hopens'.openString?_eq hmarks hsigns

/-- Where no string literal begins, none begins before white space. -/
theorem openString?_eq_none_break (h : openString? (front ++ rest) = none)
    (hfollowing : IsBreak following) : openString? (front ++ following) = none := by
  have hmarks := hfollowing.dropWhile_eq_self fun _ => isStringMark_of_isBlank
  rw [openString?_eq_none_iff, List.dropWhile_append, List.takeWhile_append] at h ⊢
  by_cases hall : front.dropWhile isStringMark = []
  · -- The marks reach up to the white space, which is no quotation mark.
    rw [hall, List.isEmpty_nil, if_pos rfl, hmarks]
    exact Or.inl (hfollowing.head?_ne rfl)
  · have hsome : ¬ (front.dropWhile isStringMark).isEmpty = true := by rwa [List.isEmpty_iff]
    have hless : (front.takeWhile isStringMark).length ≠ front.length := by
      intro hlength
      have hsplit := congrArg List.length
        (List.takeWhile_append_dropWhile (p := isStringMark) (l := front))
      rw [List.length_append, hlength, Nat.add_eq_left] at hsplit
      exact hall (List.length_eq_zero_iff.1 hsplit)
    rw [if_neg hsome, if_neg hless, List.head?_append_of_ne_nil _ hall] at h ⊢
    exact h

/-! ## What a character does -/

/-- What a character of a literal does to the stack, given the text behind it: it leaves all of that
text, it escapes one more character, or it stands for itself together with a second character. -/
inductive Acts (act : List Char → List Enclosure × List Char) : Prop where
  | plain (stack : List Enclosure) (h : ∀ text, act text = (stack, text))
  | escape (stack : List Enclosure) (h : ∀ text, act text = (stack, text.drop 1))
  | pair {second : Char} (hsecond : Text.isBlank second = false)
      (doubled single : List Enclosure)
      (h : ∀ text, act text =
        if text.head? = some second then (doubled, text.drop 1) else (single, text))

theorem acts_quoted (verbatim interpolated : Bool) (outer : List Enclosure) (c : Char) :
    Acts (step (quoted verbatim interpolated) outer c) := by
  by_cases hescape : c = '\\' ∧ verbatim = false
  · exact Acts.escape (quoted verbatim interpolated :: outer) fun text => by
      simp only [step, if_pos hescape]
  by_cases hquote : c = '"'
  · cases verbatim with
    | true => exact Acts.pair rfl _ _ fun text => by simp only [step, hquote, true_and]; rfl
    | false => exact Acts.plain outer fun text => by simp [step, hquote]
  by_cases hfeed : c = '\n' ∧ verbatim = false
  · exact Acts.plain outer fun text => by
      simp only [step, if_neg hescape, if_neg hquote, if_pos hfeed]
  by_cases hbrace : c = '{' ∧ interpolated = true
  · exact Acts.pair rfl _ _ fun text => by
      simp only [step, if_neg hescape, if_neg hquote, if_neg hfeed, if_pos hbrace]
      rfl
  · exact Acts.plain (quoted verbatim interpolated :: outer) fun text => by
      simp only [step, if_neg hescape, if_neg hquote, if_neg hfeed, if_neg hbrace]

theorem acts_character (outer : List Enclosure) (c : Char) : Acts (step character outer c) := by
  by_cases hescape : c = '\\'
  · exact Acts.escape (character :: outer) fun text => by simp only [step, if_pos hescape]
  by_cases hend : c = '\'' ∨ c = '\n'
  · exact Acts.plain outer fun text => by simp only [step, if_neg hescape, if_pos hend]
  · exact Acts.plain (character :: outer) fun text => by
      simp only [step, if_neg hescape, if_neg hend]

/-- In a hole a character that begins no string leaves all that follows it. -/
theorem exists_step_hole (braces : Nat) (outer : List Enclosure) (c : Char) :
    ∃ stack, ∀ text, openString? (c :: text) = none →
      step (hole braces) outer c text = (stack, text) := by
  by_cases happostrophe : c = '\''
  · exact ⟨character :: hole braces :: outer, fun text hopen => by
      simp only [step, hopen, if_pos happostrophe]⟩
  by_cases hopening : c = '{'
  · exact ⟨hole (braces + 1) :: outer, fun text hopen => by
      simp only [step, hopen, if_neg happostrophe, if_pos hopening]⟩
  by_cases hclosing : c = '}'
  · cases braces with
    | zero =>
        exact ⟨outer, fun text hopen => by
          simp only [step, hopen, if_neg happostrophe, if_neg hopening, if_pos hclosing]⟩
    | succ inner =>
        exact ⟨hole inner :: outer, fun text hopen => by
          simp only [step, hopen, if_neg happostrophe, if_neg hopening, if_pos hclosing]⟩
  · exact ⟨hole braces :: outer, fun text hopen => by
      simp only [step, hopen, if_neg happostrophe, if_neg hopening, if_neg hclosing]⟩

/-! ## Steps before white space -/

/-- What a text loses at its front it loses also where something else stands behind it. -/
theorem exists_of_drop_one (hrest : rest ≠ []) (h : (front ++ rest).drop 1 = front' ++ rest) :
    ∃ c, front = c :: front' := by
  cases front with
  | nil =>
      have hlength := congrArg List.length h
      have hpos := List.length_pos_iff.2 hrest
      simp only [List.nil_append, List.length_drop, List.length_append] at hlength
      omega
  | cons c front => exact ⟨c, congrArg (c :: ·) (List.append_cancel_right h)⟩

/-- A character acts in the same way before white space. -/
theorem Acts.before_break {act : List Char → List Enclosure × List Char} {stack : List Enclosure}
    (hact : Acts act) (hrest : rest ≠ []) (h : act (front ++ rest) = (stack, front' ++ rest))
    (hfollowing : IsBreak following) : act (front ++ following) = (stack, front' ++ following) := by
  cases hact with
  | plain own hact =>
      rw [hact] at h ⊢
      obtain ⟨rfl, hsame⟩ := Prod.mk.inj h
      rw [List.append_cancel_right hsame]
  | escape own hact =>
      rw [hact] at h ⊢
      obtain ⟨rfl, hdrop⟩ := Prod.mk.inj h
      obtain ⟨c, rfl⟩ := exists_of_drop_one hrest hdrop
      rfl
  | pair hsecond doubled single hact =>
      rw [hact] at h ⊢
      split at h
      · rename_i hhead
        obtain ⟨rfl, hdrop⟩ := Prod.mk.inj h
        obtain ⟨c, rfl⟩ := exists_of_drop_one hrest hdrop
        exact if_pos hhead
      · rename_i hhead
        obtain ⟨rfl, hsame⟩ := Prod.mk.inj h
        rw [if_neg (head?_break hhead hsecond hfollowing), List.append_cancel_right hsame]

theorem head?_dropWhile_quote (text : List Char) :
    (text.dropWhile (· == '"')).head? ≠ some '"' := by
  intro hhead
  have hnot := List.head?_dropWhile_not (· == '"') text
  rw [hhead] at hnot
  contradiction

theorem dropWhile_quote {text : List Char} (h : text.head? ≠ some '"') :
    text.dropWhile (· == '"') = text := by
  have hall := List.takeWhile_append_dropWhile (p := (· == '"')) (l := text)
  rwa [List.length_eq_zero_iff.1 ((Cursor.length_takeWhile_quote text).2 h)] at hall

/-- The quotation marks that close a raw string stand before what is left of the text. -/
theorem exists_of_raw_end {quotes : Nat} (hlength : quotes - 1 ≤ (front ++ rest).length)
    (hdrop : ((front ++ rest).drop (quotes - 1)).dropWhile (· == '"') = front' ++ rest) :
    ∃ first run, front = first ++ (run ++ front') ∧ first.length = quotes - 1 ∧
      ∀ c ∈ run, (c == '"') = true := by
  have hwhole : front ++ rest =
      (front ++ rest).take (quotes - 1) ++
        (((front ++ rest).drop (quotes - 1)).takeWhile (· == '"') ++ front') ++ rest := by
    rw [List.append_assoc, List.append_assoc, ← hdrop, List.takeWhile_append_dropWhile,
      List.take_append_drop]
  exact ⟨_, _, List.append_cancel_right hwhole, List.length_take_of_le hlength,
    fun c hc => List.mem_takeWhile_imp (p := (· == '"')) hc⟩

/-- A raw string is closed, or goes on, in the same way before white space. -/
theorem step_raw_break {quotes : Nat} {outer stack : List Enclosure} {c : Char}
    (h : step (raw quotes) outer c (front ++ rest) = (stack, front' ++ rest))
    (hfollowing : IsBreak following) :
    step (raw quotes) outer c (front ++ following) = (stack, front' ++ following) := by
  have hprefix (text : List Char) : (List.replicate quotes '"').isPrefixOf (c :: text) = true ↔
      quoteRun quotes <+: c :: text := List.isPrefixOf_iff_prefix
  simp only [step, hprefix] at h ⊢
  split at h
  · rename_i hclosing
    obtain ⟨rfl, hdrop⟩ := Prod.mk.inj h
    have hlength : quotes - 1 ≤ (front ++ rest).length := by
      have hlength := hclosing.length_le
      rw [List.length_replicate, List.length_cons] at hlength
      omega
    obtain ⟨first, run, rfl, hfirst, hrun⟩ := exists_of_raw_end hlength hdrop
    have hbegins : quoteRun quotes <+: c :: first := by
      refine List.prefix_of_prefix_length_le hclosing ?_ ?_
      · rw [List.append_assoc]
        exact List.prefix_append (c :: first) _
      · rw [List.length_replicate, List.length_cons, hfirst]
        omega
    have hhead : (front' ++ rest).head? ≠ some '"' := by
      rw [← hdrop]
      exact head?_dropWhile_quote _
    have hends : (front' ++ following).dropWhile (· == '"') = front' ++ following :=
      dropWhile_quote (head?_break hhead rfl hfollowing)
    rw [List.append_assoc, List.append_assoc, List.drop_left' hfirst,
      List.dropWhile_append_of_pos hrun, hends, if_pos]
    exact hbegins.trans (List.prefix_append (c :: first) _)
  · rename_i hclosing
    obtain ⟨rfl, hsame⟩ := Prod.mk.inj h
    rw [← List.cons_append] at hclosing ⊢
    rw [if_neg (not_isPrefix_break hclosing hfollowing), List.append_cancel_right hsame]

/-- A step in a literal is the same before white space if something has been left behind it. -/
theorem step_break {innermost : Enclosure} {outer stack : List Enclosure} {c : Char}
    (hrest : rest ≠ []) (h : step innermost outer c (front ++ rest) = (stack, front' ++ rest))
    (hfollowing : IsBreak following) :
    step innermost outer c (front ++ following) = (stack, front' ++ following) := by
  cases innermost with
  | quoted verbatim interpolated => exact (acts_quoted ..).before_break hrest h hfollowing
  | raw quotes => exact step_raw_break h hfollowing
  | character => exact (acts_character ..).before_break hrest h hfollowing
  | hole braces =>
      cases hopen : openString? (c :: (front ++ rest)) with
      | some found =>
          simp only [step, hopen] at h
          obtain ⟨rfl, hinside⟩ := Prod.mk.inj h
          have hopen' := @openString?_break (c :: front) front' rest following found.1
            (by rw [← hinside]; exact hopen) hfollowing
          rw [List.cons_append] at hopen'
          simp only [step, hopen']
      | none =>
          obtain ⟨stack', hstep⟩ := exists_step_hole braces outer c
          have hnone : openString? (c :: (front ++ following)) = none :=
            @openString?_eq_none_break (c :: front) rest following hopen hfollowing
          rw [hstep _ hopen] at h
          obtain ⟨rfl, hsame⟩ := Prod.mk.inj h
          rw [hstep _ hnone, List.append_cancel_right hsame]

/-! ## Literals -/

/-- Where something is open, at least one character is read. -/
theorem length_close_lt (innermost : Enclosure) (outer : List Enclosure) (c : Char)
    (text : List Char) : (close (innermost :: outer) (c :: text)).length < (c :: text).length := by
  rw [close_cons]
  have hclose := (close_isSuffix (step innermost outer c text).1
    (step innermost outer c text).2).length_le
  have hstep := (step_isSuffix innermost outer c text).length_le
  exact Nat.lt_succ_of_le (hclose.trans hstep)

/-- A literal that is closed before the end of a text is closed at the same place where white space
follows. -/
theorem close_break {stack : List Enclosure} (hrest : rest ≠ [])
    (h : close stack (front ++ rest) = rest) (hfollowing : IsBreak following) :
    close stack (front ++ following) = following := by
  generalize htext : front ++ rest = text at h
  fun_induction close stack text generalizing front with
  | case1 text =>
      rw [h] at htext
      rw [List.append_left_eq_self.1 htext, close_nil, List.nil_append]
  | case2 innermost outer => exact absurd h.symm hrest
  | case3 innermost outer c text ih =>
      have hlength := length_close_lt innermost outer c text
      rw [close_cons, h] at hlength
      cases front with
      | nil =>
          rw [← htext] at hlength
          exact absurd hlength (Nat.lt_irrefl _)
      | cons d front =>
          rw [List.cons_append] at htext
          obtain ⟨rfl, rfl⟩ := List.cons.inj htext
          obtain ⟨front', hleft⟩ := close_isSuffix (step innermost outer d (front ++ rest)).1
            (step innermost outer d (front ++ rest)).2
          rw [h] at hleft
          have hstep : step innermost outer d (front ++ rest) =
              ((step innermost outer d (front ++ rest)).1, front' ++ rest) :=
            Prod.ext rfl hleft.symm
          rw [List.cons_append, close_cons, step_break hrest hstep hfollowing]
          exact ih hleft h

end Enclosure
end ProjectAssembler
