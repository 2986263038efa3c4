import ProjectAssembler.Proofs.Markup.Documents

/-!
# Reading the parts of a document

Each part of a document is cut off where it ends as it was written: no angle bracket before its end
is taken for the end, be it in quotes, in a comment or in character data.

Main definitions:

* `Markup.IsWord`: a name as it is written, with a qualifier or without one;
* `Markup.IsPassed`: a text that the end of a tag is not in.

Main results:

* `Markup.Aside.readConstruct_written`, `Markup.CharacterData.readConstruct_written`: asides and
  character data are read as what they are;
* `Markup.Tag.readConstruct_opening`, `Markup.Tag.readConstruct_single` and
  `Markup.readConstruct_closing`: so are tags;
* `Markup.Tag.tagName_written` and `Markup.Tag.tagAttributes_written`: the name and the attributes
  of a tag are read as they were written.
-/

namespace ProjectAssembler

namespace Text

section Runs

variable {p : Char → Bool} {run rest : List Char} (hrun : ∀ c ∈ run, p c = true)
  (hrest : ∀ c ∈ rest.head?, p c = false)

include hrun hrest

/-- A run of characters ends where the text goes on with a character of another kind. -/
theorem takeWhile_run : (run ++ rest).takeWhile p = run := by
  rw [List.takeWhile_append_of_pos hrun]
  cases rest with
  | nil => simp
  | cons c rest => simp [hrest c rfl]

theorem dropWhile_run : (run ++ rest).dropWhile p = rest := by
  rw [List.dropWhile_append_of_pos hrun]
  cases rest with
  | nil => rfl
  | cons c rest => simp [hrest c rfl]

end Runs

end Text

namespace Markup

/-! ## Words -/

/-- A name as it is written. -/
def IsWord (text : List Char) : Prop :=
  text ≠ [] ∧ ∀ c ∈ text, isNameCharacter c = true ∨ c = ':'

theorem Name.isWord (name : Name) : IsWord name.text :=
  ⟨name.nonempty, fun c hc => Or.inl (name.plain c hc)⟩

theorem IsWord.append_colon {first second : List Char} (hfirst : IsWord first)
    (hsecond : IsWord second) : IsWord (first ++ ':' :: second) := by
  refine ⟨List.append_ne_nil_of_left_ne_nil hfirst.1 _, fun c hc => ?_⟩
  rcases List.mem_append.1 hc with hc | hc
  · exact hfirst.2 c hc
  · rcases List.mem_cons.1 hc with rfl | hc
    · exact Or.inr rfl
    · exact hsecond.2 c hc

theorem Name.isWord_qualified (qualifier : Option Name) (name : Name) :
    IsWord (name.qualified qualifier) := by
  cases qualifier with
  | none => exact name.isWord
  | some qualifier => exact qualifier.isWord.append_colon name.isWord

theorem Name.isWord_declared (qualifier : Option Name) (key : Name) :
    IsWord (key.declared qualifier) := by
  cases qualifier with
  | none => exact key.isWord
  | some qualifier =>
      rw [Name.declared]
      split_ifs
      · exact key.isWord.append_colon qualifier.isWord
      · exact key.isWord

/-- What a character of a word is not. -/
theorem IsWord.ne {text : List Char} (h : IsWord text) {c : Char} (hc : c ∈ text) :
    isBlank c = false ∧ c ∉ ['<', '>', '/', '=', '"', '\'', '!', '?', '&'] := by
  rcases h.2 c hc with hname | rfl
  · rw [isNameCharacter, Bool.and_eq_true, Bool.not_eq_true', Bool.not_eq_true'] at hname
    refine ⟨hname.1, fun hmem => ?_⟩
    have hcontains : ['<', '>', '/', '=', '"', '\'', '!', '?', '&', ':'].contains c = true :=
      List.contains_iff_mem.2 (List.mem_append_left [':'] hmem)
    rw [hcontains] at hname
    exact absurd hname.2 (by decide)
  · decide

/-! ## Cutting tags -/

/-- A text is passed on the way to the end of a tag. -/
def IsPassed (content : List Char) : Prop :=
  ∀ text, cutTag none (content ++ text) =
    (cutTag none text).map fun cut => (content ++ cut.1, cut.2)

theorem isPassed_nil : IsPassed [] := by
  intro text
  cases h : cutTag none text <;> simp [h]

theorem IsPassed.append {first second : List Char} (hfirst : IsPassed first)
    (hsecond : IsPassed second) : IsPassed (first ++ second) := by
  intro text
  rw [List.append_assoc, hfirst, hsecond, Option.map_map]
  simp only [Function.comp_def, List.append_assoc]

theorem isPassed_of_plain {content : List Char}
    (h : ∀ c ∈ content, c ≠ '>' ∧ isQuote c = false) : IsPassed content := by
  induction content with
  | nil => exact isPassed_nil
  | cons c rest ih =>
      obtain ⟨⟨hc, hquote⟩, hrest⟩ := List.forall_mem_cons.1 h
      intro text
      have hcut : cutTag none (c :: (rest ++ text)) =
          (cutTag none (rest ++ text)).map fun cut => (c :: cut.1, cut.2) := by
        rw [cutTag, if_neg (fun hend => hc hend.1), nextQuote, hquote]
        cases h : cutTag none (rest ++ text) <;> simp [h]
      rw [List.cons_append, hcut, ih hrest, Option.map_map]
      rfl

theorem isPassed_singleton {c : Char} (hc : c ≠ '>') (hquote : isQuote c = false) : IsPassed [c] :=
  isPassed_of_plain (List.forall_mem_singleton.2 ⟨hc, hquote⟩)

/-- Inside of quotes everything is passed up to the closing quote. -/
theorem cutTag_quoted {quote : Char} {raw : List Char} (h : quote ∉ raw) (text : List Char) :
    cutTag (some quote) (raw ++ quote :: text) =
      (cutTag none text).map fun cut => (raw ++ quote :: cut.1, cut.2) := by
  induction raw with
  | nil =>
      rw [List.nil_append, cutTag, if_neg (by simp), nextQuote, if_pos rfl]
      cases cutTag none text <;> simp
  | cons c rest ih =>
      have hc : c ≠ quote := fun heq => h (heq ▸ List.mem_cons_self)
      rw [List.cons_append, cutTag, if_neg (by simp), nextQuote, if_neg hc,
        ih fun hmem => h (List.mem_cons_of_mem _ hmem)]
      cases cutTag none text <;> simp

theorem isPassed_quoted {quote : Char} {raw : List Char} (hquote : isQuote quote = true)
    (h : quote ∉ raw) : IsPassed (quote :: raw ++ [quote]) := by
  intro text
  have hend : ¬(quote = '>' ∧ (none : Option Char) = none) := by
    rintro ⟨rfl, -⟩
    contradiction
  rw [List.cons_append, List.cons_append, List.append_assoc, List.singleton_append, cutTag,
    if_neg hend, nextQuote, if_pos hquote, cutTag_quoted h]
  cases cutTag none text <;> simp

/-- A tag ends after what is passed. -/
theorem IsPassed.cutTag_eq {content : List Char} (h : IsPassed content) (rest : List Char) :
    cutTag none (content ++ '>' :: rest) = some (content, rest) := by
  rw [h, cutTag, if_pos ⟨rfl, rfl⟩, Option.map_some, List.append_nil]

theorem IsWord.isPassed {text : List Char} (h : IsWord text) : IsPassed text := by
  refine isPassed_of_plain fun c hc => ?_
  have hne := (h.ne hc).2
  simp only [List.mem_cons, List.not_mem_nil, or_false, not_or] at hne
  simp [isQuote, hne]

theorem Space.isPassed (space : Space) : IsPassed space.text := by
  refine isPassed_of_plain fun c hc => ?_
  have hblank := space.blank c hc
  simp only [isBlank, Bool.or_eq_true, beq_iff_eq] at hblank
  rcases hblank with ((rfl | rfl) | rfl) | rfl <;> decide

theorem Attribute.isPassed_written {key : List Char} (hkey : IsWord key) (entry : Attribute) :
    IsPassed (entry.written key) := by
  have hequals : IsPassed ['='] := isPassed_singleton (by decide) (by decide)
  have hvalue := isPassed_quoted entry.value.enclosed entry.value.closed
  have hall := ((((entry.before.isPassed.append hkey.isPassed).append
    entry.beforeEquals.isPassed).append hequals).append entry.afterEquals.isPassed).append hvalue
  simpa [Attribute.written] using hall

theorem Tag.isPassed_written {name : List Char} (hname : IsWord name) {keyOf : Name → List Char}
    (hkeys : ∀ key, IsWord (keyOf key)) (tag : Tag) : IsPassed (tag.written name keyOf) := by
  have hattributes (entries : List Attribute) :
      IsPassed (entries.flatMap fun entry => entry.written (keyOf entry.key)) := by
    induction entries with
    | nil => exact isPassed_nil
    | cons entry rest ih => exact (entry.isPassed_written (hkeys entry.key)).append ih
  exact (hname.isPassed.append (hattributes tag.attributes)).append tag.trailing.isPassed

/-! ## Asides and character data -/

/-- A construct ends with the first `>` that is accepted. -/
theorem cutAfter_eq {accepts : List Char → Bool} {before content : List Char} (rest : List Char)
    (hinside : ∀ front back, content = front ++ '>' :: back →
      accepts (front.reverse ++ before) = false)
    (hend : accepts (content.reverse ++ before) = true) :
    cutAfter accepts before (content ++ '>' :: rest) = some (content, rest) := by
  induction content generalizing before with
  | nil => rw [List.nil_append, cutAfter, if_pos ⟨rfl, hend⟩]
  | cons c content ih =>
      have hc : ¬(c = '>' ∧ accepts before = true) := by
        rintro ⟨rfl, haccepts⟩
        have hnot : accepts before = false := hinside [] content rfl
        rw [hnot] at haccepts
        contradiction
      rw [List.cons_append, cutAfter, if_neg hc, ih]
      · intro front back heq
        have := hinside (c :: front) back (by rw [heq]; rfl)
        rwa [List.reverse_cons, List.append_assoc] at this
      · rwa [List.reverse_cons, List.append_assoc] at hend

/-- A balanced text is passed on the way to the bracket that closes a document type. -/
theorem Balanced.cutBalanced_append {content : List Char} (h : Balanced content) (depth : Nat)
    (text : List Char) :
    cutBalanced depth (content ++ text) =
      (cutBalanced depth text).map fun cut => (content ++ cut.1, cut.2) := by
  induction h generalizing depth text with
  | nil => cases hcut : cutBalanced depth text <;> simp [hcut]
  | @other c rest hopening hclosing _ ih =>
      rw [List.cons_append, cutBalanced, if_neg (fun hend => hclosing hend.1)]
      simp only [hopening, hclosing, if_false, ih]
      cases cutBalanced depth text <;> simp
  | @nested inner rest _ _ ihinner ihrest =>
      have hopening : ¬('<' = '>' ∧ depth = 0) := by simp
      have hclosing : ¬('>' = '>' ∧ depth + 1 = 0) := by simp
      rw [List.append_assoc, List.cons_append, cutBalanced, if_neg hopening]
      simp only [if_true, ihinner, List.cons_append]
      rw [cutBalanced, if_neg hclosing]
      simp only [Char.reduceEq, if_false, if_true, Nat.add_sub_cancel, ihrest]
      cases cutBalanced depth text <;> simp

/-- What ends with a `>` is not completed by a text without it. -/
theorem isInfix_of_append {ending content tail : List Char} (htail : '>' ∉ tail)
    (h : ending ++ ['>'] <:+: content ++ tail) : ending ++ ['>'] <:+: content := by
  obtain ⟨front, back, heq⟩ := h
  rcases List.append_eq_append_iff.1 heq with ⟨rest, rfl, -⟩ | ⟨rest, hcut, hrest⟩
  · exact ⟨front, rest, rfl⟩
  · rcases List.eq_nil_or_concat rest with rfl | ⟨rest, last, rfl⟩
    · exact ⟨front, [], by simpa using hcut⟩
    · rw [List.concat_eq_append] at hcut hrest
      rw [← List.append_assoc, ← List.append_assoc] at hcut
      obtain rfl := List.singleton_inj.1 (List.append_inj_right' hcut rfl)
      exact absurd (by simp [hrest]) htail

/-- What begins with a character is not in a text before which the character does not occur. -/
theorem isInfix_of_head {c : Char} {pattern head content : List Char} (hhead : c ∉ head)
    (h : c :: pattern <:+: head ++ content) : c :: pattern <:+: content := by
  induction head with
  | nil => exact h
  | cons d head ih =>
      rw [List.mem_cons, not_or] at hhead
      rcases List.infix_cons_iff.1 h with hstart | hlater
      · exact absurd (List.cons_prefix_cons.1 hstart).1 hhead.1
      · exact ih hhead.2 hlater

/-- A text whose reverse begins with two given characters ends with them. -/
theorem eq_append_of_reverse_take {text : List Char} {c d : Char}
    (h : text.reverse.take 2 = [d, c]) : ∃ front, text = front ++ [c, d] := by
  refine ⟨(text.reverse.drop 2).reverse, ?_⟩
  have hsplit := List.take_append_drop 2 text.reverse
  rw [h] at hsplit
  have hreverse := congrArg List.reverse hsplit
  simpa using hreverse.symm

theorem readComment_eq {body : List Char} (h : ¬ ['-', '-'] ++ ['>'] <:+: body)
    (rest : List Char) :
    readComment ('!' :: '-' :: '-' :: body ++ ['-', '-'] ++ '>' :: rest) =
      .ok (.ignored, rest) := by
  have hcut : cutAfter endsComment [] ('!' :: '-' :: '-' :: body ++ ['-', '-'] ++ '>' :: rest) =
      some ('!' :: '-' :: '-' :: body ++ ['-', '-'], rest) := by
    refine cutAfter_eq rest (fun front back heq => ?_) ?_
    · by_contra haccepts
      rw [Bool.not_eq_false, List.append_nil, endsComment, Bool.and_eq_true, beq_iff_eq,
        decide_eq_true_eq, List.length_reverse] at haccepts
      obtain ⟨hends, hlong⟩ := haccepts
      obtain ⟨front, rfl⟩ := eq_append_of_reverse_take hends
      -- the comment is long enough, so the dashes before the bracket are not those that open it
      obtain ⟨inner, rfl⟩ : ∃ inner, front = ['!', '-', '-'] ++ inner := by
        have hbegins : ['!', '-', '-'] <+: front := by
          refine List.prefix_of_prefix_length_le
            (⟨body ++ ['-', '-'], rfl⟩ : ['!', '-', '-'] <+: _) ?_ ?_
          · exact ⟨['-', '-'] ++ '>' :: back, by rw [← List.append_assoc, ← heq]; rfl⟩
          · simp only [List.length_append, List.length_cons, List.length_nil] at hlong ⊢
            omega
        exact hbegins.imp fun _ => Eq.symm
      have hinner : ['-', '-'] ++ ['>'] <:+: body ++ ['-', '-'] :=
        ⟨inner, back, by simpa using heq.symm⟩
      exact h (isInfix_of_append (by decide) hinner)
    · simp [endsComment]
  rw [readComment, hcut]
  rfl

theorem readInstruction_eq {body : List Char} (h : ¬ ['?'] ++ ['>'] <:+: '?' :: body)
    (rest : List Char) :
    readInstruction ('?' :: body ++ ['?'] ++ '>' :: rest) = .ok (.ignored, rest) := by
  have hcut : cutAfter endsInstruction [] ('?' :: body ++ ['?'] ++ '>' :: rest) =
      some ('?' :: body ++ ['?'], rest) := by
    refine cutAfter_eq rest (fun front back heq => ?_) ?_
    · by_contra haccepts
      rw [Bool.not_eq_false, List.append_nil, endsInstruction, beq_iff_eq] at haccepts
      have hfront : front = (front.reverse.drop 1).reverse ++ ['?'] := by
        have hsplit := List.take_append_drop 1 front.reverse
        rw [haccepts] at hsplit
        simpa using (congrArg List.reverse hsplit).symm
      have hinner : ['?'] ++ ['>'] <:+: '?' :: body ++ ['?'] :=
        ⟨(front.reverse.drop 1).reverse, back, by
          rw [heq, ← List.append_assoc, ← hfront]
          simp⟩
      exact h (isInfix_of_append (by decide) hinner)
    · simp [endsInstruction]
  rw [readInstruction, hcut]
  cases body <;> rfl

theorem readCharacterData_eq {data : List Char} (h : ¬ [']', ']'] ++ ['>'] <:+: data)
    (rest : List Char) :
    readCharacterData ("![CDATA[".toList ++ data ++ [']', ']'] ++ '>' :: rest) =
      .ok (.characterData data, rest) := by
  have hcut : cutAfter endsCharacterData []
      ("![CDATA[".toList ++ data ++ [']', ']'] ++ '>' :: rest) =
        some ("![CDATA[".toList ++ data ++ [']', ']'], rest) := by
    refine cutAfter_eq rest (fun front back heq => ?_) ?_
    · by_contra haccepts
      rw [Bool.not_eq_false, List.append_nil, endsCharacterData, beq_iff_eq] at haccepts
      obtain ⟨front, rfl⟩ := eq_append_of_reverse_take haccepts
      have hinner : [']', ']'] ++ ['>'] <:+: "![CDATA[".toList ++ (data ++ [']', ']']) :=
        ⟨front, back, by simpa using heq.symm⟩
      exact h (isInfix_of_append (by decide) (isInfix_of_head (by decide) hinner))
    · simp [endsCharacterData]
  have hdata : Text.afterStart? "![CDATA[".toList ("![CDATA[".toList ++ data ++ [']', ']']) =
      some (data ++ [']', ']']) :=
    Text.afterStart?_eq_some_iff.2 (List.append_assoc _ _ _)
  simp only [readCharacterData, hcut, hdata]
  simp

theorem readDoctype_eq {body : List Char} (hbalanced : Balanced body)
    (hnamed : body.all isBlank = false) (rest : List Char) :
    readDoctype ("!DOCTYPE".toList ++ body ++ '>' :: rest) = .ok (.ignored, rest) := by
  have hword : Balanced ("!DOCTYPE".toList ++ body) := by
    have hall {word : List Char} (hword : ∀ c ∈ word, c ≠ '<' ∧ c ≠ '>') :
        Balanced (word ++ body) := by
      induction word with
      | nil => exact hbalanced
      | cons c word ih =>
          obtain ⟨⟨hopening, hclosing⟩, hrest⟩ := List.forall_mem_cons.1 hword
          exact .other hopening hclosing (ih hrest)
    exact hall (by simp)
  have hcut : cutBalanced 0 ("!DOCTYPE".toList ++ body ++ '>' :: rest) =
      some ("!DOCTYPE".toList ++ body, rest) := by
    rw [hword.cutBalanced_append, cutBalanced, if_pos ⟨rfl, rfl⟩, Option.map_some, List.append_nil]
  have hkeyword : ("!DOCTYPE".toList ++ body).take 8 = "!DOCTYPE".toList := rfl
  have hname : ("!DOCTYPE".toList ++ body).drop 8 = body := rfl
  have hupper : "!DOCTYPE".toList.map Char.toUpper = "!DOCTYPE".toList := by decide
  simp only [readDoctype, hcut, hkeyword, hupper, if_true, hname, hnamed, Bool.false_eq_true,
    if_false]

/-- An aside is read as an aside. -/
theorem Aside.readConstruct_written (aside : Aside) (rest : List Char) :
    ∃ text, aside.written ++ rest = '<' :: text ∧ readConstruct text = .ok (.ignored, rest) := by
  cases aside with
  | comment body h =>
      refine ⟨'!' :: '-' :: '-' :: body ++ ['-', '-'] ++ '>' :: rest, ?_, readComment_eq h rest⟩
      simp [Aside.written]
  | instruction body h =>
      refine ⟨'?' :: body ++ ['?'] ++ '>' :: rest, ?_, readInstruction_eq h rest⟩
      simp [Aside.written]
  | doctype body hbalanced hnamed =>
      refine ⟨"!DOCTYPE".toList ++ body ++ '>' :: rest, ?_, readDoctype_eq hbalanced hnamed rest⟩
      simp only [Aside.written, List.cons_append, List.append_assoc, List.nil_append]

/-- Character data is read as it was written. -/
theorem CharacterData.readConstruct_written (data : CharacterData) (rest : List Char) :
    ∃ text, data.written ++ rest = '<' :: text ∧
      readConstruct text = .ok (.characterData data.text, rest) := by
  refine ⟨"![CDATA[".toList ++ data.text ++ [']', ']'] ++ '>' :: rest, ?_,
    readCharacterData_eq data.unfinished rest⟩
  simp only [CharacterData.written, List.cons_append, List.append_assoc, List.nil_append]

/-! ## Tags -/

/-- A text that begins with neither `!` nor `?` is read as a tag. -/
theorem readConstruct_of_tag {c : Char} {text : List Char} (hmark : c ≠ '!') (hquestion : c ≠ '?') :
    readConstruct (c :: text) = readTag (c :: text) := by
  unfold readConstruct
  split <;> simp_all

/-- What does not end with a slash. -/
def EndsOpen (text : List Char) : Prop :=
  ∀ c ∈ text.getLast?, c ≠ '/'

theorem EndsOpen.append {first second : List Char} (hfirst : EndsOpen first)
    (hsecond : EndsOpen second) : EndsOpen (first ++ second) := by
  intro c hc
  rw [List.getLast?_append, Option.mem_def, Option.or_eq_some_iff] at hc
  rcases hc with hc | ⟨-, hc⟩
  · exact hsecond c hc
  · exact hfirst c hc

theorem endsOpen_of_notMem {text : List Char} (h : '/' ∉ text) : EndsOpen text :=
  fun _ hc heq => h (heq ▸ List.mem_of_getLast? hc)

theorem IsWord.slash_notMem {text : List Char} (h : IsWord text) : '/' ∉ text :=
  fun hmem => absurd (h.ne hmem).2 (by decide)

theorem Tag.endsOpen_written {name : List Char} (hname : IsWord name) (keyOf : Name → List Char)
    (tag : Tag) : EndsOpen (tag.written name keyOf) := by
  have hattributes (entries : List Attribute) :
      EndsOpen (entries.flatMap fun entry => entry.written (keyOf entry.key)) := by
    induction entries with
    | nil => exact endsOpen_of_notMem List.not_mem_nil
    | cons entry rest ih =>
        refine EndsOpen.append ?_ ih
        rintro c hc rfl
        have hquote : entry.value.quote = '/' := by
          simpa [Attribute.written, List.getLast?_cons] using hc
        exact absurd (hquote ▸ entry.value.enclosed) (by decide)
  have htrailing : '/' ∉ tag.trailing.text :=
    fun hmem => absurd (tag.trailing.blank '/' hmem) (by decide)
  exact ((endsOpen_of_notMem hname.slash_notMem).append (hattributes _)).append
    (endsOpen_of_notMem htrailing)

/-- A tag that does not begin with a slash is a start tag. -/
theorem readTag_of_start {c : Char} {content : List Char} (hpassed : IsPassed (c :: content))
    (hslash : c ≠ '/') (rest : List Char) :
    readTag (c :: content ++ '>' :: rest) =
      match (c :: content).getLast? with
      | some '/' => .ok (.opening (c :: content).dropLast true, rest)
      | _ => .ok (.opening (c :: content) false, rest) := by
  rw [readTag, hpassed.cutTag_eq rest]
  split
  · rename_i heq
    rw [Option.some.injEq, Prod.mk.injEq, List.cons.injEq] at heq
    exact absurd heq.1.1 hslash
  · rename_i heq
    obtain ⟨rfl, rfl⟩ := Prod.mk.inj (Option.some.inj heq)
    rfl
  · contradiction

/-- White space after the name of an end tag is not part of it. -/
theorem endTagName_append {name : List Char} (hname : IsWord name) (space : Space) :
    endTagName (name ++ space.text) = name := by
  obtain ⟨front, c, rfl⟩ := (List.eq_nil_or_concat name).resolve_left hname.1
  rw [List.concat_eq_append] at hname ⊢
  have hblank : isBlank c = false := (hname.ne (List.mem_append_right _ List.mem_cons_self)).1
  have hall : (front ++ [c] ++ space.text).all isBlank = false := by simp [hblank]
  rw [endTagName, hall, if_neg Bool.false_ne_true, Text.dropEnd, List.reverse_append,
    List.dropWhile_append_of_pos, List.reverse_append]
  · simp [hblank]
  · exact fun d hd => space.blank d (List.mem_reverse.1 hd)

/-- An end tag is read as the end of the element of its name. -/
theorem readConstruct_closing {name : List Char} (hname : IsWord name) (space : Space)
    (rest : List Char) :
    readConstruct ('/' :: name ++ space.text ++ '>' :: rest) = .ok (.closing name, rest) := by
  have hpassed : IsPassed ('/' :: (name ++ space.text)) :=
    (isPassed_singleton (by decide : '/' ≠ '>') rfl).append
      (hname.isPassed.append space.isPassed)
  have hread : readConstruct ('/' :: (name ++ space.text) ++ '>' :: rest) =
      readTag ('/' :: (name ++ space.text) ++ '>' :: rest) :=
    readConstruct_of_tag (by decide) (by decide)
  rw [List.cons_append, hread, readTag, hpassed.cutTag_eq rest]
  simp only [endTagName_append hname space]

section Tags

variable {name : List Char} (hname : IsWord name) {keyOf : Name → List Char}
  (hkeys : ∀ key, IsWord (keyOf key)) (tag : Tag) (rest : List Char)

include hname in
/-- A tag begins with a character of its name. -/
theorem Tag.written_eq_cons (keyOf : Name → List Char) :
    ∃ c text, tag.written name keyOf = c :: text ∧ c ≠ '!' ∧ c ≠ '?' ∧ c ≠ '/' := by
  cases name with
  | nil => exact absurd rfl hname.1
  | cons c name =>
      have hne := (hname.ne List.mem_cons_self).2
      simp only [List.mem_cons, List.not_mem_nil, or_false, not_or] at hne
      obtain ⟨-, -, hslash, -, -, -, hmark, hquestion, -⟩ := hne
      exact ⟨c, _, rfl, hmark, hquestion, hslash⟩

include hname hkeys

/-- A start tag is read as it was written. -/
theorem Tag.readConstruct_opening :
    readConstruct (tag.written name keyOf ++ '>' :: rest) =
      .ok (.opening (tag.written name keyOf) false, rest) := by
  have hpassed := tag.isPassed_written hname hkeys
  have hends := tag.endsOpen_written hname keyOf
  obtain ⟨c, text, hstart, hmark, hquestion, hslash⟩ :=
    tag.written_eq_cons hname keyOf
  rw [hstart] at hpassed hends ⊢
  rw [List.cons_append, readConstruct_of_tag hmark hquestion, ← List.cons_append,
    readTag_of_start hpassed hslash]
  split
  · rename_i heq
    exact absurd rfl (hends '/' heq)
  · rfl

/-- A tag that closes its element is read as it was written. -/
theorem Tag.readConstruct_single :
    readConstruct (tag.written name keyOf ++ '/' :: '>' :: rest) =
      .ok (.opening (tag.written name keyOf) true, rest) := by
  have hpassed := (tag.isPassed_written hname hkeys).append
    (isPassed_singleton (by decide : '/' ≠ '>') rfl)
  obtain ⟨c, text, hstart, hmark, hquestion, hslash⟩ :=
    tag.written_eq_cons hname keyOf
  have hsplit : tag.written name keyOf ++ '/' :: '>' :: rest =
      c :: (text ++ ['/']) ++ '>' :: rest := by
    simp [hstart]
  rw [hstart, List.cons_append] at hpassed
  rw [hsplit, List.cons_append, readConstruct_of_tag hmark hquestion, ← List.cons_append,
    readTag_of_start hpassed hslash, ← List.cons_append, List.getLast?_concat]
  simp only [List.dropLast_concat, hstart]

end Tags

/-! ## The name and the attributes of a tag -/

/-- What follows the name of a tag. -/
def Tag.rest (keyOf : Name → List Char) (tag : Tag) : List Char :=
  tag.attributes.flatMap (fun entry => entry.written (keyOf entry.key)) ++ tag.trailing.text

theorem Tag.written_eq (name : List Char) (keyOf : Name → List Char) (tag : Tag) :
    tag.written name keyOf = name ++ tag.rest keyOf :=
  List.append_assoc _ _ _

/-- What follows the name of a tag begins with white space. -/
theorem Tag.isBlank_head (keyOf : Name → List Char) (tag : Tag) :
    ∀ c ∈ (tag.rest keyOf).head?, isBlank c = true := by
  intro c hc
  cases hattributes : tag.attributes with
  | nil =>
      rw [Tag.rest, hattributes] at hc
      exact tag.trailing.blank c (List.mem_of_mem_head? hc)
  | cons entry entries =>
      cases hbefore : entry.before.text with
      | nil => exact absurd hbefore entry.apart
      | cons d space =>
          have hd : d = c := by simpa [Tag.rest, hattributes, Attribute.written, hbefore] using hc
          exact entry.before.blank c (by simp [hbefore, hd])

section Names

variable {name : List Char} (hname : IsWord name) (keyOf : Name → List Char) (tag : Tag)

include hname

/-- The name of a tag is read as it was written. -/
theorem Tag.tagName_written : tagName (tag.written name keyOf) = name := by
  rw [tagName, tag.written_eq]
  exact Text.takeWhile_run (fun c hc => by simp [(hname.ne hc).1])
    fun c hc => by simp [tag.isBlank_head keyOf c hc]

theorem Tag.dropWhile_written :
    ((tag.written name keyOf).dropWhile fun c => !isBlank c) = tag.rest keyOf := by
  rw [tag.written_eq]
  exact Text.dropWhile_run (fun c hc => by simp [(hname.ne hc).1])
    fun c hc => by simp [tag.isBlank_head keyOf c hc]

end Names

/-- White space is passed over. -/
theorem Space.dropWhile_append (space : Space) {c : Char} (hc : isBlank c = false)
    (text : List Char) : (space.text ++ c :: text).dropWhile isBlank = c :: text := by
  rw [List.dropWhile_append_of_pos space.blank, List.dropWhile_cons_of_neg (by simp [hc])]

/-- An attribute is read before those that follow it. -/
theorem readAttributes_eq_cons {length position : Nat} {seen : List (List Char × Nat)}
    {text key body afterEquals inside following value : List Char} {c quote : Char}
    {more : List (String × String)} (hbody : text.dropWhile isBlank = c :: body)
    (hkey : (c :: body.takeWhile fun c => !endsKey c) = key)
    (hseen : ∀ earlier ∈ seen, earlier.1 ≠ key)
    (hequals : (body.dropWhile fun c => !endsKey c).dropWhile isBlank = '=' :: afterEquals)
    (hvalue : afterEquals.dropWhile isBlank = quote :: inside) (hquote : isQuote quote = true)
    (hclose : inside.dropWhile (· != quote) = quote :: following)
    (hresolved : unescape (inside.takeWhile (· != quote)) = .ok value)
    (hmore : ∀ start position',
      readAttributes length (seen ++ [(key, start)]) position' following = .ok more) :
    readAttributes length seen position text =
      .ok ((localName key, String.ofList value) :: more) := by
  subst hkey
  have hfind : seen.find? (·.1 == c :: body.takeWhile fun c => !endsKey c) = none :=
    List.find?_eq_none.2 fun entry hentry => by simpa using hseen entry hentry
  rw [readAttributes]
  split
  · rename_i heq
    rw [hbody] at heq
    contradiction
  rename_i heq
  rw [hbody] at heq
  obtain ⟨rfl, rfl⟩ := List.cons.inj heq
  simp only
  split
  case h_2 hnone => exact absurd hequals (hnone afterEquals)
  rename_i heq
  rw [hequals] at heq
  obtain rfl := (List.cons.inj heq).2
  rw [hfind]
  simp only
  split
  · rename_i heq
    rw [hvalue] at heq
    contradiction
  rename_i heq
  rw [hvalue] at heq
  obtain ⟨rfl, rfl⟩ := List.cons.inj heq
  rw [if_pos hquote]
  split
  · rename_i heq
    rw [hclose] at heq
    contradiction
  rename_i heq
  rw [hclose] at heq
  obtain rfl := (List.cons.inj heq).2
  rw [hresolved]
  simp only [hmore]

theorem isBlank_of_isQuote {c : Char} (h : isQuote c = true) : isBlank c = false := by
  simp only [isQuote, Bool.or_eq_true, beq_iff_eq] at h
  rcases h with rfl | rfl <;> rfl

/-- A key goes on with every character of its word. -/
theorem IsWord.not_endsKey {text : List Char} (h : IsWord text) {c : Char} (hc : c ∈ text) :
    (!endsKey c) = true := by
  have hne := h.ne hc
  have hequals : c ≠ '=' := fun heq => absurd (heq ▸ hne.2) (by decide)
  simp [endsKey, hne.1, hequals]

/-- A key ends where white space or the equals sign follows. -/
theorem Space.endsKey_head (space : Space) (text : List Char) :
    ∀ c ∈ (space.text ++ '=' :: text).head?, (!endsKey c) = false := by
  intro c hc
  cases hspace : space.text with
  | nil =>
      have hequals : '=' = c := by simpa [hspace] using hc
      simp [endsKey, ← hequals]
  | cons first blank =>
      have hfirst : first = c := by simpa [hspace] using hc
      simp [endsKey, space.blank c (by simp [hspace, hfirst])]

/-- A value ends at its closing quote. -/
theorem Quoted.cut (quoted : Quoted) (text : List Char) :
    (quoted.raw ++ quoted.quote :: text).takeWhile (· != quoted.quote) = quoted.raw ∧
      (quoted.raw ++ quoted.quote :: text).dropWhile (· != quoted.quote) =
        quoted.quote :: text := by
  have hraw : ∀ c ∈ quoted.raw, (c != quoted.quote) = true := by
    intro c hc
    rw [bne_iff_ne]
    exact fun heq => quoted.closed (heq ▸ hc)
  have hstop : ∀ c ∈ (quoted.quote :: text).head?, (c != quoted.quote) = false := by simp
  exact ⟨Text.takeWhile_run hraw hstop, Text.dropWhile_run hraw hstop⟩

/-- An attribute is read as it was written. -/
theorem Attribute.readAttributes_written {key : List Char} (hkey : IsWord key) (entry : Attribute)
    {length position : Nat} {seen : List (List Char × Nat)} {text : List Char}
    {more : List (String × String)} (hseen : ∀ earlier ∈ seen, earlier.1 ≠ key)
    (hmore : ∀ start position', readAttributes length (seen ++ [(key, start)]) position' text =
      .ok more) :
    readAttributes length seen position (entry.written key ++ text) =
      .ok ((localName key, String.ofList entry.value.value) :: more) := by
  obtain ⟨c, tail, rfl⟩ := List.exists_cons_of_ne_nil hkey.1
  -- what follows the key, from its equals sign on, and the value with what follows it
  let inside := entry.value.raw ++ entry.value.quote :: text
  let afterEquals := entry.afterEquals.text ++ entry.value.quote :: inside
  have htail : ∀ d ∈ tail, (!endsKey d) = true :=
    fun d hd => hkey.not_endsKey (List.mem_cons_of_mem _ hd)
  have hstop := entry.beforeEquals.endsKey_head afterEquals
  have hbody : (entry.written (c :: tail) ++ text).dropWhile isBlank =
      c :: (tail ++ (entry.beforeEquals.text ++ '=' :: afterEquals)) := by
    have hwritten : entry.written (c :: tail) ++ text =
        entry.before.text ++ c :: (tail ++ (entry.beforeEquals.text ++ '=' :: afterEquals)) := by
      simp [Attribute.written, afterEquals, inside]
    rw [hwritten]
    exact entry.before.dropWhile_append (hkey.ne List.mem_cons_self).1 _
  have hname : c :: (tail ++ (entry.beforeEquals.text ++ '=' :: afterEquals)).takeWhile
      (fun d => !endsKey d) = c :: tail := by
    rw [Text.takeWhile_run htail hstop]
  have hequals : ((tail ++ (entry.beforeEquals.text ++ '=' :: afterEquals)).dropWhile
      fun d => !endsKey d).dropWhile isBlank = '=' :: afterEquals := by
    rw [Text.dropWhile_run htail hstop]
    exact entry.beforeEquals.dropWhile_append (by decide) _
  have hvalue : afterEquals.dropWhile isBlank = entry.value.quote :: inside :=
    entry.afterEquals.dropWhile_append (isBlank_of_isQuote entry.value.enclosed) _
  obtain ⟨htaken, hclose⟩ := entry.value.cut text
  have hresolved : unescape (inside.takeWhile (· != entry.value.quote)) =
      .ok entry.value.value := by
    rw [htaken]
    exact entry.value.resolved
  exact readAttributes_eq_cons hbody hname hseen hequals hvalue entry.value.enclosed hclose
    hresolved hmore

/-- The attributes of a tag are read as they were written. -/
theorem readAttributes_written {keyOf : Name → List Char} (hkeys : ∀ key, IsWord (keyOf key))
    (entries : List Attribute) (trailing : Space) {length position : Nat}
    {seen : List (List Char × Nat)}
    (hseen : ∀ earlier ∈ seen, ∀ entry ∈ entries, earlier.1 ≠ keyOf entry.key)
    (hdistinct : entries.Pairwise fun first second => keyOf first.key ≠ keyOf second.key) :
    readAttributes length seen position
        (entries.flatMap (fun entry => entry.written (keyOf entry.key)) ++ trailing.text) =
      .ok (entries.map fun entry =>
        (localName (keyOf entry.key), String.ofList entry.value.value)) := by
  induction entries generalizing seen position with
  | nil =>
      have hblank : trailing.text.dropWhile isBlank = [] :=
        List.dropWhile_eq_nil_iff.2 trailing.blank
      rw [List.flatMap_nil, List.nil_append, readAttributes]
      split
      · rfl
      · rename_i heq
        rw [hblank] at heq
        contradiction
  | cons entry entries ih =>
      obtain ⟨hfirst, hrest⟩ := List.pairwise_cons.1 hdistinct
      rw [List.flatMap_cons, List.append_assoc]
      refine entry.readAttributes_written (hkeys entry.key)
        (fun earlier hearlier => hseen earlier hearlier entry List.mem_cons_self) ?_
      intro start position'
      refine ih (fun earlier hearlier other hother => ?_) hrest
      rcases List.mem_append.1 hearlier with hearlier | hearlier
      · exact hseen earlier hearlier other (List.mem_cons_of_mem _ hother)
      · rw [List.mem_singleton.1 hearlier]
        exact hfirst other hother

/-- Keys of the root stay distinct when one of them declares the namespace for a qualifier. -/
theorem Name.declared_ne {qualifier : Option Name} {first second : Name}
    (h : first.text ≠ second.text) : first.declared qualifier ≠ second.declared qualifier := by
  cases qualifier with
  | none => exact h
  | some qualifier =>
      rw [Name.declared, Name.declared]
      split_ifs with hfirst hsecond hsecond
      · exact absurd (hfirst.trans hsecond.symm) h
      · exact fun heq => second.colon_notMem (heq ▸ by simp)
      · exact fun heq => first.colon_notMem (heq ▸ by simp)
      · exact h

/-- The attributes of a tag are read as they were written, with their local names. -/
theorem Tag.tagAttributes_written {name : List Char} (hname : IsWord name)
    {keyOf : Name → List Char} (hkeys : ∀ key, IsWord (keyOf key))
    (hdistinct : ∀ first second : Name, first.text ≠ second.text → keyOf first ≠ keyOf second)
    (tag : Tag) :
    tagAttributes (tag.written name keyOf) = .ok (tag.values fun key => localName (keyOf key)) := by
  rw [tagAttributes, tag.dropWhile_written hname keyOf, Tag.rest]
  refine readAttributes_written hkeys tag.attributes tag.trailing (by simp) ?_
  exact (List.pairwise_map.1 tag.distinct).imp fun hne => hdistinct _ _ hne

end Markup
end ProjectAssembler
