import ProjectAssembler.Proofs.Markup.Constructs

/-!
# Reading documents

A document is read as it was written: construct by construct its text gives the events of its parts,
and the events build its element tree.

Main definition: `Markup.Reads`, a text gives events and no error.

Main results:

* `Markup.Content.reads` and `Markup.Passage.reads`: what stands in a document is read as it was
  written, whatever follows it;
* `Markup.Document.ofText_written`: the element tree of a document's text is the one that was
  written.
-/

namespace ProjectAssembler
namespace Markup

/-! ## The events of a document -/

/-- The events of a text between tags: none if it is white space. -/
def Chars.events (chars : Chars) : List Event :=
  if trimmed chars.raw = [] then [] else [.text (String.ofList chars.value)]

mutual

/-- The events of an element, given what the keys of its start tag are as local names. -/
def Passage.events (localOf : Name → String) : Passage → List Event
  | .single tag => [.single tag.name.string (tag.values localOf)]
  | .paired tag content _ =>
      .opening tag.name.string (tag.values localOf) :: (content.events ++ [.closing])

/-- The events of what stands between two tags. -/
def Content.events : Content → List Event
  | .last chars => chars.events
  | .aside chars _ rest => chars.events ++ rest.events
  | .data chars data rest => chars.events ++ .text (String.ofList data.text) :: rest.events
  | .inner chars passage rest => chars.events ++ (passage.events Name.string ++ rest.events)

end

/-! ## One construct after the other -/

/-- The events of a text come from its first construct and from what follows it. -/
theorem readEvents_of_readNext {names names' : List (List Char)} {inside inside' : Bool}
    {text rest : List Char} {construct : Construct} {event? : Option Event}
    (hread : readNext inside text = .read construct rest inside')
    (hmatch : matchTags names (bracket inside text) construct = .ok names')
    (hevent : eventOf construct = .ok event?) :
    readEvents names inside text =
      ((event?.map (⟨·, beginning inside text⟩)).toList ++ (readEvents names' inside' rest).1,
        (readEvents names' inside' rest).2) := by
  rw [readEvents]
  split
  · rename_i heq
    rw [hread] at heq
    contradiction
  · rename_i heq
    rw [hread] at heq
    contradiction
  · rename_i heq
    rw [hread] at heq
    obtain ⟨rfl, rfl, rfl⟩ := Next.read.inj heq
    rw [hmatch]
    simp only [hevent]

/-- It does not matter for the events whether the `<` of the next construct has been read. -/
theorem readEvents_inside (names : List (List Char)) (text : List Char) :
    readEvents names true text = readEvents names false ('<' :: text) := by
  rw [readEvents, readEvents]
  rfl

/-- A text gives events and no error, inside of elements whose full names are given. -/
def Reads (names : List (List Char)) (text : List Char) (events : List Event) : Prop :=
  (readEvents names false text).1.map Located.value = events ∧
    (readEvents names false text).2 = none

section Texts

variable {names names' : List (List Char)} {text rest : List Char} {events : List Event}

/-- What a construct after white space gives comes before the events of what follows. -/
theorem Reads.construct {construct : Construct} {event? : Option Event}
    (h : Reads names' rest events) (space : Space)
    (hread : readConstruct text = .ok (construct, rest))
    (hmatch : matchTags names ('<' :: text) construct = .ok names')
    (hevent : eventOf construct = .ok event?) :
    Reads names (space.text ++ '<' :: text) (event?.toList ++ events) := by
  have hblank : (space.text ++ '<' :: text).dropWhile isBlank = '<' :: text :=
    space.dropWhile_append (by decide) text
  have hnext : readNext false (space.text ++ '<' :: text) = .read construct rest false := by
    rw [readNext, if_neg Bool.false_ne_true, hblank]
    simp only [hread, Next.ofReading]
  have hbracket : bracket false (space.text ++ '<' :: text) = '<' :: text := hblank
  have hevents := readEvents_of_readNext hnext (hbracket ▸ hmatch) hevent
  rw [Reads, hevents]
  refine ⟨?_, h.2⟩
  rw [List.map_append, h.1]
  cases event? <;> rfl

/-- A text that begins with a `<` gives what its first construct and what follows it give. -/
theorem Reads.exists_construct (h : Reads names ('<' :: text) events) :
    ∃ construct rest names' event? later, readConstruct text = .ok (construct, rest) ∧
      matchTags names ('<' :: text) construct = .ok names' ∧ eventOf construct = .ok event? ∧
      Reads names' rest later ∧ events = event?.toList ++ later := by
  have hread : readNext false ('<' :: text) = Next.ofReading (readConstruct text) := rfl
  rw [Reads, readEvents] at h
  split at h
  · rename_i heq
    rw [hread] at heq
    cases hconstruct : readConstruct text <;> simp [Next.ofReading, hconstruct] at heq
  · exact absurd h.2 (Option.some_ne_none _)
  · rename_i construct rest inside heq
    rw [hread] at heq
    cases hconstruct : readConstruct text with
    | error failure => simp [Next.ofReading, hconstruct] at heq
    | ok found =>
        rw [hconstruct] at heq
        obtain ⟨rfl, rfl, rfl⟩ := Next.read.inj heq
        have hbracket : bracket false ('<' :: text) = '<' :: text := rfl
        rw [hbracket] at h
        split at h
        · exact absurd h.2 (Option.some_ne_none _)
        · rename_i names' hmatch
          split at h
          · exact absurd h.2 (Option.some_ne_none _)
          · rename_i event? hevent
            refine ⟨found.1, found.2, names', event?, _, rfl, hmatch, hevent, ⟨rfl, h.2⟩, ?_⟩
            rw [← h.1, List.map_append]
            cases event? <;> rfl

/-- White space before a construct does not matter. -/
theorem Reads.space (h : Reads names ('<' :: text) events) (space : Space) :
    Reads names (space.text ++ '<' :: text) events := by
  obtain ⟨construct, rest, names', event?, later, hread, hmatch, hevent, hlater, rfl⟩ :=
    h.exists_construct
  exact hlater.construct space hread hmatch hevent

/-- The trimmed text of white space alone is empty. -/
theorem dropWhile_eq_nil_of_trimmed {raw : List Char} (h : trimmed raw = []) :
    raw.dropWhile isBlank = [] := by
  rw [trimmed, Text.dropEnd, List.reverse_eq_nil_iff, List.dropWhile_eq_nil_iff] at h
  cases hraw : raw.dropWhile isBlank with
  | nil => rfl
  | cons c rest =>
      have hc : isBlank c = true := h c (by simp [hraw])
      have hhead : isBlank c = false := by
        have := List.head?_dropWhile_not isBlank raw
        simpa [hraw] using this
      rw [hc] at hhead
      contradiction

/-- What comes first in a text between tags that is more than white space. -/
theorem Chars.readNext_eq (chars : Chars) (h : trimmed chars.raw ≠ []) (text : List Char) :
    readNext false (chars.raw ++ '<' :: text) = .read (.text (trimmed chars.raw)) text true := by
  have hnonempty : chars.raw.dropWhile isBlank ≠ [] := by
    intro hnil
    rw [trimmed, hnil] at h
    exact h rfl
  have hplain : ∀ c ∈ chars.raw.dropWhile isBlank, (c != '<') = true := by
    intro c hc
    rw [bne_iff_ne]
    exact fun heq => chars.plain (heq ▸ (List.dropWhile_suffix isBlank).subset hc)
  have hcontent : (chars.raw ++ '<' :: text).dropWhile isBlank =
      chars.raw.dropWhile isBlank ++ '<' :: text := by
    rw [List.dropWhile_append, if_neg (by simpa using hnonempty)]
  have hstop : ∀ c ∈ ('<' :: text).head?, (c != '<') = false := by simp
  have htaken := Text.takeWhile_run hplain hstop
  have hrest := Text.dropWhile_run hplain hstop
  rw [readNext, if_neg Bool.false_ne_true, hcontent]
  split
  · rename_i heq
    exact absurd heq (List.append_ne_nil_of_left_ne_nil hnonempty _)
  · rename_i rest heq
    cases hcut : chars.raw.dropWhile isBlank with
    | nil => exact absurd hcut hnonempty
    | cons c tail =>
        rw [hcut, List.cons_append] at heq
        have hc := hplain c (by simp [hcut])
        rw [(List.cons.inj heq).1] at hc
        contradiction
  · simp only [htaken, hrest]
    rfl

/-- A text between tags comes before the events of what follows it. -/
theorem Reads.chars (h : Reads names text events) (hstart : text.head? = some '<')
    (chars : Chars) : Reads names (chars.raw ++ text) (chars.events ++ events) := by
  obtain ⟨text, rfl⟩ := List.head?_eq_some_iff.1 hstart
  unfold Chars.events
  split_ifs with htrimmed
  · exact h.space ⟨chars.raw, List.dropWhile_eq_nil_iff.1 (dropWhile_eq_nil_of_trimmed htrimmed)⟩
  · have hevent : eventOf (.text (trimmed chars.raw)) =
        .ok (some (.text (String.ofList chars.value))) := by
      simp only [eventOf, chars.resolved]
    have hmatch : matchTags names (bracket false (chars.raw ++ '<' :: text))
        (.text (trimmed chars.raw)) = .ok names := rfl
    have hevents := readEvents_of_readNext (chars.readNext_eq htrimmed text) hmatch hevent
    rw [Reads, hevents, readEvents_inside]
    refine ⟨?_, h.2⟩
    rw [List.map_append, h.1]
    rfl

/-! ## The parts of a document -/

/-- White space at the end of a text gives nothing. -/
theorem reads_space (names : List (List Char)) (space : Space) : Reads names space.text [] := by
  have hblank : space.text.dropWhile isBlank = [] := List.dropWhile_eq_nil_iff.2 space.blank
  have hread : readEvents names false space.text = ([], none) := by
    rw [readEvents]
    split
    · rfl
    all_goals
      rename_i heq
      rw [readNext, if_neg Bool.false_ne_true, hblank] at heq
      contradiction
  rw [Reads, hread]
  exact ⟨rfl, rfl⟩

/-- An aside after white space gives nothing. -/
theorem Reads.aside (h : Reads names text events) (space : Space) (aside : Aside) :
    Reads names (space.text ++ (aside.written ++ text)) events := by
  obtain ⟨after, hwritten, hread⟩ := aside.readConstruct_written text
  rw [hwritten]
  exact h.construct space hread rfl rfl

theorem Reads.asides (h : Reads names text events) (asides : Asides) :
    Reads names (asides.written ++ text) events := by
  induction asides with
  | nil => exact h
  | cons entry asides ih =>
      have hsplit : Asides.written (entry :: asides) ++ text =
          entry.1.text ++ (entry.2.written ++ (Asides.written asides ++ text)) := by
        simp [Asides.written]
      rw [hsplit]
      exact ih.aside entry.1 entry.2

theorem Reads.data (h : Reads names text events) (data : CharacterData) :
    Reads names (data.written ++ text) (.text (String.ofList data.text) :: events) := by
  obtain ⟨after, hwritten, hread⟩ := data.readConstruct_written text
  rw [hwritten]
  exact h.construct Space.none hread rfl rfl

/-- How the keys of a tag are written, and what they are as local names. -/
structure Spells (keyOf : Name → List Char) (localOf : Name → String) : Prop where
  word : ∀ key, IsWord (keyOf key)
  distinct : ∀ first second : Name, first.text ≠ second.text → keyOf first ≠ keyOf second
  localName : ∀ key, Markup.localName (keyOf key) = localOf key

theorem spells_text : Spells Name.text Name.string :=
  ⟨Name.isWord, fun _ _ => id, fun key => localName_of_notMem key.colon_notMem⟩

theorem spells_declared (qualifier : Option Name) :
    Spells (Name.declared qualifier) (Name.declaredString qualifier) :=
  ⟨Name.isWord_declared qualifier, fun _ _ => Name.declared_ne, localName_declared qualifier⟩

section Tags

variable {keyOf : Name → List Char} {localOf : Name → String} (hkeys : Spells keyOf localOf)
  (qualifier : Option Name) (tag : Tag)

include hkeys

/-- The event of a start tag. -/
theorem Tag.eventOf_written (closed : Bool) :
    eventOf (.opening (tag.written (tag.name.qualified qualifier) keyOf) closed) =
      .ok (some (if closed then .single tag.name.string (tag.values localOf)
        else .opening tag.name.string (tag.values localOf))) := by
  have hname := tag.name.isWord_qualified qualifier
  have hlocal : (fun key => localName (keyOf key)) = localOf := funext hkeys.localName
  have hattributes := tag.tagAttributes_written hname hkeys.word hkeys.distinct
  rw [hlocal] at hattributes
  simp only [eventOf, hattributes, tag.tagName_written hname, localName_qualified]

theorem Reads.opening (h : Reads (tag.name.qualified qualifier :: names) text events) :
    Reads names ('<' :: tag.written (tag.name.qualified qualifier) keyOf ++ '>' :: text)
      (.opening tag.name.string (tag.values localOf) :: events) := by
  have hname := tag.name.isWord_qualified qualifier
  refine h.construct Space.none (tag.readConstruct_opening hname hkeys.word text) ?_
    (tag.eventOf_written hkeys qualifier false)
  rw [matchTags, tag.tagName_written hname]

theorem Reads.single (h : Reads names text events) :
    Reads names ('<' :: tag.written (tag.name.qualified qualifier) keyOf ++ '/' :: '>' :: text)
      (.single tag.name.string (tag.values localOf) :: events) := by
  have hname := tag.name.isWord_qualified qualifier
  exact h.construct Space.none (tag.readConstruct_single hname hkeys.word text) rfl
    (tag.eventOf_written hkeys qualifier true)

end Tags

theorem Reads.closing (h : Reads names text events) {name : List Char} (hname : IsWord name)
    (space : Space) :
    Reads (name :: names) ('<' :: '/' :: name ++ space.text ++ '>' :: text)
      (.closing :: events) := by
  refine h.construct Space.none (readConstruct_closing hname space text) ?_ rfl
  rw [matchTags, if_pos rfl]

end Texts

/-! ## Elements and what stands in them -/

mutual

/-- An element is read as it was written, whatever follows it. -/
theorem Passage.reads {keyOf : Name → List Char} {localOf : Name → String}
    (hkeys : Spells keyOf localOf) (qualifier : Option Name) {names : List (List Char)}
    {text : List Char} {events : List Event} (h : Reads names text events) :
    (passage : Passage) →
      Reads names (passage.written qualifier keyOf ++ text) (passage.events localOf ++ events)
  | .single tag => by
      simpa [Passage.written, Passage.events] using h.single hkeys qualifier tag
  | .paired tag content ending => by
      have hclosing := h.closing (tag.name.isWord_qualified qualifier) ending
      have hcontent := Content.reads qualifier hclosing rfl content
      simpa [Passage.written, Passage.events] using hcontent.opening hkeys qualifier tag

/-- What stands between two tags is read as it was written. -/
theorem Content.reads (qualifier : Option Name) {names : List (List Char)} {text : List Char}
    {events : List Event} (h : Reads names text events) (hstart : text.head? = some '<') :
    (content : Content) →
      Reads names (content.written qualifier ++ text) (content.events ++ events)
  | .last chars => h.chars hstart chars
  | .aside chars aside rest => by
      have hrest := Content.reads qualifier h hstart rest
      have haside := hrest.aside Space.none aside
      have hchars := haside.chars (by cases aside <;> rfl) chars
      simpa [Content.written, Content.events, Space.none] using hchars
  | .data chars data rest => by
      have hrest := Content.reads qualifier h hstart rest
      have hchars := (hrest.data data).chars rfl chars
      simpa [Content.written, Content.events] using hchars
  | .inner chars passage rest => by
      have hrest := Content.reads qualifier h hstart rest
      have hpassage := Passage.reads spells_text qualifier hrest passage
      have hchars := hpassage.chars (by cases passage <;> rfl) chars
      simpa [Content.written, Content.events] using hchars

end

/-! ## The element tree of the events -/

/-- The effect of events on what has been read. -/
def Progress.take (progress : Progress) (events : List Event) : Option Progress :=
  events.foldlM Progress.step progress

theorem Progress.take_append (progress : Progress) (first second : List Event) :
    progress.take (first ++ second) = (progress.take first).bind (·.take second) :=
  List.foldlM_append

/-- Events that are taken without a second root are run to the same end. -/
theorem Progress.run_of_take {progress after : Progress} {events : List (Located Event)}
    (h : progress.take (events.map Located.value) = some after) :
    progress.run events = .ok after := by
  induction events generalizing progress with
  | nil =>
      rw [← Option.some.inj h]
      rfl
  | cons event events ih =>
      rw [List.map_cons, take, List.foldlM_cons, Option.bind_eq_bind, Option.bind_eq_some_iff] at h
      obtain ⟨between, hstep, hrest⟩ := h
      rw [run, hstep]
      exact ih hrest

/-- An element with more inside of it. -/
def Element.extend : Element → List Element → List Char → Element
  | .mk name attributes children text, more, characters =>
      .mk name attributes (children ++ more) (text ++ String.ofList characters)

@[simp]
theorem Element.extend_nil (element : Element) : element.extend [] [] = element := by
  cases element
  simp [extend]

theorem Element.extend_extend (element : Element) (first second : List Element)
    (characters more : List Char) :
    (element.extend first characters).extend second more =
      element.extend (first ++ second) (characters ++ more) := by
  cases element
  simp [extend, String.append_assoc]

/-- White space alone stands for nothing. -/
theorem Chars.value_eq_nil (chars : Chars) (h : trimmed chars.raw = []) : chars.value = [] := by
  have hresolved := chars.resolved
  rw [h, unescape_of_no_ampersand List.not_mem_nil] at hresolved
  exact (Except.ok.inj hresolved).symm

theorem Chars.take_events (chars : Chars) (element : Element) (outer : List Element)
    (root : Option Element) :
    Progress.take ⟨element :: outer, root⟩ chars.events =
      some ⟨element.extend [] chars.value :: outer, root⟩ := by
  unfold Chars.events
  split_ifs with htrimmed
  · rw [chars.value_eq_nil htrimmed, Element.extend_nil]
    rfl
  · cases element
    simp [Progress.take, Progress.step, Element.addText, Element.extend]

theorem Element.addText_eq_extend (element : Element) (characters : List Char) :
    element.addText (String.ofList characters) = element.extend [] characters := by
  cases element
  simp [addText, extend]

theorem Element.addChild_eq_extend (element child : Element) :
    element.addChild child = element.extend [child] [] := by
  cases element
  simp [addChild, extend]

mutual

/-- The events of an element add it to what has been read. -/
theorem Passage.take_events (localOf : Name → String) (progress : Progress) :
    (passage : Passage) →
      progress.take (passage.events localOf) = progress.attach (passage.element localOf)
  | .single tag => by
      simp [Passage.events, Passage.element, Progress.take, Progress.step]
  | .paired tag content ending => by
      have hcontent := Content.take_events
        (Element.leaf tag.name.string (tag.values localOf)) progress.stack progress.root content
      have hopening : progress.take (.opening tag.name.string (tag.values localOf) ::
          (content.events ++ [.closing])) =
          Progress.take ⟨Element.leaf tag.name.string (tag.values localOf) :: progress.stack,
            progress.root⟩ (content.events ++ [.closing]) := rfl
      rw [Passage.events, hopening, Progress.take_append, hcontent]
      simp [Progress.take, Progress.step, Element.leaf, Element.extend, Passage.element]

/-- The events between two tags extend the innermost open element. -/
theorem Content.take_events (element : Element) (outer : List Element) (root : Option Element) :
    (content : Content) →
      Progress.take ⟨element :: outer, root⟩ content.events =
        some ⟨element.extend content.elements content.characters :: outer, root⟩
  | .last chars => chars.take_events element outer root
  | .aside chars _ rest => by
      rw [Content.events, Progress.take_append, chars.take_events, Option.bind_some,
        Content.take_events _ outer root rest, Element.extend_extend]
      rfl
  | .data chars data rest => by
      have hdata (element : Element) : Progress.take ⟨element :: outer, root⟩
          (.text (String.ofList data.text) :: rest.events) =
            Progress.take ⟨element.extend [] data.text :: outer, root⟩ rest.events := by
        rw [← Element.addText_eq_extend]
        rfl
      rw [Content.events, Progress.take_append, chars.take_events, Option.bind_some, hdata,
        Content.take_events _ outer root rest, Element.extend_extend, Element.extend_extend]
      simp [Content.elements, Content.characters]
  | .inner chars passage rest => by
      have hpassage (element : Element) :
          Progress.take ⟨element :: outer, root⟩ (passage.events Name.string) =
            some ⟨element.extend [passage.element Name.string] [] :: outer, root⟩ := by
        rw [← Element.addChild_eq_extend]
        exact Passage.take_events Name.string _ passage
      rw [Content.events, Progress.take_append, chars.take_events, Option.bind_some,
        Progress.take_append, hpassage, Option.bind_some, Content.take_events _ outer root rest,
        Element.extend_extend, Element.extend_extend]
      simp [Content.elements, Content.characters]

end

/-! ## Whole documents -/

/-- The text of a document gives the events of its root element. -/
theorem Document.reads (qualifier : Option Name) (document : Document) :
    Reads [] (document.body qualifier) (document.root.events (Name.declaredString qualifier)) := by
  have hafter : Reads [] (document.after.written ++ document.last.text) [] :=
    (reads_space [] document.last).asides document.after
  have hroot := Passage.reads (spells_declared qualifier) qualifier hafter document.root
  obtain ⟨text, hstart⟩ : ∃ text, document.root.written qualifier (Name.declared qualifier) ++
      (document.after.written ++ document.last.text) = '<' :: text := by
    cases document.root <;> exact ⟨_, rfl⟩
  rw [hstart] at hroot
  have hbefore := (hroot.space document.beforeRoot).asides document.before
  rw [← hstart] at hbefore
  simpa [Document.body] using hbefore

/-- A text that begins with white space and a `<` has no byte order mark at its beginning. -/
theorem withoutMark_space (space : Space) {text : List Char} (hstart : text.head? = some '<') :
    withoutMark (space.text ++ text) = space.text ++ text := by
  obtain ⟨text, rfl⟩ := List.head?_eq_some_iff.1 hstart
  obtain ⟨_ | ⟨c, blank⟩, hblank⟩ := space
  · rfl
  · have hc : c ≠ '\uFEFF' := by
      rintro rfl
      exact absurd (hblank _ List.mem_cons_self) (by decide)
    unfold withoutMark
    split
    · rename_i heq
      exact absurd (List.cons.inj heq).1 hc
    · rfl

theorem Document.withoutMark_body (qualifier : Option Name) (document : Document) :
    withoutMark (document.body qualifier) = document.body qualifier := by
  have hbody : ∃ (space : Space) (text : List Char),
      document.body qualifier = space.text ++ text ∧ text.head? = some '<' := by
    cases hbefore : document.before with
    | nil =>
        refine ⟨document.beforeRoot, document.root.written qualifier (Name.declared qualifier) ++
          (document.after.written ++ document.last.text), ?_, ?_⟩
        · simp [Document.body, hbefore, Asides.written]
        · cases document.root <;> rfl
    | cons entry rest =>
        refine ⟨entry.1, entry.2.written ++ (Asides.written rest ++ (document.beforeRoot.text ++
          (document.root.written qualifier (Name.declared qualifier) ++
            (document.after.written ++ document.last.text)))), ?_, ?_⟩
        · simp [Document.body, hbefore, Asides.written]
        · cases entry.2 <;> rfl
  obtain ⟨space, text, hbody, hstart⟩ := hbody
  rw [hbody, withoutMark_space space hstart]

/-- The element tree of a document's text is the one that was written. -/
theorem Document.ofText_written (qualifier : Option Name) (document : Document) :
    Element.ofText (withoutMark (document.written qualifier)) =
      .ok (document.element qualifier) := by
  have hwritten : withoutMark (document.written qualifier) = document.body qualifier := by
    unfold Document.written
    split
    · rfl
    · exact document.withoutMark_body qualifier
  obtain ⟨hevents, hend⟩ := document.reads qualifier
  have htaken := Passage.take_events (Name.declaredString qualifier) Progress.initial document.root
  rw [← hevents] at htaken
  have hrun : Progress.initial.run (readEvents [] false (document.body qualifier)).1 =
      .ok ⟨[], some (document.element qualifier)⟩ := Progress.run_of_take htaken
  rw [hwritten, Element.ofText, document.withoutMark_body]
  simp only [hrun, hend, Progress.finish]

end Markup
end ProjectAssembler
