import Mathlib.Data.List.Induction
import ProjectAssembler.Proofs.Markup.ReadDocuments

/-!
# Events and the trees they come from

The element tree of a document is built with the open elements on a stack.  It is the tree whose
events are the given ones: where every end tag stands inside of an element, events are those of
some complete items with open elements behind them, and the stack holds exactly these elements.  So
a tree comes out exactly if one element stands at the top and none is open.

Main definitions:

* `Markup.Item`: what stands in a document, with `Item.events` and `Item.element?`;
* `Markup.EndsMatched`, `Markup.depthAfter` and `Markup.topElements`: whether every end tag stands
  inside of an element, how many elements are open, and how many stand at the top;
* `Markup.Element.ofEvents`: the element tree of events.

Main results:

* `Markup.Item.take_eventsOfAll`: items add themselves to the element that they stand in;
* `Markup.exists_split`: what events are where every end tag stands inside of an element;
* `Markup.endsMatched_readEvents`: the events of every text are such events;
* `Markup.Element.ofText_eq_ok_iff`: which element tree a text has;
* `Markup.ofEvents_of_endsMatched`: when events give an element tree, and which.
-/

namespace ProjectAssembler
namespace Markup

/-! ## Items of a document -/

/-- What stands in a document: a text, an element that is closed by its start tag, or an element
with whatever stands between its tags. -/
inductive Item where
  | text (value : String)
  | single (name : String) (attributes : List (String × String))
  | paired (name : String) (attributes : List (String × String)) (content : List Item)

namespace Item

mutual

/-- The events of an item. -/
def events : Item → List Event
  | text value => [.text value]
  | single name attributes => [.single name attributes]
  | paired name attributes content =>
      .opening name attributes :: (eventsOfAll content ++ [.closing])

/-- The events of items side by side. -/
def eventsOfAll : List Item → List Event
  | [] => []
  | item :: rest => item.events ++ eventsOfAll rest

end

/-- The text that an item adds to the element that it stands in. -/
def directText : Item → String
  | text value => value
  | single _ _ => ""
  | paired _ _ _ => ""

/-- The texts among items, put together. -/
def textOf : List Item → String
  | [] => ""
  | item :: rest => item.directText ++ textOf rest

mutual

/-- The element that an item is; none for a text. -/
def element? : Item → Option Element
  | text _ => none
  | single name attributes => some (.mk name attributes [] "")
  | paired name attributes content =>
      some (.mk name attributes (elementsOf content) (textOf content))

/-- The elements among items. -/
def elementsOf : List Item → List Element
  | [] => []
  | item :: rest => item.element?.toList ++ elementsOf rest

end

theorem eventsOfAll_append (first second : List Item) :
    eventsOfAll (first ++ second) = eventsOfAll first ++ eventsOfAll second := by
  induction first with
  | nil => rfl
  | cons item rest ih => simp [eventsOfAll, ih]

theorem eventsOfAll_snoc (items : List Item) (item : Item) :
    eventsOfAll (items ++ [item]) = eventsOfAll items ++ item.events := by
  simp [eventsOfAll_append, eventsOfAll]

/-! ## Building the tree of items -/

/-- The effect of an item: an element is attached, and a text goes to the innermost open element. -/
def received (progress : Progress) (item : Item) : Option Progress :=
  match item.element? with
  | some element => progress.attach element
  | none => progress.step (.text item.directText)

/-- An item adds itself to the innermost open element. -/
theorem received_inside (element : Element) (outer : List Element) (root : Option Element)
    (item : Item) : received ⟨element :: outer, root⟩ item =
      some ⟨element.extend item.element?.toList item.directText.toList :: outer, root⟩ := by
  cases item with
  | text value =>
      have htext := element.addText_eq_extend value.toList
      rw [String.ofList_toList] at htext
      simp [received, element?, directText, Progress.step, htext]
  | single name attributes =>
      simp [received, element?, directText, Progress.attach, Element.addChild_eq_extend]
  | paired name attributes content =>
      simp [received, element?, directText, Progress.attach, Element.addChild_eq_extend]

/-- Outside of all elements an item is attached if it is an element, and dropped if it is a
text. -/
theorem received_outside (root : Option Element) (item : Item) :
    received ⟨[], root⟩ item = item.element?.toList.foldlM Progress.attach ⟨[], root⟩ := by
  cases item <;> simp [received, element?, Progress.step]

mutual

/-- The effect of an item is that of its events. -/
theorem take_events (progress : Progress) :
    (item : Item) → progress.take item.events = received progress item
  | .text value => by
      simp [events, received, element?, directText, Progress.take]
  | .single name attributes => by
      simp [events, received, element?, Progress.take, Progress.step, Element.leaf]
  | .paired name attributes content => by
      have hopening : progress.take (paired name attributes content).events =
          Progress.take ⟨Element.leaf name attributes :: progress.stack, progress.root⟩
            (eventsOfAll content ++ [.closing]) := rfl
      rw [hopening, Progress.take_append,
        take_eventsOfAll (Element.leaf name attributes) progress.stack progress.root content]
      simp [received, element?, Progress.take, Progress.step, Element.leaf, Element.extend]

/-- Items add themselves to the innermost open element: its children are the elements among them,
and its text is put together from the texts among them. -/
theorem take_eventsOfAll (element : Element) (outer : List Element) (root : Option Element) :
    (items : List Item) → Progress.take ⟨element :: outer, root⟩ (eventsOfAll items) =
      some ⟨element.extend (elementsOf items) (textOf items).toList :: outer, root⟩
  | [] => by
      simp [eventsOfAll, elementsOf, textOf, Progress.take]
  | item :: rest => by
      rw [eventsOfAll, Progress.take_append, take_events _ item, received_inside,
        Option.bind_some, take_eventsOfAll _ outer root rest, Element.extend_extend]
      simp [elementsOf, textOf]

end

/-- The elements among items outside of all elements are attached one after the other. -/
theorem take_eventsOfAll_outside (root : Option Element) (items : List Item) :
    Progress.take ⟨[], root⟩ (eventsOfAll items) =
      (elementsOf items).foldlM Progress.attach ⟨[], root⟩ := by
  induction items generalizing root with
  | nil => rfl
  | cons item rest ih =>
      rw [eventsOfAll, elementsOf, Progress.take_append, take_events, received_outside,
        List.foldlM_append]
      cases item.element? with
      | none => simpa using ih root
      | some element =>
          cases root with
          | none => simpa [Progress.attach] using ih (some element)
          | some root => simp [Progress.attach]

end Item

/-- Attaching elements succeeds if there is at most one. -/
theorem foldlM_attach (elements : List Element) :
    elements.foldlM Progress.attach Progress.initial =
      if elements.length ≤ 1 then some ⟨[], elements.head?⟩ else none := by
  match elements with
  | [] => rfl
  | [element] => rfl
  | first :: second :: rest => simp [Progress.attach, Progress.initial]

/-! ## Open elements -/

/-- How many elements are open after an event. -/
def Event.depthAfter (depth : Nat) : Event → Nat
  | opening _ _ => depth + 1
  | single _ _ => depth
  | closing => depth - 1
  | text _ => depth

/-- How many elements are open after events. -/
def depthAfter (depth : Nat) (events : List Event) : Nat :=
  events.foldl Event.depthAfter depth

/-- Whether an element begins with an event. -/
def Event.begins : Event → Bool
  | opening _ _ => true
  | single _ _ => true
  | closing => false
  | text _ => false

/-- How many elements begin where no element is open. -/
def topElements : Nat → List Event → Nat
  | _, [] => 0
  | depth, event :: rest =>
      (if depth = 0 ∧ event.begins = true then 1 else 0) + topElements (event.depthAfter depth) rest

/-- Every end tag stands where an element is open. -/
def EndsMatched : Nat → List Event → Prop
  | _, [] => True
  | depth, event :: rest =>
      (event = .closing → depth ≠ 0) ∧ EndsMatched (event.depthAfter depth) rest

theorem depthAfter_append (depth : Nat) (first second : List Event) :
    depthAfter depth (first ++ second) = depthAfter (depthAfter depth first) second :=
  List.foldl_append

theorem topElements_append (depth : Nat) (first second : List Event) :
    topElements depth (first ++ second) =
      topElements depth first + topElements (depthAfter depth first) second := by
  induction first generalizing depth with
  | nil => simp [topElements, depthAfter]
  | cons event rest ih => simp [topElements, depthAfter, ih, Nat.add_assoc]

theorem endsMatched_append (depth : Nat) (first second : List Event) :
    EndsMatched depth (first ++ second) ↔
      EndsMatched depth first ∧ EndsMatched (depthAfter depth first) second := by
  induction first generalizing depth with
  | nil => simp [EndsMatched, depthAfter]
  | cons event rest ih => simp [EndsMatched, depthAfter, ih, and_assoc]

namespace Item

mutual

/-- An item leaves as many elements open as there were. -/
theorem depthAfter_events (depth : Nat) :
    (item : Item) → depthAfter depth item.events = depth
  | .text value => rfl
  | .single name attributes => rfl
  | .paired name attributes content => by
      have hopening : depthAfter depth (paired name attributes content).events =
          depthAfter (depth + 1) (eventsOfAll content ++ [.closing]) := rfl
      rw [hopening, depthAfter_append, depthAfter_eventsOfAll]
      rfl

/-- Items leave as many elements open as there were. -/
theorem depthAfter_eventsOfAll (depth : Nat) :
    (items : List Item) → depthAfter depth (eventsOfAll items) = depth
  | [] => rfl
  | item :: rest => by
      rw [eventsOfAll, depthAfter_append, depthAfter_events, depthAfter_eventsOfAll]

end

mutual

/-- No element inside of another one stands at the top. -/
theorem topElements_events_inside (depth : Nat) :
    (item : Item) → topElements (depth + 1) item.events = 0
  | .text value => rfl
  | .single name attributes => by simp [events, topElements]
  | .paired name attributes content => by
      simp [events, topElements, topElements_append, Event.depthAfter, Event.begins,
        topElements_eventsOfAll_inside (depth + 1) content]

theorem topElements_eventsOfAll_inside (depth : Nat) :
    (items : List Item) → topElements (depth + 1) (eventsOfAll items) = 0
  | [] => rfl
  | item :: rest => by
      rw [eventsOfAll, topElements_append, depthAfter_events, topElements_events_inside,
        topElements_eventsOfAll_inside]

end

/-- The elements among items outside of all elements stand at the top. -/
theorem topElements_eventsOfAll (items : List Item) :
    topElements 0 (eventsOfAll items) = (elementsOf items).length := by
  induction items with
  | nil => rfl
  | cons item rest ih =>
      rw [eventsOfAll, topElements_append, depthAfter_events, ih, elementsOf, List.length_append]
      congr 1
      cases item with
      | text value => rfl
      | single name attributes => rfl
      | paired name attributes content =>
          simp [events, element?, topElements, topElements_append, Event.depthAfter, Event.begins,
            topElements_eventsOfAll_inside 0 content]

end Item

/-- An element that has not been closed, with the items that stand in it so far. -/
structure Unclosed where
  name : String
  attributes : List (String × String)
  content : List Item

namespace Unclosed

/-- The events of an open element so far. -/
def events (unclosed : Unclosed) : List Event :=
  .opening unclosed.name unclosed.attributes :: Item.eventsOfAll unclosed.content

/-- An open element so far. -/
def element (unclosed : Unclosed) : Element :=
  .mk unclosed.name unclosed.attributes (Item.elementsOf unclosed.content)
    (Item.textOf unclosed.content)

/-- The events of open elements, given with the innermost first. -/
def eventsOfAll : List Unclosed → List Event
  | [] => []
  | innermost :: outer => eventsOfAll outer ++ innermost.events

/-- Open elements are on the stack. -/
theorem take_eventsOfAll (root : Option Element) (opens : List Unclosed) :
    Progress.take ⟨[], root⟩ (eventsOfAll opens) = some ⟨opens.map element, root⟩ := by
  induction opens with
  | nil => rfl
  | cons innermost outer ih =>
      have hopening : Progress.take ⟨outer.map element, root⟩ innermost.events =
          Progress.take ⟨Element.leaf innermost.name innermost.attributes :: outer.map element,
            root⟩ (Item.eventsOfAll innermost.content) := rfl
      rw [eventsOfAll, Progress.take_append, ih, Option.bind_some, hopening, Item.take_eventsOfAll]
      simp [Element.leaf, Element.extend, element]

theorem depthAfter_events (depth : Nat) (unclosed : Unclosed) :
    depthAfter depth unclosed.events = depth + 1 :=
  Item.depthAfter_eventsOfAll (depth + 1) unclosed.content

theorem depthAfter_eventsOfAll (opens : List Unclosed) :
    depthAfter 0 (eventsOfAll opens) = opens.length := by
  induction opens with
  | nil => rfl
  | cons innermost outer ih =>
      rw [eventsOfAll, depthAfter_append, ih, depthAfter_events, List.length_cons]

/-- Only the outermost open element stands at the top. -/
theorem topElements_eventsOfAll (opens : List Unclosed) :
    topElements 0 (eventsOfAll opens) = if opens = [] then 0 else 1 := by
  induction opens with
  | nil => rfl
  | cons innermost outer ih =>
      rw [eventsOfAll, topElements_append, depthAfter_eventsOfAll, ih, events, topElements]
      simp only [Event.depthAfter, Item.topElements_eventsOfAll_inside]
      cases outer <;> simp [Event.begins]

end Unclosed

/-! ## Events are those of items and open elements -/

/-- An item comes behind items and open elements: it stands in the innermost one if there is one. -/
theorem exists_snoc (items : List Item) (opens : List Unclosed) (item : Item) :
    ∃ items' opens', Item.eventsOfAll items ++ Unclosed.eventsOfAll opens ++ item.events =
      Item.eventsOfAll items' ++ Unclosed.eventsOfAll opens' := by
  cases opens with
  | nil => exact ⟨items ++ [item], [], by simp [Unclosed.eventsOfAll, Item.eventsOfAll_snoc]⟩
  | cons innermost outer =>
      refine ⟨items, { innermost with content := innermost.content ++ [item] } :: outer, ?_⟩
      simp [Unclosed.eventsOfAll, Unclosed.events, Item.eventsOfAll_snoc]

/-- Events are those of complete items and of open elements behind them if every end tag stands
where an element is open. -/
theorem exists_split {events : List Event} (h : EndsMatched 0 events) :
    ∃ items opens, events = Item.eventsOfAll items ++ Unclosed.eventsOfAll opens := by
  induction events using List.reverseRecOn with
  | nil => exact ⟨[], [], rfl⟩
  | append_singleton events event ih =>
      obtain ⟨hevents, hevent, -⟩ := (endsMatched_append 0 events [event]).1 h
      obtain ⟨items, opens, rfl⟩ := ih hevents
      cases event with
      | opening name attributes =>
          refine ⟨items, ⟨name, attributes, []⟩ :: opens, ?_⟩
          simp [Unclosed.eventsOfAll, Unclosed.events, Item.eventsOfAll]
      | single name attributes => exact exists_snoc items opens (.single name attributes)
      | text value => exact exists_snoc items opens (.text value)
      | closing =>
          -- The end tag completes the innermost open element.
          rw [depthAfter_append, Item.depthAfter_eventsOfAll, Unclosed.depthAfter_eventsOfAll]
            at hevent
          cases opens with
          | nil => exact absurd rfl (hevent rfl)
          | cons innermost outer =>
              obtain ⟨items', opens', hclosed⟩ := exists_snoc items outer
                (.paired innermost.name innermost.attributes innermost.content)
              refine ⟨items', opens', ?_⟩
              rw [← hclosed]
              simp [Unclosed.eventsOfAll, Unclosed.events, Item.events]

section Split

variable {events : List Event} {items : List Item} {opens : List Unclosed}
  (h : events = Item.eventsOfAll items ++ Unclosed.eventsOfAll opens)

include h

theorem depthAfter_of_split : depthAfter 0 events = opens.length := by
  rw [h, depthAfter_append, Item.depthAfter_eventsOfAll, Unclosed.depthAfter_eventsOfAll]

theorem topElements_of_split : topElements 0 events =
    (Item.elementsOf items).length + if opens = [] then 0 else 1 := by
  rw [h, topElements_append, Item.topElements_eventsOfAll, Item.depthAfter_eventsOfAll,
    Unclosed.topElements_eventsOfAll]

/-- Events are taken exactly if there is at most one complete element; it is the root, and the open
elements are on the stack. -/
theorem take_of_split : Progress.initial.take events =
    if (Item.elementsOf items).length ≤ 1 then
      some ⟨opens.map Unclosed.element, (Item.elementsOf items).head?⟩
    else none := by
  rw [h, Progress.take_append, Progress.initial, Item.take_eventsOfAll_outside]
  have hattached := foldlM_attach (Item.elementsOf items)
  rw [Progress.initial] at hattached
  rw [hattached]
  split_ifs with hlength
  · rw [Option.bind_some, Unclosed.take_eventsOfAll]
  · rfl

end Split

/-! ## The tree of events -/

/-- Events that are not taken are refused because of a second root. -/
theorem Progress.exists_run_of_take_eq_none {progress : Progress} {events : List (Located Event)}
    (h : progress.take (events.map Located.value) = none) :
    ∃ remaining, progress.run events = .error ⟨.secondRoot, remaining⟩ := by
  induction events generalizing progress with
  | nil => cases h
  | cons event events ih =>
      rw [List.map_cons, take, List.foldlM_cons, Option.bind_eq_bind] at h
      rw [run]
      cases hstep : progress.step event.value with
      | none => exact ⟨event.remaining, rfl⟩
      | some between =>
          rw [hstep] at h
          exact ih h

/-- The element tree of the events of a document, given its text for the places of errors and the
error that ended its reading, if any. -/
def Element.ofEvents (text : List Char) (events : List (Located Event))
    (failure? : Option Failure) : Except Malformed Element :=
  match Progress.initial.run events with
  | .error failure =>
      .error ⟨failure.error, offsetOf (withoutMark text) failure.remaining⟩
  | .ok progress =>
      match failure? with
      | some failure =>
          .error ⟨failure.error, offsetOf (withoutMark text) failure.remaining⟩
      | none =>
          match progress.finish with
          | .ok root => .ok root
          | .error .noRoot => .error ⟨.noRoot, 0⟩
          | .error error => .error ⟨error, Text.utf8Length text⟩

/-- The element tree of a text is the one of its events. -/
theorem Element.ofText_eq_ofEvents (text : List Char) :
    Element.ofText text = Element.ofEvents text (readEvents [] false (withoutMark text)).1
      (readEvents [] false (withoutMark text)).2 :=
  rfl

/-- A document whose reading ended with an error has no element tree. -/
theorem Element.exists_error_of_failure (text : List Char) (events : List (Located Event))
    (failure : Failure) :
    ∃ malformed, Element.ofEvents text events (some failure) = .error malformed := by
  unfold Element.ofEvents
  split <;> exact ⟨_, rfl⟩

/-- What an error says about the events that it is reported for. -/
def Explains (events : List Event) : Error → Prop
  | .noRoot => topElements 0 events = 0
  | .unclosedElement _ => depthAfter 0 events ≠ 0
  | .secondRoot => 2 ≤ topElements 0 events
  | _ => False

/-- What comes of events: the one complete element if no other is open, otherwise an error that
explains itself. -/
theorem ofEvents_of_split (text : List Char) {events : List (Located Event)} {items : List Item}
    {opens : List Unclosed}
    (h : events.map Located.value = Item.eventsOfAll items ++ Unclosed.eventsOfAll opens) :
    (∃ root, Item.elementsOf items = [root] ∧ opens = [] ∧
      Element.ofEvents text events none = .ok root) ∨
    ((Item.elementsOf items).length ≠ 1 ∨ opens ≠ []) ∧
      ∃ malformed, Element.ofEvents text events none = .error malformed ∧
        Explains (events.map Located.value) malformed.error := by
  have htop := topElements_of_split h
  have hdepth := depthAfter_of_split h
  have htake := take_of_split h
  unfold Element.ofEvents
  match helements : Item.elementsOf items with
  | [] =>
      rw [helements] at htake htop
      rw [Progress.run_of_take htake]
      refine Or.inr ⟨Or.inl (by simp), ?_⟩
      cases opens with
      | nil => exact ⟨_, rfl, htop⟩
      | cons innermost outer => exact ⟨_, rfl, by simp [Explains, hdepth]⟩
  | [root] =>
      rw [helements] at htake
      rw [Progress.run_of_take htake]
      cases opens with
      | nil => exact Or.inl ⟨root, rfl, rfl, rfl⟩
      | cons innermost outer =>
          exact Or.inr ⟨Or.inr (by simp), _, rfl, by simp [Explains, hdepth]⟩
  | first :: second :: rest =>
      rw [helements] at htake htop
      obtain ⟨remaining, hrun⟩ := Progress.exists_run_of_take_eq_none htake
      rw [hrun]
      refine Or.inr ⟨Or.inl (by simp), _, rfl, ?_⟩
      simp only [Explains, htop, List.length_cons]
      omega

/-- The element that comes of events is the tree that they come from. -/
theorem ofEvents_eq_ok_iff (text : List Char) {events : List (Located Event)} {root : Element}
    (h : EndsMatched 0 (events.map Located.value)) :
    Element.ofEvents text events none = .ok root ↔
      ∃ items, events.map Located.value = Item.eventsOfAll items ∧
        Item.elementsOf items = [root] := by
  have hcomplete : ∀ {items : List Item}, events.map Located.value = Item.eventsOfAll items →
      events.map Located.value = Item.eventsOfAll items ++ Unclosed.eventsOfAll [] :=
    fun hitems => hitems.trans (List.append_nil _).symm
  constructor
  · intro hok
    obtain ⟨items, opens, hsplit⟩ := exists_split h
    rcases ofEvents_of_split text hsplit with ⟨other, helements, rfl, hother⟩ |
      ⟨-, malformed, herror, -⟩
    · rw [hok] at hother
      rw [← Except.ok.inj hother] at helements
      exact ⟨items, hsplit.trans (List.append_nil _), helements⟩
    · rw [hok] at herror
      cases herror
  · rintro ⟨items, hitems, helements⟩
    rcases ofEvents_of_split text (hcomplete hitems) with ⟨other, hother, -, hok⟩ | ⟨hnone, -⟩
    · rw [helements] at hother
      rw [hok, (List.cons.inj hother).1]
    · rw [helements] at hnone
      simp at hnone

/-- An element tree comes of events exactly if one element stands at the top and none is open. -/
theorem exists_ofEvents_eq_ok_iff (text : List Char) {events : List (Located Event)}
    (h : EndsMatched 0 (events.map Located.value)) :
    (∃ root, Element.ofEvents text events none = .ok root) ↔
      topElements 0 (events.map Located.value) = 1 ∧
        depthAfter 0 (events.map Located.value) = 0 := by
  obtain ⟨items, opens, hsplit⟩ := exists_split h
  rw [topElements_of_split hsplit, depthAfter_of_split hsplit]
  rcases ofEvents_of_split text hsplit with ⟨root, helements, rfl, hok⟩ |
    ⟨hnone, malformed, herror, -⟩
  · simp [helements, hok]
  · have hneither : ¬ ((Item.elementsOf items).length + (if opens = [] then 0 else 1) = 1 ∧
        opens.length = 0) := by
      rintro ⟨htop, hopens⟩
      rw [List.length_eq_zero_iff] at hopens
      rw [if_pos hopens] at htop
      rcases hnone with hnone | hnone
      · exact hnone htop
      · exact hnone hopens
    simp only [herror, hneither, iff_false]
    rintro ⟨root, hok⟩
    cases hok

/-! ## The events of texts -/

/-- An end tag is read where an element is open, and as many full names are left as elements are
open after the event of a construct. -/
theorem endsMatched_matchTags {names names' : List (List Char)} {remaining : List Char}
    {construct : Construct} {event? : Option Event}
    (hmatch : matchTags names remaining construct = .ok names')
    (hevent : eventOf construct = .ok event?) :
    EndsMatched names.length event?.toList ∧
      depthAfter names.length event?.toList = names'.length := by
  cases construct with
  | opening content closed =>
      simp only [eventOf] at hevent
      split at hevent
      · cases hevent
      · rw [← Except.ok.inj hevent]
        cases closed <;> rw [← Except.ok.inj hmatch] <;>
          simp [EndsMatched, depthAfter, Event.depthAfter]
  | closing name =>
      rw [← Except.ok.inj hevent]
      simp only [matchTags] at hmatch
      split at hmatch
      · cases hmatch
      · split at hmatch
        · rw [← Except.ok.inj hmatch]
          simp [EndsMatched, depthAfter, Event.depthAfter]
        · cases hmatch
  | text raw =>
      rw [← Except.ok.inj hmatch]
      simp only [eventOf] at hevent
      split at hevent
      · cases hevent
      · rw [← Except.ok.inj hevent]
        simp [EndsMatched, depthAfter, Event.depthAfter]
  | characterData text =>
      rw [← Except.ok.inj hmatch, ← Except.ok.inj hevent]
      simp [EndsMatched, depthAfter, Event.depthAfter]
  | ignored =>
      rw [← Except.ok.inj hmatch, ← Except.ok.inj hevent]
      simp [EndsMatched, depthAfter]

/-- In the events of every text each end tag stands where an element is open. -/
theorem endsMatched_readEvents (names : List (List Char)) (inside : Bool) (text : List Char) :
    EndsMatched names.length ((readEvents names inside text).1.map Located.value) := by
  fun_induction readEvents names inside text with
  | case1 => trivial
  | case2 => trivial
  | case3 => trivial
  | case4 => trivial
  | case5 names inside text construct rest inside' hread names' hmatch event? hevent following ih =>
      obtain ⟨hfirst, hlength⟩ := endsMatched_matchTags hmatch hevent
      have hvalue : (event?.map (⟨·, beginning inside text⟩ : Event → Located Event)).toList.map
          Located.value = event?.toList := by
        cases event? <;> rfl
      rw [List.map_append, endsMatched_append, hvalue, hlength]
      exact ⟨hfirst, ih⟩

/-- A text has the element tree that its events come from, if all of it can be read. -/
theorem Element.ofText_eq_ok_iff (text : List Char) {root : Element} :
    Element.ofText text = .ok root ↔
      (readEvents [] false (withoutMark text)).2 = none ∧
        ∃ items, (readEvents [] false (withoutMark text)).1.map Located.value =
            Item.eventsOfAll items ∧ Item.elementsOf items = [root] := by
  have hmatched := endsMatched_readEvents [] false (withoutMark text)
  rw [Element.ofText_eq_ofEvents, ← ofEvents_eq_ok_iff text hmatched]
  cases hfailure : (readEvents [] false (withoutMark text)).2 with
  | none => simp
  | some failure =>
      obtain ⟨malformed, herror⟩ := Element.exists_error_of_failure text
        (readEvents [] false (withoutMark text)).1 failure
      simp [herror]

/-- Where every end tag stands inside of an element, events give an element tree exactly if one
element stands at the top and none is open.  The tree is the one that the events come from, with the
children and the attributes of every element in order and its text put together from the texts
directly inside.  Otherwise an error says what is wrong.  The events of every text are such events,
and the text has the element tree that they give if all of it can be read. -/
theorem ofEvents_of_endsMatched :
    (∀ (text : List Char) (events : List (Located Event)),
      EndsMatched 0 (events.map Located.value) →
        ((∃ root, Element.ofEvents text events none = .ok root) ↔
          topElements 0 (events.map Located.value) = 1 ∧
            depthAfter 0 (events.map Located.value) = 0) ∧
        (∀ root, Element.ofEvents text events none = .ok root ↔
          ∃ items, events.map Located.value = Item.eventsOfAll items ∧
            Item.elementsOf items = [root]) ∧
        (¬ (∃ root, Element.ofEvents text events none = .ok root) →
          ∃ malformed, Element.ofEvents text events none = .error malformed ∧
            Explains (events.map Located.value) malformed.error)) ∧
    ∀ text : List Char,
      EndsMatched 0 ((readEvents [] false (withoutMark text)).1.map Located.value) ∧
      ∀ root, Element.ofText text = .ok root ↔
        (readEvents [] false (withoutMark text)).2 = none ∧
          ∃ items, (readEvents [] false (withoutMark text)).1.map Located.value =
              Item.eventsOfAll items ∧ Item.elementsOf items = [root] := by
  constructor
  · intro text events h
    refine ⟨exists_ofEvents_eq_ok_iff text h, fun root => ofEvents_eq_ok_iff text h, ?_⟩
    intro hnone
    obtain ⟨items, opens, hsplit⟩ := exists_split h
    rcases ofEvents_of_split text hsplit with ⟨root, -, -, hok⟩ | ⟨-, herror⟩
    · exact absurd ⟨root, hok⟩ hnone
    · exact herror
  · intro text
    exact ⟨endsMatched_readEvents [] false (withoutMark text), fun root =>
      Element.ofText_eq_ok_iff text⟩

/-- The events of an element with texts around another element, between texts. -/
def nestedEvents : List (Located Event) :=
  [⟨.text "before", []⟩, ⟨.opening "Project" [("Sdk", "s"), ("x", "1")], []⟩, ⟨.text "a", []⟩,
    ⟨.single "Compile" [("Include", "*.cs")], []⟩, ⟨.text "b", []⟩, ⟨.closing, []⟩,
    ⟨.text "after", []⟩]

/-- The same events with one more element behind them. -/
def twoRoots : List (Located Event) :=
  nestedEvents ++ [⟨.single "Project" [], []⟩]

/-- Events with texts and an element inside of another one give their tree, and with one more
element at the top they give an error. -/
theorem ofEvents_of_endsMatched_nested :
    EndsMatched 0 (nestedEvents.map Located.value) ∧
    Element.ofEvents [] nestedEvents none = .ok (.mk "Project" [("Sdk", "s"), ("x", "1")]
      [.mk "Compile" [("Include", "*.cs")] [] ""] "ab") ∧
    EndsMatched 0 (twoRoots.map Located.value) ∧
    ∃ malformed, Element.ofEvents [] twoRoots none = .error malformed := by
  have hmatched : EndsMatched 0 (nestedEvents.map Located.value) := by
    simp [nestedEvents, EndsMatched, Event.depthAfter]
  have hmore : EndsMatched 0 (twoRoots.map Located.value) := by
    simp [twoRoots, nestedEvents, EndsMatched, Event.depthAfter]
  obtain ⟨-, htree, -⟩ := ofEvents_of_endsMatched.1 [] nestedEvents hmatched
  obtain ⟨hexists, -, herror⟩ := ofEvents_of_endsMatched.1 [] twoRoots hmore
  refine ⟨hmatched, (htree _).2 ⟨[.text "before", .paired "Project" [("Sdk", "s"), ("x", "1")]
    [.text "a", .single "Compile" [("Include", "*.cs")], .text "b"], .text "after"], ?_, ?_⟩,
    hmore, ?_⟩
  · simp [nestedEvents, Item.eventsOfAll, Item.events]
  · simp [Item.elementsOf, Item.element?, Item.textOf, Item.directText]
  · obtain ⟨malformed, hmalformed, -⟩ := herror fun hok => absurd (hexists.1 hok).1 (by decide)
    exact ⟨malformed, hmalformed⟩

end Markup
end ProjectAssembler
