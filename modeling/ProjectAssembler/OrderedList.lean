/-!
# Ordered lists without repetition

Sets whose order an answer shows are kept as ascending lists.  This module inserts into such a list
under a given comparison; an element equal to a present one is not added again.

Main results:

* `OrderedList.mem_of_mem_insert`, `OrderedList.mem_insert_of_mem`: insertion loses nothing and adds
  nothing else than the element;
* `OrderedList.mem_insert_iff`: what a list holds after an insertion;
* `OrderedList.length_insert_le`: an insertion adds at most one element.
-/

namespace ProjectAssembler

/-- Insert into an ascending list; an equal element that is present stays and nothing is added. -/
def OrderedList.insert {α : Type} (order : α → α → Ordering) (a : α) : List α → List α
  | [] => [a]
  | b :: rest =>
      match order a b with
      | .lt => a :: b :: rest
      | .eq => b :: rest
      | .gt => b :: OrderedList.insert order a rest

/-- The ascending list of the elements of a list, each once. -/
def OrderedList.ofList {α : Type} (order : α → α → Ordering) (elements : List α) : List α :=
  elements.foldl (fun set a => OrderedList.insert order a set) []

@[simp]
theorem OrderedList.insert_nil {α : Type} (order : α → α → Ordering) (a : α) :
    OrderedList.insert order a [] = [a] :=
  rfl

/-- Members of an insertion were members before or are the element inserted. -/
theorem OrderedList.mem_of_mem_insert {α : Type} {order : α → α → Ordering} {a b : α}
    {elements : List α} (h : b ∈ OrderedList.insert order a elements) : b = a ∨ b ∈ elements := by
  induction elements with
  | nil => simpa using h
  | cons c rest ih =>
      unfold OrderedList.insert at h
      split at h
      · simpa using h
      · exact Or.inr h
      · rcases List.mem_cons.1 h with rfl | h
        · simp
        · rcases ih h with h | h <;> simp [h]

/-- Insertion loses nothing. -/
theorem OrderedList.mem_insert_of_mem {α : Type} {order : α → α → Ordering} {a b : α}
    {elements : List α} (h : b ∈ elements) : b ∈ OrderedList.insert order a elements := by
  induction elements with
  | nil => simp at h
  | cons c rest ih =>
      unfold OrderedList.insert
      split
      · exact List.mem_cons_of_mem _ h
      · exact h
      · rcases List.mem_cons.1 h with rfl | h
        · simp
        · exact List.mem_cons_of_mem _ (ih h)

/-- Where only equal elements compare equal, the inserted element is present after an insertion. -/
theorem OrderedList.mem_insert_self {α : Type} {order : α → α → Ordering} [Std.LawfulEqCmp order]
    (a : α) (elements : List α) : a ∈ OrderedList.insert order a elements := by
  induction elements with
  | nil => exact List.mem_singleton_self a
  | cons c rest ih =>
      unfold OrderedList.insert
      split
      · exact List.mem_cons_self
      · rename_i heq
        rw [Std.LawfulEqCmp.eq_of_compare heq]
        exact List.mem_cons_self
      · exact List.mem_cons_of_mem c ih

/-- Where only equal elements compare equal, an insertion adds its element to the members. -/
theorem OrderedList.mem_insert_iff {α : Type} {order : α → α → Ordering} [Std.LawfulEqCmp order]
    {a b : α} {elements : List α} :
    b ∈ OrderedList.insert order a elements ↔ b = a ∨ b ∈ elements := by
  refine ⟨OrderedList.mem_of_mem_insert, ?_⟩
  rintro (rfl | h)
  · exact OrderedList.mem_insert_self b elements
  · exact OrderedList.mem_insert_of_mem h

/-- An insertion adds at most one element. -/
theorem OrderedList.length_insert_le {α : Type} (order : α → α → Ordering) (a : α)
    (elements : List α) :
    (OrderedList.insert order a elements).length ≤ elements.length + 1 := by
  induction elements with
  | nil => simp
  | cons c rest ih =>
      unfold OrderedList.insert
      split <;> simp_all

end ProjectAssembler
