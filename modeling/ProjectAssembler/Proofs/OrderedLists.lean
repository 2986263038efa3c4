import Mathlib.Data.List.Sort
import ProjectAssembler.OrderedList

/-!
# Ascending lists as sets

Insertion keeps a list ascending, and an ascending list holds no two elements that compare equal.
Two ascending lists with the same members are therefore the same list, whatever the order in which
their elements were inserted.

Main definition: `OrderedList.Ascending`.

Main results:

* `OrderedList.ascending_insert`: insertion keeps a list ascending;
* `OrderedList.exists_eq_insert`: an inserted element is present up to the order's equality;
* `OrderedList.length_insert_eq_iff`: when an insertion adds nothing;
* `OrderedList.Ascending.eq_of_mem_iff`: ascending lists with the same members are equal;
* `OrderedList.mem_ofList_iff`: what an ascending list of given elements holds.
-/

namespace ProjectAssembler
namespace OrderedList

variable {α : Type} {order : α → α → Ordering}

/-- Every element comes strictly before all that follow it. -/
def Ascending (order : α → α → Ordering) (elements : List α) : Prop :=
  elements.Pairwise fun a b => order a b = .lt

@[simp]
theorem ascending_nil : Ascending order [] :=
  List.Pairwise.nil

/-- Insertion keeps a list ascending. -/
theorem ascending_insert [Std.TransCmp order] {a : α} {elements : List α}
    (h : Ascending order elements) : Ascending order (insert order a elements) := by
  induction elements with
  | nil => exact List.pairwise_singleton _ _
  | cons b rest ih =>
      obtain ⟨hb, hrest⟩ := List.pairwise_cons.1 h
      unfold OrderedList.insert
      split
      · rename_i hlt
        apply List.pairwise_cons.2
        refine ⟨?_, h⟩
        intro c hc
        rcases List.mem_cons.1 hc with rfl | hc
        · exact hlt
        · exact Std.TransCmp.lt_trans hlt (hb c hc)
      · exact h
      · rename_i hgt
        apply List.pairwise_cons.2
        refine ⟨?_, ih hrest⟩
        intro c hc
        rcases mem_of_mem_insert hc with rfl | hc
        · exact Std.OrientedCmp.lt_of_gt hgt
        · exact hb c hc

/-- The ascending list of any elements is ascending. -/
theorem ascending_ofList [Std.TransCmp order] (elements : List α) :
    Ascending order (ofList order elements) := by
  have hfold : ∀ set : List α, Ascending order set →
      Ascending order (elements.foldl (fun set a => insert order a set) set) := by
    induction elements with
    | nil => exact fun _ hset => hset
    | cons a rest ih => exact fun set hset => ih _ (ascending_insert hset)
  exact hfold [] ascending_nil

/-- After an insertion some element compares equal to the inserted one. -/
theorem exists_eq_insert [Std.TransCmp order] (a : α) (elements : List α) :
    ∃ b ∈ insert order a elements, order b a = .eq := by
  induction elements with
  | nil => exact ⟨a, by simp, Std.ReflCmp.compare_self⟩
  | cons b rest ih =>
      unfold OrderedList.insert
      split
      · exact ⟨a, by simp, Std.ReflCmp.compare_self⟩
      · rename_i heq
        exact ⟨b, by simp, Std.OrientedCmp.eq_symm heq⟩
      · obtain ⟨c, hc, heq⟩ := ih
        exact ⟨c, List.mem_cons_of_mem _ hc, heq⟩

/-- An insertion adds nothing exactly if some element of the ascending list compares equal. -/
theorem length_insert_eq_iff [Std.TransCmp order] {a : α} {elements : List α}
    (h : Ascending order elements) :
    (insert order a elements).length = elements.length ↔ ∃ b ∈ elements, order a b = .eq := by
  induction elements with
  | nil => simp
  | cons b rest ih =>
      obtain ⟨hb, hrest⟩ := List.pairwise_cons.1 h
      cases hab : order a b with
      | lt =>
          have hnone : ∀ c ∈ rest, ¬ order a c = .eq := by
            intro c hc heq
            rw [Std.TransCmp.lt_trans hab (hb c hc)] at heq
            cases heq
          simpa [insert, hab] using hnone
      | eq => simp [insert, hab]
      | gt => simp [insert, hab, ih hrest]

/-- Ascending lists with the same members are equal. -/
theorem Ascending.eq_of_mem_iff [Std.TransCmp order] {first second : List α}
    (hfirst : Ascending order first) (hsecond : Ascending order second)
    (h : ∀ a, a ∈ first ↔ a ∈ second) : first = second := by
  have hasymm : Std.Asymm fun a b => order a b = .lt :=
    ⟨fun a b hab hba => Std.OrientedCmp.not_lt_of_lt hab hba⟩
  exact List.Pairwise.eq_of_mem_iff hfirst hsecond h

/-! ## Elements that are compared alike -/

/-- Insertion looks at elements only by comparing them. -/
theorem insert_map {β : Type} {other : β → β → Ordering} {f : α → β}
    (h : ∀ a b, other (f a) (f b) = order a b) (a : α) (elements : List α) :
    insert other (f a) (elements.map f) = (insert order a elements).map f := by
  induction elements with
  | nil => rfl
  | cons b rest ih =>
      rw [List.map_cons, OrderedList.insert, OrderedList.insert, h]
      cases order a b with
      | lt => rfl
      | eq => rfl
      | gt => rw [ih]; rfl

/-- So does making an ascending list. -/
theorem ofList_map {β : Type} {other : β → β → Ordering} {f : α → β}
    (h : ∀ a b, other (f a) (f b) = order a b) (elements : List α) :
    ofList other (elements.map f) = (ofList order elements).map f := by
  have hfold : ∀ set : List α,
      (elements.map f).foldl (fun set b => insert other b set) (set.map f) =
        (elements.foldl (fun set a => insert order a set) set).map f := by
    induction elements with
    | nil => exact fun _ => rfl
    | cons a rest ih =>
        intro set
        rw [List.map_cons, List.foldl_cons, List.foldl_cons, insert_map h, ih]
  exact hfold []

/-- Where no two elements compare equal, an ascending list of them holds all of them. -/
theorem mem_ofList_iff [Std.TransCmp order] {elements : List α}
    (h : ∀ a ∈ elements, ∀ b ∈ elements, order a b = .eq → a = b) {a : α} :
    a ∈ ofList order elements ↔ a ∈ elements := by
  have hfold : ∀ set : List α,
      (∀ a ∈ set ++ elements, ∀ b ∈ set ++ elements, order a b = .eq → a = b) →
        (a ∈ elements.foldl (fun set b => insert order b set) set ↔ a ∈ set ++ elements) := by
    clear h
    induction elements with
    | nil => simp
    | cons b rest ih =>
        intro set hset
        have hinsert : ∀ c, c ∈ insert order b set ↔ c ∈ set ++ [b] := by
          intro c
          rw [List.mem_append, List.mem_singleton]
          refine ⟨fun hc => (mem_of_mem_insert hc).symm, ?_⟩
          rintro (hc | rfl)
          · exact mem_insert_of_mem hc
          · obtain ⟨d, hd, heq⟩ : ∃ d ∈ insert order c set, order d c = .eq :=
              exists_eq_insert c set
            have hmem : d ∈ set ++ c :: rest := by
              rcases mem_of_mem_insert hd with rfl | hd
              · exact List.mem_append_right set List.mem_cons_self
              · exact List.mem_append_left _ hd
            rwa [hset d hmem c (List.mem_append_right set List.mem_cons_self) heq] at hd
        have hsame : ∀ c, c ∈ insert order b set ++ rest ↔ c ∈ set ++ b :: rest := by
          intro c
          simp [hinsert, or_assoc]
        rw [List.foldl_cons, ih (insert order b set), hsame]
        intro c hc d hd
        exact hset c ((hsame c).1 hc) d ((hsame d).1 hd)
  exact hfold [] h

end OrderedList
end ProjectAssembler
