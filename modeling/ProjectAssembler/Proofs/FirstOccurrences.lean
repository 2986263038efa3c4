import Mathlib.Data.List.Nodup
import Mathlib.Data.Finset.Card

/-!
# First occurrences

A list that is collected without repetitions keeps, of all elements with one key, the one that
occurs first, in the order in which these first ones occur.  It grows by an element only where no
element with the same key is listed yet.

Main definition: `FirstOccurrences`.

Main results:

* `FirstOccurrences.snoc_known` and `FirstOccurrences.snoc_new`: one more element;
* `FirstOccurrences.nodup` and `FirstOccurrences.card_toFinset`: each key is listed once.
-/

namespace ProjectAssembler

variable {α κ : Type} [DecidableEq κ] {key : α → κ} {all listed : List α}

/-- Whether a list holds the first occurrences by a key in another one: every listed element is the
first with its key, each key is listed, and what is listed first occurs first. -/
structure FirstOccurrences (key : α → κ) (all listed : List α) : Prop where
  first : ∀ a ∈ listed, all.find? (fun b => key b = key a) = some a
  complete : ∀ a ∈ all, ∃ b ∈ listed, key b = key a
  ordered : listed.Pairwise fun a b => (all.map key).idxOf (key a) < (all.map key).idxOf (key b)

namespace FirstOccurrences

theorem nil : FirstOccurrences key [] [] :=
  ⟨nofun, nofun, List.Pairwise.nil⟩

/-- What is listed occurs. -/
theorem mem (h : FirstOccurrences key all listed) {a : α} (ha : a ∈ listed) : a ∈ all :=
  List.mem_of_find?_eq_some (h.first a ha)

/-- Behind all others an element makes no difference to where the listed ones occur first. -/
theorem ordered_append (h : FirstOccurrences key all listed) (more : List α) :
    listed.Pairwise fun a b =>
      ((all ++ more).map key).idxOf (key a) < ((all ++ more).map key).idxOf (key b) := by
  have hidx : ∀ a ∈ listed,
      ((all ++ more).map key).idxOf (key a) = (all.map key).idxOf (key a) := by
    intro a ha
    rw [List.map_append, List.idxOf_append_of_mem (List.mem_map_of_mem (h.mem ha))]
  refine h.ordered.imp_of_mem fun {a b} ha hb hlt => ?_
  rwa [hidx a ha, hidx b hb]

/-- An element with a key that is listed adds nothing. -/
theorem snoc_known (h : FirstOccurrences key all listed) {a : α}
    (hknown : ∃ b ∈ listed, key b = key a) : FirstOccurrences key (all ++ [a]) listed where
  first b hb := by rw [List.find?_append, h.first b hb, Option.some_or]
  complete b hb := by
    rcases List.mem_append.1 hb with hb | hb
    · exact h.complete b hb
    · rwa [List.mem_singleton.1 hb]
  ordered := h.ordered_append [a]

/-- An element with a key that is not listed comes last. -/
theorem snoc_new (h : FirstOccurrences key all listed) {a : α}
    (hnew : ∀ b ∈ listed, key b ≠ key a) :
    FirstOccurrences key (all ++ [a]) (listed ++ [a]) := by
  have hnone : ∀ b ∈ all, key b ≠ key a := by
    intro b hb heq
    obtain ⟨c, hc, hkey⟩ := h.complete b hb
    exact hnew c hc (hkey.trans heq)
  constructor
  · intro b hb
    rcases List.mem_append.1 hb with hb | hb
    · rw [List.find?_append, h.first b hb, Option.some_or]
    · obtain rfl := List.mem_singleton.1 hb
      have hbefore : all.find? (fun c => key c = key b) = none := by simpa using hnone
      simp [List.find?_append, hbefore]
  · intro b hb
    rcases List.mem_append.1 hb with hb | hb
    · obtain ⟨c, hc, hkey⟩ := h.complete b hb
      exact ⟨c, List.mem_append_left _ hc, hkey⟩
    · exact ⟨b, List.mem_append_right _ hb, rfl⟩
  · refine List.pairwise_append.2 ⟨h.ordered_append [a], List.pairwise_singleton _ _, ?_⟩
    intro b hb c hc
    obtain rfl := List.mem_singleton.1 hc
    have hlast : key c ∉ all.map key := by simpa using hnone
    rw [List.map_append, List.idxOf_append_of_mem (List.mem_map_of_mem (h.mem hb)),
      List.idxOf_append_of_notMem hlast]
    exact Nat.lt_add_right _ (List.idxOf_lt_length_of_mem (List.mem_map_of_mem (h.mem hb)))

/-- No key is listed twice. -/
theorem nodup (h : FirstOccurrences key all listed) : (listed.map key).Nodup := by
  refine List.pairwise_map.2 (h.ordered.imp fun {a b} hlt heq => ?_)
  rw [heq] at hlt
  exact Nat.lt_irrefl _ hlt

/-- As many elements are listed as there are keys. -/
theorem card_toFinset (h : FirstOccurrences key all listed) :
    (all.map key).toFinset.card = listed.length := by
  have hkeys : (all.map key).toFinset = (listed.map key).toFinset := by
    ext k
    simp only [List.mem_toFinset, List.mem_map]
    constructor
    · rintro ⟨a, ha, rfl⟩
      exact h.complete a ha
    · rintro ⟨a, ha, rfl⟩
      exact ⟨a, h.mem ha, rfl⟩
  rw [hkeys, List.toFinset_card_of_nodup h.nodup, List.length_map]

end FirstOccurrences
end ProjectAssembler
