import ProjectAssembler.Proofs.FirstOccurrences
import ProjectAssembler.Settings.Config

/-!
# Merged configurations

A later configuration replaces the paths that it gives and adds the symbols that are new.  So it
makes no difference which of several configurations are merged first, and what they say together is
the last path that one of them gives and each of their symbols at its first occurrence.

Main definition: `Config.SumsUp`.

Main results:

* `Config.foldl_addSymbol_assoc`: symbols added in two steps;
* `Config.firstOccurrences_foldl_addSymbol`: symbols added one after the other;
* `Config.merge_assoc_self_mergeAll`: the laws of merging.
-/

namespace ProjectAssembler
namespace Config

/-! ## Symbols -/

/-- Symbols that are all present add nothing. -/
theorem foldl_addSymbol_of_subset {added symbols : List String}
    (h : ∀ symbol ∈ added, symbol ∈ symbols) : added.foldl addSymbol symbols = symbols := by
  induction added with
  | nil => rfl
  | cons symbol rest ih =>
      obtain ⟨hsymbol, hrest⟩ := List.forall_mem_cons.1 h
      rw [List.foldl_cons, addSymbol, if_pos hsymbol]
      exact ih hrest

/-- Symbols to which one has been added are added like themselves and then that one. -/
theorem foldl_addSymbol_addSymbol (symbols added : List String) (symbol : String) :
    (addSymbol added symbol).foldl addSymbol symbols =
      addSymbol (added.foldl addSymbol symbols) symbol := by
  by_cases hpresent : symbol ∈ added
  · have hfold : symbol ∈ added.foldl addSymbol symbols :=
      mem_foldl_addSymbol.2 (Or.inr hpresent)
    rw [addSymbol, if_pos hpresent, addSymbol, if_pos hfold]
  · rw [addSymbol, if_neg hpresent, List.foldl_append]
    rfl

/-- Symbols may be added one list after the other, or what they make together. -/
theorem foldl_addSymbol_assoc (first second third : List String) :
    third.foldl addSymbol (second.foldl addSymbol first) =
      (third.foldl addSymbol second).foldl addSymbol first := by
  induction third generalizing second with
  | nil => rfl
  | cons symbol rest ih =>
      rw [List.foldl_cons, List.foldl_cons, ← ih, foldl_addSymbol_addSymbol]

/-- Symbols that are added one after the other are listed at their first occurrences. -/
theorem firstOccurrences_foldl_addSymbol (symbols : List String) :
    FirstOccurrences id symbols (symbols.foldl addSymbol []) := by
  induction symbols using List.reverseRecOn with
  | nil => exact FirstOccurrences.nil
  | append_singleton before symbol ih =>
      rw [List.foldl_append, List.foldl_cons, List.foldl_nil, addSymbol]
      split
      · rename_i hpresent
        exact ih.snoc_known ⟨symbol, hpresent, rfl⟩
      · rename_i hnew
        refine ih.snoc_new fun other hother heq => hnew ?_
        rwa [← show other = symbol from heq]

/-! ## Configurations -/

/-- Whether a configuration is what others say together: the last of the paths that are given, and
each of the symbols once, in the order of their first occurrences. -/
structure SumsUp (configs : List Config) (config : Config) : Prop where
  packageRoot : config.packageRoot = (configs.filterMap (·.packageRoot)).getLast?
  frameworkDirectory :
    config.frameworkDirectory = (configs.filterMap (·.frameworkDirectory)).getLast?
  define : FirstOccurrences id (configs.flatMap (·.define)) config.define
  nodup : config.define.Nodup

theorem merge_assoc (first second third : Config) :
    (first.merge second).merge third = first.merge (second.merge third) := by
  simp only [merge, Option.or_assoc, foldl_addSymbol_assoc]

theorem merge_self (config : Config) : config.merge config = config := by
  have hdefine : config.define.foldl addSymbol config.define = config.define :=
    foldl_addSymbol_of_subset fun _ => id
  simp only [merge, Option.or_self, hdefine]

theorem mergeAll_snoc (before : List Config) (last : Config) :
    mergeAll (before ++ [last]) = (mergeAll before).merge last := by
  rw [mergeAll, List.foldl_append]
  rfl

/-- Of the values that are given one after the other, the last one is that of the last
configuration, or of those before it if that gives none. -/
theorem getLast?_filterMap_snoc {α : Type} (field : Config → Option α) (before : List Config)
    (last : Config) : ((before ++ [last]).filterMap field).getLast? =
      (field last).or (before.filterMap field).getLast? := by
  cases hlast : field last <;> simp [List.filterMap_append, hlast]

/-- The symbols of merged configurations are added one after the other. -/
theorem define_mergeAll (configs : List Config) :
    (mergeAll configs).define = (configs.flatMap (·.define)).foldl addSymbol [] := by
  induction configs using List.reverseRecOn with
  | nil => rfl
  | append_singleton before last ih =>
      rw [mergeAll_snoc, merge, ih, List.flatMap_append, List.foldl_append, List.flatMap_singleton]

theorem sumsUp_mergeAll (configs : List Config) : SumsUp configs (mergeAll configs) := by
  have hpaths :
      (mergeAll configs).packageRoot = (configs.filterMap (·.packageRoot)).getLast? ∧
        (mergeAll configs).frameworkDirectory =
          (configs.filterMap (·.frameworkDirectory)).getLast? := by
    induction configs using List.reverseRecOn with
    | nil => exact ⟨rfl, rfl⟩
    | append_singleton before last ih =>
        rw [mergeAll_snoc, getLast?_filterMap_snoc, getLast?_filterMap_snoc, ← ih.1, ← ih.2]
        exact ⟨rfl, rfl⟩
  have hdefine : FirstOccurrences id (configs.flatMap (·.define)) (mergeAll configs).define := by
    rw [define_mergeAll]
    exact firstOccurrences_foldl_addSymbol _
  exact ⟨hpaths.1, hpaths.2, hdefine, List.map_id (mergeAll configs).define ▸ hdefine.nodup⟩

/-- Merging is associative and idempotent.  Configurations that are merged one after the other into
the one that says nothing give the last package root and the last framework directory that is
present, and each of their symbols once, in the order of the first occurrences. -/
theorem merge_assoc_self_mergeAll :
    (∀ first second third : Config,
      (first.merge second).merge third = first.merge (second.merge third)) ∧
    (∀ config : Config, config.merge config = config) ∧
    ∀ configs : List Config, SumsUp configs (configs.foldl merge empty) :=
  ⟨merge_assoc, merge_self, sumsUp_mergeAll⟩

end Config
end ProjectAssembler
