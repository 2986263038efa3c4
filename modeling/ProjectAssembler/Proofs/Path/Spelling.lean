import ProjectAssembler.FileSystem.Resolve
import ProjectAssembler.Path.Lexical

/-!
# Paths that are spelled in normal form

Two paths denote the same place when their components agree, whatever their texts.  A path that is
spelled from proper names alone has only one text for its components, so such paths are the same
only when they are equal.

Main definitions:

* `Path.IsName`: what the name of an entry may be;
* `Path.IsCanonical`: a path spelled from names that lead from the root;
* `Path.IsNormal`: a canonical path, or names that lead from an unknown place.

Main results:

* `Path.components_ofNames`: names are the components of the path spelled from them;
* `Path.IsNormal.eq_of_same`: normal paths with the same components are equal;
* `Path.isNormal_lexicalNormal`: the lexical normal form is normal.
-/

namespace ProjectAssembler

/-! ## Cutting at separators -/

/-- Cutting a text at a separator is the library's cutting. -/
theorem Text.splitOn_eq (separator : Char) (text : List Char) :
    Text.splitOn separator text = text.splitOn separator := by
  induction text with
  | nil => simp [Text.splitOn]
  | cons c text ih =>
      rw [Text.splitOn, List.splitOn_cons_eq_if_modifyHead, ih]
      by_cases hc : c = separator
      · simp [hc]
      · have hfalse : (c == separator) = false := by simpa using hc
        simp only [hc, hfalse, if_false, Bool.false_eq_true]
        cases hparts : text.splitOn separator with
        | nil => exact absurd hparts (List.splitOn_ne_nil separator text)
        | cons part parts => rfl

/-- A part between separators holds no separator. -/
theorem Text.not_mem_of_mem_splitOn {separator : Char} {text part : List Char}
    (h : part ∈ Text.splitOn separator text) : separator ∉ part := by
  induction text generalizing part with
  | nil =>
      have hnil : part = [] := by simpa [Text.splitOn] using h
      simp [hnil]
  | cons c text ih =>
      unfold Text.splitOn at h
      split at h
      · rcases List.mem_cons.1 h with rfl | h
        · simp
        · exact ih h
      · rename_i hc
        split at h
        · have hsingle : part = [c] := by simpa using h
          simp [hsingle, Ne.symm hc]
        · rename_i first parts hparts
          rw [hparts] at ih
          rcases List.mem_cons.1 h with rfl | h
          · have hfirst : separator ∉ first := ih (by simp)
            simp [hfirst, Ne.symm hc]
          · exact ih (List.mem_cons_of_mem _ h)

/-- A part between separators consists of characters of the text. -/
theorem Text.subset_of_mem_splitOn {separator : Char} {text part : List Char}
    (h : part ∈ Text.splitOn separator text) : part ⊆ text := by
  induction text generalizing part with
  | nil =>
      have hnil : part = [] := by simpa [Text.splitOn] using h
      simp [hnil]
  | cons c text ih =>
      unfold Text.splitOn at h
      split at h
      · rcases List.mem_cons.1 h with rfl | h
        · exact List.nil_subset _
        · exact List.subset_cons_of_subset c (ih h)
      · split at h
        · have hsingle : part = [c] := by simpa using h
          simp [hsingle]
        · rename_i first parts hparts
          rw [hparts] at ih
          rcases List.mem_cons.1 h with rfl | h
          · exact List.cons_subset_cons c (ih List.mem_cons_self)
          · exact List.subset_cons_of_subset c (ih (List.mem_cons_of_mem _ h))

namespace Path

/-! ## Names -/

/-- Whether a text can be the name of an entry: it is not empty, not `.` or `..`, and holds no
separator. -/
def IsName (text : String) : Prop :=
  text ≠ "" ∧ text ≠ "." ∧ text ≠ ".." ∧ '/' ∉ text.toList

instance (text : String) : Decidable (IsName text) :=
  inferInstanceAs (Decidable (_ ∧ _ ∧ _ ∧ _))

/-- A step of a way that neither stays nor leads up is a name. -/
theorem isName_of_mem_steps {path : Path} {step : String} (h : step ∈ FileSystem.steps path)
    (hstay : FileSystem.isStay step = false) (hup : step ≠ "..") : IsName step := by
  obtain ⟨segment, hsegment, rfl⟩ := List.mem_map.1 h
  simp only [FileSystem.isStay, Bool.or_eq_false_iff, beq_eq_false_iff_ne] at hstay
  refine ⟨hstay.1, hstay.2, hup, ?_⟩
  simpa using Text.not_mem_of_mem_splitOn hsegment

/-- A name spells the component that it is. -/
theorem ofSegment?_of_isName {name : String} (h : IsName name) :
    Component.ofSegment? name.toList = some (.name name) := by
  obtain ⟨hempty, hdot, hdots, -⟩ := h
  have hempty' : name.toList ≠ [] := by simpa using hempty
  have hdot' : name.toList ≠ ['.'] := fun hname => hdot (String.toList_injective hname)
  have hdots' : name.toList ≠ ['.', '.'] := fun hname => hdots (String.toList_injective hname)
  simp [Component.ofSegment?, hempty', hdot', hdots']

/-- A component of a path that is a name is proper. -/
theorem isName_of_mem_components {path : Path} {name : String}
    (h : Component.name name ∈ path.components) : IsName name := by
  have hsegment : Component.name name ∈ path.segments.filterMap Component.ofSegment? := by
    rcases List.mem_append.1 h with hlead | hsegment
    · split at hlead
      · simp at hlead
      · split at hlead <;> simp at hlead
    · exact hsegment
  obtain ⟨segment, hmem, hname⟩ := List.mem_filterMap.1 hsegment
  have hslash := Text.not_mem_of_mem_splitOn hmem
  unfold Component.ofSegment? at hname
  split at hname
  · simp at hname
  · rename_i hidle
    split at hname
    · simp at hname
    · rename_i hup
      simp only [Option.some.injEq, Component.name.injEq] at hname
      subst hname
      rw [not_or] at hidle
      refine ⟨?_, ?_, ?_, by simpa using hslash⟩
      · simpa using hidle.1
      · exact fun heq => hidle.2 (by simpa using congrArg String.toList heq)
      · exact fun heq => hup (by simpa using congrArg String.toList heq)

/-- Proper names are the components that they spell. -/
theorem filterMap_ofSegment?_names {names : List String} (h : ∀ name ∈ names, IsName name) :
    (names.map String.toList).filterMap Component.ofSegment? = names.map Component.name := by
  induction names with
  | nil => rfl
  | cons name rest ih =>
      have hfirst := ofSegment?_of_isName (h name (by simp))
      have hrest := ih fun other hother => h other (List.mem_cons_of_mem _ hother)
      simp [hfirst, hrest]

/-! ## Spelling names -/

/-- The text of names with separators between them, as characters. -/
theorem toList_intercalate_names (names : List String) :
    ("/".intercalate names).toList = List.intercalate ['/'] (names.map String.toList) := by
  rw [String.toList_intercalate]
  rfl

/-- Cutting names that were spelled with separators gives them back. -/
theorem splitOn_intercalate_names {names : List String} (h : ∀ name ∈ names, IsName name)
    (hne : names ≠ []) :
    Text.splitOn '/' ("/".intercalate names).toList = names.map String.toList := by
  rw [Text.splitOn_eq, toList_intercalate_names]
  apply List.splitOn_intercalate
  · intro part hpart
    obtain ⟨name, hname, rfl⟩ := List.mem_map.1 hpart
    exact (h name hname).2.2.2
  · simpa using hne

/-- Names that lead from the root are the components of the path spelled from them. -/
theorem components_ofNames {names : List String} (h : ∀ name ∈ names, IsName name) :
    (ofNames names).components = .root :: names.map .name := by
  have hsegments : (ofNames names).segments =
      [] :: Text.splitOn '/' ("/".intercalate names).toList := by
    simp [segments, ofNames, Text.splitOn]
  have habsolute : (ofNames names).isAbsolute = true := by simp [isAbsolute, ofNames]
  by_cases hne : names = []
  · subst hne
    decide
  · rw [splitOn_intercalate_names h hne] at hsegments
    have hlead : Component.ofSegment? [] = none := rfl
    simp only [components, habsolute, if_true, hsegments, List.filterMap_cons, hlead,
      filterMap_ofSegment?_names h, List.singleton_append]

/-- Names with separators between them are the components of a relative path. -/
theorem components_intercalate {names : List String} (h : ∀ name ∈ names, IsName name) :
    (⟨"/".intercalate names⟩ : Path).components = names.map .name := by
  by_cases hne : names = []
  · subst hne
    decide
  · have hsegments : (⟨"/".intercalate names⟩ : Path).segments = names.map String.toList :=
      splitOn_intercalate_names h hne
    obtain ⟨first, rest, rfl⟩ := List.exists_cons_of_ne_nil hne
    have hfirst := h first (by simp)
    have habsolute : (⟨"/".intercalate (first :: rest)⟩ : Path).isAbsolute = false := by
      have hhead : ("/".intercalate (first :: rest)).toList.head? = first.toList.head? := by
        rw [toList_intercalate_names]
        cases hchars : first.toList with
        | nil => exact absurd (by simpa using hchars) hfirst.1
        | cons c chars => cases rest <;> simp [hchars]
      unfold isAbsolute
      rw [hhead]
      cases hchars : first.toList with
      | nil => rfl
      | cons c chars =>
          have hslash := hfirst.2.2.2
          simp only [hchars, List.mem_cons, not_or] at hslash
          simpa using Ne.symm hslash.1
    have hcurrent : (⟨"/".intercalate (first :: rest)⟩ : Path).beginsAtCurrent = false := by
      have hdot : first.toList ≠ ['.'] := fun heq => hfirst.2.1 (String.toList_injective heq)
      simpa [beginsAtCurrent, hsegments] using hdot
    simp only [components, habsolute, hcurrent, hsegments, Bool.false_eq_true, if_false,
      List.nil_append, filterMap_ofSegment?_names h]

/-! ## Canonical and normal paths -/

/-- A path that is spelled from the names which lead from the root. -/
def IsCanonical (path : Path) : Prop :=
  ∃ names : List String, (∀ name ∈ names, IsName name) ∧ path = ofNames names

/-- A path without `.`, `..` and needless separators.  It may be relative, where nobody knows what
its names lead from. -/
inductive IsNormal : Path → Prop where
  | absolute {names : List String} (h : ∀ name ∈ names, IsName name) : IsNormal (ofNames names)
  | relative {names : List String} (h : ∀ name ∈ names, IsName name) :
      IsNormal ⟨"/".intercalate names⟩

theorem IsCanonical.isNormal {path : Path} (h : path.IsCanonical) : path.IsNormal := by
  obtain ⟨names, hnames, rfl⟩ := h
  exact .absolute hnames

/-- The names of components determine them. -/
theorem names_injective {first second : List String}
    (h : first.map Component.name = second.map Component.name) : first = second :=
  (List.map_inj_right fun _ _ => Component.name.inj).1 h

/-- Normal paths with the same components are equal. -/
theorem IsNormal.eq_of_same {p q : Path} (hp : p.IsNormal) (hq : q.IsNormal)
    (h : p.same q = true) : p = q := by
  have hcomponents : p.components = q.components := by simpa [same] using h
  cases hp with
  | absolute hp =>
      cases hq with
      | absolute hq =>
          rw [components_ofNames hp, components_ofNames hq] at hcomponents
          rw [names_injective (List.cons.inj hcomponents).2]
      | relative hq =>
          rw [components_ofNames hp, components_intercalate hq] at hcomponents
          have hroot := congrArg (Component.root ∈ ·) hcomponents
          simp at hroot
  | relative hp =>
      cases hq with
      | absolute hq =>
          rw [components_ofNames hq, components_intercalate hp] at hcomponents
          have hroot := congrArg (Component.root ∈ ·) hcomponents
          simp at hroot
      | relative hq =>
          rw [components_intercalate hp, components_intercalate hq] at hcomponents
          rw [names_injective hcomponents]

/-- Every path has the same components as itself. -/
@[simp]
theorem same_refl (path : Path) : path.same path = true := by
  simp [same]

theorem same_comm (p q : Path) : p.same q = q.same p := by
  simp [same, Bool.beq_comm]

theorem same_trans {p q r : Path} (hpq : p.same q = true) (hqr : q.same r = true) :
    p.same r = true := by
  simp only [same, beq_iff_eq] at *
  exact hpq.trans hqr

/-- Canonical paths are the same only when they are equal. -/
theorem IsCanonical.same_iff {p q : Path} (hp : p.IsCanonical) (hq : q.IsCanonical) :
    p.same q = true ↔ p = q := by
  constructor
  · exact hp.isNormal.eq_of_same hq.isNormal
  · rintro rfl
    exact same_refl p

/-! ## The lexical normal form -/

/-- Resolving dots keeps names and adds none. -/
theorem isName_of_mem_resolveNames {names : List String} {components : List Component}
    (hnames : ∀ name ∈ names, IsName name)
    (hcomponents : ∀ name, Component.name name ∈ components → IsName name) :
    ∀ name ∈ resolveNames names components, IsName name := by
  fun_induction resolveNames names components with
  | case1 names => simpa using hnames
  | case2 names text rest ih =>
      apply ih
      · intro name hname
        rcases List.mem_cons.1 hname with rfl | hname
        · exact hcomponents name (by simp)
        · exact hnames name hname
      · exact fun name hname => hcomponents name (List.mem_cons_of_mem _ hname)
  | case3 names rest ih =>
      apply ih
      · exact fun name hname => hnames name (List.mem_of_mem_tail hname)
      · exact fun name hname => hcomponents name (List.mem_cons_of_mem _ hname)
  | case4 names rest ih =>
      exact ih hnames fun name hname => hcomponents name (List.mem_cons_of_mem _ hname)
  | case5 names rest ih =>
      exact ih hnames fun name hname => hcomponents name (List.mem_cons_of_mem _ hname)

/-- The lexical normal form is normal. -/
theorem isNormal_lexicalNormal (path : Path) : path.lexicalNormal.IsNormal := by
  have hnames : ∀ name ∈ resolveNames [] path.components, IsName name := by
    apply isName_of_mem_resolveNames
    · simp
    · exact fun name => isName_of_mem_components
  unfold lexicalNormal
  simp only
  split
  · exact .absolute hnames
  · exact .relative hnames

end Path
end ProjectAssembler
