import ProjectAssembler.Proofs.Path.Children
import ProjectAssembler.Text.Lowercase

/-!
# Paths in lower case

No character becomes a separator or a dot in lower case, and the form of a final sigma depends on
the characters up to the next separator only.  So the lower case of a path consists of the lower
case of its parts, and the lower case of a name is a name.

Main definition: `Path.lowercase`.

Main results:

* `Text.lowercaseAfter_append_separator`: a separator parts what is made small on either side;
* `Path.isName_lowercaseString`: a name in lower case is a name;
* `Path.lowercase_child`: the lower case of a continued path.
-/

namespace ProjectAssembler
namespace Text

/-! ## Characters below the letters -/

/-- Only a character below the letters becomes one of them. -/
theorem eq_of_toLower {c d : Char} (h : c.toLower = d) (hd : d.toNat < 65) : c = d := by
  by_cases hcapital : c.val ≥ 'A'.val ∧ c.val ≤ 'Z'.val
  · have hsum : c.toLower.toNat = (c.val + 32).toNat := congrArg Char.toNat (dif_pos hcapital)
    have hlow : 65 ≤ c.val.toNat := UInt32.le_iff_toNat_le.1 hcapital.1
    have hhigh : c.val.toNat ≤ 90 := UInt32.le_iff_toNat_le.1 hcapital.2
    have hstep : (32 : UInt32).toNat = 32 := rfl
    rw [h, UInt32.toNat_add] at hsum
    omega
  · have hsame : c.toLower = c := dif_neg hcapital
    rw [← h, hsame]

theorem toLower_of_small {c : Char} (h : c.toNat < 65) : c.toLower = c := by
  apply dif_neg
  rintro ⟨hlow, -⟩
  have hbound : 65 ≤ c.toNat := UInt32.le_iff_toNat_le.1 hlow
  omega

/-- The image of a code point under a run of the lowercase mapping is a small letter. -/
theorem of_mem_lowercaseRuns {run : CaseRun} (h : run ∈ lowercaseRuns) :
    97 ≤ run.low + run.distance ∧
      (run.high + run.distance < 0xD800 ∨
        0xDFFF < run.low + run.distance ∧ run.high + run.distance < 0x110000) := by
  have hall : ∀ run ∈ lowercaseRuns, 97 ≤ run.low + run.distance ∧
      (run.high + run.distance < 0xD800 ∨
        0xDFFF < run.low + run.distance ∧ run.high + run.distance < 0x110000) := by
    decide +kernel
  exact hall run h

/-- A small letter that is the image of a code point. -/
theorem toNat_of_image? {run : CaseRun} {point image : Nat} (hrun : run ∈ lowercaseRuns)
    (h : run.image? point = some image) : 97 ≤ (Char.ofNat image).toNat := by
  obtain ⟨hleast, hvalid⟩ := of_mem_lowercaseRuns hrun
  unfold CaseRun.image? at h
  split at h
  · rename_i hcovered
    obtain rfl := Option.some.inj h
    have hchar : (((point : Int) + run.distance).toNat).isValidChar := by
      unfold Nat.isValidChar
      omega
    have hvalue : (Char.ofNat ((point : Int) + run.distance).toNat).toNat =
        ((point : Int) + run.distance).toNat := congrArg Char.toNat (dif_pos hchar)
    omega
  · cases h

/-- Only a character below the letters has one of them in its lower case. -/
theorem eq_of_mem_lowercaseOf {c d : Char} (h : d ∈ lowercaseOf c) (hd : d.toNat < 65) : c = d := by
  unfold lowercaseOf at h
  split at h
  · exact eq_of_toLower (List.mem_singleton.1 h).symm hd
  · split at h
    · rcases List.mem_cons.1 h with rfl | h
      · exact absurd hd (by decide)
      · rw [List.mem_singleton.1 h] at hd
        exact absurd hd (by decide)
    · split at h
      · rename_i image himage
        obtain ⟨run, hrun, hrunImage⟩ := List.exists_of_findSome?_eq_some himage
        have hsmall := toNat_of_image? hrun hrunImage
        rw [List.mem_singleton.1 h] at hd
        omega
      · exact (List.mem_singleton.1 h).symm

theorem lowercaseOf_ne_nil (c : Char) : lowercaseOf c ≠ [] := by
  unfold lowercaseOf
  split
  · simp
  · split
    · simp
    · split <;> simp

/-- A character below the letters is its own lower case. -/
theorem lowercaseOf_of_small {c : Char} (h : c.toNat < 65) : lowercaseOf c = [c] := by
  rw [lowercaseOf, if_pos (by omega), toLower_of_small h]

/-! ## Texts in lower case -/

/-- The lower case of a character between those before it, in reverse, and those after it. -/
def lowercaseBetween (before : List Char) (c : Char) (after : List Char) : List Char :=
  if c = 'Σ' then (if meetsCased before && !meetsCased after then ['ς'] else ['σ'])
  else lowercaseOf c

theorem lowercaseAfter_cons (before : List Char) (c : Char) (rest : List Char) :
    lowercaseAfter before (c :: rest) =
      lowercaseBetween before c rest ++ lowercaseAfter (c :: before) rest :=
  rfl

theorem lowercaseBetween_ne_nil (before : List Char) (c : Char) (after : List Char) :
    lowercaseBetween before c after ≠ [] := by
  unfold lowercaseBetween
  split
  · split <;> simp
  · exact lowercaseOf_ne_nil c

theorem eq_of_mem_lowercaseBetween {before after : List Char} {c d : Char}
    (h : d ∈ lowercaseBetween before c after) (hd : d.toNat < 65) : c = d := by
  unfold lowercaseBetween at h
  split at h
  · split at h
    · rw [List.mem_singleton.1 h] at hd
      exact absurd hd (by decide)
    · rw [List.mem_singleton.1 h] at hd
      exact absurd hd (by decide)
  · exact eq_of_mem_lowercaseOf h hd

theorem lowercaseBetween_of_small (before after : List Char) {c : Char} (h : c.toNat < 65) :
    lowercaseBetween before c after = [c] := by
  have hsigma : c ≠ 'Σ' := by
    rintro rfl
    exact absurd h (by decide)
  rw [lowercaseBetween, if_neg hsigma, lowercaseOf_of_small h]

/-- A character below the letters is in the lower case of a text only if it is in the text. -/
theorem mem_of_mem_lowercaseAfter {before text : List Char} {d : Char}
    (h : d ∈ lowercaseAfter before text) (hd : d.toNat < 65) : d ∈ text := by
  induction text generalizing before with
  | nil => exact absurd h List.not_mem_nil
  | cons c rest ih =>
      rw [lowercaseAfter_cons] at h
      rcases List.mem_append.1 h with hfirst | hrest
      · rw [eq_of_mem_lowercaseBetween hfirst hd]
        exact List.mem_cons_self
      · exact List.mem_cons_of_mem _ (ih hrest)

/-- A text whose lower case consists of characters below the letters is its own lower case. -/
theorem eq_of_lowercaseAfter_small {before text : List Char}
    (h : ∀ d ∈ lowercaseAfter before text, d.toNat < 65) : lowercaseAfter before text = text := by
  induction text generalizing before with
  | nil => rfl
  | cons c rest ih =>
      rw [lowercaseAfter_cons] at h ⊢
      obtain ⟨hfirst, hrest⟩ := List.forall_mem_append.1 h
      obtain ⟨d, hd⟩ := List.exists_mem_of_ne_nil _ (lowercaseBetween_ne_nil before c rest)
      have hc : c.toNat < 65 := by
        rw [eq_of_mem_lowercaseBetween hd (hfirst d hd)]
        exact hfirst d hd
      rw [lowercaseBetween_of_small before rest hc, ih hrest, List.singleton_append]

/-! ## Separators -/

/-- Behind a separator there is no cased neighbour. -/
theorem meetsCased_append_separator (text rest : List Char) :
    meetsCased (text ++ '/' :: rest) = meetsCased text := by
  have hpassed : isCaseIgnorable '/' = false := by decide
  have hcased : isCased '/' = false := by decide
  unfold meetsCased
  induction text with
  | nil => simp [hpassed, hcased]
  | cons c text ih =>
      rw [List.cons_append, List.dropWhile_cons, List.dropWhile_cons]
      by_cases hc : isCaseIgnorable c = true
      · rw [if_pos hc, if_pos hc, ih]
      · rw [if_neg hc, if_neg hc]
        rfl

/-- What stands before a separator has no influence on what follows. -/
theorem lowercaseAfter_of_separator (before outer text : List Char) :
    lowercaseAfter (before ++ '/' :: outer) text = lowercaseAfter before text := by
  induction text generalizing before with
  | nil => rfl
  | cons c rest ih =>
      rw [lowercaseAfter_cons, lowercaseAfter_cons, ← List.cons_append, ih]
      simp only [lowercaseBetween, meetsCased_append_separator]

/-- A separator parts a text into two whose lower cases are independent of each other. -/
theorem lowercaseAfter_append_separator (before text rest : List Char) :
    lowercaseAfter before (text ++ '/' :: rest) =
      lowercaseAfter before text ++ '/' :: lowercase rest := by
  induction text generalizing before with
  | nil =>
      rw [List.nil_append, lowercaseAfter_cons, lowercaseBetween_of_small _ _ (by decide)]
      exact congrArg ('/' :: ·) (lowercaseAfter_of_separator [] before rest)
  | cons c text ih =>
      rw [List.cons_append, lowercaseAfter_cons, lowercaseAfter_cons, ih, List.append_assoc]
      simp only [lowercaseBetween, meetsCased_append_separator]

/-- The lower case of a text ends with that of its last character. -/
theorem exists_lowercaseAfter_concat (before text : List Char) (c : Char) :
    ∃ front inner, lowercaseAfter before (text ++ [c]) = front ++ lowercaseBetween inner c [] := by
  induction text generalizing before with
  | nil => exact ⟨[], before, by simp [lowercaseAfter_cons, lowercaseAfter]⟩
  | cons d text ih =>
      obtain ⟨front, inner, heq⟩ := ih (d :: before)
      refine ⟨lowercaseBetween before d (text ++ [c]) ++ front, inner, ?_⟩
      rw [List.cons_append, lowercaseAfter_cons, heq, List.append_assoc]

theorem lowercase_eq_nil_iff {text : List Char} : lowercase text = [] ↔ text = [] := by
  cases text with
  | nil => simp [lowercase, lowercaseAfter]
  | cons c rest => simp [lowercase, lowercaseAfter_cons, lowercaseBetween_ne_nil]

/-- A text ends with a separator if its lower case does. -/
theorem getLast?_lowercase_iff {text : List Char} :
    (lowercase text).getLast? = some '/' ↔ text.getLast? = some '/' := by
  rcases List.eq_nil_or_concat text with rfl | ⟨text, c, rfl⟩
  · rfl
  · rw [List.concat_eq_append]
    obtain ⟨front, inner, heq⟩ := exists_lowercaseAfter_concat [] text c
    have hne := lowercaseBetween_ne_nil inner c []
    rw [lowercase, heq, List.getLast?_append, Option.or_of_isSome (by simpa using hne),
      List.getLast?_concat, Option.some.injEq]
    constructor
    · exact fun hlast =>
        eq_of_mem_lowercaseBetween (List.mem_of_getLast? hlast) (by decide)
    · rintro rfl
      rw [lowercaseBetween_of_small inner [] (by decide)]
      rfl

end Text

/-! ## Names and paths in lower case -/

namespace Path

/-- A path in lower case. -/
def lowercase (path : Path) : Path :=
  ⟨Text.lowercaseString path.text⟩

/-- A name in lower case is a name. -/
theorem isName_lowercaseString {name : String} (h : IsName name) :
    IsName (Text.lowercaseString name) := by
  obtain ⟨hempty, hdot, hdots, hslash⟩ := h
  -- A text that is made of dots in lower case is so itself.
  have hsame : ∀ text : String, (∀ d ∈ text.toList, d = '.') →
      Text.lowercaseString name = text → name = text := by
    intro text hall heq
    have hlower : Text.lowercase name.toList = text.toList := by
      simpa [Text.lowercaseString] using congrArg String.toList heq
    apply String.toList_injective
    rw [← hlower]
    refine (Text.eq_of_lowercaseAfter_small fun d hd => ?_).symm
    rw [hall d (hlower ▸ hd)]
    decide
  refine ⟨?_, ?_, ?_, ?_⟩
  · exact fun heq => hempty (hsame "" (by simp) heq)
  · exact fun heq => hdot (hsame "." (by simp) heq)
  · exact fun heq => hdots (hsame ".." (by simp) heq)
  · intro hmem
    have hlower : '/' ∈ Text.lowercase name.toList := by
      simpa [Text.lowercaseString] using hmem
    exact hslash (Text.mem_of_mem_lowercaseAfter hlower (by decide))

theorem ext_toList {p q : Path} (h : p.text.toList = q.text.toList) : p = q :=
  congrArg Path.mk (String.toList_injective h)

theorem toList_lowercase (path : Path) :
    path.lowercase.text.toList = Text.lowercase path.text.toList := by
  simp [lowercase, Text.lowercaseString]

/-- The text of a path that is continued by a name, as characters. -/
theorem toList_child (path : Path) {name : String} (hname : IsName name) :
    (path.child name).text.toList =
      if path.text.toList = [] ∨ path.text.toList.getLast? = some '/' then
        path.text.toList ++ name.toList
      else path.text.toList ++ '/' :: name.toList := by
  have hseparator : "/".toList = ['/'] := rfl
  unfold child join
  rw [isAbsolute_of_isName hname, if_neg Bool.false_ne_true]
  by_cases hbare : path.text.toList = [] ∨ path.text.toList.getLast? = some '/'
  · rw [if_pos hbare, if_pos (by simpa using hbare), String.toList_append]
  · rw [if_neg hbare, if_neg (by simpa using hbare), String.toList_append, String.toList_append,
      hseparator, List.append_assoc, List.singleton_append]

/-- The lower case of a path that is continued by a name. -/
theorem lowercase_child (path : Path) {name : String} (hname : IsName name) :
    (path.child name).lowercase = path.lowercase.child (Text.lowercaseString name) := by
  have hlowered : (Text.lowercaseString name).toList = Text.lowercase name.toList := by
    simp [Text.lowercaseString]
  apply ext_toList
  rw [toList_child path.lowercase (isName_lowercaseString hname), hlowered, toList_lowercase,
    toList_lowercase, toList_child path hname]
  simp only [Text.lowercase_eq_nil_iff, Text.getLast?_lowercase_iff]
  by_cases hempty : path.text.toList = []
  · simp [hempty, Text.lowercase, Text.lowercaseAfter]
  · by_cases hslash : path.text.toList.getLast? = some '/'
    · obtain ⟨front, hfront⟩ := List.getLast?_eq_some_iff.1 hslash
      have hnothing : Text.lowercase [] = [] := rfl
      rw [if_pos (Or.inr hslash), if_pos (Or.inr hslash), hfront, List.append_assoc,
        List.singleton_append, Text.lowercase, Text.lowercase,
        Text.lowercaseAfter_append_separator, Text.lowercaseAfter_append_separator, hnothing,
        List.append_assoc, List.singleton_append]
    · rw [if_neg (not_or.2 ⟨hempty, hslash⟩), if_neg (not_or.2 ⟨hempty, hslash⟩)]
      exact Text.lowercaseAfter_append_separator [] _ _

end Path
end ProjectAssembler
