import ProjectAssembler.Path.FileName
import ProjectAssembler.Proofs.Path.Order
import ProjectAssembler.Proofs.Path.Spelling

/-!
# Continued paths

A path continued by a name has one component more, which is the name, however the path itself is
spelled.  So different names lead to different paths, and a path is not continued twice to the same
place as once.

Main results:

* `Path.exists_text_join` and `Path.exists_segments_join`: the text of a continued path, and the
  texts between its separators;
* `Path.components_child` and `Path.components_join`: its components;
* `Path.child_injective`, `Path.fileName?_child` and `Path.child_ne_of_longer`.
-/

namespace ProjectAssembler
namespace Path

variable {path : Path} {name : String}

/-! ## Segments -/

theorem isAbsolute_of_isName (hname : IsName name) : isAbsolute ⟨name⟩ = false := by
  rw [isAbsolute, beq_eq_false_iff_ne]
  exact fun hhead => hname.2.2.2 (List.mem_of_mem_head? hhead)

theorem segments_of_isName (hname : IsName name) : segments ⟨name⟩ = [name.toList] := by
  rw [segments, Text.splitOn_eq, List.splitOn_eq_singleton hname.2.2.2]

/-- A relative path is written behind the path that it continues. -/
theorem exists_text_join (path : Path) {other : Path} (hother : other.isAbsolute = false) :
    ∃ rest, (path.join other).text = path.text ++ rest := by
  unfold join
  rw [hother, if_neg Bool.false_ne_true]
  split
  · exact ⟨other.text, rfl⟩
  · exact ⟨"/" ++ other.text, String.append_assoc⟩

/-- A relative path takes the place of an empty segment at the end of the path that it continues,
if there is one. -/
theorem exists_segments_join (path : Path) {other : Path} (hother : other.isAbsolute = false) :
    ∃ front, (path.segments = front ∨ path.segments = front ++ [[]]) ∧
      (path.join other).segments = front ++ other.segments := by
  unfold join
  rw [hother, if_neg Bool.false_ne_true]
  by_cases hempty : path.text = ""
  · refine ⟨[], Or.inr ?_, ?_⟩
    · simp [segments, hempty, Text.splitOn]
    · simp [hempty]
  · by_cases hslash : path.text.toList.getLast? = some '/'
    · obtain ⟨front, hfront⟩ := List.getLast?_eq_some_iff.1 hslash
      rw [if_pos (by simp [hslash])]
      refine ⟨front.splitOn '/', Or.inr ?_, ?_⟩
      · rw [segments, Text.splitOn_eq, hfront, List.splitOn_append_cons_self, List.splitOn_nil]
      · rw [segments, segments, Text.splitOn_eq, Text.splitOn_eq, String.toList_append, hfront,
          List.append_assoc, List.singleton_append, List.splitOn_append_cons_self]
    · rw [if_neg (by simp [hempty, hslash])]
      refine ⟨path.segments, Or.inl rfl, ?_⟩
      have hseparator : "/".toList = ['/'] := rfl
      rw [segments, segments, segments, Text.splitOn_eq, Text.splitOn_eq, Text.splitOn_eq,
        String.toList_append, String.toList_append, hseparator, List.append_assoc,
        List.singleton_append, List.splitOn_append_cons_self]

/-- A path continued by a name ends with that name, which takes the place of an empty segment at the
end of the path if there is one. -/
theorem exists_segments_child (path : Path) (hname : IsName name) :
    ∃ front, (path.segments = front ∨ path.segments = front ++ [[]]) ∧
      (path.child name).segments = front ++ [name.toList] := by
  rw [child, ← segments_of_isName hname]
  exact exists_segments_join path (isAbsolute_of_isName hname)

/-- Whether a path begins at the root does not change when a relative path continues it. -/
theorem isAbsolute_join {other : Path} (hother : other.isAbsolute = false) :
    (path.join other).isAbsolute = path.isAbsolute := by
  unfold join
  rw [hother, if_neg Bool.false_ne_true]
  by_cases hempty : path.text = ""
  · rw [if_pos (by simp [hempty]), hempty, String.empty_append, hother]
    simp [isAbsolute, hempty]
  · have hhead : ∀ rest : List Char,
        (path.text.toList ++ rest).head? = path.text.toList.head? := by
      intro rest
      cases hchars : path.text.toList with
      | nil => exact absurd (by simpa using hchars) hempty
      | cons c chars => rfl
    split <;> simp [isAbsolute, hhead]

/-- Whether a path begins at the root does not change when it is continued. -/
theorem isAbsolute_child (hname : IsName name) :
    (path.child name).isAbsolute = path.isAbsolute :=
  isAbsolute_join (isAbsolute_of_isName hname)

/-- Whether a path begins with `.` does not change when it is continued. -/
theorem beginsAtCurrent_child (hname : IsName name) :
    (path.child name).beginsAtCurrent = path.beginsAtCurrent := by
  obtain ⟨front, hfront, hchild⟩ := exists_segments_child path hname
  unfold beginsAtCurrent
  rw [hchild]
  cases front with
  | cons first rest => rcases hfront with hfront | hfront <;> simp [hfront]
  | nil =>
      have hdot : name.toList ≠ ['.'] := fun heq => hname.2.1 (String.toList_injective heq)
      rcases hfront with hfront | hfront
      · exact absurd hfront (Text.splitOn_ne_nil '/' _)
      · simpa [hfront] using hdot

/-! ## Components -/

/-- An empty segment at the end of a path spells nothing. -/
theorem filterMap_front {front : List (List Char)}
    (h : path.segments = front ∨ path.segments = front ++ [[]]) :
    path.segments.filterMap Component.ofSegment? = front.filterMap Component.ofSegment? := by
  have hempty : Component.ofSegment? [] = none := rfl
  rcases h with h | h <;> simp [h, hempty]

/-- What a relative path spells comes behind the components of the absolute path that it
continues. -/
theorem components_join {other : Path} (hpath : path.isAbsolute = true)
    (hother : other.isAbsolute = false) :
    (path.join other).components =
      path.components ++ other.segments.filterMap Component.ofSegment? := by
  obtain ⟨front, hfront, hjoin⟩ := exists_segments_join path hother
  unfold components
  rw [isAbsolute_join hother, hpath, hjoin, filterMap_front hfront]
  simp

/-- A path continued by a name has the name as one more component. -/
theorem components_child (hname : IsName name) :
    (path.child name).components = path.components ++ [.name name] := by
  obtain ⟨front, hfront, hchild⟩ := exists_segments_child path hname
  unfold components
  rw [isAbsolute_child hname, beginsAtCurrent_child hname, hchild, filterMap_front hfront]
  simp [ofSegment?_of_isName hname]

/-- A path continued by a name is not empty. -/
theorem text_child_ne (hname : IsName name) : (path.child name).text ≠ "" := by
  intro hempty
  have hnone : (path.child name).components = [] := by
    simp [components, isAbsolute, beginsAtCurrent, segments, hempty, Text.splitOn,
      Component.ofSegment?]
  rw [components_child hname] at hnone
  simp at hnone

/-- Different names continue a path differently. -/
theorem child_injective {other : String} (hname : IsName name) (hother : IsName other)
    (h : (path.child name).components = (path.child other).components) : name = other := by
  rw [components_child hname, components_child hother] at h
  simpa using h

theorem fileName?_child (hname : IsName name) : (path.child name).fileName? = some name := by
  simp [fileName?, components_child hname]

/-- Names one below the other lead elsewhere than one name. -/
theorem child_ne_of_longer {longer : Path} {other : String} (hname : IsName name)
    (hother : IsName other) (h : path.components.length < longer.components.length) :
    longer.child name ≠ path.child other := by
  intro heq
  have hlength := congrArg (fun path => path.components.length) heq
  simp only [components_child hname, components_child hother, List.length_append,
    List.length_singleton] at hlength
  omega

end Path
end ProjectAssembler
