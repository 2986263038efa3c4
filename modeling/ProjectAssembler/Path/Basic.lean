import ProjectAssembler.Text.Trim

/-!
# Paths

A path is a text that is read as a sequence of components.  The text is kept as it was given,
because answers show it; two paths denote the same place when their components agree.

Main definitions:

* `Path.components`: the components of a path, without empty ones and without `.` inside;
* `Path.join`: a path continued by another one;
* `Path.parent?`: a path without its last component;
* `Path.compare`: the order by components.

Main results: `Path.join_of_absolute` and `Path.compare_eq_iff`.
-/

namespace ProjectAssembler

/-- A file system path, as the text it was given by. -/
structure Path where
  text : String
deriving DecidableEq, Repr, Inhabited

namespace Path

/-- A step of a path. -/
inductive Component where
  /-- The root of the file system. -/
  | root
  /-- A `.` at the beginning of a relative path. -/
  | current
  | parent
  | name (text : String)
deriving DecidableEq, Repr

/-- The text of a component. -/
def Component.text : Component → String
  | root => "/"
  | current => "."
  | parent => ".."
  | name text => text

/-- The component that a text between two separators spells; empty ones and `.` spell none. -/
def Component.ofSegment? (segment : List Char) : Option Component :=
  if segment = [] ∨ segment = ['.'] then none
  else if segment = ['.', '.'] then some parent
  else some (name (String.ofList segment))

/-- The texts between the separators of a path. -/
def segments (path : Path) : List (List Char) :=
  Text.splitOn '/' path.text.toList

/-- Whether a path begins at the root. -/
def isAbsolute (path : Path) : Bool :=
  path.text.toList.head? == some '/'

/-- Whether a path begins with `.` as its first component. -/
def beginsAtCurrent (path : Path) : Bool :=
  path.segments.head? == some ['.']

/-- The components of a path.  Empty segments vanish, and `.` does too except at the very
beginning of a relative path. -/
def components (path : Path) : List Component :=
  (if path.isAbsolute then [Component.root]
    else if path.beginsAtCurrent then [Component.current] else []) ++
    path.segments.filterMap Component.ofSegment?

/-- Whether two paths have the same components. -/
def same (p q : Path) : Bool :=
  p.components == q.components

/-! ## Joining -/

/-- A path continued by another one; an absolute path replaces it. -/
def join (path other : Path) : Path :=
  if other.isAbsolute then other
  else if path.text.isEmpty || path.text.toList.getLast? == some '/' then
    ⟨path.text ++ other.text⟩
  else ⟨path.text ++ "/" ++ other.text⟩

/-- A path continued by a text. -/
def child (path : Path) (name : String) : Path :=
  path.join ⟨name⟩

/-- The path with given components. -/
def ofComponents (components : List Component) : Path :=
  components.foldl (fun path component => path.child component.text) ⟨""⟩

/-- The absolute path through given names. -/
def ofNames (names : List String) : Path :=
  ⟨"/" ++ "/".intercalate names⟩

/-- Joining an absolute path replaces what was before. -/
@[simp]
theorem join_of_absolute {path other : Path} (h : other.isAbsolute = true) :
    path.join other = other := by
  simp [join, h]

/-! ## The parent -/

/-- Whether the text between two separators spells no component. -/
def isIdle (segment : List Char) : Bool :=
  segment == [] || segment == ['.']

/-- A path without its last component, written as it was; nothing when no component can be taken
away. -/
def parent? (path : Path) : Option Path :=
  let text := path.text.toList
  let lead := if path.isAbsolute || path.beginsAtCurrent then 1 else 0
  let body := Text.splitOn '/' (text.drop lead)
  match body.reverse.dropWhile isIdle with
  | [] => if path.beginsAtCurrent then some ⟨""⟩ else none
  | _ :: rest =>
      let kept := (rest.dropWhile isIdle).reverse
      some ⟨String.ofList (text.take lead ++ List.intercalate ['/'] kept)⟩

/-! ## Order -/

/-- The rank of a kind of component: the root, then `.`, then `..`, then names. -/
def Component.rank : Component → Nat
  | root => 0
  | current => 1
  | parent => 2
  | name _ => 3

/-- The order of components: by rank, names by their characters. -/
def Component.compare (a b : Component) : Ordering :=
  match a, b with
  | name a, name b => Ord.compare a b
  | a, b => Ord.compare a.rank b.rank

/-- The lexicographic order of component sequences. -/
def compareComponents : List Component → List Component → Ordering
  | [], [] => .eq
  | [], _ :: _ => .lt
  | _ :: _, [] => .gt
  | a :: as, b :: bs =>
      match a.compare b with
      | .eq => compareComponents as bs
      | order => order

/-- The order of paths by their components. -/
def compare (p q : Path) : Ordering :=
  compareComponents p.components q.components

/-- The paths of a list in component order; equal paths keep their places. -/
def sort (paths : List Path) : List Path :=
  paths.mergeSort fun p q => p.compare q != .gt

theorem Component.compare_eq_iff {a b : Component} : a.compare b = .eq ↔ a = b := by
  cases a <;> cases b <;> simp [Component.compare, Component.rank]

/-- Component sequences compare equal only when they are equal. -/
theorem compareComponents_eq_iff {as bs : List Component} :
    compareComponents as bs = .eq ↔ as = bs := by
  induction as generalizing bs with
  | nil => cases bs <;> simp [compareComponents]
  | cons a as ih =>
      cases bs with
      | nil => simp [compareComponents]
      | cons b bs =>
          have h := Component.compare_eq_iff (a := a) (b := b)
          unfold compareComponents
          split
          · rename_i heq
            simp [h.1 heq, ih]
          · rename_i hne
            constructor
            · intro heq
              exact absurd heq hne
            · intro heq
              exact absurd (h.2 (List.cons.inj heq).1) hne

/-- Paths compare equal exactly when their components agree. -/
theorem compare_eq_iff {p q : Path} : p.compare q = .eq ↔ p.components = q.components :=
  compareComponents_eq_iff

end Path
end ProjectAssembler
