import ProjectAssembler.Toml.Moment
import ProjectAssembler.Toml.Number
import ProjectAssembler.Toml.Quoted
import ProjectAssembler.Toml.Table

/-!
# TOML documents

A document is a sequence of statements: headers, which open a table, and assignments, which give a
key of the open table its value.

Main definitions:

* `Toml.readKey?`: a key, which may be dotted;
* `Toml.readValue?`: a value, which may hold further values down to a bounded depth;
* `Toml.Statement`: what a line of a document says;
* `Toml.parse?`: the table of a document.
-/

namespace ProjectAssembler.Toml

/-- A reader that looks at the beginning of a text. -/
abbrev Reader (α : Type) : Type :=
  (text : List Char) → Option (Read α text)

/-- The number of parts that a dotted key has to stay below, and the number of levels that values
have to stay below. -/
def depthLimit : Nat :=
  80

/-! ## Keys -/

/-- The characters of keys without quotes. -/
def isKeyCharacter (c : Char) : Bool :=
  c.isAlphanum || c == '-' || c == '_'

/-- Read one part of a key. -/
def readKeyPart? : Reader String := fun text =>
  let name := text.takeWhile isKeyCharacter
  if h : (text.dropWhile isKeyCharacter).length < text.length then
    some ⟨String.ofList name, text.dropWhile isKeyCharacter, h⟩
  else readLineText? text

/-- Read the parts of a key with the spaces around them. -/
def readKeyParts? (text : List Char) : Option (Read (List String) text) :=
  match readKeyPart? (skipSpaces text) with
  | none => none
  | some part =>
      have hpart := Nat.lt_of_lt_of_le part.shorter (length_skipSpaces_le text)
      match hrest : skipSpaces part.rest with
      | '.' :: rest =>
          have hshorter := Nat.lt_trans (length_lt_of_skipSpaces hrest) hpart
          (readKeyParts? rest).map fun more =>
            ⟨part.value :: more.value, more.rest, Nat.lt_trans more.shorter hshorter⟩
      | rest =>
          some ⟨[part.value], rest,
            Nat.lt_of_le_of_lt (length_le_of_skipSpaces hrest) hpart⟩
termination_by text.length

/-- A key: the way to its table and its name there. -/
structure Key where
  path : List String
  name : String
deriving DecidableEq, Repr

/-- Read a key. -/
def readKey? : Reader Key := fun text =>
  match readKeyParts? text with
  | none => none
  | some parts =>
      match parts.value.getLast? with
      | some name =>
          if parts.value.length < depthLimit then
            some ⟨⟨parts.value.dropLast, name⟩, parts.rest, parts.shorter⟩
          else none
      | none => none

/-! ## Values without parts -/

/-- The characters of numbers, moments and truth values. -/
def isWordCharacter (c : Char) : Bool :=
  c.isAlphanum || c == '+' || c == '-' || c == '_' || c == '.' || c == ':'

/-- The value that a word spells. -/
def valueOfWord? (word : List Char) : Option SettingValue :=
  if word = "true".toList then some (.boolean true)
  else if word = "false".toList then some (.boolean false)
  else if isNumber word then some (.number (String.ofList word))
  else if isMoment word then some (.moment (String.ofList word))
  else none

/-- Split a word off a text.  A date and a time of day with one space between them are one word. -/
def splitWord (text : List Char) : List Char × List Char :=
  let word := text.takeWhile isWordCharacter
  match isDate word, text.dropWhile isWordCharacter with
  | true, ' ' :: rest =>
      match rest.takeWhile isWordCharacter with
      | [] => (word, ' ' :: rest)
      | time => (word ++ 'T' :: time, rest.dropWhile isWordCharacter)
  | _, rest => (word, rest)

/-- Read a number, a moment or a truth value. -/
def readWord? : Reader SettingValue := fun text =>
  if h : (splitWord text).2.length < text.length then
    (valueOfWord? (splitWord text).1).map fun value => ⟨value, (splitWord text).2, h⟩
  else none

/-- Whether a text begins with a mark that encloses texts. -/
def beginsQuoted (text : List Char) : Bool :=
  text.head? == some '"' || text.head? == some '\''

/-- Read a value that has no parts. -/
def readScalar? : Reader SettingValue := fun text =>
  if beginsQuoted text then
    (readQuoted? text).map fun read => ⟨.text read.value, read.rest, read.shorter⟩
  else readWord? text

/-! ## Lists and tables in one place -/

/-- Read the items of a list up to its closing bracket.  Blanks and comments may stand anywhere
between them, and a comma after the last one. -/
def readItems? (readItem : Reader SettingValue) (text : List Char) :
    Option (Read (List SettingValue) text) :=
  match hblank : skipBlank text with
  | none => none
  | some [] => none
  | some (']' :: rest) => some ⟨[], rest, length_skipBlank_le hblank⟩
  | some (c :: start) =>
      match readItem (c :: start) with
      | none => none
      | some item =>
          have hitem := Nat.lt_of_lt_of_le item.shorter (length_skipBlank_le hblank)
          match hafter : skipBlank item.rest with
          | some (',' :: rest) =>
              have hshorter : rest.length < text.length :=
                Nat.lt_trans (length_skipBlank_le hafter) hitem
              (readItems? readItem rest).map fun more =>
                ⟨item.value :: more.value, more.rest, Nat.lt_trans more.shorter hshorter⟩
          | some (']' :: rest) =>
              some ⟨[item.value], rest, Nat.lt_trans (length_skipBlank_le hafter) hitem⟩
          | _ => none
termination_by text.length

/-- A key with its value. -/
abbrev Assignment : Type :=
  Key × SettingValue

/-- Read a key, an equals sign and a value. -/
def readAssignment? (readItem : Reader SettingValue) : Reader Assignment := fun text =>
  match readKey? text with
  | none => none
  | some key =>
      match hrest : key.rest with
      | '=' :: rest =>
          match readItem (skipSpaces rest) with
          | none => none
          | some value =>
              have hkey := key.shorter
              have hvalue := Nat.lt_of_lt_of_le value.shorter (length_skipSpaces_le rest)
              some ⟨(key.value, value.value), value.rest, by
                rw [hrest, List.length_cons] at hkey
                omega⟩
      | _ => none

/-- Read the assignments of a table in one place, up to its closing brace.  There is at least one,
and no comma after the last one. -/
def readAssignments? (readItem : Reader SettingValue) (text : List Char) :
    Option (Read (List Assignment) text) :=
  match readAssignment? readItem text with
  | none => none
  | some first =>
      have hfirst := Nat.lt_of_le_of_lt (length_skipSpaces_le first.rest) first.shorter
      match hrest : skipSpaces first.rest with
      | ',' :: rest =>
          have hshorter : rest.length < text.length := by
            rw [hrest, List.length_cons] at hfirst
            omega
          (readAssignments? readItem rest).map fun more =>
            ⟨first.value :: more.value, more.rest, Nat.lt_trans more.shorter hshorter⟩
      | '\x7d' :: rest =>
          some ⟨[first.value], rest, by
            rw [hrest, List.length_cons] at hfirst
            omega⟩
      | _ => none
termination_by text.length

/-- The table that assignments make, if they agree. -/
def tableOf? (assignments : List Assignment) : Option Table :=
  assignments.foldlM (fun table (key, value) => assign key.path key.name value table) []

/-- Read a table in one place, after its opening brace. -/
def readInlineTable? (readItem : Reader SettingValue) : Reader SettingValue := fun text =>
  match hspaces : skipSpaces text with
  | '\x7d' :: rest =>
      some ⟨.table [], rest, by
        have h := length_skipSpaces_le text
        rw [hspaces, List.length_cons] at h
        omega⟩
  | _ =>
      match readAssignments? readItem text with
      | none => none
      | some read =>
          (tableOf? read.value).map fun table => ⟨.table (fieldsOf table), read.rest, read.shorter⟩

/-- Read a value that has at most a given number of levels. -/
def readValue? : Nat → (text : List Char) → Option (Read SettingValue text)
  | depth + 1, '[' :: rest =>
      (readItems? (readValue? depth) rest).map fun read =>
        ⟨.list read.value, read.rest, Nat.lt_succ_of_lt read.shorter⟩
  | depth + 1, '\x7b' :: rest =>
      (readInlineTable? (readValue? depth) rest).map fun read =>
        ⟨read.value, read.rest, Nat.lt_succ_of_lt read.shorter⟩
  | _, text => readScalar? text

/-! ## Statements -/

/-- What a line of a document says. -/
inductive Statement where
  | assignment (assignment : Assignment)
  /-- The following assignments belong to a table. -/
  | header (key : Key)
  /-- The following assignments belong to a new table of a list. -/
  | elementHeader (key : Key)
deriving Repr

/-- Read a header after its opening bracket, up to the closing ones. -/
def readHeader? (closing : List Char) : Reader Key := fun text =>
  match readKey? text with
  | none => none
  | some key =>
      if closing.isPrefixOf key.rest then
        some ⟨key.value, key.rest.drop closing.length, by
          have h := key.shorter
          rw [List.length_drop]
          omega⟩
      else none

/-- Read a statement. -/
def readStatement? : (text : List Char) → Option (Read Statement text)
  | '[' :: '[' :: rest =>
      (readHeader? [']', ']'] rest).map fun read =>
        ⟨.elementHeader read.value, read.rest, by
          have h := read.shorter
          simp only [List.length_cons]
          omega⟩
  | '[' :: rest =>
      (readHeader? [']'] rest).map fun read =>
        ⟨.header read.value, read.rest, Nat.lt_succ_of_lt read.shorter⟩
  | text =>
      (readAssignment? (readValue? (depthLimit - 1)) text).map fun read =>
        ⟨.assignment read.value, read.rest, read.shorter⟩

theorem length_skipComment_le (text : List Char) : (skipComment text).length ≤ text.length := by
  unfold skipComment
  split
  · rename_i tail
    exact Nat.le_succ_of_le (List.dropWhile_suffix isPlain (l := tail)).length_le
  · exact Nat.le_refl _

/-- The rest of a line takes away something, unless nothing is left. -/
theorem length_lineEnd_lt {text rest : List Char} (h : lineEnd? text = some rest)
    (hne : text ≠ []) :
    rest.length < text.length := by
  have h1 := length_skipSpaces_le text
  have h2 := length_skipComment_le (skipSpaces text)
  unfold lineEnd? at h
  split at h
  · rw [← Option.some.inj h]
    exact List.length_pos_iff.2 hne
  · have h3 := length_newline_lt h
    omega

theorem length_lineEnd_le {text rest : List Char} (h : lineEnd? text = some rest) :
    rest.length ≤ text.length := by
  by_cases hne : text = []
  · subst hne
    exact Nat.le_of_eq (congrArg List.length (Option.some.inj h).symm)
  · exact Nat.le_of_lt (length_lineEnd_lt h hne)

/-- The statements of a document.  Each has its own line; empty lines and comments say nothing. -/
def statements? (text : List Char) : Option (List Statement) :=
  match hspaces : skipSpaces text with
  | [] => some []
  | c :: start =>
      have hstart := length_le_of_skipSpaces hspaces
      if c = '#' ∨ c = '\n' ∨ c = '\r' then
        match hline : lineEnd? (c :: start) with
        | none => none
        | some rest =>
            have : rest.length < text.length :=
              Nat.lt_of_lt_of_le (length_lineEnd_lt hline (List.cons_ne_nil c start)) hstart
            statements? rest
      else
        match readStatement? (c :: start) with
        | none => none
        | some statement =>
            match hline : lineEnd? statement.rest with
            | none => none
            | some rest =>
                have : rest.length < text.length :=
                  Nat.lt_of_le_of_lt (length_lineEnd_le hline)
                    (Nat.lt_of_lt_of_le statement.shorter hstart)
                (statements? rest).map (statement.value :: ·)
termination_by text.length

/-! ## Documents -/

/-- A document under construction: its outermost table and the way to the open one. -/
structure Draft where
  root : Table
  openPath : List String
deriving Repr

/-- The effect of a statement. -/
def Draft.add (draft : Draft) : Statement → Option Draft
  | .assignment (key, value) =>
      (alterAt false (fun _ => assign key.path key.name value) draft.openPath .header
        draft.root).map fun root => { draft with root }
  | .header key =>
      (alterAt false (fun _ => openTable key.name) key.path .header draft.root).map fun root =>
        ⟨root, key.path ++ [key.name]⟩
  | .elementHeader key =>
      (alterAt false (fun _ => openElement key.name) key.path .header draft.root).map fun root =>
        ⟨root, key.path ++ [key.name]⟩

/-- A text without a byte order mark at its beginning. -/
def withoutMark : List Char → List Char
  | '\uFEFF' :: rest => rest
  | text => text

/-- The value of a document, if it is well formed. -/
def parse? (text : List Char) : Option SettingValue := do
  let statements ← statements? (withoutMark text)
  let draft ← statements.foldlM Draft.add ⟨[], []⟩
  return .table (fieldsOf draft.root)

end ProjectAssembler.Toml
