import ProjectAssembler.Settings.Value

/-!
# Tables of TOML documents

The tables of a document are built statement by statement.  A table knows how it came about,
because that decides which statements may add to it.

Main definitions:

* `Toml.Entry`: what a key of a table under construction stands for;
* `Toml.alterAt`: a change of the table that a path leads to;
* `Toml.addValue`, `Toml.openTable` and `Toml.openElement`: the effects of the statements;
* `Toml.Entry.toValue`: the finished value.

Main result: `Toml.addValue_of_mem`, a key is not given a value twice.
-/

namespace ProjectAssembler.Toml

/-- How a table came about. -/
inductive Origin where
  /-- By a header of its own. -/
  | header
  /-- By the header of a table below it. -/
  | longerHeader
  /-- By a dotted key. -/
  | dottedKey
deriving DecidableEq, Repr

/-- What a key of a table under construction stands for. -/
inductive Entry where
  | value (value : SettingValue)
  | table (origin : Origin) (entries : List (String × Entry))
  /-- The tables of a list, each opened by a header; the last one is still open. -/
  | elements (tables : List (List (String × Entry)))
deriving Repr, Inhabited

/-- The keys of a table under construction, in the order in which they were given. -/
abbrev Table : Type :=
  List (String × Entry)

/-- Give a key an entry in the place of the one before, or as the last one. -/
def put (key : String) (entry : Entry) : Table → Table
  | [] => [(key, entry)]
  | (other, old) :: rest =>
      if key == other then (key, entry) :: rest else (other, old) :: put key entry rest

/-- Change the table that a path leads to; missing tables are made on the way.  A path goes
through the last table of a list.  A dotted key does not go through a table that has a header of
its own. -/
def alterAt (dotted : Bool) (change : Origin → Table → Option Table) :
    List String → Origin → Table → Option Table
  | [], origin, table => change origin table
  | key :: path, _, table =>
      match table.lookup key with
      | none =>
          let origin := if dotted then Origin.dottedKey else Origin.longerHeader
          (alterAt dotted change path origin []).map fun inner =>
            put key (.table origin inner) table
      | some (.value _) => none
      | some (.table origin inner) =>
          if dotted && origin == .header then none
          else
            (alterAt dotted change path origin inner).map fun inner =>
              put key (.table origin inner) table
      | some (.elements tables) =>
          match tables.getLast? with
          | none => none
          | some last =>
              (alterAt dotted change path .header last).map fun last =>
                put key (.elements (tables.dropLast ++ [last])) table

/-- Give a key its value, in the table that was reached by a dotted key or, for a single key,
directly. -/
def addValue (direct : Bool) (key : String) (value : SettingValue) (origin : Origin)
    (table : Table) : Option Table :=
  if (origin == .dottedKey) == direct then none
  else
    match table.lookup key with
    | some _ => none
    | none => some (table ++ [(key, .value value)])

/-- Give a key, which may be dotted, its value in a table. -/
def assign (path : List String) (key : String) (value : SettingValue) (table : Table) :
    Option Table :=
  alterAt true (addValue path.isEmpty key value) path .header table

/-- Open a table by its header.  It may exist already as far as longer headers have made it. -/
def openTable (key : String) (table : Table) : Option Table :=
  match table.lookup key with
  | none => some (table ++ [(key, .table .header [])])
  | some (.table .longerHeader inner) => some (put key (.table .header inner) table)
  | some _ => none

/-- Open a further table of a list by its header. -/
def openElement (key : String) (table : Table) : Option Table :=
  match table.lookup key with
  | none => some (table ++ [(key, .elements [[]])])
  | some (.elements tables) => some (put key (.elements (tables ++ [[]])) table)
  | some _ => none

/-! ## Finished values -/

mutual

/-- The value of a finished entry. -/
def Entry.toValue : Entry → SettingValue
  | .value value => value
  | .table _ entries => .table (fieldsOf entries)
  | .elements tables => .list (valuesOf tables)
termination_by structural entry => entry

/-- The values of finished keys. -/
def fieldsOf : List (String × Entry) → List (String × SettingValue)
  | [] => []
  | (key, entry) :: rest => (key, entry.toValue) :: fieldsOf rest
termination_by structural entries => entries

/-- The values of finished tables. -/
def valuesOf : List (List (String × Entry)) → List SettingValue
  | [] => []
  | entries :: rest => .table (fieldsOf entries) :: valuesOf rest
termination_by structural tables => tables

end

/-- A key is not given a value twice. -/
theorem addValue_of_mem {direct : Bool} {key : String} {value : SettingValue} {origin : Origin}
    {table : Table} {entry : Entry} (h : table.lookup key = some entry) :
    addValue direct key value origin table = none := by
  unfold addValue
  split <;> simp [h]

end ProjectAssembler.Toml
