import ProjectAssembler.Path.Basic
import ProjectAssembler.Settings.Value

/-!
# Configurations

A configuration names the root of the package cache, the directory of the base libraries and
symbols that are defined for every compilation.  Configurations are merged: a later one replaces
the paths that it gives and adds the symbols that are new.

Main definitions: `Config`, `Config.merge`, `Config.mergeAll` and `Config.ofValue?`.

Main results:

* `Config.mem_define_merge`: the symbols of a merged configuration are those of both;
* `Config.merge_empty`: a configuration that says nothing changes nothing.
-/

namespace ProjectAssembler

/-- What can be configured. -/
structure Config where
  packageRoot : Option Path
  frameworkDirectory : Option Path
  /-- The symbols that are defined for every compilation. -/
  define : List String
deriving DecidableEq, Repr

namespace Config

/-- The configuration that says nothing. -/
def empty : Config :=
  ⟨none, none, []⟩

/-! ## Merging -/

/-- Add a symbol unless it is present. -/
def addSymbol (symbols : List String) (symbol : String) : List String :=
  if symbol ∈ symbols then symbols else symbols ++ [symbol]

/-- A configuration overridden by a later one. -/
def merge (config later : Config) : Config where
  packageRoot := later.packageRoot.or config.packageRoot
  frameworkDirectory := later.frameworkDirectory.or config.frameworkDirectory
  define := later.define.foldl addSymbol config.define

/-- Configurations merged in their order. -/
def mergeAll (configs : List Config) : Config :=
  configs.foldl merge empty

@[simp]
theorem mem_addSymbol {symbols : List String} {symbol other : String} :
    other ∈ addSymbol symbols symbol ↔ other ∈ symbols ∨ other = symbol := by
  unfold addSymbol
  split
  · constructor
    · exact Or.inl
    · rintro (h | rfl) <;> assumption
  · simp

theorem mem_foldl_addSymbol {added symbols : List String} {other : String} :
    other ∈ added.foldl addSymbol symbols ↔ other ∈ symbols ∨ other ∈ added := by
  induction added generalizing symbols with
  | nil => simp
  | cons symbol rest ih =>
      rw [List.foldl_cons, ih, mem_addSymbol, List.mem_cons, or_assoc]

/-- The symbols of a merged configuration are those of both. -/
theorem mem_define_merge {config later : Config} {symbol : String} :
    symbol ∈ (config.merge later).define ↔ symbol ∈ config.define ∨ symbol ∈ later.define :=
  mem_foldl_addSymbol

/-- A configuration that says nothing changes nothing. -/
@[simp]
theorem merge_empty (config : Config) : config.merge empty = config := by
  simp [merge, empty]

/-! ## Reading -/

/-- A text. -/
def text? : SettingValue → Option String
  | .text text => some text
  | _ => none

/-- A path, or the explicit absence of one. -/
def optionalPath? : SettingValue → Option (Option Path)
  | .absent => some none
  | .text text => some (some ⟨text⟩)
  | _ => none

/-- A list of texts. -/
def texts? : SettingValue → Option (List String)
  | .list items => items.mapM text?
  | _ => none

/-- Read one field out of a group, with a default where it is missing.  A group is a table, or the
list of its values in the order of the fields; `position` is the field's place in that order.  A
moment is a group without any field that is known here. -/
def field? {α : Type} (group : SettingValue) (name : String) (position : Nat) (default : α)
    (read : SettingValue → Option α) : Option α :=
  match group with
  | .table fields =>
      match SettingValue.field? fields name with
      | some value => read value
      | none => some default
  | .list items =>
      match items[position]? with
      | some value => read value
      | none => some default
  | .moment _ => some default
  | _ => none

/-- Whether a group holds no more values than it has fields, in case that is asked for. -/
def fits (exact : Bool) (fields : Nat) : SettingValue → Bool
  | .list items => !exact || items.length ≤ fields
  | _ => true

/-- Read a group that has a single field. -/
def single? {α : Type} (exact : Bool) (name : String) (default : α)
    (read : SettingValue → Option α) (group : SettingValue) : Option α :=
  if fits exact 1 group then field? group name 0 default read else none

/-- The configuration that a value stands for, if everything in it has the right type.  Unknown
names are skipped; `exact` says whether a list may not hold more values than it has fields. -/
def ofValue? (exact : Bool) (value : SettingValue) : Option Config :=
  if fits exact 3 value then do
    let packageRoot ← field? value "packages" 0 none (single? exact "root" none optionalPath?)
    let frameworkDirectory ←
      field? value "framework" 1 none (single? exact "dir" none optionalPath?)
    let define ← field? value "compile" 2 [] (single? exact "define" [] texts?)
    return { packageRoot, frameworkDirectory, define }
  else none

end Config
end ProjectAssembler
