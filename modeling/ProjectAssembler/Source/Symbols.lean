import ProjectAssembler.OrderedList

/-!
# Conditional compilation symbols

The set of names that conditions of a source file may find defined.  Names are kept in ascending
code point order, each once, so that the set can be written out.

Main results:

* `Symbols.mem_names_define`, `Symbols.contains_define`: which names are defined after one is added;
* `Symbols.mem_names_undefine`, `Symbols.contains_undefine`: which are after one is removed.
-/

namespace ProjectAssembler

/-- A set of conditional compilation symbols, ascending by code point. -/
structure Symbols where
  names : List String
deriving DecidableEq, Repr, Inhabited

namespace Symbols

/-- No symbol is defined. -/
def empty : Symbols :=
  ⟨[]⟩

/-- Whether a name is defined. -/
def contains (symbols : Symbols) (name : String) : Bool :=
  symbols.names.contains name

/-- Define a name. -/
def define (symbols : Symbols) (name : String) : Symbols :=
  ⟨OrderedList.insert compare name symbols.names⟩

/-- Remove a name. -/
def undefine (symbols : Symbols) (name : String) : Symbols :=
  ⟨symbols.names.filter (· != name)⟩

/-- The set of the names of a list. -/
def ofList (names : List String) : Symbols :=
  ⟨OrderedList.ofList compare names⟩

@[simp]
theorem contains_empty (name : String) : empty.contains name = false :=
  rfl

/-- Defining a name adds that name and no other. -/
@[simp]
theorem mem_names_define {symbols : Symbols} {name other : String} :
    other ∈ (symbols.define name).names ↔ other = name ∨ other ∈ symbols.names :=
  OrderedList.mem_insert_iff

/-- Removing a name removes that name and no other. -/
@[simp]
theorem mem_names_undefine {symbols : Symbols} {name other : String} :
    other ∈ (symbols.undefine name).names ↔ other ≠ name ∧ other ∈ symbols.names := by
  simp [undefine, and_comm]

/-- Defining a name adds that name and no other. -/
@[simp]
theorem contains_define (symbols : Symbols) (name other : String) :
    (symbols.define name).contains other = (symbols.contains other || other == name) := by
  rw [Bool.eq_iff_iff]
  simp [contains, or_comm]

/-- Removing a name removes that name and no other. -/
@[simp]
theorem contains_undefine (symbols : Symbols) (name other : String) :
    (symbols.undefine name).contains other = (symbols.contains other && other != name) := by
  rw [Bool.eq_iff_iff]
  simp [contains, undefine, and_comm]

end Symbols
end ProjectAssembler
