/-!
# Values of a settings document

What a settings document can say, whatever format it is written in.

Main definitions: `SettingValue` and `SettingValue.field?`.
-/

namespace ProjectAssembler

/-- A value in a settings document. -/
inductive SettingValue where
  /-- An explicit absence of a value. -/
  | absent
  | text (text : String)
  /-- A number, by its spelling. -/
  | number (spelling : String)
  | boolean (value : Bool)
  /-- A date, a time of day or both, by its spelling. -/
  | moment (spelling : String)
  | list (items : List SettingValue)
  /-- Named values, each name once. -/
  | table (fields : List (String × SettingValue))
deriving Repr, Inhabited

/-- The value of a name among named values. -/
def SettingValue.field? (fields : List (String × SettingValue)) (name : String) :
    Option SettingValue :=
  fields.lookup name

end ProjectAssembler
