/-!
# JSON reports

Reports can be written as JSON, one value a line and indented by depth.

Main definitions: `JsonValue` and `JsonValue.render`.

Main result: `JsonValue.escape_of_plain`, a text without special characters is written as it is.
-/

namespace ProjectAssembler

/-- The values that reports are made of. -/
inductive JsonValue where
  | boolean (value : Bool)
  | text (text : String)
  | list (items : List JsonValue)
  | record (fields : List (String × JsonValue))
deriving Repr, Inhabited

namespace JsonValue

/-- The digit of a hexadecimal number below sixteen. -/
def hexDigit (value : Nat) : Char :=
  if value < 10 then Char.ofNat ('0'.toNat + value) else Char.ofNat ('a'.toNat + value - 10)

/-- The written form of a character inside of a text. -/
def escapeCharacter (c : Char) : List Char :=
  if c = '"' then ['\\', '"']
  else if c = '\\' then ['\\', '\\']
  else if c = '\n' then ['\\', 'n']
  else if c = '\r' then ['\\', 'r']
  else if c = '\t' then ['\\', 't']
  else if c = '\x08' then ['\\', 'b']
  else if c = '\x0c' then ['\\', 'f']
  else if c.toNat < 0x20 then
    ['\\', 'u', '0', '0', hexDigit (c.toNat / 16), hexDigit (c.toNat % 16)]
  else [c]

/-- The written form of a text without its quotes. -/
def escape (text : List Char) : List Char :=
  text.flatMap escapeCharacter

/-- The written form of a text. -/
def quote (text : String) : String :=
  "\"" ++ String.ofList (escape text.toList) ++ "\""

/-- The beginning of a line at a depth. -/
def indent (depth : Nat) : String :=
  String.ofList (List.replicate (2 * depth) ' ')

/-- Lines between an opening and a closing mark; without lines the marks stand together. -/
def enclose (first last : String) (depth : Nat) (lines : List String) : String :=
  if lines.isEmpty then first ++ last
  else
    first ++ "\n" ++ ",\n".intercalate (lines.map (indent (depth + 1) ++ ·)) ++ "\n" ++
      indent depth ++ last

mutual

/-- The written form of a value at a depth. -/
def render (depth : Nat) : JsonValue → String
  | .boolean value => if value then "true" else "false"
  | .text content => quote content
  | .list items => enclose "[" "]" depth (renderItems (depth + 1) items)
  | .record fields => enclose "\x7b" "\x7d" depth (renderFields (depth + 1) fields)
termination_by structural value => value

/-- The written forms of the items of a list. -/
def renderItems (depth : Nat) : List JsonValue → List String
  | [] => []
  | item :: rest => item.render depth :: renderItems depth rest
termination_by structural items => items

/-- The written forms of the fields of a record. -/
def renderFields (depth : Nat) : List (String × JsonValue) → List String
  | [] => []
  | (name, value) :: rest => (quote name ++ ": " ++ value.render depth) :: renderFields depth rest
termination_by structural fields => fields

end

/-- A text without quotes, backslashes and control characters is written as it is. -/
theorem escape_of_plain {text : List Char}
    (h : ∀ c ∈ text, c ≠ '"' ∧ c ≠ '\\' ∧ 0x20 ≤ c.toNat) : escape text = text := by
  induction text with
  | nil => rfl
  | cons c rest ih =>
      obtain ⟨hquote, hbackslash, hcontrol⟩ := h c List.mem_cons_self
      have hne (d : Char) (hd : d.toNat < 0x20) : c ≠ d := by
        rintro rfl
        omega
      have hc : escapeCharacter c = [c] := by
        unfold escapeCharacter
        rw [if_neg hquote, if_neg hbackslash, if_neg (hne '\n' (by decide)),
          if_neg (hne '\r' (by decide)), if_neg (hne '\t' (by decide)),
          if_neg (hne '\x08' (by decide)), if_neg (hne '\x0c' (by decide)),
          if_neg (Nat.not_lt.2 hcontrol)]
      have hrest := ih fun d hd => h d (List.mem_cons_of_mem _ hd)
      simp only [escape, List.flatMap_cons] at hrest ⊢
      rw [hc, hrest]
      rfl

end JsonValue
end ProjectAssembler
