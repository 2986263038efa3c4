import ProjectAssembler.Text.CharacterClass

/-!
# Trimming and cutting text

Operations on character lists that several readers share: removing white space at the ends, cutting
at a separator, and splitting into lines that keep their terminators.

Main results:

* `flatten_lines`: the lines of a text, put together, are the text;
* `intercalate_splitOn`: the parts between separators, joined by the separator, are the text.
-/

namespace ProjectAssembler
namespace Text

/-! ## Ends -/

/-- A text without the leading characters of a class. -/
def dropStart (p : Char → Bool) (text : List Char) : List Char :=
  text.dropWhile p

/-- A text without the trailing characters of a class. -/
def dropEnd (p : Char → Bool) (text : List Char) : List Char :=
  (text.reverse.dropWhile p).reverse

/-- A text without leading white space. -/
def trimStart (text : List Char) : List Char :=
  dropStart isBlank text

/-- A text without trailing white space. -/
def trimEnd (text : List Char) : List Char :=
  dropEnd isBlank text

/-- A text without white space at either end. -/
def trim (text : List Char) : List Char :=
  trimStart (trimEnd text)

/-- The text of a string without white space at either end. -/
def trimString (text : String) : String :=
  String.ofList (trim text.toList)

@[simp]
theorem dropEnd_nil (p : Char → Bool) : dropEnd p [] = [] :=
  rfl

/-- Dropping at the end leaves an initial segment. -/
theorem dropEnd_isPrefix (p : Char → Bool) (text : List Char) : dropEnd p text <+: text := by
  have h := (List.dropWhile_suffix p (l := text.reverse)).reverse
  simpa [dropEnd] using h

/-! ## Cutting -/

/-- A text without a given beginning, or nothing when it begins otherwise. -/
def afterStart? : (start text : List Char) → Option (List Char)
  | [], text => some text
  | c :: start, d :: text => if c = d then afterStart? start text else none
  | _ :: _, [] => none

/-- Having a beginning is being that beginning and the rest. -/
theorem afterStart?_eq_some_iff {start text rest : List Char} :
    afterStart? start text = some rest ↔ text = start ++ rest := by
  induction start generalizing text with
  | nil => simp [afterStart?]
  | cons c start ih =>
      cases text with
      | nil => simp [afterStart?]
      | cons d text =>
          by_cases h : c = d <;> simp [afterStart?, h, ih]
          intro h'
          exact absurd h'.symm h

/-- The part of a text before the first occurrence of a pattern, or all of it. -/
def before (pattern : List Char) : List Char → List Char
  | [] => []
  | c :: text => if pattern.isPrefixOf (c :: text) then [] else c :: before pattern text

/-- The parts of a text between the occurrences of a separator, of which there is at least one. -/
def splitOn (separator : Char) : List Char → List (List Char)
  | [] => [[]]
  | c :: text =>
      if c = separator then [] :: splitOn separator text
      else
        match splitOn separator text with
        | [] => [[c]]
        | part :: parts => (c :: part) :: parts

theorem splitOn_ne_nil (separator : Char) (text : List Char) : splitOn separator text ≠ [] := by
  cases text with
  | nil => simp [splitOn]
  | cons c text =>
      unfold splitOn
      split
      · simp
      · split <;> simp

/-- The parts between separators, joined by the separator, are the text. -/
theorem intercalate_splitOn (separator : Char) (text : List Char) :
    List.intercalate [separator] (splitOn separator text) = text := by
  induction text with
  | nil => simp [splitOn, List.intercalate]
  | cons c text ih =>
      unfold splitOn
      cases hparts : splitOn separator text with
      | nil => exact absurd hparts (splitOn_ne_nil separator text)
      | cons part parts =>
          rw [hparts] at ih
          by_cases hc : c = separator
          · subst hc
            have joined : List.intercalate [c] ([] :: part :: parts) =
                c :: List.intercalate [c] (part :: parts) := by
              simp [List.intercalate]
            simp only [if_true, joined, ih]
          · simp only [hc, if_false]
            cases parts with
            | nil => simp_all [List.intercalate]
            | cons part' parts => simp_all [List.intercalate]

/-! ## Lines -/

/-- The lines of a text, each with its line feed; only the last one may lack it. -/
def lines : List Char → List (List Char)
  | [] => []
  | '\n' :: text => ['\n'] :: lines text
  | c :: text =>
      match lines text with
      | [] => [[c]]
      | line :: rest => (c :: line) :: rest

/-- The lines of a text, put together, are the text. -/
@[simp]
theorem flatten_lines (text : List Char) : (lines text).flatten = text := by
  fun_induction lines text <;> simp_all

/-- The terminator that ends a line: carriage return and line feed, a line feed, or none. -/
def terminator (line : List Char) : List Char :=
  match line.reverse with
  | '\n' :: '\r' :: _ => ['\r', '\n']
  | '\n' :: _ => ['\n']
  | _ => []

end Text
end ProjectAssembler
