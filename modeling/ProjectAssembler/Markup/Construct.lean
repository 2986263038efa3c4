import ProjectAssembler.Markup.Error
import ProjectAssembler.Text.Trim

/-!
# Constructs of markup

A document is cut into tags, texts, character data and constructs without meaning here (comments,
instructions, document types).  Cutting looks only for the end of each construct; names and
attributes are read later.

Main definitions:

* `Markup.cutTag`, `Markup.cutAfter` and `Markup.cutBalanced`: a construct up to the `>` that ends
  it;
* `Markup.readConstruct`: the construct that begins after a `<`;
* `Markup.readNext`: the next construct of a document.

Main results: `Markup.cutTag_eq_some` and its companions say that a cut loses nothing but the `>`,
and `Markup.length_readNext` that each construct shortens the document.
-/

namespace ProjectAssembler
namespace Markup

/-- The white space of markup. -/
def isBlank (c : Char) : Bool :=
  c == ' ' || c == '\t' || c == '\r' || c == '\n'

/-- A piece of a document. -/
inductive Construct where
  /-- A text, without the white space around it. -/
  | text (raw : List Char)
  | characterData (text : List Char)
  /-- A start tag, from its name on; a tag that is closed at once ends its element too. -/
  | opening (content : List Char) (closed : Bool)
  | closing (name : List Char)
  /-- A comment, an instruction or a document type. -/
  | ignored
deriving DecidableEq, Repr

/-- An error and what was left of the document at the place it is reported for. -/
structure Failure where
  error : Error
  remaining : List Char
deriving DecidableEq, Repr

/-! ## Cutting -/

/-- Whether a character encloses an attribute's value. -/
def isQuote (c : Char) : Bool :=
  c == '"' || c == '\''

/-- The state of being inside of quotes after one more character. -/
def nextQuote (quote : Option Char) (c : Char) : Option Char :=
  match quote with
  | some q => if c = q then none else some q
  | none => if isQuote c then some c else none

/-- The text up to the first `>` outside of quotes, and the text after it. -/
def cutTag (quote : Option Char) : List Char → Option (List Char × List Char)
  | [] => none
  | c :: rest =>
      if c = '>' ∧ quote = none then some ([], rest)
      else
        match cutTag (nextQuote quote c) rest with
        | none => none
        | some (content, following) => some (c :: content, following)

/-- The text up to the first `>` that a test accepts, given the reversed text before it, and the
text after it. -/
def cutAfter (accepts : List Char → Bool) (before : List Char) :
    List Char → Option (List Char × List Char)
  | [] => none
  | c :: rest =>
      if c = '>' ∧ accepts before = true then some ([], rest)
      else
        match cutAfter accepts (c :: before) rest with
        | none => none
        | some (content, following) => some (c :: content, following)

/-- The text up to the `>` that leaves no `<` open, and the text after it. -/
def cutBalanced (depth : Nat) : List Char → Option (List Char × List Char)
  | [] => none
  | c :: rest =>
      if c = '>' ∧ depth = 0 then some ([], rest)
      else
        let depth := if c = '<' then depth + 1 else if c = '>' then depth - 1 else depth
        match cutBalanced depth rest with
        | none => none
        | some (content, following) => some (c :: content, following)

theorem cutTag_eq_some {quote : Option Char} {text content following : List Char}
    (h : cutTag quote text = some (content, following)) : text = content ++ '>' :: following := by
  induction text generalizing quote content with
  | nil => simp [cutTag] at h
  | cons c rest ih =>
      unfold cutTag at h
      split at h
      · rename_i hc
        obtain ⟨rfl, rfl⟩ := Prod.mk.inj (Option.some.inj h)
        simp [hc.1]
      · split at h
        · simp at h
        · rename_i heq
          obtain ⟨rfl, rfl⟩ := Prod.mk.inj (Option.some.inj h)
          simp [ih heq]

theorem cutAfter_eq_some {accepts : List Char → Bool} {before text content following : List Char}
    (h : cutAfter accepts before text = some (content, following)) :
    text = content ++ '>' :: following := by
  induction text generalizing before content with
  | nil => simp [cutAfter] at h
  | cons c rest ih =>
      unfold cutAfter at h
      split at h
      · rename_i hc
        obtain ⟨rfl, rfl⟩ := Prod.mk.inj (Option.some.inj h)
        simp [hc.1]
      · split at h
        · simp at h
        · rename_i heq
          obtain ⟨rfl, rfl⟩ := Prod.mk.inj (Option.some.inj h)
          simp [ih heq]

theorem cutBalanced_eq_some {depth : Nat} {text content following : List Char}
    (h : cutBalanced depth text = some (content, following)) :
    text = content ++ '>' :: following := by
  induction text generalizing depth content with
  | nil => simp [cutBalanced] at h
  | cons c rest ih =>
      unfold cutBalanced at h
      split at h
      · rename_i hc
        obtain ⟨rfl, rfl⟩ := Prod.mk.inj (Option.some.inj h)
        simp [hc.1]
      · simp only at h
        split at h
        · simp at h
        · rename_i heq
          obtain ⟨rfl, rfl⟩ := Prod.mk.inj (Option.some.inj h)
          simp [ih heq]

/-! ## Constructs after an opening bracket -/

/-- The outcome of reading one construct: the construct and the rest of the document. -/
abbrev Reading : Type :=
  Except Failure (Construct × List Char)

/-- An error that is reported for the `<` before a text. -/
def failBefore (error : Error) (text : List Char) : Reading :=
  .error ⟨error, '<' :: text⟩

/-- Whether the reversed text before a `>` ends a comment that is long enough to have a beginning
and an end. -/
def endsComment (before : List Char) : Bool :=
  before.take 2 == ['-', '-'] && decide (4 < before.length)

/-- Whether the reversed text before a `>` ends character data. -/
def endsCharacterData (before : List Char) : Bool :=
  before.take 2 == [']', ']']

/-- Whether the reversed text before a `>` ends an instruction. -/
def endsInstruction (before : List Char) : Bool :=
  before.take 1 == ['?']

/-- A comment, from its `!` on. -/
def readComment (text : List Char) : Reading :=
  match cutAfter endsComment [] text with
  | some ('!' :: '-' :: '-' :: _, following) => .ok (.ignored, following)
  | _ => failBefore .unclosedComment text

/-- Character data, from its `!` on. -/
def readCharacterData (text : List Char) : Reading :=
  match cutAfter endsCharacterData [] text with
  | some (content, following) =>
      match Text.afterStart? "![CDATA[".toList content with
      | some data => .ok (.characterData (data.take (data.length - 2)), following)
      | none => failBefore .unclosedCharacterData text
  | none => failBefore .unclosedCharacterData text

/-- A document type, from its `!` on.  Its name must not be missing. -/
def readDoctype (text : List Char) : Reading :=
  match cutBalanced 0 text with
  | some (content, following) =>
      if (content.take 8).map Char.toUpper = "!DOCTYPE".toList then
        if (content.drop 8).all isBlank then .error ⟨.missingDoctypeName, '>' :: following⟩
        else .ok (.ignored, following)
      else failBefore .unclosedDoctype text
  | none => failBefore .unclosedDoctype text

/-- An instruction or declaration, from its first `?` on. -/
def readInstruction (text : List Char) : Reading :=
  match cutAfter endsInstruction [] text with
  | some (_ :: _ :: _, following) => .ok (.ignored, following)
  | _ => failBefore .unclosedInstruction text

/-- The name of an end tag with a given content: white space after the name is not part of it, but
a content of white space alone is the name. -/
def endTagName (content : List Char) : List Char :=
  if content.all isBlank then content else Text.dropEnd isBlank content

/-- A start or end tag, from the character after its `<` on. -/
def readTag (text : List Char) : Reading :=
  match cutTag none text with
  | some ('/' :: content, following) => .ok (.closing (endTagName content), following)
  | some (content, following) =>
      match content.getLast? with
      | some '/' => .ok (.opening content.dropLast true, following)
      | _ => .ok (.opening content false, following)
  | none => failBefore .unclosedTag text

/-- The construct that begins after a `<`. -/
def readConstruct (text : List Char) : Reading :=
  match text with
  | '!' :: '[' :: _ => readCharacterData text
  | '!' :: '-' :: _ => readComment text
  | '!' :: 'D' :: _ => readDoctype text
  | '!' :: 'd' :: _ => readDoctype text
  | '!' :: _ => failBefore .unknownMarkup text
  | '?' :: _ => readInstruction text
  | _ => readTag text

/-! ## The next construct of a document -/

/-- What comes next in a document: its end, an error, or a construct with the rest of the
document.  A text takes the `<` after it along; `inside` says that this has happened. -/
inductive Next where
  | finished
  | failed (failure : Failure)
  | read (construct : Construct) (rest : List Char) (inside : Bool)

/-- What the reading of a construct after a `<` gives next. -/
def Next.ofReading : Reading → Next
  | .ok (construct, rest) => read construct rest false
  | .error failure => failed failure

/-- What comes next in a document, of which the `<` has been read already if `inside` holds. -/
def readNext (inside : Bool) (text : List Char) : Next :=
  if inside then Next.ofReading (readConstruct text)
  else
    match text.dropWhile isBlank with
    | [] => .finished
    | '<' :: rest => Next.ofReading (readConstruct rest)
    | content =>
        let raw := Text.dropEnd isBlank (content.takeWhile (· != '<'))
        match content.dropWhile (· != '<') with
        | _ :: rest => .read (.text raw) rest true
        | [] => .read (.text raw) [] false

/-! ## Constructs shorten the document -/

theorem length_readComment {text rest : List Char} {construct : Construct}
    (h : readComment text = .ok (construct, rest)) : rest.length < text.length := by
  unfold readComment at h
  split at h
  · rename_i heq
    obtain ⟨-, rfl⟩ := Prod.mk.inj (Except.ok.inj h)
    rw [cutAfter_eq_some heq]
    simp
    omega
  · simp [failBefore] at h

theorem length_readCharacterData {text rest : List Char} {construct : Construct}
    (h : readCharacterData text = .ok (construct, rest)) : rest.length < text.length := by
  unfold readCharacterData at h
  split at h
  · rename_i heq
    split at h
    · obtain ⟨-, rfl⟩ := Prod.mk.inj (Except.ok.inj h)
      rw [cutAfter_eq_some heq]
      simp
      omega
    · simp [failBefore] at h
  · simp [failBefore] at h

theorem length_readDoctype {text rest : List Char} {construct : Construct}
    (h : readDoctype text = .ok (construct, rest)) : rest.length < text.length := by
  unfold readDoctype at h
  split at h
  · rename_i heq
    split at h
    · split at h
      · simp at h
      · obtain ⟨-, rfl⟩ := Prod.mk.inj (Except.ok.inj h)
        rw [cutBalanced_eq_some heq]
        simp
        omega
    · simp [failBefore] at h
  · simp [failBefore] at h

theorem length_readInstruction {text rest : List Char} {construct : Construct}
    (h : readInstruction text = .ok (construct, rest)) : rest.length < text.length := by
  unfold readInstruction at h
  split at h
  · rename_i heq
    obtain ⟨-, rfl⟩ := Prod.mk.inj (Except.ok.inj h)
    rw [cutAfter_eq_some heq]
    simp
    omega
  · simp [failBefore] at h

theorem length_readTag {text rest : List Char} {construct : Construct}
    (h : readTag text = .ok (construct, rest)) : rest.length < text.length := by
  unfold readTag at h
  split at h
  · rename_i heq
    obtain ⟨-, rfl⟩ := Prod.mk.inj (Except.ok.inj h)
    rw [cutTag_eq_some heq]
    simp
    omega
  · rename_i heq
    rw [cutTag_eq_some heq]
    split at h
    all_goals
      obtain ⟨-, rfl⟩ := Prod.mk.inj (Except.ok.inj h)
      simp
      omega
  · simp [failBefore] at h

theorem length_readConstruct {text rest : List Char} {construct : Construct}
    (h : readConstruct text = .ok (construct, rest)) : rest.length < text.length := by
  unfold readConstruct at h
  split at h
  · exact length_readCharacterData h
  · exact length_readComment h
  · exact length_readDoctype h
  · exact length_readDoctype h
  · simp [failBefore] at h
  · exact length_readInstruction h
  · exact length_readTag h

theorem length_ofReading {reading : Reading} {text rest : List Char} {construct : Construct}
    {inside : Bool} (hreading : ∀ c r, reading = .ok (c, r) → r.length < text.length)
    (h : Next.ofReading reading = .read construct rest inside) : rest.length < text.length := by
  unfold Next.ofReading at h
  split at h
  · obtain ⟨rfl, rfl, -⟩ := Next.read.inj h
    exact hreading _ _ rfl
  · simp at h

/-- Each construct shortens the document. -/
theorem length_readNext {inside inside' : Bool} {text rest : List Char} {construct : Construct}
    (h : readNext inside text = .read construct rest inside') : rest.length < text.length := by
  have hblank := (List.dropWhile_suffix isBlank (l := text)).length_le
  unfold readNext at h
  split at h
  · exact length_ofReading (fun _ _ => length_readConstruct) h
  · split at h
    · simp at h
    · rename_i rest' heq
      have := length_ofReading (fun _ _ => length_readConstruct) h
      rw [heq] at hblank
      simp only [List.length_cons] at hblank
      omega
    · rename_i content hne _
      simp only at h
      split at h
      · rename_i following heq
        have hs := (List.dropWhile_suffix (· != '<') (l := text.dropWhile isBlank)).length_le
        obtain ⟨-, rfl, -⟩ := Next.read.inj h
        rw [heq] at hs
        simp only [List.length_cons] at hs
        omega
      · obtain ⟨-, rfl, -⟩ := Next.read.inj h
        have hpos : 0 < (text.dropWhile isBlank).length := List.length_pos_iff.2 hne
        simp only [List.length_nil]
        omega

end Markup
end ProjectAssembler
