import ProjectAssembler.Text.Trim

/-!
# Arguments of a command line

Arguments are options, values and words.  A long option begins with two hyphens and a short one
with a single hyphen; short options without values may be written together.  A value follows its
option as the next argument, after an equals sign, or directly after a short option.  Two hyphens
alone end the options.

Main definitions:

* `OptionName`: the options that are known;
* `Argument`: what an argument means;
* `Argument.ofTexts`: the meaning of a list of arguments, up to the first mistake.

Main results: `Argument.ofTexts_nil`, and `Argument.ofTexts_end` says that nothing after two
hyphens is an option.
-/

namespace ProjectAssembler

/-- The options that are known. -/
inductive OptionName where
  | verbose
  | packages
  | framework
  | version
  | help
  | directory
  | define
  | name
  | json
  | depth
  | duplicates
deriving DecidableEq, Repr

/-- How an option is written. -/
structure OptionForm where
  option : OptionName
  long : String
  short : Option Char
  takesValue : Bool
deriving DecidableEq, Repr

/-- What an argument means. -/
inductive Argument where
  | flag (option : OptionName)
  | value (option : OptionName) (text : String)
  /-- A word before the end of the options, with the arguments after it. -/
  | word (text : String) (rest : List String)
  /-- A word after the end of the options. -/
  | operand (text : String)
  /-- An argument that nothing can be made of; whatever follows is not looked at. -/
  | mistake
deriving DecidableEq, Repr

/-- The options of a cluster of short ones, and the option at its end that still needs a value. -/
structure Cluster where
  arguments : List Argument
  pending : Option OptionName
deriving DecidableEq, Repr

namespace Argument

/-- Whether a text is written like an option. -/
def isOptionLike (text : String) : Bool :=
  match text.toList with
  | '-' :: _ :: _ => true
  | _ => false

/-- The name of a long option and the value after its equals sign. -/
def long? (text : String) : Option (String × Option String) :=
  match text.toList with
  | '-' :: '-' :: body =>
      let name := String.ofList (body.takeWhile (· != '='))
      match body.dropWhile (· != '=') with
      | [] => some (name, none)
      | _ :: given => some (name, some (String.ofList given))
  | _ => none

/-- The letters of an argument of short options. -/
def letters? (text : String) : Option (List Char) :=
  match text.toList with
  | '-' :: c :: rest => some (c :: rest)
  | _ => none

/-- A value directly after a short option; an equals sign between them does not belong to it. -/
def attached : List Char → String
  | '=' :: rest => String.ofList rest
  | rest => String.ofList rest

/-- The meaning of the letters of short options. -/
def ofLetters (forms : List OptionForm) : List Char → Cluster
  | [] => ⟨[], none⟩
  | c :: rest =>
      match forms.find? fun form => form.short == some c with
      | none => ⟨[mistake], none⟩
      | some form =>
          if form.takesValue then
            if rest.isEmpty then ⟨[], some form.option⟩
            else ⟨[value form.option (attached rest)], none⟩
          else
            let more := ofLetters forms rest
            ⟨flag form.option :: more.arguments, more.pending⟩

/-- The meaning of a long option; the second part is an option that still needs a value. -/
def ofLong (forms : List OptionForm) (name : String) (given : Option String) : Cluster :=
  match forms.find? fun form => form.long == name, given with
  | none, _ => ⟨[mistake], none⟩
  | some form, some text =>
      if form.takesValue then ⟨[value form.option text], none⟩ else ⟨[mistake], none⟩
  | some form, none =>
      if form.takesValue then ⟨[], some form.option⟩ else ⟨[flag form.option], none⟩

/-- The meaning of an argument that is written like an option. -/
def ofOption (forms : List OptionForm) (text : String) : Cluster :=
  match long? text, letters? text with
  | some (name, given), _ => ofLong forms name given
  | none, some letters => ofLetters forms letters
  | none, none => ⟨[mistake], none⟩

/-- The meaning of a list of arguments, given the option before it that still needs a value. -/
def ofTextsAfter (forms : List OptionForm) : Option OptionName → List String → List Argument
  | none, [] => []
  | some _, [] => [mistake]
  | some option, text :: rest =>
      if isOptionLike text then [mistake] else value option text :: ofTextsAfter forms none rest
  | none, text :: rest =>
      if text = "--" then rest.map operand
      else if isOptionLike text then
        let cluster := ofOption forms text
        cluster.arguments ++ ofTextsAfter forms cluster.pending rest
      else word text rest :: ofTextsAfter forms none rest

/-- The meaning of a list of arguments. -/
def ofTexts (forms : List OptionForm) (texts : List String) : List Argument :=
  ofTextsAfter forms none texts

@[simp]
theorem ofTexts_nil (forms : List OptionForm) : ofTexts forms [] = [] :=
  rfl

/-- Nothing after the end of the options is an option. -/
theorem ofTexts_end (forms : List OptionForm) (rest : List String) :
    ofTexts forms ("--" :: rest) = rest.map operand := by
  simp [ofTexts, ofTextsAfter]

end Argument
end ProjectAssembler
