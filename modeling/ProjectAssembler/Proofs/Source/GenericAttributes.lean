import ProjectAssembler.Proofs.Source.Headers
import ProjectAssembler.Source.Tree

/-!
# Attributes with type arguments

Between the name of an attribute and its arguments there may stand type arguments.  Angle brackets
are no brackets for the reading of a section, so each comma between them that stands outside of
other brackets makes it expect a name, and takes the next one for an attribute.

Main definitions:

* `Grammar.TypeArguments`: type arguments, divided into parts by the commas outside of brackets;
* `Grammar.TypeArguments.laterNames`: the names of the parts but the first;
* `Grammar.GenericHeading`: a type declaration with attributes that may have type arguments.

Main results:

* `DeclarationScan.attributeNames_genericSection`: what is read from a section;
* `DeclarationScan.genericHeading_recorded`: which attributes a declaration gets, and when these are
  its own.
-/

namespace ProjectAssembler
namespace Grammar

open DeclarationScan (EndsName argumentTokens)

/-! ## Type arguments -/

/-- Tokens whose brackets match, of which those outside of all brackets satisfy a property. -/
inductive Outside (p : Token → Prop) : List Token → Prop where
  | nil : Outside p []
  | cons {token : Token} {rest : List Token} (hopens : ¬ Opens token) (hcloses : ¬ Closes token)
      (htoken : p token) (hrest : Outside p rest) : Outside p (token :: rest)
  | group (bracket : Bracket) {first last : Token} {inner rest : List Token}
      (hfirst : first.kind = .punctuation bracket.opening) (hinner : Balanced inner)
      (hlast : last.kind = .punctuation bracket.closing) (hrest : Outside p rest) :
      Outside p (first :: inner ++ last :: rest)

/-- Whether a token does not divide type arguments. -/
def IsUndivided (token : Token) : Prop :=
  token.kind ≠ .punctuation ','

/-- Whether a token neither divides type arguments nor names a type. -/
def IsUnnamed (token : Token) : Prop :=
  token.kind ≠ .punctuation ',' ∧ token.kind ≠ .identifier

/-- What stands behind a comma between type arguments, up to the next comma outside of brackets.
Type arguments may be nested, so this may be the beginning of a type, all of it, or the end of one
type.  The first name that stands in it outside of brackets is written out. -/
inductive TypePart where
  | unnamed (content : List Token) (outside : Outside IsUnnamed content)
  | named (before : List Token) (first : Word) (segments : Segments) (behind : List Token)
      (before_outside : Outside IsUnnamed before) (behind_outside : Outside IsUndivided behind)
      (ends : EndsName behind)

namespace TypePart

/-- The tokens of a part. -/
def tokens : TypePart → List Token
  | unnamed content _ => content
  | named before first segments behind _ _ _ =>
      before ++ first.token :: (segmentTokens segments ++ behind)

/-- The last segment of the first name of a part. -/
def name? : TypePart → Option String
  | unnamed _ _ => none
  | named _ first segments _ _ _ _ => some (lastOf first.text segments)

end TypePart

/-- Type arguments between angle brackets, divided by the commas outside of other brackets. -/
structure TypeArguments where
  opening : Nat
  first : List Token
  others : List (Nat × TypePart)
  closing : Nat
  first_outside : Outside IsUndivided first

namespace TypeArguments

/-- The tokens of the parts after the first one, each with the comma before it. -/
def otherTokens (others : List (Nat × TypePart)) : List Token :=
  others.flatMap fun other => mark ',' other.1 :: other.2.tokens

/-- The tokens of type arguments. -/
def tokens (own : TypeArguments) : List Token :=
  mark '<' own.opening :: (own.first ++ (otherTokens own.others ++ [mark '>' own.closing]))

/-- The names of the parts after the first one. -/
def laterNames (own : TypeArguments) : List String :=
  own.others.filterMap fun other => other.2.name?

end TypeArguments

/-! ## Attributes -/

/-- An attribute that may have type arguments between its name and its arguments. -/
structure GenericAttribute extends Attribute where
  typeArguments : Option TypeArguments

namespace GenericAttribute

/-- The tokens of the type arguments of an attribute, if it has any. -/
def typeTokens (own : GenericAttribute) : List Token :=
  (own.typeArguments.map TypeArguments.tokens).getD []

/-- The tokens of an attribute. -/
def tokens (own : GenericAttribute) : List Token :=
  own.first.token ::
    (segmentTokens own.segments ++ (own.typeTokens ++ argumentTokens own.toAttribute))

/-- The names of the parts of its type arguments after the first one. -/
def laterNames (own : GenericAttribute) : List String :=
  (own.typeArguments.map TypeArguments.laterNames).getD []

/-- What is recorded of an attribute. -/
def recorded (own : GenericAttribute) : List String :=
  own.name :: own.laterNames

end GenericAttribute

/-- An attribute section. -/
structure GenericSection where
  opening : Nat
  first : GenericAttribute
  others : List (Nat × GenericAttribute)
  closing : Nat

namespace GenericSection

/-- The attributes of a section. -/
def attributes (part : GenericSection) : List GenericAttribute :=
  part.first :: part.others.map Prod.snd

/-- The tokens of the attributes after the first one, each with the comma before it. -/
def otherTokens (others : List (Nat × GenericAttribute)) : List Token :=
  others.flatMap fun other => mark ',' other.1 :: other.2.tokens

/-- The tokens of a section. -/
def tokens (part : GenericSection) : List Token :=
  mark '[' part.opening ::
    (part.first.tokens ++ (otherTokens part.others ++ [mark ']' part.closing]))

end GenericSection

/-! ## Headings -/

/-- What comes before a type: documentation lines and attribute sections. -/
inductive GenericLead where
  | documentation (text : String) (line : Nat)
  | attributes (part : GenericSection)

namespace GenericLead

/-- The tokens of a lead. -/
def tokens : GenericLead → List Token
  | documentation text line => [⟨.documentation, text, line⟩]
  | attributes part => part.tokens

/-- The attributes of a lead. -/
def own : GenericLead → List GenericAttribute
  | documentation _ _ => []
  | attributes part => part.attributes

/-- The documentation lines of a lead. -/
def lines : GenericLead → List String
  | documentation text _ => [text]
  | attributes _ => []

end GenericLead

/-- A type declaration up to its body, of which the attributes may have type arguments. -/
structure GenericHeading where
  leads : List GenericLead
  heading : Heading

namespace GenericHeading

/-- The tokens of a heading. -/
def tokens (generic : GenericHeading) : List Token :=
  generic.leads.flatMap GenericLead.tokens ++ generic.heading.tokens

/-- The attributes of a heading that may have type arguments. -/
def own (generic : GenericHeading) : List GenericAttribute :=
  generic.leads.flatMap GenericLead.own

/-- The names of the attributes of a heading, in their order. -/
def names (generic : GenericHeading) : List String :=
  generic.own.map (fun own => own.name) ++ generic.heading.leads.flatMap Lead.names

/-- What is recorded of the attributes of a heading. -/
def recorded (generic : GenericHeading) : List String :=
  generic.own.flatMap GenericAttribute.recorded ++ generic.heading.leads.flatMap Lead.names

/-- The documentation lines of a heading. -/
def lines (generic : GenericHeading) : List String :=
  generic.leads.flatMap GenericLead.lines ++ generic.heading.leads.flatMap Lead.lines

/-- What is recorded of a heading at a place. -/
def declaration (generic : GenericHeading) (place : Place) : Declaration :=
  { generic.heading.declaration place with
    attributes := generic.recorded
    documentation :=
      match generic.lines with
      | [] => none
      | lines => some ("\n".intercalate lines) }

theorem length_le_flatMap_recorded (attributes : List GenericAttribute) :
    attributes.length ≤ (attributes.flatMap GenericAttribute.recorded).length := by
  induction attributes with
  | nil => exact Nat.zero_le _
  | cons own rest ih =>
      rw [List.flatMap_cons, List.length_append, GenericAttribute.recorded, List.length_cons,
        List.length_cons]
      omega

/-- Only the names of attributes are recorded if and only if no part of their type arguments has a
name behind a comma. -/
theorem recorded_eq_names_iff (generic : GenericHeading) :
    generic.recorded = generic.names ↔ ∀ own ∈ generic.own, own.laterNames = [] := by
  unfold recorded names
  rw [List.append_left_inj]
  induction generic.own with
  | nil => simp
  | cons own rest ih =>
      rw [List.flatMap_cons, List.map_cons, GenericAttribute.recorded, List.cons_append,
        List.cons.injEq, List.forall_mem_cons, ← ih]
      constructor
      · rintro ⟨-, hnames⟩
        have hlength := congrArg List.length hnames
        have hrest := length_le_flatMap_recorded rest
        rw [List.length_append, List.length_map] at hlength
        have hlater : own.laterNames = [] := List.eq_nil_of_length_eq_zero (by omega)
        rw [hlater, List.nil_append] at hnames
        exact ⟨hlater, hnames⟩
      · rintro ⟨hlater, hnames⟩
        exact ⟨rfl, by rw [hlater, List.nil_append, hnames]⟩

end GenericHeading

end Grammar

namespace DeclarationScan

open Grammar

/-! ## Reading type arguments -/

/-- Tokens are passed over if none of those outside of brackets is a comma, and none of these is a
name where one is expected. -/
theorem attributeNames_outside {p : Token → Prop} {expected : Bool}
    (hcomma : ∀ token, p token → token.kind ≠ .punctuation ',')
    (hname : expected = true → ∀ token, p token → token.kind ≠ .identifier)
    {tokens : List Token} (h : Outside p tokens) (rest : List Token) :
    attributeNames 0 expected (tokens ++ rest) = attributeNames 0 expected rest := by
  induction h with
  | nil => rfl
  | @cons token tokens hopens hcloses htoken _ ih =>
      rw [List.cons_append, attributeNames]
      cases hkind : token.kind with
      | punctuation c =>
          obtain ⟨h₁, h₂, h₃⟩ := groups_of_not_bracket hkind hopens hcloses
          have hc : (c == ',') = false :=
            beq_false_of_ne fun heq => hcomma token htoken (by rw [hkind, heq])
          simp only [h₁, h₂, h₃, hc, Bool.false_eq_true, if_false, Bool.false_and, Bool.or_false]
          exact ih
      | identifier =>
          simp only
          rw [if_neg fun hexpects => hname hexpects.2 token htoken hkind]
          exact ih
      | literal => exact ih
      | documentation => exact ih
  | @group bracket first last inner tokens hfirst hinner hlast _ ih =>
      rw [List.append_assoc, List.cons_append, List.cons_append,
        attributeNames_group bracket hfirst hinner hlast]
      exact ih

theorem attributeNames_undivided {tokens : List Token} (h : Outside IsUndivided tokens)
    (rest : List Token) : attributeNames 0 false (tokens ++ rest) = attributeNames 0 false rest :=
  attributeNames_outside (fun _ htoken => htoken) (fun hexpected => by contradiction) h rest

theorem attributeNames_unnamed {tokens : List Token} (h : Outside IsUnnamed tokens)
    (rest : List Token) : attributeNames 0 true (tokens ++ rest) = attributeNames 0 true rest :=
  attributeNames_outside (fun _ htoken => htoken.1) (fun _ _ htoken => htoken.2) h rest

/-- A part gives its name, and none is expected behind it. -/
theorem attributeNames_typePart (part : TypePart) {rest : List Token} (h : EndsName rest) :
    attributeNames 0 true (part.tokens ++ rest) =
      (part.name?.toList ++ (attributeNames 0 part.name?.isNone rest).1,
        (attributeNames 0 part.name?.isNone rest).2) := by
  cases part with
  | unnamed content outside => exact attributeNames_unnamed outside rest
  | named before first segments behind before_outside behind_outside ends =>
      have hends : EndsName (behind ++ rest) := by
        cases behind with
        | nil => exact h
        | cons token behind => exact ends
      have htokens : (TypePart.named before first segments behind before_outside behind_outside
          ends).tokens ++ rest =
          before ++ (first.token :: (segmentTokens segments ++ (behind ++ rest))) := by
        simp [TypePart.tokens]
      rw [htokens, attributeNames_unnamed before_outside, attributeNames_name first segments hends,
        attributeNames_undivided behind_outside]
      rfl

theorem indifferent_argumentTokens (own : Attribute) {rest : List Token} (h : Indifferent rest) :
    Indifferent (argumentTokens own ++ rest) := fun expected => by
  rw [attributeNames_argumentTokens, attributeNames_argumentTokens, h expected]

/-- An angle bracket is passed over. -/
theorem attributeNames_angle {c : Char} (hc : c = '<' ∨ c = '>') (line : Nat) (expected : Bool)
    (rest : List Token) :
    attributeNames 0 expected (mark c line :: rest) = attributeNames 0 expected rest := by
  rw [attributeNames]
  rcases hc with rfl | rfl <;> simp [opensGroup, closesGroup]

/-- The parts after the first one give their names. -/
theorem attributeNames_otherTypes (others : List (Nat × TypePart)) {rest : List Token}
    (hends : EndsName rest) (h : Indifferent rest) (expected : Bool) :
    attributeNames 0 expected (TypeArguments.otherTokens others ++ rest) =
      (others.filterMap (fun other => other.2.name?) ++ (attributeNames 0 true rest).1,
        (attributeNames 0 true rest).2) := by
  induction others generalizing expected with
  | nil => exact h expected
  | cons other others ih =>
      have hcons : TypeArguments.otherTokens (other :: others) ++ rest =
          mark ',' other.1 ::
            (other.2.tokens ++ (TypeArguments.otherTokens others ++ rest)) := by
        simp [TypeArguments.otherTokens]
      have hrest : EndsName (TypeArguments.otherTokens others ++ rest) := by
        cases others with
        | nil => exact hends
        | cons next others => exact endsName_mark rfl rfl next.1 _
      rw [hcons, attributeNames_comma, attributeNames_typePart other.2 hrest, ih]
      cases hname : other.2.name? <;> simp [hname]

/-- Type arguments give the names of their parts but the first. -/
theorem attributeNames_typeArguments (own : TypeArguments) {rest : List Token}
    (h : Indifferent rest) :
    attributeNames 0 false (own.tokens ++ rest) =
      (own.laterNames ++ (attributeNames 0 true rest).1, (attributeNames 0 true rest).2) := by
  have htokens : own.tokens ++ rest = mark '<' own.opening :: (own.first ++
      (TypeArguments.otherTokens own.others ++ mark '>' own.closing :: rest)) := by
    simp [TypeArguments.tokens]
  have hclosing : Indifferent (mark '>' own.closing :: rest) := fun expected => by
    rw [attributeNames_angle (Or.inr rfl), attributeNames_angle (Or.inr rfl), h expected]
  rw [htokens, attributeNames_angle (Or.inl rfl),
    attributeNames_undivided own.first_outside,
    attributeNames_otherTypes own.others (endsName_mark rfl rfl own.closing rest) hclosing,
    attributeNames_angle (Or.inr rfl)]
  rfl

/-! ## Reading sections -/

/-- An attribute gives its name and those of its type arguments but the first. -/
theorem attributeNames_genericAttribute (own : GenericAttribute) {rest : List Token}
    (hends : EndsName rest) (h : Indifferent rest) :
    attributeNames 0 true (own.tokens ++ rest) =
      (own.recorded ++ (attributeNames 0 true rest).1, (attributeNames 0 true rest).2) := by
  have htokens : own.tokens ++ rest = own.first.token :: (segmentTokens own.segments ++
      (own.typeTokens ++ (argumentTokens own.toAttribute ++ rest))) := by
    simp [GenericAttribute.tokens]
  have harguments := endsName_argumentTokens own.toAttribute hends
  have htypes : attributeNames 0 false
      (own.typeTokens ++ (argumentTokens own.toAttribute ++ rest)) =
      (own.laterNames ++ (attributeNames 0 true rest).1, (attributeNames 0 true rest).2) := by
    unfold GenericAttribute.typeTokens GenericAttribute.laterNames
    cases own.typeArguments with
    | none =>
        exact (attributeNames_argumentTokens own.toAttribute false rest).trans (h false)
    | some arguments =>
        have hall := attributeNames_typeArguments arguments
          (indifferent_argumentTokens own.toAttribute h)
        rw [attributeNames_argumentTokens] at hall
        exact hall
  have hname : EndsName (own.typeTokens ++ (argumentTokens own.toAttribute ++ rest)) := by
    unfold GenericAttribute.typeTokens
    cases own.typeArguments with
    | none => exact harguments
    | some arguments => exact endsName_mark rfl rfl arguments.opening _
  rw [htokens, attributeNames_name own.first own.segments hname, htypes]
  rfl

/-- What is read from a section. -/
theorem attributeNames_genericSection (first : GenericAttribute)
    (others : List (Nat × GenericAttribute)) (closing : Nat) (rest : List Token) :
    attributeNames 0 true (first.tokens ++
        (GenericSection.otherTokens others ++ mark ']' closing :: rest)) =
      ((first :: others.map Prod.snd).flatMap GenericAttribute.recorded, rest) :=
  attributeNames_separated
    (fun own _ hends hindifferent => attributeNames_genericAttribute own hends hindifferent)
    first others closing rest

/-! ## Reading headings -/

variable {scopes : List Scope} {fileNamespace : Option String}
  {attributes documentation : List String}

/-- A lead is collected. -/
theorem passes_genericLead (hopen : IsOpen scopes) (lead : GenericLead) :
    Passes (Collecting scopes fileNamespace attributes documentation) lead.tokens []
      (Collecting scopes fileNamespace (attributes ++ lead.own.flatMap GenericAttribute.recorded)
        (documentation ++ lead.lines)) := by
  cases lead with
  | documentation text line =>
      rw [GenericLead.own, List.flatMap_nil, List.append_nil]
      exact passes_documentation hopen text line
  | attributes part =>
      rw [GenericLead.tokens, GenericSection.tokens, GenericLead.lines, List.append_nil]
      refine passes_section hopen (fun rest => ?_) part.opening
      rw [List.append_assoc, List.append_assoc, List.singleton_append,
        attributeNames_genericSection]
      rfl

/-- A heading makes a declaration wait with all that is recorded of its attributes. -/
theorem passes_genericHeading (hopen : IsOpen scopes) (generic : GenericHeading) :
    Passes (Between scopes fileNamespace) generic.tokens []
      (Awaiting scopes fileNamespace (generic.declaration (placeOf scopes fileNamespace))) := by
  have hleads : Passes (Between scopes fileNamespace)
      (generic.leads.flatMap GenericLead.tokens) []
      (Collecting scopes fileNamespace (generic.own.flatMap GenericAttribute.recorded)
        (generic.leads.flatMap GenericLead.lines)) := by
    rw [GenericHeading.own, List.flatMap_assoc]
    exact passes_collected (fun lead _ _ => passes_genericLead hopen lead) generic.leads
  have hdeclaration : State.declare ⟨scopes, fileNamespace, generic.recorded, generic.lines, none,
      none⟩ generic.heading.keywords.kind generic.heading.name.token =
        generic.declaration (placeOf scopes fileNamespace) := by
    unfold State.declare
    rw [namespace?_eq, containing_eq]
    rfl
  rw [← hdeclaration]
  exact hleads.andThen (passes_heading_collected hopen generic.heading)

/-- A type is recorded at every place with the names of its attributes and, behind each of them,
with the names of the parts of its type arguments after the first one; so only the names of its
attributes are recorded if and only if there are no such names of parts. -/
theorem genericHeading_recorded (hopen : IsOpen scopes) (generic : GenericHeading) (line : Nat) :
    Passes (Between scopes fileNamespace) (generic.tokens ++ [mark '{' line])
        [generic.declaration (placeOf scopes fileNamespace)]
        (Between (.type generic.heading.name.text :: scopes) fileNamespace) ∧
      Passes (Between scopes fileNamespace) (generic.tokens ++ [mark ';' line])
        [generic.declaration (placeOf scopes fileNamespace)] (Between scopes fileNamespace) ∧
      ((generic.declaration (placeOf scopes fileNamespace)).attributes = generic.names ↔
        ∀ own ∈ generic.own, own.laterNames = []) := by
  have hheading : Passes (Between scopes fileNamespace) generic.tokens []
      (Awaiting scopes fileNamespace (generic.declaration (placeOf scopes fileNamespace))) :=
    passes_genericHeading hopen generic
  exact ⟨hheading.andThen (passes_opening hopen _ line),
    hheading.andThen (passes_semicolon hopen _ line), generic.recorded_eq_names_iff⟩

/-! ## An example -/

/-- An attribute with two type arguments. -/
def mapAttribute : GenericAttribute where
  first := ⟨"Map", 1⟩
  segments := []
  arguments := none
  typeArguments := some
    { opening := 1
      first := [⟨.identifier, "int", 1⟩]
      others := [(1, .named [] ⟨"string", 1⟩ [] [] .nil .nil (by simp [EndsName]))]
      closing := 1
      first_outside := .cons (not_bracket_of_identifier rfl).1 (not_bracket_of_identifier rfl).2
        (by simp [IsUndivided]) .nil }

/-- A class with the attribute. -/
def mapHeading : GenericHeading where
  leads := [.attributes ⟨1, mapAttribute, [], 1⟩]
  heading :=
    { leads := []
      modifiers := [⟨"public", 2⟩]
      keywords := .single .classType ⟨"class", 2⟩ (by decide)
      name := ⟨"A", 2⟩
      tail := []
      modifiers_free := List.forall_mem_singleton.2 ⟨by decide, rfl⟩
      name_free := by decide
      tail_free := List.forall_mem_nil _ }

/-- The second type argument is recorded for the class. -/
theorem genericHeading_recorded_mapHeading :
    IsOpen [] ∧
      Declaration.ofTokens (mapHeading.tokens ++ [mark ';' 2]) =
        [⟨.classType, "A", none, [], ["Map", "string"], none, 2⟩] ∧
      mapHeading.names = ["Map"] := by
  have hpasses : Passes (Between [] none) (mapHeading.tokens ++ [mark ';' 2])
      [mapHeading.declaration (placeOf [] none)] (Between [] none) :=
    (genericHeading_recorded isOpen_nil mapHeading 2).2.1
  obtain ⟨state, ⟨last, rfl, -⟩, hscan⟩ := hpasses State.initial ⟨none, rfl, rfl⟩ []
  rw [List.append_nil, scan_nil] at hscan
  exact ⟨isOpen_nil, hscan, rfl⟩

end DeclarationScan

namespace SourceTree

open Grammar DeclarationScan

/-- A class with an attribute that has two type arguments. -/
def mapText : String :=
  "[Map<int, string>]
public class A \x7b \x7d
"

/-- The class is recorded with the name of a type as an attribute. -/
theorem declarations_mapText :
    Token.ofText true mapText.toList = mapHeading.tokens ++ [mark '{' 2, mark '}' 2] ∧
      mapHeading.names = ["Map"] ∧
      (parse ⟨"A.cs"⟩ mapText ⟨.kept, Symbols.empty⟩).declarations =
        [⟨.classType, "A", none, [], ["Map", "string"], none, 2⟩] := by
  obtain ⟨text, htext, hhead, htokens, hdeclarations⟩ :
      ∃ text, mapText = String.ofList text ∧ text.head? = some '[' ∧
        Token.ofText true text = mapHeading.tokens ++ [mark '{' 2, mark '}' 2] ∧
        declarationsOf ⟨.kept, Symbols.empty⟩ text =
          [⟨.classType, "A", none, [], ["Map", "string"], none, 2⟩] :=
    ⟨_, rfl, by decide +kernel, by decide +kernel, by decide +kernel⟩
  have hchars : (withoutMark mapText).toList = text :=
    toList_withoutMark htext hhead (by decide)
  have hplain : mapText.toList = text := by
    rw [htext, String.toList_ofList]
  exact ⟨by rw [hplain, htokens], rfl, (congrArg (declarationsOf _) hchars).trans hdeclarations⟩

end SourceTree
end ProjectAssembler
