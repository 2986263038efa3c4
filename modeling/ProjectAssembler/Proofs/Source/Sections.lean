import ProjectAssembler.Proofs.Source.Programs

/-!
# Reading attribute sections

A section ends at the bracket that matches its first one, whatever is between them, and the names
that are read from a well formed section are those of its attributes.

Main results:

* `DeclarationScan.attributeNames_balanced`: a section ends at its matching bracket;
* `DeclarationScan.attributeNames_separated`: the names of a section from those of each attribute;
* `DeclarationScan.attributeNames_section`: the names of a section and the tokens after it.
-/

namespace ProjectAssembler
namespace DeclarationScan

open Grammar

/-! ## Single tokens -/

@[simp]
theorem kind_mark (c : Char) (line : Nat) : (mark c line).kind = .punctuation c :=
  rfl

@[simp]
theorem kind_word (word : Word) : word.token.kind = .identifier :=
  rfl

@[simp]
theorem text_word (word : Word) : word.token.text = word.text :=
  rfl

theorem isPunctuation_of_kind {token : Token} {c : Char} (h : token.kind = .punctuation c)
    (d : Char) : token.isPunctuation d = (c == d) := by
  unfold Token.isPunctuation
  rw [h]
  rw [Bool.eq_iff_iff, beq_iff_eq, beq_iff_eq, TokenKind.punctuation.injEq]

@[simp]
theorem isPunctuation_mark (c : Char) (line : Nat) (d : Char) :
    (mark c line).isPunctuation d = (c == d) :=
  isPunctuation_of_kind rfl d

/-- An opening bracket opens a group of a section. -/
theorem attributeNames_opening {token : Token} (bracket : Bracket)
    (h : token.kind = .punctuation bracket.opening) (depth : Nat) (expected : Bool)
    (rest : List Token) :
    attributeNames depth expected (token :: rest) = attributeNames (depth + 1) expected rest := by
  have hopens : opensGroup bracket.opening = true := by cases bracket <;> rfl
  rw [attributeNames]
  simp only [h, hopens, if_true]

/-- A closing bracket closes a group of a section. -/
theorem attributeNames_closing {token : Token} (bracket : Bracket)
    (h : token.kind = .punctuation bracket.closing) (depth : Nat) (expected : Bool)
    (rest : List Token) :
    attributeNames (depth + 1) expected (token :: rest) = attributeNames depth expected rest := by
  rw [attributeNames]
  cases bracket <;> simp [h, Bracket.closing, opensGroup, closesGroup]

/-- The bracket that closes no group ends the section. -/
theorem attributeNames_end {token : Token} (h : token.kind = .punctuation ']') (expected : Bool)
    (rest : List Token) : attributeNames 0 expected (token :: rest) = ([], rest) := by
  rw [attributeNames]
  simp [h, opensGroup, closesGroup]

/-- A character that is no bracket opens no group and closes none. -/
theorem groups_of_not_bracket {token : Token} {c : Char} (h : token.kind = .punctuation c)
    (hopens : ¬ Opens token) (hcloses : ¬ Closes token) :
    opensGroup c = false ∧ closesGroup c = false ∧ c ≠ ']' := by
  have ho (bracket : Bracket) : c ≠ bracket.opening :=
    fun heq => hopens ⟨bracket, by rw [h, heq]⟩
  have hc (bracket : Bracket) : c ≠ bracket.closing :=
    fun heq => hcloses ⟨bracket, by rw [h, heq]⟩
  refine ⟨?_, ?_, hc .square⟩
  · have h₁ := ho .round
    have h₂ := ho .square
    have h₃ := ho .curly
    simp_all [opensGroup, Bracket.opening]
  · have h₁ := hc .round
    have h₂ := hc .curly
    simp_all [closesGroup, Bracket.closing]

/-- Inside of a group a token that is no bracket is passed over. -/
theorem attributeNames_inner {token : Token} (hopens : ¬ Opens token) (hcloses : ¬ Closes token)
    (depth : Nat) (expected : Bool) (rest : List Token) :
    attributeNames (depth + 1) expected (token :: rest) =
      attributeNames (depth + 1) expected rest := by
  rw [attributeNames]
  cases hkind : token.kind with
  | punctuation c =>
      obtain ⟨h₁, h₂, h₃⟩ := groups_of_not_bracket hkind hopens hcloses
      simp [h₁, h₂, h₃]
  | identifier => simp
  | literal => rfl
  | documentation => rfl

/-- Inside of a group balanced tokens are passed over. -/
theorem attributeNames_skip {inner : List Token} (h : Balanced inner) (depth : Nat)
    (expected : Bool) (rest : List Token) :
    attributeNames (depth + 1) expected (inner ++ rest) =
      attributeNames (depth + 1) expected rest := by
  induction h generalizing depth rest with
  | nil => rfl
  | cons hopens hcloses _ ih =>
      rw [List.cons_append, attributeNames_inner hopens hcloses]
      exact ih depth rest
  | @group bracket first last inner' rest' hfirst _ hlast _ ihinner ihrest =>
      rw [List.append_assoc, List.cons_append, List.cons_append,
        attributeNames_opening bracket hfirst, ihinner, attributeNames_closing bracket hlast]
      exact ihrest depth rest

/-- A group between brackets is passed over. -/
theorem attributeNames_group {first last : Token} {inner : List Token} (bracket : Bracket)
    (hfirst : first.kind = .punctuation bracket.opening) (hinner : Balanced inner)
    (hlast : last.kind = .punctuation bracket.closing) (depth : Nat) (expected : Bool)
    (rest : List Token) :
    attributeNames depth expected (first :: (inner ++ last :: rest)) =
      attributeNames depth expected rest := by
  rw [attributeNames_opening bracket hfirst, attributeNames_skip hinner,
    attributeNames_closing bracket hlast]

/-! ## The end of a section -/

/-- A token that is no bracket leaves balanced tokens behind it. -/
theorem balanced_of_cons {token : Token} {rest : List Token} (hopens : ¬ Opens token)
    (h : Balanced (token :: rest)) : Balanced rest := by
  cases h with
  | cons _ _ hrest => exact hrest
  | group bracket hfirst _ _ _ => exact absurd ⟨bracket, hfirst⟩ hopens

theorem not_opens_of_identifier {token : Token} (h : token.kind = .identifier) :
    ¬ Opens token := by
  rintro ⟨bracket, hbracket⟩
  rw [h] at hbracket
  cases hbracket

theorem not_opens_of_isPunctuation {token : Token} {c : Char} (h : token.isPunctuation c = true)
    (hc : opensGroup c = false) : ¬ Opens token := by
  rintro ⟨bracket, hbracket⟩
  rw [isPunctuation_of_kind hbracket, beq_iff_eq] at h
  subst h
  cases bracket <;> contradiction

theorem ne_closing_of_identifier {token : Token} (h : token.kind = .identifier) :
    token.kind ≠ .punctuation ']' := by
  rw [h]
  exact nofun

theorem ne_closing_of_isPunctuation {token : Token} {c : Char} (h : token.isPunctuation c = true)
    (hc : (']' == c) = false) : token.kind ≠ .punctuation ']' := by
  intro hkind
  rw [isPunctuation_of_kind hkind, hc] at h
  contradiction

/-- A token before the end of a section that is no bracket leaves balanced tokens before the end. -/
theorem exists_of_cons_eq {token last : Token} {inner rest tokens : List Token}
    (hlast : last.kind = .punctuation ']') (h : Balanced inner)
    (heq : inner ++ last :: rest = token :: tokens) (hopens : ¬ Opens token)
    (hne : token.kind ≠ .punctuation ']') :
    ∃ inner', inner' ++ last :: rest = tokens ∧ Balanced inner' ∧
      inner'.length < inner.length := by
  cases inner with
  | nil =>
      obtain ⟨rfl, -⟩ := List.cons.inj heq
      exact absurd hlast hne
  | cons _ inner =>
      obtain ⟨rfl, heq'⟩ := List.cons.inj heq
      exact ⟨inner, heq', balanced_of_cons hopens h, Nat.lt_succ_self _⟩

/-- The rest of a qualified name stays inside of a section. -/
theorem lastSegment_balanced {last : Token} (hlast : last.kind = .punctuation ']')
    (rest : List Token) (segment : String) {inner : List Token} (h : Balanced inner) :
    ∃ inner', (lastSegment segment (inner ++ last :: rest)).2 = inner' ++ last :: rest ∧
      Balanced inner' ∧ inner'.length ≤ inner.length := by
  generalize hall : inner ++ last :: rest = tokens
  fun_induction lastSegment segment tokens generalizing inner with
  | case1 segment dot next tokens hcond ih =>
      obtain ⟨hdot, hnext⟩ := hcond
      obtain ⟨inner₁, hall₁, h₁, hlength₁⟩ := exists_of_cons_eq hlast h hall
        (not_opens_of_isPunctuation hdot rfl) (ne_closing_of_isPunctuation hdot rfl)
      obtain ⟨inner₂, hall₂, h₂, hlength₂⟩ := exists_of_cons_eq hlast h₁ hall₁
        (not_opens_of_identifier hnext) (ne_closing_of_identifier hnext)
      obtain ⟨inner', heq, hinner', hlength⟩ := ih h₂ hall₂
      exact ⟨inner', heq, hinner', by omega⟩
  | case2 segment first second third tokens hnot hcond ih =>
      obtain ⟨hfirst, hsecond, hthird⟩ := hcond
      obtain ⟨inner₁, hall₁, h₁, hlength₁⟩ := exists_of_cons_eq hlast h hall
        (not_opens_of_isPunctuation hfirst rfl) (ne_closing_of_isPunctuation hfirst rfl)
      obtain ⟨inner₂, hall₂, h₂, hlength₂⟩ := exists_of_cons_eq hlast h₁ hall₁
        (not_opens_of_isPunctuation hsecond rfl) (ne_closing_of_isPunctuation hsecond rfl)
      obtain ⟨inner₃, hall₃, h₃, hlength₃⟩ := exists_of_cons_eq hlast h₂ hall₂
        (not_opens_of_identifier hthird) (ne_closing_of_identifier hthird)
      obtain ⟨inner', heq, hinner', hlength⟩ := ih h₃ hall₃
      exact ⟨inner', heq, hinner', by omega⟩
  | case3 => exact ⟨inner, hall.symm, h, Nat.le_refl _⟩
  | case4 => exact ⟨inner, hall.symm, h, Nat.le_refl _⟩
  | case5 => exact ⟨inner, hall.symm, h, Nat.le_refl _⟩

theorem isPunctuation_of_isTarget {token : Token} {rest : List Token}
    (h : isTarget (token :: rest) = true) : token.isPunctuation ':' = true := by
  cases rest with
  | nil => exact h
  | cons second rest => exact (Bool.and_eq_true_iff.1 h).1

/-- The tokens after a target stay inside of a section. -/
theorem tail_balanced {last : Token} (hlast : last.kind = .punctuation ']') (rest : List Token)
    {inner : List Token} (h : Balanced inner)
    (htarget : isTarget (inner ++ last :: rest) = true) :
    ∃ inner', (inner ++ last :: rest).tail = inner' ++ last :: rest ∧ Balanced inner' ∧
      inner'.length ≤ inner.length := by
  cases hall : inner ++ last :: rest with
  | nil => exact absurd hall (by simp)
  | cons token tokens =>
      rw [hall] at htarget
      have hcolon := isPunctuation_of_isTarget htarget
      obtain ⟨inner', heq, hinner', hlength⟩ := exists_of_cons_eq hlast h hall
        (not_opens_of_isPunctuation hcolon rfl) (ne_closing_of_isPunctuation hcolon rfl)
      exact ⟨inner', heq.symm, hinner', Nat.le_of_lt hlength⟩

/-- A section ends at the bracket that matches its first one. -/
theorem attributeNames_balanced {inner : List Token} (h : Balanced inner) {last : Token}
    (hlast : last.kind = .punctuation ']') (expected : Bool) (rest : List Token) :
    (attributeNames 0 expected (inner ++ last :: rest)).2 = rest := by
  induction hn : inner.length using Nat.strongRecOn generalizing inner expected with
  | ind n ih =>
      cases h with
      | nil => rw [List.nil_append, attributeNames_end hlast]
      | @group bracket first last' inner' rest' hfirst hinner hlast' hrest =>
          have hlength : rest'.length < n := by
            rw [← hn]
            simp only [List.length_append, List.length_cons]
            omega
          rw [List.append_assoc, List.cons_append, List.cons_append,
            attributeNames_group bracket hfirst hinner hlast']
          exact ih _ hlength hrest expected rfl
      | @cons token rest' hopens hcloses hrest =>
          have hlength : rest'.length < n := by
            rw [← hn]
            exact Nat.lt_succ_self _
          rw [List.cons_append, attributeNames]
          cases hkind : token.kind with
          | punctuation c =>
              obtain ⟨h₁, h₂, h₃⟩ := groups_of_not_bracket hkind hopens hcloses
              simp only [h₁, h₂, h₃, if_false, Bool.false_eq_true]
              exact ih _ hlength hrest _ rfl
          | literal => exact ih _ hlength hrest expected rfl
          | documentation => exact ih _ hlength hrest expected rfl
          | identifier =>
              simp only
              split
              · split
                · rename_i htarget
                  obtain ⟨inner', heq, hinner, hle⟩ := tail_balanced hlast rest hrest htarget
                  rw [heq]
                  exact ih _ (Nat.lt_of_le_of_lt hle hlength) hinner expected rfl
                · obtain ⟨inner', heq, hinner, hle⟩ :=
                    lastSegment_balanced hlast rest token.text hrest
                  rw [heq]
                  exact ih _ (Nat.lt_of_le_of_lt hle hlength) hinner false rfl
              · exact ih _ hlength hrest expected rfl

/-! ## The names of a section -/

/-- Whether tokens cannot continue a name: they begin with neither a dot nor a colon. -/
def EndsName (tokens : List Token) : Prop :=
  ∀ token ∈ tokens.head?, token.isPunctuation '.' = false ∧ token.isPunctuation ':' = false

theorem endsName_mark {c : Char} (hdot : (c == '.') = false) (hcolon : (c == ':') = false)
    (line : Nat) (rest : List Token) : EndsName (mark c line :: rest) := by
  intro token htoken
  obtain rfl : mark c line = token := Option.some.inj htoken
  rw [isPunctuation_mark, isPunctuation_mark]
  exact ⟨hdot, hcolon⟩

theorem lastSegment_endsName (segment : String) {rest : List Token} (h : EndsName rest) :
    lastSegment segment rest = (segment, rest) := by
  match rest, h with
  | [], _ => rfl
  | [_], _ => rfl
  | [first, second], h =>
      obtain ⟨hdot, -⟩ := h first rfl
      simp [lastSegment, hdot]
  | first :: second :: third :: rest, h =>
      obtain ⟨hdot, hcolon⟩ := h first rfl
      simp [lastSegment, hdot, hcolon]

theorem lastSegment_dot (segment : String) (line : Nat) (word : Word) (rest : List Token) :
    lastSegment segment (mark '.' line :: word.token :: rest) = lastSegment word.text rest := by
  rw [lastSegment.eq_def]
  simp

theorem lastSegment_colons (segment : String) (first second : Nat) (word : Word)
    (rest : List Token) :
    lastSegment segment (mark ':' first :: mark ':' second :: word.token :: rest) =
      lastSegment word.text rest := by
  rw [lastSegment.eq_def]
  simp

theorem lastOf_cons (first : String) (segment : Joint × Word) (segments : Segments) :
    lastOf first (segment :: segments) = lastOf segment.2.text segments := by
  unfold lastOf
  rw [List.getLast?_cons]
  cases segments.getLast? <;> rfl

/-- The segments of a name are read up to its end. -/
theorem lastSegment_segmentTokens (first : String) (segments : Segments) {rest : List Token}
    (h : EndsName rest) :
    lastSegment first (segmentTokens segments ++ rest) = (lastOf first segments, rest) := by
  induction segments generalizing first with
  | nil => exact lastSegment_endsName first h
  | cons segment segments ih =>
      obtain ⟨joint, word⟩ := segment
      have hcons : segmentTokens ((joint, word) :: segments) ++ rest =
          joint.tokens ++ word.token :: (segmentTokens segments ++ rest) := by
        simp [segmentTokens]
      rw [hcons, lastOf_cons]
      cases joint with
      | dot line =>
          exact (lastSegment_dot first line word _).trans (ih word.text)
      | colons line line' =>
          exact (lastSegment_colons first line line' word _).trans (ih word.text)

/-- The tokens of the arguments of an attribute, if it has any. -/
def argumentTokens (own : Attribute) : List Token :=
  (own.arguments.map Arguments.tokens).getD []

theorem endsName_argumentTokens (own : Attribute) {rest : List Token} (h : EndsName rest) :
    EndsName (argumentTokens own ++ rest) := by
  unfold argumentTokens
  cases own.arguments with
  | none => exact h
  | some arguments => exact endsName_mark rfl rfl arguments.opening _

/-- The arguments of an attribute are passed over. -/
theorem attributeNames_argumentTokens (own : Attribute) (expected : Bool) (rest : List Token) :
    attributeNames 0 expected (argumentTokens own ++ rest) = attributeNames 0 expected rest := by
  unfold argumentTokens
  cases own.arguments with
  | none => rfl
  | some arguments =>
      have happend : ((some arguments).map Arguments.tokens).getD [] ++ rest =
          mark '(' arguments.opening ::
            (arguments.content ++ mark ')' arguments.closing :: rest) := by
        simp [Arguments.tokens]
      rw [happend]
      exact attributeNames_group .round rfl arguments.balanced rfl 0 expected rest

/-- The segments of a name make its first one no target. -/
theorem isTarget_segmentTokens (segments : Segments) {rest : List Token} (h : EndsName rest) :
    isTarget (segmentTokens segments ++ rest) = false := by
  cases segments with
  | nil =>
      rw [segmentTokens, List.flatMap_nil, List.nil_append]
      match rest, h with
      | [], _ => rfl
      | [first], h => exact (h first rfl).2
      | first :: second :: _, h => simp only [isTarget, (h first rfl).2, Bool.false_and]
  | cons segment segments =>
      obtain ⟨joint, word⟩ := segment
      cases joint with
      | dot line => rfl
      | colons first second => rfl

/-- A name gives its last segment, and none is expected behind it. -/
theorem attributeNames_name (first : Word) (segments : Segments) {rest : List Token}
    (h : EndsName rest) :
    attributeNames 0 true (first.token :: (segmentTokens segments ++ rest)) =
      (lastOf first.text segments :: (attributeNames 0 false rest).1,
        (attributeNames 0 false rest).2) := by
  rw [attributeNames]
  simp only [kind_word, and_self, if_true, isTarget_segmentTokens segments h, Bool.false_eq_true,
    if_false]
  rw [text_word, lastSegment_segmentTokens first.text segments h]

/-- An attribute gives its name, and its arguments are passed over. -/
theorem attributeNames_attribute (own : Attribute) {rest : List Token} (h : EndsName rest) :
    attributeNames 0 true (own.tokens ++ rest) =
      (own.name :: (attributeNames 0 false rest).1, (attributeNames 0 false rest).2) := by
  have htokens : own.tokens ++ rest = own.first.token ::
      (segmentTokens own.segments ++ (argumentTokens own ++ rest)) :=
    congrArg (own.first.token :: ·) (List.append_assoc _ _ _)
  rw [htokens, attributeNames_name own.first own.segments (endsName_argumentTokens own h),
    attributeNames_argumentTokens]
  rfl

/-- After a comma a name is expected. -/
theorem attributeNames_comma (line : Nat) (expected : Bool) (rest : List Token) :
    attributeNames 0 expected (mark ',' line :: rest) = attributeNames 0 true rest := by
  rw [attributeNames]
  simp [opensGroup, closesGroup]

/-- Whether it makes no difference to what is read from tokens if a name is expected at their
front. -/
def Indifferent (tokens : List Token) : Prop :=
  ∀ expected, attributeNames 0 expected tokens = attributeNames 0 true tokens

theorem indifferent_comma (line : Nat) (rest : List Token) :
    Indifferent (mark ',' line :: rest) := fun expected => by
  rw [attributeNames_comma, attributeNames_comma]

theorem indifferent_end (line : Nat) (rest : List Token) :
    Indifferent (mark ']' line :: rest) := fun expected => by
  rw [attributeNames_end rfl, attributeNames_end rfl]

/-- Where each attribute gives its names before anything that may follow it in a section, a section
gives the names of all its attributes. -/
theorem attributeNames_separated {α : Type} {tokens : α → List Token} {names : α → List String}
    (h : ∀ (own : α) (rest : List Token), EndsName rest → Indifferent rest →
      attributeNames 0 true (tokens own ++ rest) =
        (names own ++ (attributeNames 0 true rest).1, (attributeNames 0 true rest).2))
    (first : α) (others : List (Nat × α)) (closing : Nat) (rest : List Token) :
    attributeNames 0 true (tokens first ++
        ((others.flatMap fun other => mark ',' other.1 :: tokens other.2) ++
          mark ']' closing :: rest)) =
      ((first :: others.map Prod.snd).flatMap names, rest) := by
  induction others generalizing first with
  | nil =>
      rw [List.flatMap_nil, List.nil_append,
        h first _ (endsName_mark rfl rfl closing rest) (indifferent_end closing rest),
        attributeNames_end rfl]
      rfl
  | cons other others ih =>
      rw [List.flatMap_cons, List.cons_append, List.cons_append, List.append_assoc,
        h first _ (endsName_mark rfl rfl other.1 _) (indifferent_comma other.1 _),
        attributeNames_comma, ih other.2]
      rfl

/-- A section gives the names of its attributes. -/
theorem attributeNames_section (first : Attribute) (others : List (Nat × Attribute))
    (closing : Nat) (rest : List Token) :
    attributeNames 0 true (first.tokens ++
        (Section.otherTokens others ++ mark ']' closing :: rest)) =
      (first.name :: others.map fun other => other.2.name, rest) := by
  have hattribute (own : Attribute) (rest : List Token) (hends : EndsName rest)
      (hindifferent : Indifferent rest) :
      attributeNames 0 true (own.tokens ++ rest) =
        ([own.name] ++ (attributeNames 0 true rest).1, (attributeNames 0 true rest).2) := by
    rw [attributeNames_attribute own hends, hindifferent false]
    rfl
  have hnames : (first :: others.map Prod.snd).flatMap (fun own => [own.name]) =
      first.name :: others.map fun other => other.2.name := by
    rw [← List.map_eq_flatMap, List.map_cons, List.map_map]
    rfl
  rw [← hnames]
  exact attributeNames_separated hattribute first others closing rest

end DeclarationScan
end ProjectAssembler
