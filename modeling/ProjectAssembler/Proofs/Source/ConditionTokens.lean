import Mathlib.Data.List.Chain
import Mathlib.Data.List.TakeWhile
import ProjectAssembler.Source.Condition

/-!
# How the tokens of a condition are written

Tokens are written one after the other, with any white space before, between and after them.  Two
names, or a `!` and a `==`, that stand next to each other without white space are read as other
tokens.  Wherever no such tokens follow each other, reading finds the tokens that are written.

Main definitions:

* `Condition.Token.text`: the characters of a token;
* `Condition.Token.Spells`: whether a text is that of given tokens;
* `Condition.Token.merges`: whether two tokens can be read as others.

Main results:

* `Condition.Token.spells_of_tokenize?`: a text is that of the tokens that are read from it;
* `Condition.Token.tokenize?_of_spells`: tokens that do not merge are read from their text.
-/

namespace ProjectAssembler
namespace Condition

/-- What a name may be: letters, digits and underscores, and at least one of them. -/
def IsName (name : String) : Prop :=
  name.toList ≠ [] ∧ ∀ c ∈ name.toList, Text.isAlphanumeric c = true ∨ c = '_'

theorem isNameCharacter_iff {c : Char} :
    isNameCharacter c = true ↔ Text.isAlphanumeric c = true ∨ c = '_' := by
  simp [isNameCharacter]

theorem IsName.isNameCharacter {name : String} (h : IsName name) {c : Char}
    (hc : c ∈ name.toList) : isNameCharacter c = true :=
  isNameCharacter_iff.2 (h.2 c hc)

namespace Token

/-- The characters of a token. -/
def text : Token → List Char
  | symbol name => name.toList
  | bang => ['!']
  | equal => ['=', '=']
  | notEqual => ['!', '=']
  | and => ['&', '&']
  | or => ['|', '|']
  | opening => ['(']
  | closing => [')']

/-- Whether a token can be written: a symbol has to have a name. -/
def IsProper : Token → Prop
  | symbol name => IsName name
  | _ => True

/-- Whether a text is that of given tokens, with white space around them. -/
inductive Spells : List Token → List Char → Prop where
  | nil {blank : List Char} (hblank : ∀ c ∈ blank, Text.isBlank c = true) : Spells [] blank
  | cons {blank : List Char} {token : Token} {tokens : List Token} {rest : List Char}
      (hblank : ∀ c ∈ blank, Text.isBlank c = true) (htoken : token.IsProper)
      (hrest : Spells tokens rest) : Spells (token :: tokens) (blank ++ (token.text ++ rest))

/-- Tokens that can be written make up a text. -/
theorem exists_spells {tokens : List Token} (h : ∀ token ∈ tokens, token.IsProper) :
    ∃ text, Spells tokens text := by
  induction tokens with
  | nil => exact ⟨[], Spells.nil fun _ hc => absurd hc List.not_mem_nil⟩
  | cons token tokens ih =>
      obtain ⟨htoken, htokens⟩ := List.forall_mem_cons.1 h
      obtain ⟨rest, hrest⟩ := ih htokens
      exact ⟨_, Spells.cons (fun _ hc => absurd hc List.not_mem_nil) htoken hrest⟩

/-- Whether two tokens that follow each other without white space are read as others. -/
def merges : Token → Token → Bool
  | symbol _, symbol _ => true
  | bang, equal => true
  | _, _ => false

/-! ## Characters -/

/-- White space is no part of names. -/
theorem isNameCharacter_of_isBlank {c : Char} (h : Text.isBlank c = true) :
    isNameCharacter c = false :=
  Text.forall_isBlank (p := fun c => isNameCharacter c = false) (by decide +kernel) h

/-- The characters of the tokens other than symbols. -/
def marks : List Char :=
  ['(', ')', '!', '=', '&', '|']

/-- Neither white space nor a name begins with the character of another token. -/
theorem not_blank_or_name_of_mem_marks {c : Char} (h : c ∈ marks) :
    Text.isBlank c = false ∧ isNameCharacter c = false := by
  have hmarks : (marks.all fun c => !Text.isBlank c && !isNameCharacter c) = true := by decide
  simpa using List.all_eq_true.1 hmarks c h

/-- What begins with white space or with a name is read accordingly. -/
theorem tokenize?_cons {c : Char} (h : c ∉ marks) (rest : List Char) :
    tokenize? (c :: rest) =
      if Text.isBlank c then tokenize? rest
      else if isNameCharacter c then
        (symbol (String.ofList (c :: rest.takeWhile isNameCharacter)) :: ·) <$>
          tokenize? (rest.dropWhile isNameCharacter)
      else none := by
  simp only [marks, List.mem_cons, List.not_mem_nil, or_false, not_or] at h
  obtain ⟨hopening, hclosing, hbang, hequal, hand, hor⟩ := h
  rw [tokenize?.eq_def]
  split <;> simp_all

/-- White space before a token is skipped. -/
theorem tokenize?_blank_append {blank : List Char} (h : ∀ c ∈ blank, Text.isBlank c = true)
    (rest : List Char) : tokenize? (blank ++ rest) = tokenize? rest := by
  induction blank with
  | nil => rfl
  | cons c blank ih =>
      obtain ⟨hc, hblank⟩ := List.forall_mem_cons.1 h
      have hmark : c ∉ marks := by
        intro hmem
        rw [(not_blank_or_name_of_mem_marks hmem).1] at hc
        contradiction
      rw [List.cons_append, tokenize?_cons hmark, if_pos hc]
      exact ih hblank

/-- A name is read as a whole. -/
theorem tokenize?_name_append {name : String} (hname : IsName name) {rest : List Char}
    (hrest : ∀ c, rest.head? = some c → isNameCharacter c = false) :
    tokenize? (name.toList ++ rest) = (symbol name :: ·) <$> tokenize? rest := by
  have hcharacters : ∀ c ∈ name.toList, isNameCharacter c = true :=
    fun c hc => hname.isNameCharacter hc
  cases hlist : name.toList with
  | nil => exact absurd hlist hname.1
  | cons c others =>
      rw [hlist] at hcharacters
      obtain ⟨hc, hothers⟩ := List.forall_mem_cons.1 hcharacters
      have hmark : c ∉ marks := by
        intro hmem
        rw [(not_blank_or_name_of_mem_marks hmem).2] at hc
        contradiction
      have hblank : ¬ Text.isBlank c = true := by
        intro hblank
        rw [isNameCharacter_of_isBlank hblank] at hc
        contradiction
      have hstop : rest.takeWhile isNameCharacter = [] ∧ rest.dropWhile isNameCharacter = rest := by
        cases rest with
        | nil => exact ⟨rfl, rfl⟩
        | cons d rest => simp [hrest d rfl]
      rw [List.cons_append, tokenize?_cons hmark, if_neg hblank, if_pos hc,
        List.takeWhile_append_of_pos hothers, List.dropWhile_append_of_pos hothers, hstop.1,
        hstop.2, List.append_nil, ← hlist, String.ofList_toList]

/-- A `!` that no `=` follows is a token of its own. -/
theorem tokenize?_bang {rest : List Char} (h : rest.head? ≠ some '=') :
    tokenize? ('!' :: rest) = (bang :: ·) <$> tokenize? rest := by
  rw [tokenize?]
  rintro others rfl
  exact h rfl

/-! ## Reading what is written -/

/-- A text begins with white space or with its first token. -/
theorem Spells.head {tokens : List Token} {c : Char} {rest : List Char}
    (h : Spells tokens (c :: rest)) (hblank : Text.isBlank c = false) :
    ∃ token others, tokens = token :: others ∧ token.IsProper ∧ token.text.head? = some c := by
  generalize htext : c :: rest = text at h
  cases h with
  | nil hspace =>
      rw [← htext] at hspace
      rw [hspace c List.mem_cons_self] at hblank
      contradiction
  | @cons blank token others _ hspace htoken _ =>
      refine ⟨token, others, rfl, htoken, ?_⟩
      cases blank with
      | cons d blank =>
          obtain rfl : c = d := (List.cons.inj htext).1
          rw [hspace c List.mem_cons_self] at hblank
          contradiction
      | nil =>
          cases hchars : token.text with
          | cons d others =>
              rw [hchars] at htext
              rw [(List.cons.inj htext).1]
              rfl
          | nil =>
              cases token with
              | symbol name => exact absurd hchars htoken.1
              | _ => cases hchars

/-- Only names begin with characters of names. -/
theorem eq_symbol_of_head {token : Token} (htoken : token.IsProper) {c : Char}
    (hhead : token.text.head? = some c) (hc : isNameCharacter c = true) :
    ∃ name, token = symbol name := by
  have hmarks : c ∉ marks := by
    intro hmem
    rw [(not_blank_or_name_of_mem_marks hmem).2] at hc
    contradiction
  cases token with
  | symbol name => exact ⟨name, rfl⟩
  | _ =>
      obtain rfl := Option.some.inj hhead
      exact absurd (by decide) hmarks

/-- Only the token `==` begins with its character. -/
theorem eq_equal_of_head {token : Token} (htoken : token.IsProper)
    (hhead : token.text.head? = some '=') : token = equal := by
  cases token with
  | equal => rfl
  | symbol name =>
      have hcharacter := htoken.isNameCharacter (List.mem_of_mem_head? hhead)
      rw [(not_blank_or_name_of_mem_marks (by decide : '=' ∈ marks)).2] at hcharacter
      contradiction
  | _ => cases hhead

/-- No character continues a name in front of tokens that do not merge with it. -/
theorem Spells.stops_name {name : String} {tokens : List Token} {rest : List Char}
    (h : Spells tokens rest)
    (hnext : ∀ other others, tokens = other :: others → merges (symbol name) other = false)
    (c : Char) (hc : rest.head? = some c) : isNameCharacter c = false := by
  obtain ⟨others, rfl⟩ := List.head?_eq_some_iff.1 hc
  rw [Bool.eq_false_iff]
  intro hcharacter
  have hfilled : Text.isBlank c = false := by
    rw [Bool.eq_false_iff]
    intro hspace
    rw [isNameCharacter_of_isBlank hspace] at hcharacter
    contradiction
  obtain ⟨other, more, htokens, hother, hhead⟩ := h.head hfilled
  obtain ⟨second, rfl⟩ := eq_symbol_of_head hother hhead hcharacter
  exact Bool.noConfusion (hnext _ more htokens)

/-- No `=` follows a `!` in front of tokens that do not merge with it. -/
theorem Spells.stops_bang {tokens : List Token} {rest : List Char} (h : Spells tokens rest)
    (hnext : ∀ other others, tokens = other :: others → merges bang other = false) :
    rest.head? ≠ some '=' := by
  intro hequal
  obtain ⟨others, rfl⟩ := List.head?_eq_some_iff.1 hequal
  obtain ⟨other, more, htokens, hother, hhead⟩ := h.head rfl
  rw [eq_equal_of_head hother hhead] at htokens
  exact Bool.noConfusion (hnext _ more htokens)

/-- Tokens that do not merge are read from their text. -/
theorem tokenize?_of_spells {tokens : List Token} {text : List Char} (h : Spells tokens text)
    (hapart : tokens.IsChain fun a b => merges a b = false) : tokenize? text = some tokens := by
  induction h with
  | nil hblank =>
      have hskip := tokenize?_blank_append hblank []
      rwa [List.append_nil, tokenize?] at hskip
  | @cons blank token tokens rest hblank htoken hrest ih =>
      have hnext : ∀ other others, tokens = other :: others → merges token other = false := by
        rintro other others rfl
        exact (List.isChain_cons_cons.1 hapart).1
      have hread := ih hapart.tail
      rw [tokenize?_blank_append hblank]
      cases token with
      | symbol name =>
          rw [Token.text, tokenize?_name_append htoken (hrest.stops_name hnext), hread]
          rfl
      | bang =>
          rw [Token.text, List.singleton_append, tokenize?_bang (hrest.stops_bang hnext), hread]
          rfl
      | _ =>
          simp only [Token.text, List.cons_append, List.nil_append, tokenize?, hread]
          rfl

/-! ## What is read is written -/

/-- More white space may come first. -/
theorem Spells.blank_cons {tokens : List Token} {text : List Char} (h : Spells tokens text)
    {c : Char} (hc : Text.isBlank c = true) : Spells tokens (c :: text) := by
  cases h with
  | nil hblank => exact Spells.nil (List.forall_mem_cons.2 ⟨hc, hblank⟩)
  | cons hblank htoken hrest =>
      exact Spells.cons (List.forall_mem_cons.2 ⟨hc, hblank⟩) htoken hrest

/-- A text is that of the tokens that are read from it if this holds after the first token. -/
theorem spells_of_map (token : Token) (htoken : token.IsProper) {rest : List Char}
    (hrest : ∀ {others}, tokenize? rest = some others → Spells others rest) {tokens : List Token}
    (h : (token :: ·) <$> tokenize? rest = some tokens) : Spells tokens (token.text ++ rest) := by
  obtain ⟨others, hothers, rfl⟩ := Option.map_eq_some_iff.1 h
  exact Spells.cons (fun _ hc => absurd hc List.not_mem_nil) htoken (hrest hothers)

/-- A text is that of the tokens that are read from it. -/
theorem spells_of_tokenize? {text : List Char} {tokens : List Token}
    (h : tokenize? text = some tokens) : Spells tokens text := by
  fun_induction tokenize? text generalizing tokens with
  | case1 =>
      obtain rfl := Option.some.inj h
      exact Spells.nil (fun _ hc => absurd hc List.not_mem_nil)
  | case2 rest ih => exact spells_of_map opening trivial ih h
  | case3 rest ih => exact spells_of_map closing trivial ih h
  | case4 rest ih => exact spells_of_map notEqual trivial ih h
  | case5 rest _ ih => exact spells_of_map bang trivial ih h
  | case6 rest ih => exact spells_of_map equal trivial ih h
  | case7 rest ih => exact spells_of_map and trivial ih h
  | case8 rest ih => exact spells_of_map or trivial ih h
  | case9 c rest _ _ _ _ _ _ _ hblank ih => exact (ih h).blank_cons hblank
  | case10 c rest _ _ _ _ _ _ _ _ hname ih =>
      have hproper : IsProper (symbol (String.ofList (c :: rest.takeWhile isNameCharacter))) := by
        constructor
        · simp
        · rw [String.toList_ofList]
          exact List.forall_mem_cons.2 ⟨isNameCharacter_iff.1 hname, fun d hd =>
            isNameCharacter_iff.1 (List.mem_takeWhile_imp hd)⟩
      have hspells := spells_of_map _ hproper ih h
      rwa [Token.text, String.toList_ofList, List.cons_append, List.takeWhile_append_dropWhile]
        at hspells
  | case11 => contradiction

end Token
end Condition
end ProjectAssembler
