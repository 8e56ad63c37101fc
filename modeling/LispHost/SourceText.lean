import LispHost.Tokens
import Mathlib.Data.List.TakeWhile

/-!
# The Texts of a Sequence of Tokens

Which texts a sequence of tokens has, said without the tokenizer: whitespace may stand anywhere
between tokens, an atom goes on up to a character that cannot be in it, and a string literal
stands between two quotes. Between them a quote and a backslash are written with a backslash in
front, and a backslash in front of any other character is a character of the literal.

The tokenizer accepts exactly these texts, and cuts each into the tokens that it is a text of.

## Main definitions

* `AtomChar`: the characters of an atom.
* `LiteralBody`: what stands between the quotes of a string literal, and what it means.
* `Spelling`: the texts of a sequence of tokens.

## Main results

* `takeString_eq_some_iff`: the loop over a string literal reads its body.
* `tokenize_eq_ok_iff`: the tokenizer cuts a text into the tokens that it spells.
-/

namespace LispHost

/-- A character of an atom: no whitespace, no parenthesis and no quote. -/
def AtomChar (c : Char) : Prop := isWhitespace c = false ∧ c ≠ '(' ∧ c ≠ ')' ∧ c ≠ '"'

instance : DecidablePred AtomChar := fun _ => inferInstanceAs (Decidable (_ ∧ _))

/-- **The body of a string literal and its value.** A quote and a backslash are escaped by a
backslash; a backslash in front of any other character is kept with that character. -/
inductive LiteralBody : List Char → List Char → Prop
  | nil : LiteralBody [] []
  | char {c : Char} {body value : List Char} (hquote : c ≠ '"') (hbackslash : c ≠ '\\')
      (h : LiteralBody body value) : LiteralBody (c :: body) (c :: value)
  | quote {body value : List Char} (h : LiteralBody body value) :
      LiteralBody ('\\' :: '"' :: body) ('"' :: value)
  | backslash {body value : List Char} (h : LiteralBody body value) :
      LiteralBody ('\\' :: '\\' :: body) ('\\' :: value)
  | kept {c : Char} {body value : List Char} (hquote : c ≠ '"') (hbackslash : c ≠ '\\')
      (h : LiteralBody body value) : LiteralBody ('\\' :: c :: body) ('\\' :: c :: value)

/-- **The texts of a sequence of tokens.** Behind an atom the text ends, or goes on with a
character that cannot be in the atom. -/
inductive Spelling : List Char → List Token → Prop
  | nil : Spelling [] []
  | space {c : Char} {rest : List Char} {tokens : List Token} (hspace : isWhitespace c = true)
      (h : Spelling rest tokens) : Spelling (c :: rest) tokens
  | «open» {rest : List Char} {tokens : List Token} (h : Spelling rest tokens) :
      Spelling ('(' :: rest) (.open :: tokens)
  | close {rest : List Char} {tokens : List Token} (h : Spelling rest tokens) :
      Spelling (')' :: rest) (.close :: tokens)
  | string {body value rest : List Char} {tokens : List Token} (hbody : LiteralBody body value)
      (h : Spelling rest tokens) :
      Spelling ('"' :: (body ++ '"' :: rest)) (.str (String.ofList value) :: tokens)
  | atom {atom rest : List Char} {tokens : List Token} (hne : atom ≠ [])
      (hatom : ∀ c ∈ atom, AtomChar c) (hends : ∀ c ∈ rest.head?, ¬AtomChar c)
      (h : Spelling rest tokens) :
      Spelling (atom ++ rest) (.atom (String.ofList atom) :: tokens)

/-- The tokenizer continues an atom with the characters of an atom. -/
theorem inAtom_iff_atomChar {c : Char} : inAtom c = true ↔ AtomChar c := by
  rw [inAtom_iff, AtomChar, Bool.not_eq_true]

/-! ### String literals -/

/-- An escape of a body. -/
theorem LiteralBody.escape {body value : List Char} (h : LiteralBody body value) (c : Char) :
    LiteralBody ('\\' :: c :: body) (unescape c ++ value) := by
  by_cases hquote : c = '"'
  · subst hquote
    exact .quote h
  by_cases hbackslash : c = '\\'
  · subst hbackslash
    exact .backslash h
  · have hneither : ¬(c = '"' ∨ c = '\\') := by
      simp only [hquote, hbackslash, or_self, not_false_eq_true]
    rw [unescape, if_neg hneither]
    exact .kept hquote hbackslash h

/-- A closed body is read up to its quote. -/
theorem LiteralBody.takeString {body value : List Char} (h : LiteralBody body value)
    (rest : List Char) : takeString (body ++ '"' :: rest) = some (value, rest) := by
  induction h with
  | nil => rfl
  | char hquote hbackslash _ ih =>
      exact (takeString_char_iff hquote hbackslash).mpr ⟨_, ih, rfl⟩
  | quote _ ih => exact takeString_escape_iff.mpr ⟨_, ih, rfl⟩
  | backslash _ ih => exact takeString_escape_iff.mpr ⟨_, ih, rfl⟩
  | @kept c _ _ hquote hbackslash _ ih =>
      have hneither : ¬(c = '"' ∨ c = '\\') := by
        simp only [hquote, hbackslash, or_self, not_false_eq_true]
      exact takeString_escape_iff.mpr ⟨_, ih, by rw [unescape, if_neg hneither]; rfl⟩

/-- **The loop over a string literal** reads the body up to the first quote that is not
escaped, and there is no such quote where it fails. -/
theorem takeString_eq_some_iff {chars value rest : List Char} :
    takeString chars = some (value, rest) ↔
      ∃ body, chars = body ++ '"' :: rest ∧ LiteralBody body value := by
  constructor
  · intro h
    induction chars using takeString_cases generalizing value with
    | nil => cases h
    | quote tail =>
        obtain ⟨rfl, rfl⟩ := Prod.mk.inj (Option.some.inj h)
        exact ⟨[], rfl, .nil⟩
    | backslash => cases h
    | escape c tail ih =>
        obtain ⟨value', htail, rfl⟩ := takeString_escape_iff.mp h
        obtain ⟨body, rfl, hbody⟩ := ih htail
        exact ⟨'\\' :: c :: body, rfl, hbody.escape c⟩
    | char c tail hquote hbackslash ih =>
        obtain ⟨value', htail, rfl⟩ := (takeString_char_iff hquote hbackslash).mp h
        obtain ⟨body, rfl, hbody⟩ := ih htail
        exact ⟨c :: body, rfl, .char hquote hbackslash hbody⟩
  · rintro ⟨body, rfl, hbody⟩
    exact hbody.takeString rest

/-! ### Texts -/

/-- A text that the tokenizer cuts into tokens is a text of these tokens. -/
theorem Lexes.spelling {chars : List Char} {tokens : List Token} (h : Lexes chars tokens) :
    Spelling chars tokens := by
  induction h with
  | nil => exact .nil
  | whitespace hspace _ ih => exact .space hspace ih
  | «open» _ ih => exact .open ih
  | close _ ih => exact .close ih
  | string hstring _ ih =>
      obtain ⟨body, rfl, hbody⟩ := takeString_eq_some_iff.mp hstring
      exact .string hbody ih
  | @atom c rest _ hatom _ ih =>
      have hne : (c :: rest).takeWhile inAtom ≠ [] := by
        rw [List.takeWhile_cons_of_pos hatom]
        exact List.cons_ne_nil _ _
      have hends : ∀ c' ∈ ((c :: rest).dropWhile inAtom).head?, ¬AtomChar c' := by
        intro c' hc' hchar
        have hnot := List.head?_dropWhile_not inAtom (c :: rest)
        rw [Option.mem_def.mp hc'] at hnot
        exact absurd (inAtom_iff_atomChar.mpr hchar) (Bool.eq_false_iff.mp hnot)
      have htext := Spelling.atom hne
        (fun c' hc' => inAtom_iff_atomChar.mp (List.mem_takeWhile_imp hc')) hends ih
      rwa [List.takeWhile_append_dropWhile] at htext

/-- A text of tokens is cut into these tokens. -/
theorem Spelling.lex {chars : List Char} {tokens : List Token} (h : Spelling chars tokens) :
    lex chars = .ok tokens := by
  induction h with
  | nil => rfl
  | space hspace _ ih => rw [lex_whitespace hspace, ih]
  | «open» _ ih => rw [lex_open, ih]; rfl
  | close _ ih => rw [lex_close, ih]; rfl
  | string hbody _ ih =>
      rw [lex_string, hbody.takeString]
      simp only [Option.elim, ih]
      rfl
  | @atom atom rest _ hne hatom hends _ ih =>
      have hinAtom : ∀ c ∈ atom, inAtom c = true := fun c hc =>
        inAtom_iff_atomChar.mpr (hatom c hc)
      have hseparated : Separated rest := fun c hc => by
        rw [← Bool.not_eq_true, inAtom_iff_atomChar]
        exact hends c hc
      obtain ⟨htake, hdrop⟩ := takeWhile_append_of_separated hseparated atom
      rw [List.takeWhile_eq_self_iff.mpr hinAtom] at htake
      rw [List.dropWhile_eq_nil_iff.mpr hinAtom, List.nil_append] at hdrop
      obtain ⟨c, tail, rfl⟩ := List.exists_cons_of_ne_nil hne
      rw [List.cons_append] at htake hdrop ⊢
      rw [lex_atom (hinAtom c List.mem_cons_self), htake, hdrop, ih]
      rfl

/-- **What the tokenizer accepts.** It cuts a text into the tokens that the text spells. -/
theorem tokenize_eq_ok_iff {source : String} {tokens : List Token} :
    tokenize source = .ok tokens ↔ Spelling source.toList tokens := by
  rw [tokenize_eq_lex]
  exact ⟨fun h => (lexes_of_lex h).spelling, Spelling.lex⟩

end LispHost
