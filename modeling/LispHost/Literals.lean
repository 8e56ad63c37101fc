import LispHost.Accepts
import LispHost.Printer
import Mathlib.Data.List.TakeWhile
import Mathlib.Data.Nat.Digits.Lemmas

/-!
# Integer Literals

An atom of an optional sign and decimal digits denotes an integer. The reader parses it as an
`i64`, a fixnum keeps 61 bits of that, and the printer writes what was kept. Literals that fit
the payload come through exactly; a longer one is read as a different integer while it fits an
`i64`, and as a symbol beyond that.

## Main definitions

* `IntLiteral`: the literals, with their text and the integer they denote.
* `ReadsExactly`: what an exact reading of a literal is.

## Main results

* `parseI64_text`: what the `i64` parser makes of a literal.
* `parseI64_decimalText`: the decimal text of an `i64` parses as that `i64`.
* `readsExactly_iff`: the literals that are read exactly.
-/

namespace LispHost

open Effects

/-! ### Decimal digits -/

/-- The value of a list of digits in front of which `n` was read. -/
theorem digits_foldl (digits : List Nat) (n : Nat) :
    digits.foldl (fun n d => 10 * n + d) n =
      10 ^ digits.length * n + Nat.ofDigits 10 digits.reverse := by
  induction digits generalizing n with
  | nil => simp
  | cons d digits ih =>
      rw [List.foldl_cons, ih, List.reverse_cons, Nat.ofDigits_append, Nat.ofDigits_singleton,
        List.length_reverse, List.length_cons, pow_succ]
      ring

/-- The digits of a decimal numeral. -/
def digitChars (digits : List (Fin 10)) : List Char := digits.map fun d => Nat.digitChar d.val

/-- The value of digits is the number that they denote. -/
theorem digitsValue_digitChars {digits : List (Fin 10)} (h : digits ≠ []) :
    digitsValue (digitChars digits) = some (Nat.ofDigits 10 (digits.reverse.map Fin.val)) := by
  have hall : (digitChars digits).all (·.isDigit) = true := by
    simp only [digitChars, List.all_map, List.all_eq_true, Function.comp_apply,
      Nat.isDigit_digitChar, decide_eq_true_eq]
    exact fun d _ => d.isLt
  have hne : digitChars digits ≠ [] := by simpa [digitChars] using h
  rw [digitsValue, if_pos ⟨hne, hall⟩, digitChars, List.foldl_map]
  have hstep : (fun (n : Nat) (d : Fin 10) =>
      10 * n + ((Nat.digitChar d.val).toNat - '0'.toNat)) = fun n d => 10 * n + d.val := by
    funext n d
    rw [show '0'.toNat = 48 from rfl, Nat.toNat_digitChar_sub_48_of_lt_ten d.isLt]
  have hmap : digits.foldl (fun (n : Nat) (d : Fin 10) => 10 * n + d.val) 0 =
      (digits.map Fin.val).foldl (fun n d => 10 * n + d) 0 := by
    rw [List.foldl_map]
  rw [hstep, hmap, digits_foldl, Nat.mul_zero, Nat.zero_add, List.map_reverse]

/-- The decimal digits of a number denote it. -/
theorem digitsValue_toDigits (n : Nat) : digitsValue (Nat.toDigits 10 n) = some n := by
  have hall : (Nat.toDigits 10 n).all (·.isDigit) = true :=
    List.all_eq_true.mpr fun c hc => Nat.isDigit_of_mem_toDigits (by omega) (by omega) hc
  rw [digitsValue, if_pos ⟨Nat.toDigits_ne_nil, hall⟩]
  clear hall
  refine congrArg some ?_
  induction n using Nat.strong_induction_on with
  | _ n ih =>
      have hdigit : ∀ d, d < 10 → (Nat.digitChar d).toNat - '0'.toNat = d := fun d hd => by
        rw [show '0'.toNat = 48 from rfl, Nat.toNat_digitChar_sub_48_of_lt_ten hd]
      rw [Nat.toDigits_eq_if (by omega)]
      by_cases hn : n < 10
      · rw [if_pos hn, List.foldl_cons, List.foldl_nil, hdigit n hn]
        omega
      · rw [if_neg hn, List.foldl_append, List.foldl_cons, List.foldl_nil,
          ih (n / 10) (by omega), hdigit (n % 10) (by omega)]
        omega

/-! ### Signs -/

/-- What the parser makes of digits behind a sign, or behind none. -/
theorem parseI64_of_digits {digits : List Char} {n : Nat} (h : digitsValue digits = some n) :
    parseI64 (String.ofList ('-' :: digits)) =
        (if n ≤ 2 ^ 63 then some (BitVec.ofInt 64 (-n)) else none) ∧
      parseI64 (String.ofList ('+' :: digits)) =
        (if n < 2 ^ 63 then some (BitVec.ofNat 64 n) else none) ∧
      parseI64 (String.ofList digits) =
        (if n < 2 ^ 63 then some (BitVec.ofNat 64 n) else none) := by
  have hminus : parseI64 (String.ofList ('-' :: digits)) = (digitsValue digits).bind fun n =>
      if n ≤ 2 ^ 63 then some (BitVec.ofInt 64 (-n)) else none := by
    rw [parseI64, String.toList_ofList]
    rfl
  have hplus : parseI64 (String.ofList ('+' :: digits)) = (digitsValue digits).bind fun n =>
      if n < 2 ^ 63 then some (BitVec.ofNat 64 n) else none := by
    rw [parseI64, String.toList_ofList]
    rfl
  have hplain : parseI64 (String.ofList digits) = (digitsValue digits).bind fun n =>
      if n < 2 ^ 63 then some (BitVec.ofNat 64 n) else none := by
    have hdigit : ∀ c ∈ digits.head?, c.isDigit = true := by
      intro c hc
      rw [digitsValue] at h
      by_cases hall : digits ≠ [] ∧ digits.all (·.isDigit)
      · exact List.all_eq_true.mp hall.2 c (List.mem_of_mem_head? hc)
      · rw [if_neg hall] at h
        cases h
    rw [parseI64, String.toList_ofList]
    split
    · exact absurd (hdigit '-' rfl) (by decide)
    · exact absurd (hdigit '+' rfl) (by decide)
    · rfl
  rw [hminus, hplus, hplain, h]
  exact ⟨rfl, rfl, rfl⟩

/-- The characters of a decimal text. -/
theorem toString_eq_ofList (n : Int) :
    toString n = String.ofList
      (if 0 ≤ n then Nat.toDigits 10 n.toNat else '-' :: Nat.toDigits 10 (-n).toNat) := by
  rw [Int.toString_eq_repr, Int.repr_eq_if, Nat.repr_eq_ofList_toDigits,
    Nat.repr_eq_ofList_toDigits]
  by_cases hn : 0 ≤ n
  · rw [if_pos hn, if_pos hn]
  · rw [if_neg hn, if_neg hn, ← List.singleton_append, String.ofList_append]

/-- **The decimal text of an `i64` parses as that `i64`.** -/
theorem parseI64_decimalText (value : Word) : parseI64 (decimalText value) = some value := by
  have hle := BitVec.le_toInt value
  have hlt := BitVec.toInt_lt (x := value)
  rw [decimalText, toString_eq_ofList]
  by_cases hpos : 0 ≤ value.toInt
  · rw [if_pos hpos, (parseI64_of_digits (digitsValue_toDigits _)).2.2, if_pos (by omega),
      ← BitVec.ofInt_natCast, Int.toNat_of_nonneg hpos, BitVec.ofInt_toInt]
  · rw [if_neg hpos, (parseI64_of_digits (digitsValue_toDigits _)).1, if_pos (by omega),
      Int.toNat_of_nonneg (by omega), neg_neg, BitVec.ofInt_toInt]

/-- A number is not written as the empty text. -/
theorem decimalText_ne_nil (value : Word) : (decimalText value).toList ≠ [] := by
  intro h
  have hparse := parseI64_decimalText value
  rw [String.toList_eq_nil_iff.mp h] at hparse
  cases hparse

/-- The characters of a decimal text. -/
theorem mem_decimalText {value : Word} {c : Char} (h : c ∈ (decimalText value).toList) :
    c = '-' ∨ c.isDigit = true := by
  have hdigits : ∀ {n : Nat}, c ∈ Nat.toDigits 10 n → c.isDigit = true := fun hc =>
    Nat.isDigit_of_mem_toDigits (by omega) (by omega) hc
  rw [decimalText, toString_eq_ofList, String.toList_ofList] at h
  by_cases hpos : 0 ≤ value.toInt
  · rw [if_pos hpos] at h
    exact .inr (hdigits h)
  · rw [if_neg hpos, List.mem_cons] at h
    exact h.imp_right hdigits

/-! ### Literals -/

/-- The sign of a literal. -/
inductive Sign where
  | none
  | plus
  | minus
deriving DecidableEq, Repr

/-- The characters of a sign. -/
def Sign.chars : Sign → List Char
  | none => []
  | plus => ['+']
  | minus => ['-']

/-- A sign in front of a number. -/
def Sign.apply (n : Nat) : Sign → Int
  | none => n
  | plus => n
  | minus => -n

/-- An optional sign and one or more decimal digits. -/
structure IntLiteral where
  sign : Sign
  digits : List (Fin 10)
  digits_ne_nil : digits ≠ []

namespace IntLiteral

variable (literal : IntLiteral)

/-- The characters of a literal. -/
def chars : List Char := literal.sign.chars ++ digitChars literal.digits

/-- The text of a literal. -/
def text : String := String.ofList literal.chars

/-- The integer that a literal denotes. -/
def value : Int := literal.sign.apply (Nat.ofDigits 10 (literal.digits.reverse.map Fin.val))

end IntLiteral

/-- **What the `i64` parser makes of a literal**: the integer that it denotes, if that is in
range. -/
theorem parseI64_text (literal : IntLiteral) :
    parseI64 literal.text =
      if -2 ^ 63 ≤ literal.value ∧ literal.value < 2 ^ 63 then
        some (BitVec.ofInt 64 literal.value)
      else none := by
  obtain ⟨sign, digits, hne⟩ := literal
  have hdigits := digitsValue_digitChars hne
  rw [IntLiteral.text, IntLiteral.chars, IntLiteral.value]
  generalize Nat.ofDigits 10 (digits.reverse.map Fin.val) = n at hdigits ⊢
  obtain ⟨hminus, hplus, hnone⟩ := parseI64_of_digits hdigits
  cases sign with
  | none =>
      rw [Sign.chars, Sign.apply, List.nil_append, hnone, BitVec.ofInt_natCast]
      exact if_congr (by omega) rfl rfl
  | plus =>
      rw [Sign.chars, Sign.apply, List.singleton_append, hplus, BitVec.ofInt_natCast]
      exact if_congr (by omega) rfl rfl
  | minus =>
      rw [Sign.chars, Sign.apply, List.singleton_append, hminus]
      exact if_congr (by omega) rfl rfl

/-! ### Reading one atom -/

/-- A text without delimiters is one atom. -/
theorem lex_of_inAtom {chars : List Char} (hne : chars ≠ [])
    (hall : ∀ c ∈ chars, inAtom c = true) : lex chars = .ok [.atom (String.ofList chars)] := by
  cases chars with
  | nil => exact absurd rfl hne
  | cons c rest =>
      have htake : (c :: rest).takeWhile inAtom = c :: rest := by
        rw [List.takeWhile_eq_self_iff]
        exact hall
      have hdrop : (c :: rest).dropWhile inAtom = [] := List.dropWhile_eq_nil_iff.mpr hall
      rw [lex_atom (hall c List.mem_cons_self), htake, hdrop]
      rfl

/-- Reading one atom is making its word. -/
theorem readTokens_atom (P : Platform) (text : String) (s : ReaderState) :
    readTokens P [.atom text] s = atomToWord text s := by
  have hparse : parseForm P [.atom text] (parseFuel [.atom text]) 0 =
      (atomToWord text >>= fun word => pure (word, 0 + 1)) :=
    parseForm_atom P _ rfl
  change readTokens.parseTokens P [.atom text] s = _
  rw [readTokens.parseTokens]
  rcases hatom : atomToWord text s with ⟨o, s'⟩
  cases o with
  | ok word =>
      have hform : parseForm P [.atom text] (parseFuel [.atom text]) 0 s =
          (.ok (word, 0 + 1), s') := by
        rw [hparse]
        exact Program.bind_ok hatom
      rw [Program.bind_ok hform]
      rfl
  | err e =>
      have hform : parseForm P [.atom text] (parseFuel [.atom text]) 0 s = (.err e, s') := by
        rw [hparse]
        exact Program.bind_err hatom
      rw [Program.bind_err hform]
  | panic =>
      have hform : parseForm P [.atom text] (parseFuel [.atom text]) 0 s = (.panic, s') := by
        rw [hparse]
        exact Program.bind_panic hatom
      rw [Program.bind_panic hform]
  | abort r =>
      have hform : parseForm P [.atom text] (parseFuel [.atom text]) 0 s = (.abort r, s') := by
        rw [hparse]
        exact Program.bind_abort hatom
      rw [Program.bind_abort hform]
  | timeout =>
      have hform : parseForm P [.atom text] (parseFuel [.atom text]) 0 s = (.timeout, s') := by
        rw [hparse]
        exact Program.bind_timeout hatom
      rw [Program.bind_timeout hform]

/-- The characters of a literal. -/
theorem inAtom_of_mem_chars {literal : IntLiteral} {c : Char} (h : c ∈ literal.chars) :
    inAtom c = true := by
  rw [IntLiteral.chars, List.mem_append] at h
  rcases h with hsign | hdigit
  · cases hs : literal.sign with
    | none =>
        rw [hs, Sign.chars] at hsign
        cases hsign
    | plus =>
        rw [hs, Sign.chars, List.mem_singleton] at hsign
        subst hsign
        decide
    | minus =>
        rw [hs, Sign.chars, List.mem_singleton] at hsign
        subst hsign
        decide
  · obtain ⟨d, -, rfl⟩ := List.mem_map.mp hdigit
    have hall : ∀ d : Fin 10, inAtom (Nat.digitChar d.val) = true := by decide
    exact hall d

/-- A literal has at least one digit. -/
theorem IntLiteral.chars_ne_nil (literal : IntLiteral) : literal.chars ≠ [] := by
  rw [IntLiteral.chars, digitChars]
  simp [literal.digits_ne_nil]

/-- **Reading a literal**: a fixnum if the parser takes it, and a symbol otherwise. -/
theorem readOne_text (P : Platform) (literal : IntLiteral) (s : ReaderState) :
    readOne P literal.text s =
      if -2 ^ 63 ≤ literal.value ∧ literal.value < 2 ^ 63 then
        (.ok (encodeFixnum (BitVec.ofInt 64 literal.value)), s)
      else internSymbol literal.text s := by
  have htokens : tokenize literal.text = .ok [.atom literal.text] := by
    rw [tokenize_eq_lex, IntLiteral.text, String.toList_ofList]
    exact lex_of_inAtom literal.chars_ne_nil fun c hc => inAtom_of_mem_chars hc
  have hnil : literal.text ≠ "()" := by
    intro h
    have hmem : '(' ∈ literal.chars := by
      have := congrArg String.toList h
      rw [IntLiteral.text, String.toList_ofList] at this
      rw [this]
      decide
    exact absurd (inAtom_of_mem_chars hmem) (by decide)
  rw [readOne, htokens]
  simp only
  rw [readTokens_atom, atomToWord, if_neg hnil, parseI64_text]
  by_cases hrange : -2 ^ 63 ≤ literal.value ∧ literal.value < 2 ^ 63
  · rw [if_pos hrange, if_pos hrange]
    rfl
  · rw [if_neg hrange, if_neg hrange]

/-! ### Exact readings -/

/-- The integers that a fixnum holds. -/
def FitsFixnum (n : Int) : Prop := -2 ^ 60 ≤ n ∧ n < 2 ^ 60

/-- What a fixnum keeps of a number: the number itself, if it fits the payload. -/
theorem toInt_storedFixnum (value : Word) :
    (storedFixnum value).toInt = value.toInt ↔ FitsFixnum value.toInt := by
  have hword : (encodeFixnum value).toNat = 8 * (value.toNat % 2 ^ 61) + 3 :=
    toNat_tagged value tagFixnum (by decide)
  have hlt := value.isLt
  rw [storedFixnum, decodeFixnum, BitVec.toInt_sshiftRight, Int.shiftRight_eq_div_pow,
    BitVec.toInt_eq_toNat_cond, BitVec.toInt_eq_toNat_cond, hword, FitsFixnum]
  constructor <;> intro h <;> split_ifs at h ⊢ <;> omega

/-- **An exact reading.** Whatever word is returned for the text is the fixnum of the number,
and prints as its decimal text; a number that no fixnum holds is reported as an error. -/
def ReadsExactly (P : Platform) (s : ReaderState) (text : String) (n : Int) : Prop :=
  (∀ word s', readOne P text s = (.ok word, s') →
    tagOf word = tagFixnum ∧ (decodeFixnum word).toInt = n ∧
      valueToString P s'.arena s'.symbols s'.boxed word = .ok (toString n)) ∧
  (¬ FitsFixnum n → ∃ e s', readOne P text s = (.err e, s'))

/-- The text of a fixnum. -/
theorem valueToString_fixnum (P : Platform) (arena : Arena) (symbols : SymbolTable)
    (boxed : BoxedTable) {word : Word} (h : tagOf word = tagFixnum) :
    valueToString P arena symbols boxed word = .ok (decimalText (decodeFixnum word)) := by
  simp [valueToString, printFuel, writeValue, atomText, h, tagFixnum, tagNil, tagCons]

/-- The reader reports no error on a literal. -/
theorem readOne_text_ne_err (P : Platform) (s : ReaderState) (literal : IntLiteral)
    (e : ReadError) (s' : ReaderState) : readOne P literal.text s ≠ (.err e, s') := by
  rw [readOne_text]
  by_cases hrange : -2 ^ 63 ≤ literal.value ∧ literal.value < 2 ^ 63
  · rw [if_pos hrange]
    rintro ⟨⟩
  · rw [if_neg hrange, internSymbol]
    cases s.symbols.intern literal.text <;> rintro ⟨⟩

/-- **Which literals are read exactly**: those that fit the payload of a fixnum. -/
theorem readsExactly_iff (P : Platform) (s : ReaderState) (literal : IntLiteral) :
    ReadsExactly P s literal.text literal.value ↔ FitsFixnum literal.value := by
  constructor
  · rintro ⟨-, hreported⟩
    by_contra hfits
    obtain ⟨e, s', herror⟩ := hreported hfits
    exact readOne_text_ne_err P s literal e s' herror
  · intro hfits
    have hrange : -2 ^ 63 ≤ literal.value ∧ literal.value < 2 ^ 63 := by
      rw [FitsFixnum] at hfits
      omega
    refine ⟨fun word s' h => ?_, fun h => absurd hfits h⟩
    rw [readOne_text, if_pos hrange] at h
    cases h
    have htag := tagOf_encodeFixnum (BitVec.ofInt 64 literal.value)
    have hvalue : (BitVec.ofInt 64 literal.value).toInt = literal.value := by
      rw [BitVec.toInt_ofInt, Int.bmod_eq_of_le] <;> omega
    have hstored : (decodeFixnum (encodeFixnum (BitVec.ofInt 64 literal.value))).toInt =
        literal.value := by
      have := (toInt_storedFixnum (BitVec.ofInt 64 literal.value)).mpr (hvalue.symm ▸ hfits)
      rwa [hvalue] at this
    refine ⟨htag, hstored, ?_⟩
    rw [valueToString_fixnum P _ _ _ htag, decimalText, hstored]

/-- `1152921504606846976`, which is `2 ^ 60`, is read as its negation. -/
theorem not_readsExactly_two_pow_sixty :
    ¬ ReadsExactly .standard .new "1152921504606846976" (2 ^ 60) := by
  let literal : IntLiteral :=
    ⟨.none, [1, 1, 5, 2, 9, 2, 1, 5, 0, 4, 6, 0, 6, 8, 4, 6, 9, 7, 6], by simp⟩
  have hvalue : literal.value = 2 ^ 60 := by decide
  have htext : literal.text = "1152921504606846976" := by decide
  have hread := readOne_text .standard literal .new
  rw [hvalue, htext, if_pos (by decide)] at hread
  rintro ⟨hexact, -⟩
  obtain ⟨-, hdecoded, -⟩ := hexact _ _ hread
  have hnegated : (decodeFixnum (encodeFixnum (BitVec.ofInt 64 (2 ^ 60)))).toInt = -2 ^ 60 := by
    decide
  omega

end LispHost
