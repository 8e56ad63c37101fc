import LispHost.Reader

/-!
# The Tokenizer without Fuel

`tokenizeLoop` has its fuel from the length of the text. Here it gets equations that do not
mention the fuel, one for each turn of the loop, and the law by which a text is tokenized in
two parts: where the first part is complete and the second starts with a character that ends
an atom, the tokens are those of the parts, one after the other.

## Main definitions

* `lex`: the tokens of a list of characters.
* `Lexes`: the turns of the loop on a text that it accepts.

## Main results

* `lex_whitespace`, `lex_open`, `lex_close`, `lex_string`, `lex_atom`: the turns of the loop.
* `lex_induction`: induction along these turns.
* `lex_append`: tokenizing in two parts.
* `lex_eq_error`: the only error.
-/

namespace LispHost

/-- The tokens of a list of characters. -/
def lex (chars : List Char) : Except ReadError (List Token) := tokenizeLoop chars.length chars

/-- The tokens of a text are those of its characters. -/
theorem tokenize_eq_lex (source : String) : tokenize source = lex source.toList := rfl

/-- The characters that continue an atom. -/
def inAtom (c : Char) : Bool := !endsAtom c

/-! ### String literals -/

/-- How the loop over a string literal goes on behind its first characters. -/
theorem takeString_cases {motive : List Char → Prop} (chars : List Char)
    (nil : motive [])
    (quote : ∀ rest, motive ('"' :: rest))
    (backslash : motive ['\\'])
    (escape : ∀ c rest, motive rest → motive ('\\' :: c :: rest))
    (char : ∀ c rest, c ≠ '"' → c ≠ '\\' → motive rest → motive (c :: rest)) :
    motive chars := by
  induction hn : chars.length using Nat.strong_induction_on generalizing chars with
  | _ n ih =>
      subst hn
      cases chars with
      | nil => exact nil
      | cons c rest =>
          by_cases hquote : c = '"'
          · exact hquote ▸ quote rest
          by_cases hbackslash : c = '\\'
          · subst hbackslash
            cases rest with
            | nil => exact backslash
            | cons c rest =>
                have hlength : rest.length < ('\\' :: c :: rest).length := by
                  simp only [List.length_cons]
                  omega
                exact escape c rest (ih rest.length hlength rest rfl)
          · exact char c rest hquote hbackslash (ih rest.length (by simp) rest rfl)

/-- The value of an escape. -/
def unescape (c : Char) : List Char := if c = '"' ∨ c = '\\' then [c] else ['\\', c]

/-- An escaped character is unescaped. -/
theorem takeString_escape (c : Char) (rest : List Char) :
    takeString ('\\' :: c :: rest) =
      (takeString rest).map fun r => (unescape c ++ r.1, r.2) := by
  by_cases hquote : c = '"'
  · subst hquote
    rfl
  by_cases hbackslash : c = '\\'
  · subst hbackslash
    rfl
  · have hneither : ¬(c = '"' ∨ c = '\\') := by
      simp only [hquote, hbackslash, or_self, not_false_eq_true]
    rw [takeString, unescape, if_neg hneither]
    · rfl
    · exact hquote
    · exact hbackslash

/-- Any other character but the quote stands for itself. -/
theorem takeString_char {c : Char} (hquote : c ≠ '"') (hbackslash : c ≠ '\\')
    (rest : List Char) :
    takeString (c :: rest) = (takeString rest).map fun r => (c :: r.1, r.2) := by
  rw [takeString]
  · exact hquote
  · exact fun h _ => hbackslash h
  · exact fun _ h _ => hbackslash h
  · exact fun _ h _ => hbackslash h
  · exact fun _ _ h _ => hbackslash h

/-- The value of a literal from an escape on, and where it comes from. -/
theorem takeString_escape_iff {c : Char} {chars value rest : List Char} :
    takeString ('\\' :: c :: chars) = some (value, rest) ↔
      ∃ tail, takeString chars = some (tail, rest) ∧ value = unescape c ++ tail := by
  rw [takeString_escape, Option.map_eq_some_iff]
  constructor
  · rintro ⟨⟨tail, rest'⟩, htail, heq⟩
    obtain ⟨rfl, rfl⟩ := Prod.mk.inj heq
    exact ⟨tail, htail, rfl⟩
  · rintro ⟨tail, htail, rfl⟩
    exact ⟨(tail, rest), htail, rfl⟩

/-- The value of a literal from any other character on, and where it comes from. -/
theorem takeString_char_iff {c : Char} (hquote : c ≠ '"') (hbackslash : c ≠ '\\')
    {chars value rest : List Char} :
    takeString (c :: chars) = some (value, rest) ↔
      ∃ tail, takeString chars = some (tail, rest) ∧ value = c :: tail := by
  rw [takeString_char hquote hbackslash, Option.map_eq_some_iff]
  constructor
  · rintro ⟨⟨tail, rest'⟩, htail, heq⟩
    obtain ⟨rfl, rfl⟩ := Prod.mk.inj heq
    exact ⟨tail, htail, rfl⟩
  · rintro ⟨tail, htail, rfl⟩
    exact ⟨(tail, rest), htail, rfl⟩

/-- The text behind a literal is a proper suffix. -/
theorem length_of_takeString {chars value rest : List Char}
    (h : takeString chars = some (value, rest)) : rest.length < chars.length := by
  induction chars using takeString_cases generalizing value with
  | nil => cases h
  | quote tail =>
      obtain ⟨-, rfl⟩ := Prod.mk.inj (Option.some.inj h)
      simp
  | backslash => cases h
  | escape c tail ih =>
      obtain ⟨value', htail, -⟩ := takeString_escape_iff.mp h
      have hlt : rest.length < tail.length := ih htail
      simp only [List.length_cons]
      omega
  | char c tail hquote hbackslash ih =>
      obtain ⟨value', htail, -⟩ := (takeString_char_iff hquote hbackslash).mp h
      have hlt : rest.length < tail.length := ih htail
      simp only [List.length_cons]
      omega

/-- A literal that is closed stays the same when the text goes on. -/
theorem takeString_append {chars value rest : List Char}
    (h : takeString chars = some (value, rest)) (more : List Char) :
    takeString (chars ++ more) = some (value, rest ++ more) := by
  induction chars using takeString_cases generalizing value with
  | nil => cases h
  | quote tail =>
      obtain ⟨rfl, rfl⟩ := Prod.mk.inj (Option.some.inj h)
      rfl
  | backslash => cases h
  | escape c tail ih =>
      obtain ⟨value', htail, rfl⟩ := takeString_escape_iff.mp h
      rw [List.cons_append, List.cons_append, takeString_escape, ih htail]
      rfl
  | char c tail hquote hbackslash ih =>
      obtain ⟨value', htail, rfl⟩ := (takeString_char_iff hquote hbackslash).mp h
      rw [List.cons_append, takeString_char hquote hbackslash, ih htail]
      rfl

/-! ### The turns of the loop -/

/-- One turn of the loop, which goes on with `next`. -/
def lexTurn (next : List Char → Except ReadError (List Token)) (c : Char) (rest : List Char) :
    Except ReadError (List Token) :=
  if isWhitespace c then
    next rest
  else if c = '(' then
    (next rest).map (.open :: ·)
  else if c = ')' then
    (next rest).map (.close :: ·)
  else if c = '"' then
    (takeString rest).elim (.error .unterminatedString) fun literal =>
      (next literal.2).map (.str (String.ofList literal.1) :: ·)
  else
    (next ((c :: rest).dropWhile inAtom)).map
      (.atom (String.ofList ((c :: rest).takeWhile inAtom)) :: ·)

/-- One turn of the loop. -/
theorem tokenizeLoop_succ (fuel : Nat) (c : Char) (rest : List Char) :
    tokenizeLoop (fuel + 1) (c :: rest) = lexTurn (tokenizeLoop fuel) c rest := by
  rw [tokenizeLoop, lexTurn]
  cases takeString rest <;> rfl

/-- An atom that starts takes at least its first character. -/
theorem length_dropWhile_atom {c : Char} (hc : inAtom c = true) (rest : List Char) :
    ((c :: rest).dropWhile inAtom).length ≤ rest.length := by
  rw [List.dropWhile_cons, if_pos hc]
  exact (List.dropWhile_suffix _).length_le

/-- A character that starts no other token continues an atom. -/
theorem inAtom_iff {c : Char} : inAtom c = true ↔
    ¬ isWhitespace c = true ∧ c ≠ '(' ∧ c ≠ ')' ∧ c ≠ '"' := by
  simp [inAtom, endsAtom, and_assoc]

/-- A turn only goes on with shorter texts. -/
theorem lexTurn_congr {next next' : List Char → Except ReadError (List Token)}
    {rest : List Char} (h : ∀ chars, chars.length ≤ rest.length → next chars = next' chars)
    (c : Char) : lexTurn next c rest = lexTurn next' c rest := by
  rw [lexTurn, lexTurn, h rest le_rfl]
  by_cases hspace : isWhitespace c = true
  · rw [if_pos hspace, if_pos hspace]
  by_cases hopen : c = '('
  · rw [if_neg hspace, if_neg hspace, if_pos hopen, if_pos hopen]
  by_cases hclose : c = ')'
  · simp only [if_neg hspace, if_neg hopen, if_pos hclose]
  by_cases hquote : c = '"'
  · simp only [if_neg hspace, if_neg hopen, if_neg hclose, if_pos hquote]
    cases hstring : takeString rest with
    | none => rfl
    | some literal =>
        have hlt : literal.2.length < rest.length := length_of_takeString hstring
        simp only [Option.elim, h literal.2 hlt.le]
  · have hatom : inAtom c = true := inAtom_iff.mpr ⟨hspace, hopen, hclose, hquote⟩
    simp only [if_neg hspace, if_neg hopen, if_neg hclose, if_neg hquote,
      h _ (length_dropWhile_atom hatom rest)]

/-- **The fuel does not matter.** -/
theorem tokenizeLoop_fuel {fuel fuel' : Nat} {chars : List Char} (h : chars.length ≤ fuel)
    (h' : chars.length ≤ fuel') : tokenizeLoop fuel chars = tokenizeLoop fuel' chars := by
  induction fuel generalizing fuel' chars with
  | zero =>
      obtain rfl : chars = [] := List.length_eq_zero_iff.mp (by omega)
      cases fuel' <;> rfl
  | succ fuel ih =>
      cases chars with
      | nil => cases fuel' <;> rfl
      | cons c rest =>
          simp only [List.length_cons] at h h'
          obtain ⟨fuel', rfl⟩ : ∃ n, fuel' = n + 1 := ⟨fuel' - 1, by omega⟩
          rw [tokenizeLoop_succ, tokenizeLoop_succ]
          exact lexTurn_congr (fun chars hchars => ih (by omega) (by omega)) c

@[simp] theorem lex_nil : lex [] = .ok [] := rfl

/-- **The loop without its fuel.** -/
theorem lex_cons (c : Char) (rest : List Char) : lex (c :: rest) = lexTurn lex c rest := by
  have hlex : lex (c :: rest) = lexTurn (tokenizeLoop rest.length) c rest :=
    tokenizeLoop_succ rest.length c rest
  rw [hlex]
  exact lexTurn_congr (fun chars hchars => tokenizeLoop_fuel hchars le_rfl) c

/-- A blank is skipped. -/
theorem lex_whitespace {c : Char} (hc : isWhitespace c = true) (rest : List Char) :
    lex (c :: rest) = lex rest := by
  rw [lex_cons, lexTurn, if_pos hc]

/-- An opening parenthesis is a token. -/
theorem lex_open (rest : List Char) : lex ('(' :: rest) = (lex rest).map (.open :: ·) := by
  rw [lex_cons]
  rfl

/-- A closing parenthesis is a token. -/
theorem lex_close (rest : List Char) : lex (')' :: rest) = (lex rest).map (.close :: ·) := by
  rw [lex_cons]
  rfl

/-- A quote begins a literal, which has to end. -/
theorem lex_string (rest : List Char) :
    lex ('"' :: rest) = (takeString rest).elim (.error .unterminatedString) fun literal =>
      (lex literal.2).map (.str (String.ofList literal.1) :: ·) := by
  rw [lex_cons]
  rfl

/-- An atom goes up to the first character that ends one. -/
theorem lex_atom {c : Char} (hc : inAtom c = true) (rest : List Char) :
    lex (c :: rest) = (lex ((c :: rest).dropWhile inAtom)).map
      (.atom (String.ofList ((c :: rest).takeWhile inAtom)) :: ·) := by
  obtain ⟨hspace, hopen, hclose, hquote⟩ := inAtom_iff.mp hc
  rw [lex_cons, lexTurn, if_neg hspace, if_neg hopen, if_neg hclose, if_neg hquote]

/-- **Induction along the turns of the loop.** -/
theorem lex_induction {motive : List Char → Prop} (chars : List Char)
    (nil : motive [])
    (whitespace : ∀ c rest, isWhitespace c = true → motive rest → motive (c :: rest))
    («open» : ∀ rest, motive rest → motive ('(' :: rest))
    (close : ∀ rest, motive rest → motive (')' :: rest))
    (unterminated : ∀ rest, takeString rest = none → motive ('"' :: rest))
    (string : ∀ rest value rest', takeString rest = some (value, rest') → motive rest' →
      motive ('"' :: rest))
    (atom : ∀ c rest, inAtom c = true → motive ((c :: rest).dropWhile inAtom) →
      motive (c :: rest)) :
    motive chars := by
  induction hn : chars.length using Nat.strong_induction_on generalizing chars with
  | _ n ih =>
      subst hn
      cases chars with
      | nil => exact nil
      | cons c rest =>
          have hrest : ∀ chars, chars.length ≤ rest.length → motive chars := fun chars hchars =>
            ih chars.length (by simp only [List.length_cons]; omega) chars rfl
          by_cases hspace : isWhitespace c = true
          · exact whitespace c rest hspace (hrest rest le_rfl)
          by_cases hopen : c = '('
          · exact hopen ▸ «open» rest (hrest rest le_rfl)
          by_cases hclose : c = ')'
          · exact hclose ▸ close rest (hrest rest le_rfl)
          by_cases hquote : c = '"'
          · subst hquote
            cases hstring : takeString rest with
            | none => exact unterminated rest hstring
            | some literal =>
                obtain ⟨value, rest'⟩ := literal
                exact string rest value rest' hstring
                  (hrest rest' (length_of_takeString hstring).le)
          · have hatom := inAtom_iff.mpr ⟨hspace, hopen, hclose, hquote⟩
            exact atom c rest hatom (hrest _ (length_dropWhile_atom hatom rest))

/-- The tokenizer rejects a text for an unterminated string only. -/
theorem lex_eq_error {chars : List Char} {e : ReadError} (h : lex chars = .error e) :
    e = .unterminatedString := by
  have hmap : ∀ {rest : List Char} {token : Token}, (lex rest).map (token :: ·) = .error e →
      lex rest = .error e := by
    intro rest token hmap
    cases hrest : lex rest with
    | error e' =>
        rw [hrest] at hmap
        cases hmap
        rfl
    | ok tokens =>
        rw [hrest] at hmap
        cases hmap
  induction chars using lex_induction with
  | nil => cases h
  | whitespace c rest hspace ih => exact ih (lex_whitespace hspace rest ▸ h)
  | «open» rest ih => exact ih (hmap (lex_open rest ▸ h))
  | close rest ih => exact ih (hmap (lex_close rest ▸ h))
  | unterminated rest hstring =>
      rw [lex_string, hstring] at h
      cases h
      rfl
  | string rest value rest' hstring ih =>
      rw [lex_string, hstring] at h
      exact ih (hmap h)
  | atom c rest hatom ih => exact ih (hmap (lex_atom hatom rest ▸ h))

/-! ### A text in two parts -/

/-- A text in front of which a token always ends. -/
def Separated (chars : List Char) : Prop := ∀ c ∈ chars.head?, inAtom c = false

/-- A text that is separated does not make an atom in front of it longer. -/
theorem takeWhile_append_of_separated {more : List Char} (hmore : Separated more)
    (chars : List Char) :
    (chars ++ more).takeWhile inAtom = chars.takeWhile inAtom ∧
      (chars ++ more).dropWhile inAtom = chars.dropWhile inAtom ++ more := by
  induction chars with
  | nil =>
      cases more with
      | nil => exact ⟨rfl, rfl⟩
      | cons c rest =>
          have hc : inAtom c = false := hmore c rfl
          simp only [List.nil_append, List.takeWhile_cons, List.dropWhile_cons, hc,
            List.takeWhile_nil, List.dropWhile_nil, Bool.false_eq_true, if_false, and_self]
  | cons c rest ih =>
      cases hc : inAtom c with
      | true =>
          simp only [List.cons_append, List.takeWhile_cons, List.dropWhile_cons, hc, if_true,
            ih.1, ih.2, and_self]
      | false =>
          simp only [List.cons_append, List.takeWhile_cons, List.dropWhile_cons, hc,
            Bool.false_eq_true, if_false, and_self]

/-- Where a token is put in front of a result, it is the first one. -/
theorem exists_of_map_cons {tokens : List Token} {token : Token}
    {result : Except ReadError (List Token)} (h : result.map (token :: ·) = .ok tokens) :
    ∃ rest, result = .ok rest ∧ tokens = token :: rest := by
  cases result with
  | error e => cases h
  | ok rest =>
      cases h
      exact ⟨rest, rfl, rfl⟩

/-- The turns of the loop on a text that it accepts. -/
inductive Lexes : List Char → List Token → Prop
  | nil : Lexes [] []
  | whitespace {c : Char} {rest : List Char} {tokens : List Token} (hspace : isWhitespace c = true)
      (h : Lexes rest tokens) : Lexes (c :: rest) tokens
  | «open» {rest : List Char} {tokens : List Token} (h : Lexes rest tokens) :
      Lexes ('(' :: rest) (.open :: tokens)
  | close {rest : List Char} {tokens : List Token} (h : Lexes rest tokens) :
      Lexes (')' :: rest) (.close :: tokens)
  | string {rest value rest' : List Char} {tokens : List Token}
      (hstring : takeString rest = some (value, rest')) (h : Lexes rest' tokens) :
      Lexes ('"' :: rest) (.str (String.ofList value) :: tokens)
  | atom {c : Char} {rest : List Char} {tokens : List Token} (hatom : inAtom c = true)
      (h : Lexes ((c :: rest).dropWhile inAtom) tokens) :
      Lexes (c :: rest) (.atom (String.ofList ((c :: rest).takeWhile inAtom)) :: tokens)

/-- What the tokenizer returns is derived by the rules. -/
theorem lexes_of_lex {chars : List Char} {tokens : List Token} (h : lex chars = .ok tokens) :
    Lexes chars tokens := by
  induction chars using lex_induction generalizing tokens with
  | nil =>
      cases h
      exact .nil
  | whitespace c rest hspace ih =>
      rw [lex_whitespace hspace] at h
      exact .whitespace hspace (ih h)
  | «open» rest ih =>
      rw [lex_open] at h
      obtain ⟨tokens', hrest, rfl⟩ := exists_of_map_cons h
      exact .open (ih hrest)
  | close rest ih =>
      rw [lex_close] at h
      obtain ⟨tokens', hrest, rfl⟩ := exists_of_map_cons h
      exact .close (ih hrest)
  | unterminated rest hstring =>
      rw [lex_string, hstring] at h
      cases h
  | string rest value rest' hstring ih =>
      rw [lex_string, hstring] at h
      obtain ⟨tokens', hrest, rfl⟩ := exists_of_map_cons h
      exact .string hstring (ih hrest)
  | atom c rest hatom ih =>
      rw [lex_atom hatom] at h
      obtain ⟨tokens', hrest, rfl⟩ := exists_of_map_cons h
      exact .atom hatom (ih hrest)

/-- **Tokenizing in two parts.** Where the first part is complete and the second starts
with a character that ends an atom, or is empty, the tokens are those of the parts. -/
theorem lex_append {chars more : List Char} {tokens : List Token} (h : lex chars = .ok tokens)
    (hmore : Separated more) : lex (chars ++ more) = (lex more).map (tokens ++ ·) := by
  have hmap : ∀ (token : Token) (rest : List Token),
      ((lex more).map (rest ++ ·)).map (token :: ·) = (lex more).map (token :: rest ++ ·) := by
    intro token rest
    cases lex more <;> rfl
  replace h := lexes_of_lex h
  induction h with
  | nil =>
      rw [List.nil_append]
      cases lex more <;> rfl
  | whitespace hspace _ ih => rw [List.cons_append, lex_whitespace hspace, ih]
  | «open» _ ih => rw [List.cons_append, lex_open, ih, hmap]
  | close _ ih => rw [List.cons_append, lex_close, ih, hmap]
  | string hstring _ ih =>
      rw [List.cons_append, lex_string, takeString_append hstring]
      simp only [Option.elim, ih, hmap]
  | @atom c rest tokens hatom _ ih =>
      obtain ⟨htake, hdrop⟩ := takeWhile_append_of_separated hmore (c :: rest)
      rw [List.cons_append] at htake hdrop ⊢
      rw [lex_atom hatom, htake, hdrop, ih, hmap]

end LispHost
