import LispHost.Literals

/-!
# Layout

Between two tokens the layout of a text is a matter of taste: any separator may stand for any
other one. The reader keeps this promise for whitespace, and only for whitespace. It has no
line comments, though the scripts of the repository have them and the tokenizer of the
registry skips them; it reads a comment as tokens. No text that it accepts keeps its meaning
when a comment is put in, because every semicolon of an accepted text is in its tree.

## Main definitions

* `IsSeparator`: whitespace and line comments.
* `reading`: the tree of an accepted text, or the kind of the error.

## Main results

* `lex_between`: whitespace between two parts of a text does not change their tokens.
* `semicolons_of_lex`, `semicolons_of_parses`: where the semicolons of a text go.
* `reading_relayout`: which separators may be exchanged.
-/

namespace LispHost

open Effects

/-- Separators: whitespace, and line comments with the newline that ends them. -/
inductive IsSeparator : List Char → Prop where
  | nil : IsSeparator []
  | whitespace {c : Char} {rest : List Char} :
      isWhitespace c = true → IsSeparator rest → IsSeparator (c :: rest)
  | comment {body rest : List Char} :
      '\n' ∉ body → IsSeparator rest → IsSeparator (';' :: (body ++ '\n' :: rest))

/-- The kinds of reader errors. -/
inductive ReadErrorKind where
  | unexpectedEof
  | unexpectedCloseParen
  | unterminatedString
  | trailingInput
  | arenaCapacityExceeded
deriving DecidableEq, Repr

/-- The kind of an error, without what it says of the text. -/
def ReadError.kind : ReadError → ReadErrorKind
  | unexpectedEof => .unexpectedEof
  | unexpectedCloseParen => .unexpectedCloseParen
  | unterminatedString => .unterminatedString
  | trailingInput _ => .trailingInput
  | arenaCapacityExceeded _ _ => .arenaCapacityExceeded

variable (P : Platform)

/-- What the reader makes of a text: the tree of an accepted one, the kind of the error of a
rejected one. -/
def reading (source : List Char) (s : ReaderState) :
    Outcome Exit ReadErrorKind (Option (Sexp Unit)) :=
  match readOne P (String.ofList source) s with
  | (.ok word, s') => .ok ((readTree P s' word).map Sexp.erase)
  | (.err e, _) => .err e.kind
  | (.panic, _) => .panic
  | (.abort r, _) => .abort r
  | (.timeout, _) => .timeout

/-- The number of semicolons. -/
def semicolons (chars : List Char) : Nat := chars.count ';'

/-- The semicolons in a token. -/
def Token.semicolons : Token → Nat
  | .open => 0
  | .close => 0
  | .atom text => LispHost.semicolons text.toList
  | .str text => LispHost.semicolons text.toList

/-- The semicolons in the names and the literals of a tree. -/
def Sexp.semicolons {α : Type} : Sexp α → Nat
  | fixnum _ _ => 0
  | symbol _ name => LispHost.semicolons name.toList
  | string _ text => LispHost.semicolons text.toList
  | nil => 0
  | pair _ head tail => head.semicolons + tail.semicolons

variable {P}

/-! ### Whitespace -/

/-- A blank ends an atom. -/
theorem not_inAtom_of_isWhitespace {c : Char} (h : isWhitespace c = true) : inAtom c = false := by
  rw [← Bool.not_eq_true, inAtom_iff]
  exact fun hatom => hatom.1 h

/-- Blanks are skipped. -/
theorem lex_append_whitespace {space : List Char} (h : ∀ c ∈ space, isWhitespace c = true)
    (rest : List Char) : lex (space ++ rest) = lex rest := by
  induction space with
  | nil => rfl
  | cons c space ih =>
      rw [List.cons_append, lex_whitespace (h c List.mem_cons_self),
        ih fun c hc => h c (List.mem_cons_of_mem _ hc)]

/-- **Whitespace between two parts.** The tokens of the first part are followed by those of
the second, whatever whitespace is between them; at the ends of the text there may be none. -/
theorem lex_between {before space after : List Char} {tokens : List Token}
    (hbefore : lex before = .ok tokens) (hspace : ∀ c ∈ space, isWhitespace c = true)
    (hboundary : space ≠ [] ∨ before = [] ∨ after = []) :
    lex (before ++ space ++ after) = (lex after).map (tokens ++ ·) := by
  cases space with
  | cons c space =>
      have hseparated : Separated (c :: space ++ after) := by
        intro c' hc'
        obtain rfl : c = c' := Option.some.inj hc'
        exact not_inAtom_of_isWhitespace (hspace _ List.mem_cons_self)
      rw [List.append_assoc, lex_append hbefore hseparated, lex_append_whitespace hspace]
  | nil =>
      rw [List.append_nil]
      rcases hboundary with hne | rfl | rfl
      · exact absurd rfl hne
      · cases hbefore
        rw [List.nil_append]
        cases lex after <;> rfl
      · rw [List.append_nil, hbefore]
        exact congrArg Except.ok (List.append_nil tokens).symm

/-- A separator without a semicolon is whitespace. -/
theorem IsSeparator.isWhitespace {separator : List Char} (h : IsSeparator separator)
    (hsemicolon : ';' ∉ separator) : ∀ c ∈ separator, LispHost.isWhitespace c = true := by
  induction h with
  | nil => simp
  | whitespace hc _ ih =>
      rw [List.forall_mem_cons]
      exact ⟨hc, ih fun h => hsemicolon (List.mem_cons_of_mem _ h)⟩
  | comment => exact absurd List.mem_cons_self hsemicolon

/-! ### Semicolons -/

/-- The semicolons of two texts are counted one behind the other. -/
theorem semicolons_append (a b : List Char) : semicolons (a ++ b) = semicolons a + semicolons b :=
  List.count_append

/-- The first character counts for itself. -/
theorem semicolons_cons (c : Char) (rest : List Char) :
    semicolons (c :: rest) = semicolons [c] + semicolons rest :=
  semicolons_append [c] rest

/-- A text without one has none. -/
theorem semicolons_eq_zero {chars : List Char} (h : ';' ∉ chars) : semicolons chars = 0 :=
  List.count_eq_zero.mpr h

/-- Unescaping keeps the semicolons. -/
theorem semicolons_unescape (c : Char) : semicolons (unescape c) = semicolons ['\\', c] := by
  rw [unescape, semicolons_cons]
  by_cases hc : c = '"' ∨ c = '\\'
  · rw [if_pos hc]
    exact (Nat.zero_add _).symm
  · rw [if_neg hc, ← semicolons_cons]

/-- A literal keeps its semicolons. -/
theorem semicolons_of_takeString {chars value rest : List Char}
    (h : takeString chars = some (value, rest)) :
    semicolons chars = semicolons value + semicolons rest := by
  induction chars using takeString_cases generalizing value with
  | nil => cases h
  | quote tail =>
      obtain ⟨rfl, rfl⟩ := Prod.mk.inj (Option.some.inj h)
      rw [semicolons_cons]
      rfl
  | backslash => cases h
  | escape c tail ih =>
      obtain ⟨value', htail, rfl⟩ := takeString_escape_iff.mp h
      have hchars : semicolons ('\\' :: c :: tail) = semicolons ['\\', c] + semicolons tail :=
        semicolons_append ['\\', c] tail
      rw [hchars, ih htail, semicolons_append, semicolons_unescape, Nat.add_assoc]
  | char c tail hquote hbackslash ih =>
      obtain ⟨value', htail, rfl⟩ := (takeString_char_iff hquote hbackslash).mp h
      rw [semicolons_cons, ih htail, semicolons_cons c value', Nat.add_assoc]

/-- A blank is no semicolon. -/
theorem semicolons_of_isWhitespace {c : Char} (h : isWhitespace c = true) :
    semicolons [c] = 0 := by
  refine semicolons_eq_zero fun hmem => ?_
  rw [List.mem_singleton] at hmem
  subst hmem
  exact absurd h (by decide)

/-- **Every semicolon of a text is in its tokens.** -/
theorem semicolons_of_lex {chars : List Char} {tokens : List Token} (h : lex chars = .ok tokens) :
    semicolons chars = (tokens.map Token.semicolons).sum := by
  replace h := lexes_of_lex h
  induction h with
  | nil => rfl
  | whitespace hspace _ ih =>
      rw [semicolons_cons, semicolons_of_isWhitespace hspace, Nat.zero_add, ih]
  | «open» _ ih =>
      rw [semicolons_cons, ih]
      rfl
  | close _ ih =>
      rw [semicolons_cons, ih]
      rfl
  | string hstring _ ih =>
      rw [semicolons_cons, semicolons_of_takeString hstring, ih, List.map_cons,
        List.sum_cons, Token.semicolons, String.toList_ofList]
      exact Nat.zero_add _
  | atom _ _ ih =>
      rw [List.map_cons, List.sum_cons, Token.semicolons, String.toList_ofList, ← ih,
        ← semicolons_append, List.takeWhile_append_dropWhile]

/-- A numeral has no semicolon. -/
theorem semicolons_of_parseI64 {text : String} {value : Word} (h : parseI64 text = some value) :
    semicolons text.toList = 0 := by
  have hdigits : ∀ {digits : List Char} {n : Nat}, digitsValue digits = some n →
      semicolons digits = 0 := by
    intro digits n hvalue
    rw [digitsValue] at hvalue
    by_cases hall : digits ≠ [] ∧ digits.all (·.isDigit)
    · refine semicolons_eq_zero fun hmem => ?_
      exact absurd (List.all_eq_true.mp hall.2 _ hmem) (by decide)
    · rw [if_neg hall] at hvalue
      cases hvalue
  rw [parseI64] at h
  split at h
  · rename_i digits htext
    obtain ⟨n, hn, -⟩ := Option.bind_eq_some_iff.mp h
    rw [htext, semicolons_cons, hdigits hn]
    rfl
  · rename_i digits htext
    obtain ⟨n, hn, -⟩ := Option.bind_eq_some_iff.mp h
    rw [htext, semicolons_cons, hdigits hn]
    rfl
  · obtain ⟨n, hn, -⟩ := Option.bind_eq_some_iff.mp h
    exact hdigits hn

/-- The semicolons of an atom are those of its tree. -/
theorem semicolons_atomSexp (text : String) :
    (atomSexp text).semicolons = semicolons text.toList := by
  rw [atomSexp]
  by_cases hnil : text = "()"
  · rw [if_pos hnil, hnil]
    rfl
  · rw [if_neg hnil]
    cases hparse : parseI64 text with
    | some value => exact (semicolons_of_parseI64 hparse).symm
    | none => rfl

/-- **Every semicolon of the tokens of a form is in its tree.** -/
theorem semicolons_of_parses {n : Nonterminal} {tokens rest : List Token} {tree : Sexp Unit}
    (h : Parses n tokens tree rest) :
    (tokens.map Token.semicolons).sum =
      tree.semicolons + (rest.map Token.semicolons).sum := by
  induction h with
  | atom text rest => rw [List.map_cons, List.sum_cons, semicolons_atomSexp, Token.semicolons]
  | str text rest => rw [List.map_cons, List.sum_cons, Token.semicolons, Sexp.semicolons]
  | list _ ih => rw [List.map_cons, List.sum_cons, Token.semicolons, Nat.zero_add, ih]
  | close rest => rfl
  | item _ _ ihh iht => rw [ihh, iht, Sexp.semicolons, Nat.add_assoc]

/-- Storing changes numbers only. -/
theorem semicolons_stored {α : Type} (tree : Sexp α) :
    tree.stored.semicolons = tree.semicolons := by
  induction tree with
  | pair label head tail ihh iht => simp only [Sexp.stored, Sexp.semicolons, ihh, iht]
  | fixnum | symbol | string | nil => rfl

/-! ### Exchanging separators -/

/-- **Every semicolon of an accepted text is in the tree read back.** -/
theorem semicolons_of_reading {source : List Char} {s : ReaderState} {tree : Option (Sexp Unit)}
    (hreset : s.arena.next = 0) (h : reading P source s = .ok tree) :
    ∃ t, tree = some t ∧ t.semicolons = semicolons source := by
  rw [reading] at h
  rcases hread : readOne P (String.ofList source) s with ⟨o, s'⟩
  rw [hread] at h
  cases o with
  | err | panic | abort | timeout => cases h
  | ok word =>
      obtain ⟨tokens, t, htokens, hparses, -, d, hd, hstored, -⟩ :=
        readBack_of_readOne hreset hread
      simp only [hd, Option.map_some, Outcome.ok.injEq] at h
      rw [tokenize_eq_lex, String.toList_ofList] at htokens
      refine ⟨d.erase, h.symm, ?_⟩
      rw [hstored, semicolons_stored, semicolons_of_lex htokens, semicolons_of_parses hparses]
      rfl

/-- A text whose reading is a tree. -/
def Accepted (P : Platform) (source : List Char) (s : ReaderState) : Prop :=
  ∃ tree, reading P source s = .ok tree

/-- The reading depends on the tokens only. -/
theorem reading_congr {source source' : List Char} (h : lex source = lex source')
    (s : ReaderState) : reading P source s = reading P source' s := by
  have hread : readOne P (String.ofList source) = readOne P (String.ofList source') := by
    rw [readOne, readOne, tokenize_eq_lex, tokenize_eq_lex, String.toList_ofList,
      String.toList_ofList, h]
  rw [reading, reading, hread]

/-- A text with more semicolons than an accepted one has another reading. -/
theorem reading_ne_of_semicolons {source source' : List Char} {s : ReaderState}
    (hreset : s.arena.next = 0) (h : Accepted P source s)
    (hne : semicolons source' ≠ semicolons source) :
    reading P source' s ≠ reading P source s := by
  obtain ⟨tree, htree⟩ := h
  intro heq
  obtain ⟨t, rfl, ht⟩ := semicolons_of_reading hreset htree
  obtain ⟨t', ht', hcount⟩ := semicolons_of_reading hreset (heq.trans htree)
  obtain rfl := Option.some.inj ht'
  exact hne (hcount.symm.trans ht)

/-- **Layout.** A run of whitespace outside the string literals, between two tokens or at an
end of the text, is replaced by another separator. One without a comment leaves the outcome of
the reader as it is, and on an accepted text only such a one does. -/
theorem reading_relayout (P : Platform) {before space separator after : List Char}
    {tokens : List Token} (hbefore : lex before = .ok tokens)
    (hspace : ∀ c ∈ space, isWhitespace c = true) (hseparator : IsSeparator separator)
    (hboundary : space ≠ [] ∨ before = [] ∨ after = [])
    (hboundary' : separator ≠ [] ∨ before = [] ∨ after = []) {s : ReaderState}
    (hreset : s.arena.next = 0) :
    (';' ∉ separator → reading P (before ++ separator ++ after) s =
        reading P (before ++ space ++ after) s) ∧
      (Accepted P (before ++ space ++ after) s →
        (reading P (before ++ separator ++ after) s = reading P (before ++ space ++ after) s ↔
          ';' ∉ separator)) := by
  have hsame : ';' ∉ separator → reading P (before ++ separator ++ after) s =
      reading P (before ++ space ++ after) s := by
    intro hcomment
    refine reading_congr ?_ s
    rw [lex_between hbefore hspace hboundary,
      lex_between hbefore (hseparator.isWhitespace hcomment) hboundary']
  refine ⟨hsame, fun haccepted => ⟨fun heq hcomment => ?_, hsame⟩⟩
  have hspaceCount : semicolons space = 0 := by
    refine semicolons_eq_zero fun hmem => ?_
    exact absurd (hspace _ hmem) (by decide)
  have hcount : 0 < semicolons separator := List.count_pos_iff.mpr hcomment
  refine reading_ne_of_semicolons hreset haccepted ?_ heq
  rw [semicolons_append, semicolons_append, semicolons_append, semicolons_append]
  omega

/-- A newline may stand for a blank before an atom. -/
theorem reading_relayout_newline :
    reading .standard "(a\nb)".toList .new = reading .standard "(a b)".toList .new := by
  have hspace : ∀ c ∈ " ".toList, isWhitespace c = true := fun c hc => by
    rw [List.mem_singleton.mp hc]
    rfl
  have hcomment : ';' ∉ "\n".toList := fun hmem =>
    absurd (List.mem_singleton.mp hmem) (by decide)
  exact (@reading_relayout .standard "(a".toList " ".toList "\n".toList "b)".toList
    [.open, .atom "a"] rfl hspace (.whitespace (by decide) .nil) (.inl (by decide))
    (.inl (by decide)) .new rfl).1 hcomment

/-- Behind a blank a numeral is accepted; behind a comment it is not read as that numeral. -/
theorem reading_comment_ne :
    reading .standard ";c\n5".toList .new ≠ reading .standard " 5".toList .new :=
  reading_ne_of_semicolons rfl ⟨_, rfl⟩ (by decide)

end LispHost
