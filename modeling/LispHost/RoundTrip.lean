import LispHost.Layout
import LispHost.Returns

/-!
# Printing What Was Read

The printer puts a string between quotes as it is, on purpose. What it prints of an accepted
text is read back as the same tree exactly when every string literal of the text can stand
between quotes as it is: it has no quote, no two backslashes next to each other, and no
backslash at its end. Numbers, symbols and nesting always come back, also the numbers that
lost their top bits when they were read.

## Main definitions

* `Sexp.render`, `Sexp.tokens`: the printed text of a tree, and its tokens.
* `IsPlain`: the strings that can stand between quotes as they are.
* `Sexp.Readable`: the trees whose symbols are read as symbols.

## Main results

* `takeString_plain_iff`: what stands between quotes is read as it is exactly if it is plain.
* `write_eq_render`: the printer writes the printed text of the tree.
* `lex_render`, `plain_of_lex_render`: how the printed text is read.
* `printed_reading_iff`: exactly when the printed text is read as the same tree.
-/

namespace LispHost

open Effects

/-! ### Strings between quotes -/

/-- The strings that can stand between quotes as they are. -/
structure IsPlain (text : List Char) : Prop where
  quote : '"' ∉ text
  backslashes : ¬ ['\\', '\\'] <:+: text
  last : text.getLast? ≠ some '\\'

/-- The empty text is plain. -/
theorem isPlain_nil : IsPlain [] := ⟨by simp, by simp, by simp⟩

/-- A text with a quote is not. -/
theorem not_isPlain_quote (rest : List Char) : ¬ IsPlain ('"' :: rest) :=
  fun h => h.quote List.mem_cons_self

/-- Nor is one that ends with a backslash. -/
theorem not_isPlain_backslash : ¬ IsPlain ['\\'] := fun h => h.last rfl

/-- A character in front of a plain string is one more for the quotes to hold. -/
theorem isPlain_cons_iff {c : Char} {rest : List Char} :
    IsPlain (c :: rest) ↔
      c ≠ '"' ∧ (c = '\\' → rest ≠ [] ∧ rest.head? ≠ some '\\') ∧ IsPlain rest := by
  have hpair : ['\\', '\\'] <:+: c :: rest ↔
      (c = '\\' ∧ rest.head? = some '\\') ∨ ['\\', '\\'] <:+: rest := by
    rw [List.infix_cons_iff, List.cons_prefix_cons, eq_comm]
    cases rest with
    | nil => simp
    | cons d rest => simp [List.cons_prefix_cons, eq_comm]
  constructor
  · rintro ⟨hquote, hbackslashes, hlast⟩
    rw [List.mem_cons, not_or] at hquote
    rw [hpair, not_or] at hbackslashes
    refine ⟨fun h => hquote.1 h.symm, fun hc => ⟨?_, fun h => hbackslashes.1 ⟨hc, h⟩⟩,
      hquote.2, hbackslashes.2, fun h => ?_⟩
    · rintro rfl
      exact hlast (congrArg some hc)
    · cases rest with
      | nil => cases h
      | cons d rest => exact hlast (List.getLast?_cons_cons.trans h)
  · rintro ⟨hc, hnext, hquote, hbackslashes, hlast⟩
    refine ⟨?_, ?_, fun h => ?_⟩
    · rw [List.mem_cons, not_or]
      exact ⟨fun h => hc h.symm, hquote⟩
    · rw [hpair, not_or]
      exact ⟨fun h => (hnext h.1).2 h.2, hbackslashes⟩
    · cases rest with
      | nil => exact (hnext (Option.some.inj h)).1 rfl
      | cons d rest => exact hlast (List.getLast?_cons_cons.symm.trans h)

/-- A backslash is plain in front of a character that it does not escape. -/
theorem isPlain_escape_iff {c : Char} {rest : List Char} :
    IsPlain ('\\' :: c :: rest) ↔ c ≠ '"' ∧ c ≠ '\\' ∧ IsPlain rest := by
  rw [isPlain_cons_iff, isPlain_cons_iff]
  constructor
  · rintro ⟨-, hnext, hc, -, hrest⟩
    exact ⟨hc, fun h => (hnext rfl).2 (congrArg some h), hrest⟩
  · rintro ⟨hc, hbackslash, hrest⟩
    refine ⟨by decide, fun _ => ⟨by simp, fun h => hbackslash (Option.some.inj h)⟩, hc,
      fun h => absurd h hbackslash, hrest⟩

/-- Any other character is plain. -/
theorem isPlain_char_iff {c : Char} (hquote : c ≠ '"') (hbackslash : c ≠ '\\')
    {rest : List Char} : IsPlain (c :: rest) ↔ IsPlain rest := by
  rw [isPlain_cons_iff]
  exact ⟨fun h => h.2.2, fun h => ⟨hquote, fun hc => absurd hc hbackslash, h⟩⟩

/-- A backslash in front of such a character stays. -/
theorem unescape_char {c : Char} (hquote : c ≠ '"') (hbackslash : c ≠ '\\') :
    unescape c = ['\\', c] := by
  rw [unescape, if_neg (by simp only [hquote, hbackslash, or_self, not_false_eq_true])]

/-- **No backslash is gained.** What comes back from between quotes is not the string behind
more backslashes: a doubled one comes back single, and an ordinary character stays. -/
theorem takeString_ne_backslashes {text more rest : List Char} {k : Nat} (hk : 0 < k) :
    takeString (text ++ '"' :: more) ≠ some (List.replicate k '\\' ++ text, rest) := by
  obtain ⟨k, rfl⟩ : ∃ n, k = n + 1 := ⟨k - 1, by omega⟩
  clear hk
  intro h
  induction text using takeString_cases generalizing k with
  | nil => cases h
  | quote tail => cases h
  | backslash =>
      have hquote : ['\\'] ++ '"' :: more = '\\' :: '"' :: more := rfl
      rw [hquote, takeString_escape_iff] at h
      obtain ⟨tail, -, heq⟩ := h
      rw [List.replicate_succ, List.cons_append] at heq
      exact absurd (List.cons.inj heq).1 (by decide)
  | escape c tail ih =>
      rw [List.cons_append, List.cons_append, takeString_escape_iff] at h
      obtain ⟨value, hvalue, heq⟩ := h
      rw [List.replicate_succ, List.cons_append] at heq
      by_cases hquote : c = '"'
      · subst hquote
        exact absurd (List.cons.inj heq).1 (by decide)
      by_cases hbackslash : c = '\\'
      · subst hbackslash
        have hmore : List.replicate k '\\' ++ '\\' :: '\\' :: tail =
            List.replicate (k + 1 + 1) '\\' ++ tail := by
          simp only [List.replicate_succ', List.append_assoc, List.cons_append, List.nil_append]
        obtain ⟨-, htail⟩ := List.cons.inj heq
        rw [hmore] at htail
        exact ih (k + 1) (htail ▸ hvalue)
      · rw [unescape_char hquote hbackslash] at heq
        obtain ⟨-, hsecond⟩ := List.cons.inj heq
        cases k with
        | zero => exact hbackslash (List.cons.inj hsecond).1.symm
        | succ k =>
            rw [List.replicate_succ, List.cons_append] at hsecond
            exact hbackslash (List.cons.inj hsecond).1.symm
  | char c tail hquote hbackslash ih =>
      rw [List.cons_append, takeString_char_iff hquote hbackslash] at h
      obtain ⟨value, -, heq⟩ := h
      rw [List.replicate_succ, List.cons_append] at heq
      exact hbackslash (List.cons.inj heq).1.symm

/-- **What comes back from between quotes.** A string is read as it stands exactly if it is
plain; then the literal ends at the closing quote. -/
theorem takeString_plain_iff {text more rest : List Char} :
    takeString (text ++ '"' :: more) = some (text, rest) ↔ IsPlain text ∧ rest = more := by
  induction text using takeString_cases with
  | nil =>
      have hnil : takeString ([] ++ '"' :: more) = some ([], more) := rfl
      rw [hnil, Option.some.injEq, Prod.mk.injEq]
      exact ⟨fun h => ⟨isPlain_nil, h.2.symm⟩, fun h => ⟨rfl, h.2.symm⟩⟩
  | quote tail =>
      refine ⟨fun h => ?_, fun h => absurd h.1 (not_isPlain_quote tail)⟩
      cases h
  | backslash =>
      refine ⟨fun h => ?_, fun h => absurd h.1 not_isPlain_backslash⟩
      have hquote : ['\\'] ++ '"' :: more = '\\' :: '"' :: more := rfl
      rw [hquote, takeString_escape_iff] at h
      obtain ⟨tail, -, heq⟩ := h
      exact absurd (List.cons.inj heq).1 (by decide)
  | escape c tail ih =>
      rw [List.cons_append, List.cons_append, takeString_escape_iff, isPlain_escape_iff]
      constructor
      · rintro ⟨value, hvalue, heq⟩
        by_cases hquote : c = '"'
        · subst hquote
          exact absurd (List.cons.inj heq).1 (by decide)
        by_cases hbackslash : c = '\\'
        · subst hbackslash
          have hgained : value = List.replicate 1 '\\' ++ tail := (List.cons.inj heq).2.symm
          rw [hgained] at hvalue
          exact absurd hvalue (takeString_ne_backslashes Nat.one_pos)
        · rw [unescape_char hquote hbackslash] at heq
          obtain rfl : tail = value := (List.cons.inj (List.cons.inj heq).2).2
          obtain ⟨hplain, hrest⟩ := ih.mp hvalue
          exact ⟨⟨hquote, hbackslash, hplain⟩, hrest⟩
      · rintro ⟨⟨hquote, hbackslash, hplain⟩, hrest⟩
        exact ⟨tail, ih.mpr ⟨hplain, hrest⟩, by rw [unescape_char hquote hbackslash]; rfl⟩
  | char c tail hquote hbackslash ih =>
      rw [List.cons_append, takeString_char_iff hquote hbackslash,
        isPlain_char_iff hquote hbackslash]
      constructor
      · rintro ⟨value, hvalue, heq⟩
        obtain rfl : tail = value := (List.cons.inj heq).2
        exact ih.mp hvalue
      · intro h
        exact ⟨tail, ih.mpr h, rfl⟩

/-! ### The printed text of a tree -/

mutual

/-- The printed text of a tree whose tails are lists. -/
def Sexp.render : Sexp Unit → List Char
  | .fixnum _ value => (decimalText value).toList
  | .symbol _ name => name.toList
  | .string _ text => '"' :: text.toList ++ ['"']
  | .nil => ['(', ')']
  | .pair _ head tail => '(' :: head.render ++ tail.renderItems

/-- The printed text of the rest of a list, with its parenthesis. -/
def Sexp.renderItems : Sexp Unit → List Char
  | .pair _ head tail => ' ' :: head.render ++ tail.renderItems
  | _ => [')']

end

mutual

/-- The tokens of the printed text. -/
def Sexp.tokens : Sexp Unit → List Token
  | .fixnum _ value => [.atom (decimalText value)]
  | .symbol _ name => [.atom name]
  | .string _ text => [.str text]
  | .nil => [.open, .close]
  | .pair _ head tail => .open :: head.tokens ++ tail.itemTokens

/-- The tokens of the items of a list, with its end. -/
def Sexp.itemTokens : Sexp Unit → List Token
  | .pair _ head tail => head.tokens ++ tail.itemTokens
  | _ => [.close]

end

/-- A symbol that the tokenizer and the parser of atoms leave a symbol. -/
structure IsName (name : String) : Prop where
  ne_nil : name.toList ≠ []
  inAtom : ∀ c ∈ name.toList, LispHost.inAtom c = true
  not_numeral : parseI64 name = none

/-- Every symbol of the tree is read as a symbol. -/
def Sexp.Readable {α : Type} : Sexp α → Prop
  | symbol _ name => IsName name
  | pair _ head tail => head.Readable ∧ tail.Readable
  | _ => True

/-- Every string of the tree is plain. -/
def Sexp.Plain {α : Type} (tree : Sexp α) : Prop := ∀ l ∈ tree.literals, IsPlain l.2.toList

/-- A pair is plain where both its parts are. -/
theorem Sexp.plain_pair {α : Type} {label : α} {head tail : Sexp α} :
    (Sexp.pair label head tail).Plain ↔ head.Plain ∧ tail.Plain := by
  simp only [Plain, literals, List.forall_mem_append]

/-- A literal is plain where its text is. -/
theorem Sexp.plain_string {α : Type} {label : α} {text : String} :
    (Sexp.string label text).Plain ↔ IsPlain text.toList := by
  simp only [Plain, literals, List.forall_mem_singleton]

/-- Labels do not change what is plain. -/
theorem Sexp.plain_erase {α : Type} {tree : Sexp α} : tree.erase.Plain ↔ tree.Plain := by
  induction tree with
  | pair label head tail ihh iht => rw [erase, plain_pair, plain_pair, ihh, iht]
  | string label text => rw [erase, plain_string, plain_string]
  | fixnum | symbol | nil => simp [Plain, erase, literals]

/-- Every stored number fits the payload. -/
theorem storedFixnum_storedFixnum (value : Word) :
    storedFixnum (storedFixnum value) = storedFixnum value := by
  rw [← BitVec.toInt_inj, toInt_storedFixnum, storedFixnum, decodeFixnum,
    BitVec.toInt_sshiftRight, Int.shiftRight_eq_div_pow, FitsFixnum]
  have hle := BitVec.le_toInt (encodeFixnum value)
  have hlt := BitVec.toInt_lt (x := encodeFixnum value)
  omega

/-- What is stored is stored as it is. -/
theorem Sexp.stored_stored {α : Type} (tree : Sexp α) : tree.stored.stored = tree.stored := by
  induction tree with
  | pair label head tail ihh iht => simp only [stored, ihh, iht]
  | fixnum label value => rw [stored, stored, storedFixnum_storedFixnum]
  | symbol | string | nil => rfl

/-- Storing keeps the pairs. -/
theorem Sexp.cells_stored {α : Type} (tree : Sexp α) : tree.stored.cells = tree.cells := by
  induction tree with
  | pair label head tail ihh iht => rw [stored, cells, cells, ihh, iht]
  | fixnum | symbol | string | nil => rfl

/-- Storing keeps a proper tree proper. -/
theorem Sexp.proper_stored {α : Type} {tree : Sexp α} (h : tree.Proper) :
    tree.stored.Proper := by
  induction tree with
  | pair label head tail ihh iht =>
      obtain ⟨hhead, htail, hlist⟩ := h
      refine ⟨ihh hhead, iht htail, ?_⟩
      cases tail with
      | nil | pair => trivial
      | fixnum | symbol | string => exact hlist
  | fixnum | symbol | string | nil => trivial

/-- Storing keeps a readable tree readable. -/
theorem Sexp.readable_stored {α : Type} {tree : Sexp α} (h : tree.Readable) :
    tree.stored.Readable := by
  induction tree with
  | pair label head tail ihh iht => exact ⟨ihh h.1, iht h.2⟩
  | symbol => exact h
  | fixnum | string | nil => trivial

/-! ### The printer writes the printed text -/

/-- What the printer writes for a word that is no pair. -/
theorem writeValue_atom (arena : Arena) (symbols : SymbolTable) (boxed : BoxedTable)
    {fuel : Nat} {word : Word} (hcons : tagOf word ≠ tagCons) (hnil : tagOf word ≠ tagNil) :
    writeValue P arena symbols boxed (fuel + 1) word = .ok (atomText P symbols boxed word) := by
  rw [writeValue, if_neg hnil, if_neg hcons]

/-- **What the printer writes** of a tree that the heap holds, as a value and as the rest of
a list behind its first element. -/
theorem write_eq_render {s : ReaderState} {d : Sexp Word} (h : Represents P s d)
    (hproper : d.Proper) {fuel : Nat} (hfuel : 2 * d.cells + 2 ≤ fuel) :
    writeValue P s.arena s.symbols s.boxed fuel d.word =
        .ok (String.ofList d.erase.stored.render) ∧
      (d.IsList → ∃ text, writeTail P s.arena s.symbols s.boxed fuel d.word false = .ok text ∧
        text.toList ++ [')'] = d.erase.stored.renderItems) := by
  have htag := h.tagOf_word
  induction d generalizing fuel with
  | fixnum label value =>
      obtain ⟨fuel, rfl⟩ : ∃ n, fuel = n + 1 := ⟨fuel - 1, by omega⟩
      change tagOf label = tagFixnum at htag
      refine ⟨?_, fun hlist => hlist.elim⟩
      have htext : atomText P s.symbols s.boxed label = decimalText (storedFixnum value) := by
        rw [atomText, if_pos htag, show label = encodeFixnum value from h]
        rfl
      rw [Sexp.word, writeValue_atom _ _ _ (by simp [htag, tagFixnum, tagCons])
        (by simp [htag, tagFixnum, tagNil]), htext, Sexp.erase, Sexp.stored, Sexp.render,
        String.ofList_toList]
  | symbol label name =>
      obtain ⟨fuel, rfl⟩ : ∃ n, fuel = n + 1 := ⟨fuel - 1, by omega⟩
      obtain ⟨htag, hname⟩ := h
      refine ⟨?_, fun hlist => hlist.elim⟩
      have htext : atomText P s.symbols s.boxed label = name := by
        simp [atomText, htag, hname, tagSymbol, tagFixnum]
      rw [Sexp.word, writeValue_atom _ _ _ (by simp [htag, tagSymbol, tagCons])
        (by simp [htag, tagSymbol, tagNil]), htext, Sexp.erase, Sexp.stored, Sexp.render,
        String.ofList_toList]
  | string label text =>
      obtain ⟨fuel, rfl⟩ : ∃ n, fuel = n + 1 := ⟨fuel - 1, by omega⟩
      change tagOf label = tagBoxed at htag
      have hentry : s.boxed.entry P label = some ⟨.str text, .transient⟩ := h
      refine ⟨?_, fun hlist => hlist.elim⟩
      have htext : atomText P s.symbols s.boxed label =
          String.ofList ('"' :: text.toList ++ ['"']) := by
        simp [atomText, htag, hentry, tagSymbol, tagFixnum, tagBoxed, ← String.toList_inj]
      rw [Sexp.word, writeValue_atom _ _ _ (by simp [htag, tagBoxed, tagCons])
        (by simp [htag, tagBoxed, tagNil]), htext, Sexp.erase, Sexp.stored, Sexp.render]
  | nil =>
      obtain ⟨fuel, rfl⟩ : ∃ n, fuel = n + 1 := ⟨fuel - 1, by omega⟩
      rw [Sexp.word, writeValue, writeTail, if_pos tagOf_wordNil, if_pos tagOf_wordNil]
      exact ⟨rfl, fun _ => ⟨"", rfl, rfl⟩⟩
  | pair label head tail ihh iht =>
      obtain ⟨hcar, hcdr⟩ := h.accessors
      obtain ⟨-, hhead, htail⟩ := h
      obtain ⟨hheadProper, htailProper, hlist⟩ := hproper
      have hlabel : tagOf label = tagCons := htag
      have hnil : ¬ tagOf label = tagNil := by simp [hlabel, tagCons, tagNil]
      rw [Sexp.cells] at hfuel
      have hwalk : ∀ fuel, 2 * (head.cells + tail.cells) + 3 ≤ fuel → ∀ first : Bool, ∃ text,
          writeTail P s.arena s.symbols s.boxed fuel label first = .ok text ∧
            text.toList ++ [')'] = (if first then [] else [' ']) ++
              (head.erase.stored.render ++ tail.erase.stored.renderItems) := by
        intro fuel hfuel first
        obtain ⟨fuel, rfl⟩ : ∃ n, fuel = n + 1 := ⟨fuel - 1, by omega⟩
        have hheadFuel : 2 * head.cells + 2 ≤ fuel := by omega
        have htailFuel : 2 * tail.cells + 2 ≤ fuel := by omega
        obtain ⟨hheadText, -⟩ := ihh hhead hheadProper hheadFuel hhead.tagOf_word
        obtain ⟨-, hrest⟩ := iht htail htailProper htailFuel htail.tagOf_word
        obtain ⟨restText, hrestText, heq⟩ := hrest hlist
        rw [writeTail, if_neg hnil, if_pos hlabel, hcar, hcdr]
        simp only [Walk.load, hheadText, Walk.andThen, hrestText]
        refine ⟨_, rfl, ?_⟩
        rw [← heq]
        cases first <;> simp
      constructor
      · obtain ⟨fuel, rfl⟩ : ∃ n, fuel = n + 1 := ⟨fuel - 1, by omega⟩
        obtain ⟨text, htext, heq⟩ := hwalk fuel (by omega) true
        rw [writeValue, Sexp.word, if_neg hnil, if_pos hlabel, htext]
        simp only [Walk.andThen, Outcome.ok.injEq, ← String.toList_inj]
        rw [Sexp.erase, Sexp.stored, Sexp.render, String.toList_ofList]
        simp only [if_true, List.nil_append] at heq
        simp [← heq]
      · intro _
        obtain ⟨text, htext, heq⟩ := hwalk fuel (by omega) false
        exact ⟨text, htext, heq⟩

/-! ### Reading the printed text -/

/-- The decimal text of a number is one atom. -/
theorem lex_decimalText (value : Word) :
    lex (decimalText value).toList = .ok [.atom (decimalText value)] := by
  have hall : ∀ c ∈ (decimalText value).toList, inAtom c = true := by
    intro c hc
    rcases mem_decimalText hc with rfl | hdigit
    · decide
    have hrange : 48 ≤ c.toNat ∧ c.toNat ≤ 57 := by
      simpa [Char.isDigit, UInt32.le_iff_toNat_le] using hdigit
    have hspace : isWhitespace c = false := by
      simp only [isWhitespace, Bool.or_eq_false_iff, Bool.and_eq_false_iff, beq_eq_false_iff_ne,
        decide_eq_false_iff_not]
      omega
    rw [inAtom_iff, hspace]
    refine ⟨Bool.false_ne_true, ?_, ?_, ?_⟩ <;>
    · rintro rfl
      exact absurd hdigit (by decide)
  rw [lex_of_inAtom (decimalText_ne_nil value) hall, String.ofList_toList]

/-- What is printed behind an item separates it. -/
theorem separated_renderItems (t : Sexp Unit) (more : List Char) :
    Separated (t.renderItems ++ more) := by
  have hblank : inAtom ' ' = false := by decide
  have hclose : inAtom ')' = false := by decide
  intro c hc
  cases t with
  | pair label head tail => exact Option.some.inj hc ▸ hblank
  | fixnum | symbol | string | nil => exact Option.some.inj hc ▸ hclose

/-- **The tokens of the printed text**, where every symbol is read as one and every string is
plain. -/
theorem lex_render {t : Sexp Unit} (hreadable : t.Readable) (hplain : t.Plain) :
    lex t.render = .ok t.tokens ∧ lex t.renderItems = .ok t.itemTokens := by
  have hclose : lex [')'] = .ok [.close] := rfl
  induction t with
  | fixnum label value => exact ⟨lex_decimalText value, hclose⟩
  | symbol label name =>
      refine ⟨?_, hclose⟩
      rw [Sexp.render, lex_of_inAtom hreadable.ne_nil hreadable.inAtom, String.ofList_toList,
        Sexp.tokens]
  | string label text =>
      refine ⟨?_, hclose⟩
      have hliteral : takeString (text.toList ++ ['"']) = some (text.toList, []) :=
        takeString_plain_iff.mpr ⟨Sexp.plain_string.mp hplain, rfl⟩
      rw [Sexp.render, List.cons_append, lex_string, hliteral, Option.elim, lex_nil,
        String.ofList_toList]
      rfl
  | nil => exact ⟨rfl, hclose⟩
  | pair label head tail ihh iht =>
      obtain ⟨hhead, htail⟩ := hreadable
      obtain ⟨hheadPlain, htailPlain⟩ := Sexp.plain_pair.mp hplain
      have hitems : lex (head.render ++ tail.renderItems) =
          .ok (head.tokens ++ tail.itemTokens) := by
        have hseparated : Separated tail.renderItems := by
          simpa using separated_renderItems tail []
        rw [lex_append (ihh hhead hheadPlain).1 hseparated, (iht htail htailPlain).2]
        rfl
      constructor
      · rw [Sexp.render, List.cons_append, lex_open, hitems]
        rfl
      · rw [Sexp.renderItems, List.cons_append, lex_whitespace (by decide), hitems]
        rfl

/-- An atom is read as its own tree. -/
theorem parses_atom {atom : String} {tree : Sexp Unit} (h : atomSexp atom = tree)
    (rest : List Token) : Parses .form (.atom atom :: rest) tree rest :=
  h ▸ .atom atom rest

/-- **The tokens of the printed text derive the tree.** -/
theorem parses_tokens {t : Sexp Unit} (hproper : t.Proper) (hreadable : t.Readable)
    (rest : List Token) :
    Parses .form (t.tokens ++ rest) t rest ∧
      (t.IsList → Parses .items (t.itemTokens ++ rest) t rest) := by
  induction t generalizing rest with
  | fixnum label value =>
      refine ⟨?_, fun hlist => hlist.elim⟩
      have hatom : atomSexp (decimalText value) = .fixnum () value := by
        have hne : decimalText value ≠ "()" := by
          intro h
          have hparse := parseI64_decimalText value
          rw [h] at hparse
          cases hparse
        rw [atomSexp, if_neg hne, parseI64_decimalText]
      exact parses_atom hatom rest
  | symbol label name =>
      refine ⟨?_, fun hlist => hlist.elim⟩
      have hatom : atomSexp name = .symbol () name := by
        have hne : name ≠ "()" := by
          rintro rfl
          exact absurd (hreadable.inAtom '(' (by decide)) (by decide)
        rw [atomSexp, if_neg hne, hreadable.not_numeral]
      exact parses_atom hatom rest
  | string label text => exact ⟨.str text rest, fun hlist => hlist.elim⟩
  | nil => exact ⟨.list (.close rest), fun _ => .close rest⟩
  | pair label head tail ihh iht =>
      obtain ⟨hheadProper, htailProper, hlist⟩ := hproper
      obtain ⟨hhead, htail⟩ := hreadable
      have hitems : Parses .items (head.tokens ++ tail.itemTokens ++ rest)
          (.pair label head tail) rest := by
        rw [List.append_assoc]
        exact .item (ihh hheadProper hhead _).1 ((iht htailProper htail rest).2 hlist)
      exact ⟨.list hitems, fun _ => hitems⟩

/-- What follows the atom of a text whose first form is that atom. -/
theorem lex_of_parses_atom {chars more : List Char} {atom : String} {tokens rest : List Token}
    {tree : Sexp Unit} (hchars : lex chars = .ok [.atom atom]) (hmore : Separated more)
    (hlex : lex (chars ++ more) = .ok tokens) (hparses : Parses .form tokens tree rest) :
    lex more = .ok rest := by
  rw [lex_append hchars hmore] at hlex
  obtain ⟨tokens', hrest, rfl⟩ := exists_of_map_cons hlex
  cases hparses
  exact hrest

/-- **Only plain strings come back.** If the printed text, with more behind it, is tokenized
and its first form is stored as the tree it was printed from, then every string of the tree
is plain and the form ends where its text ends. -/
theorem plain_of_lex_render {t tree : Sexp Unit} (hproper : t.Proper) (hreadable : t.Readable)
    {more : List Char} {tokens rest : List Token} :
    (Separated more → lex (t.render ++ more) = .ok tokens → Parses .form tokens tree rest →
        tree.stored = t → t.Plain ∧ lex more = .ok rest) ∧
      (t.IsList → lex (t.renderItems ++ more) = .ok tokens → Parses .items tokens tree rest →
        tree.stored = t → t.Plain ∧ lex more = .ok rest) := by
  induction t generalizing tree more tokens rest with
  | fixnum label value =>
      refine ⟨fun hmore hlex hparses _ => ?_, fun hlist => hlist.elim⟩
      refine ⟨by simp [Sexp.Plain, Sexp.literals], ?_⟩
      exact lex_of_parses_atom (lex_decimalText value) hmore hlex hparses
  | symbol label name =>
      refine ⟨fun hmore hlex hparses _ => ?_, fun hlist => hlist.elim⟩
      refine ⟨by simp [Sexp.Plain, Sexp.literals], ?_⟩
      exact lex_of_parses_atom (lex_of_inAtom hreadable.ne_nil hreadable.inAtom) hmore hlex hparses
  | string label text =>
      refine ⟨fun hmore hlex hparses hstored => ?_, fun hlist => hlist.elim⟩
      rw [Sexp.render, List.append_assoc, List.cons_append, lex_string] at hlex
      cases hliteral : takeString (text.toList ++ (['"'] ++ more)) with
      | none =>
          rw [hliteral] at hlex
          cases hlex
      | some literal =>
          rw [hliteral] at hlex
          obtain ⟨tokens', hrest, rfl⟩ := exists_of_map_cons hlex
          cases hparses
          obtain ⟨value, rest'⟩ := literal
          obtain ⟨-, hvalue⟩ := Sexp.string.inj hstored
          obtain rfl : value = text.toList := by rw [← hvalue, String.toList_ofList]
          obtain ⟨hplain, rfl⟩ := takeString_plain_iff.mp hliteral
          exact ⟨Sexp.plain_string.mpr hplain, hrest⟩
  | nil =>
      have hnil : (Sexp.nil : Sexp Unit).Plain := by simp [Sexp.Plain, Sexp.literals]
      refine ⟨fun _ hlex hparses _ => ⟨hnil, ?_⟩, fun _ hlex hparses _ => ⟨hnil, ?_⟩⟩
      · rw [Sexp.render, List.cons_append, List.cons_append, List.nil_append, lex_open] at hlex
        obtain ⟨tokens', hclose, rfl⟩ := exists_of_map_cons hlex
        rw [lex_close] at hclose
        obtain ⟨tokens'', hrest, rfl⟩ := exists_of_map_cons hclose
        obtain ⟨-, rfl⟩ := hparses.unique (.list (.close tokens''))
        exact hrest
      · rw [Sexp.renderItems, List.cons_append, List.nil_append, lex_close] at hlex
        · obtain ⟨tokens', hrest, rfl⟩ := exists_of_map_cons hlex
          obtain ⟨-, rfl⟩ := hparses.unique (.close tokens')
          exact hrest
        · rintro _ _ _ ⟨⟩
  | pair label head tail ihh iht =>
      obtain ⟨hheadProper, htailProper, hlist⟩ := hproper
      obtain ⟨hhead, htail⟩ := hreadable
      have hitems : ∀ {tokens : List Token},
          lex (head.render ++ (tail.renderItems ++ more)) = .ok tokens →
            Parses .items tokens tree rest → tree.stored = .pair label head tail →
              (Sexp.pair label head tail).Plain ∧ lex more = .ok rest := by
        intro tokens hlex hparses hstored
        cases hparses with
        | close => cases hstored
        | item hfirst hothers =>
            obtain ⟨-, hheadStored, htailStored⟩ := Sexp.pair.inj hstored
            obtain ⟨hheadPlain, hmid⟩ := (ihh hheadProper hhead).1
              (separated_renderItems tail more) hlex hfirst hheadStored
            obtain ⟨htailPlain, hrest⟩ := (iht htailProper htail).2 hlist hmid hothers htailStored
            exact ⟨Sexp.plain_pair.mpr ⟨hheadPlain, htailPlain⟩, hrest⟩
      refine ⟨fun _ hlex hparses hstored => ?_, fun _ hlex hparses hstored => ?_⟩
      · rw [Sexp.render, List.cons_append, List.cons_append, List.append_assoc, lex_open] at hlex
        obtain ⟨tokens', hrest, rfl⟩ := exists_of_map_cons hlex
        cases hparses with
        | list hparsed => exact hitems hrest hparsed hstored
      · rw [Sexp.renderItems, List.cons_append, List.cons_append, List.append_assoc,
          lex_whitespace (by decide)] at hlex
        exact hitems hlex hparses hstored

/-! ### What the reader accepted -/

/-- The atoms of a text have at least one character, and none that ends an atom. -/
theorem inAtom_of_lex {chars : List Char} {tokens : List Token} (h : lex chars = .ok tokens) :
    ∀ text, Token.atom text ∈ tokens →
      text.toList ≠ [] ∧ ∀ c ∈ text.toList, inAtom c = true := by
  have hcons : ∀ {token : Token} {rest : List Token}, (∀ text, token ≠ .atom text) →
      (∀ text, Token.atom text ∈ rest →
        text.toList ≠ [] ∧ ∀ c ∈ text.toList, inAtom c = true) →
      ∀ text, Token.atom text ∈ token :: rest →
        text.toList ≠ [] ∧ ∀ c ∈ text.toList, inAtom c = true := by
    intro token rest hne hrest text hmem
    rcases List.mem_cons.mp hmem with heq | hmem
    · exact absurd heq.symm (hne text)
    · exact hrest text hmem
  replace h := lexes_of_lex h
  induction h with
  | nil =>
      intro text hmem
      cases hmem
  | whitespace _ _ ih => exact ih
  | «open» _ ih => exact hcons (by rintro _ ⟨⟩) ih
  | close _ ih => exact hcons (by rintro _ ⟨⟩) ih
  | string _ _ ih => exact hcons (by rintro _ ⟨⟩) ih
  | atom hatom _ ih =>
      intro text hmem
      rcases List.mem_cons.mp hmem with heq | hmem
      · obtain rfl := Token.atom.inj heq
        rw [String.toList_ofList]
        refine ⟨?_, fun c' hc' => List.mem_takeWhile_imp hc'⟩
        rw [List.takeWhile_cons, if_pos hatom]
        exact List.cons_ne_nil _ _
      · exact ih text hmem

/-- A tree of such atoms is readable. -/
theorem readable_of_parses {n : Nonterminal} {tokens rest : List Token} {tree : Sexp Unit}
    (h : Parses n tokens tree rest)
    (hatoms : ∀ text, Token.atom text ∈ tokens →
      text.toList ≠ [] ∧ ∀ c ∈ text.toList, inAtom c = true) : tree.Readable := by
  induction h with
  | atom text rest =>
      obtain ⟨hne, hall⟩ := hatoms text List.mem_cons_self
      rw [atomSexp]
      by_cases hnil : text = "()"
      · rw [if_pos hnil]
        trivial
      · rw [if_neg hnil]
        cases hparse : parseI64 text with
        | some value => trivial
        | none => exact ⟨hne, hall, hparse⟩
  | str | close => trivial
  | list _ ih => exact ih fun text hmem => hatoms text (List.mem_cons_of_mem _ hmem)
  | item hhead _ ihh iht =>
      exact ⟨ihh hatoms, iht fun text hmem => hatoms text (hhead.suffix.subset hmem)⟩

/-- The same tables with an empty arena. -/
def ReaderState.resetArena (s : ReaderState) : ReaderState := { s with arena := s.arena.reset }

/-- The reading of a text ends the process where the reader does. -/
theorem readOne_of_reading_abort {source : List Char} {s : ReaderState} {r : Exit}
    (h : reading P source s = .abort r) : (readOne P (String.ofList source) s).1 = .abort r := by
  rw [reading] at h
  rcases hread : readOne P (String.ofList source) s with ⟨o, s'⟩
  rw [hread] at h
  cases o with
  | ok | err | panic | timeout => cases h
  | abort r' =>
      cases h
      rfl

/-- **Reading the printed text of a stored tree.** It is read as that tree exactly if every
string is plain, unless the tables cannot grow. -/
theorem reading_render_iff {t : Sexp Unit} (hproper : t.Proper) (hreadable : t.Readable)
    (hstored : t.stored = t) (hfits : t.cells ≤ arenaCells) {s : ReaderState}
    (hreset : s.arena.next = 0) (hroom : reading P t.render s ≠ .abort .allocation) :
    reading P t.render s = .ok (some t) ↔ t.Plain := by
  have htokenize : tokenize (String.ofList t.render) = lex t.render := by
    rw [tokenize_eq_lex, String.toList_ofList]
  constructor
  · intro h
    rw [reading] at h
    rcases hread : readOne P (String.ofList t.render) s with ⟨o, s'⟩
    rw [hread] at h
    cases o with
    | err | panic | abort | timeout => cases h
    | ok word =>
        obtain ⟨tokens, tree, htokens, hparses, -, d, hd, herase, -⟩ :=
          readBack_of_readOne hreset hread
        simp only [hd, Option.map_some, Outcome.ok.injEq, Option.some.injEq] at h
        have hsame : tree.stored = t := herase.symm.trans h
        rw [htokenize, ← List.append_nil t.render] at htokens
        have hseparated : Separated [] := by
          rintro _ ⟨⟩
        exact ((plain_of_lex_render hproper hreadable).1 hseparated htokens hparses hsame).1
  · intro hplain
    have hacceptable : Acceptable (String.ofList t.render) := by
      refine ⟨t.tokens, t,
        tokenize_eq_ok_iff.mp (htokenize.trans (lex_render hreadable hplain).1), ?_, hfits⟩
      simpa using (parses_tokens hproper hreadable []).1
    rw [reading] at hroom ⊢
    obtain ⟨word, s', hread⟩ | habort := readOne_of_acceptable (P := P) hreset hacceptable
    · obtain ⟨tokens, tree, htokens, hparses, -, d, hd, herase, -⟩ :=
        readBack_of_readOne hreset hread
      rw [htokenize, (lex_render hreadable hplain).1] at htokens
      obtain rfl := Except.ok.inj htokens
      have htokens : Parses .form t.tokens t [] := by
        simpa using (parses_tokens hproper hreadable []).1
      obtain ⟨rfl, -⟩ := hparses.unique htokens
      simp only [hread, hd, Option.map_some, herase, hstored]
    · rcases hread : readOne P (String.ofList t.render) s with ⟨o, s'⟩
      rw [hread] at habort hroom
      obtain rfl : o = .abort .allocation := habort
      exact absurd rfl hroom

/-- **Printing what was read.** The value of an accepted text prints, and the printed text is
read, on the same tables and with an empty arena, as a value of the same structure exactly if
every string of the value is plain. The tables can only be in the way when they are full. -/
theorem printed_reading_iff (P : Platform) {source : String} {s s' : ReaderState} {word : Word}
    (h : readOne P source s = (.ok word, s')) :
    ∃ d text, readTree P s' word = some d ∧
      valueToString P s'.arena s'.symbols s'.boxed word = .ok text ∧
      (s'.Room text.toList.length →
        reading P text.toList s'.resetArena ≠ .abort .allocation) ∧
      (reading P text.toList s'.resetArena ≠ .abort .allocation →
        (reading P text.toList s'.resetArena = .ok (some d.erase) ↔
          ∀ l ∈ d.literals, IsPlain l.2.toList)) := by
  obtain ⟨tokens, d, htokens, hparses, rfl, hheld⟩ := held_of_readOne h
  have hcells : d.erase.stored.cells ≤ arenaCells := by
    rw [Sexp.cells_stored, Sexp.cells_erase]
    exact hheld.fits
  have hreadable : d.erase.stored.Readable := by
    refine Sexp.readable_stored (readable_of_parses hparses ?_)
    exact inAtom_of_lex htokens
  have hproper : d.erase.stored.Proper := Sexp.proper_stored (d.proper_erase.mpr hheld.proper)
  have hfuel : 2 * d.cells + 2 ≤ printFuel := by
    have := hheld.fits
    rw [printFuel]
    omega
  refine ⟨d.stored, String.ofList d.erase.stored.render,
    readTree_of_represents hheld.represents hheld.fits,
    (write_eq_render hheld.represents hheld.proper hfuel).1, fun hroom habort => ?_,
    fun habort => ?_⟩
  · refine readOne_ne_allocation P (s := s'.resetArena) rfl ?_ (readOne_of_reading_abort habort)
    rwa [String.ofList_toList]
  · rw [String.toList_ofList] at habort ⊢
    rw [Sexp.erase_stored]
    have hplain : d.erase.stored.Plain ↔ d.stored.Plain := by
      rw [← Sexp.erase_stored, Sexp.plain_erase]
    exact (reading_render_iff hproper hreadable d.erase.stored_stored hcells rfl habort).trans
      hplain

/-- A string without quotes and backslashes comes back. -/
theorem printed_reading_string :
    ∃ word s', readOne .standard "\"a\"" .new = (.ok word, s') ∧
      ∃ d text, readTree .standard s' word = some d ∧
        valueToString .standard s'.arena s'.symbols s'.boxed word = .ok text ∧
        reading .standard text.toList s'.resetArena = .ok (some d.erase) := by
  refine ⟨_, _, rfl, ?_⟩
  obtain ⟨d, text, hd, htext, hroom, hiff⟩ :=
    @printed_reading_iff .standard "\"a\"" .new _ _ rfl
  refine ⟨d, text, hd, htext, (hiff ?_).mpr ?_⟩
  · obtain rfl := Outcome.ok.inj htext
    exact hroom ⟨by decide, by decide⟩
  · obtain rfl := Option.some.inj hd
    change ∀ l ∈ [(_, "a")], IsPlain l.2.toList
    rw [List.forall_mem_singleton]
    exact (isPlain_char_iff (by decide) (by decide)).mpr isPlain_nil

/-- A string with a quote in it is printed as a text that is not accepted. -/
theorem printed_reading_quote :
    ∃ word s' text, readOne .standard "\"a\\\"b\"" .new = (.ok word, s') ∧
      valueToString .standard s'.arena s'.symbols s'.boxed word = .ok text ∧
      reading .standard text.toList s'.resetArena = .err .unterminatedString :=
  ⟨_, _, _, rfl, rfl, rfl⟩

end LispHost
