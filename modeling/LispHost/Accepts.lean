import LispHost.Reference
import LispHost.SafeEval
import LispHost.SourceText

/-!
# Exactly What the Reader Accepts

The reader returns a word for exactly the texts of one form with at most as many list
elements, over all levels, as the arena has cells. What it has built is read back here from
the word alone, through the arena and the tables. It is the form of the text: fixnums hold
what their encoding keeps of the literal, symbols their names, and every string literal is a
new entry of the table.

## Main definitions

* `Sexp.stored`: a tree with its numbers as their encoding keeps them.
* `readBack`, `readTree`: the tree behind a word.

## Main results

* `readTree_of_represents`: what the heap holds is what is read back.
* `readOne_accepts`: the texts that are accepted, what they become, and the texts that are
  rejected for their size.
-/

namespace LispHost

open Effects

/-- What the encoding of a fixnum keeps of a number. -/
def storedFixnum (value : Word) : Word := decodeFixnum (encodeFixnum value)

/-- The tree as the words of the runtime hold it. -/
def Sexp.stored {α : Type} : Sexp α → Sexp α
  | fixnum label value => fixnum label (storedFixnum value)
  | symbol label name => symbol label name
  | string label text => string label text
  | nil => nil
  | pair label head tail => pair label head.stored tail.stored

/-- Storing looks at no label. -/
theorem Sexp.erase_stored {α : Type} (tree : Sexp α) : tree.stored.erase = tree.erase.stored := by
  induction tree with
  | pair label head tail ihh iht => simp only [stored, erase, ihh, iht]
  | fixnum | symbol | string | nil => rfl

/-- Storing changes numbers only. -/
theorem Sexp.literals_stored {α : Type} (tree : Sexp α) :
    tree.stored.literals = tree.literals := by
  induction tree with
  | pair label head tail ihh iht => simp only [stored, literals, ihh, iht]
  | fixnum | symbol | string | nil => rfl

variable (P : Platform)

/-- The tree behind a word, labelled with the words of its nodes. Only what the reader
builds is read back. -/
def readBack (s : ReaderState) : Nat → Word → Option (Sexp Word)
  | 0, _ => none
  | fuel + 1, word =>
      if word = wordNil then some .nil
      else if tagOf word = tagFixnum then some (.fixnum word (decodeFixnum word))
      else if tagOf word = tagSymbol then (s.symbols.nameOf word).map (.symbol word)
      else if tagOf word = tagBoxed then (s.boxed.getString P word).map (.string word)
      else do
        let car ← (wsmCar P s.arena word).toOption
        let cdr ← (wsmCdr P s.arena word).toOption
        return .pair word (← readBack s fuel car) (← readBack s fuel cdr)

/-- The tree behind a word of an arena. -/
def readTree (s : ReaderState) (word : Word) : Option (Sexp Word) :=
  readBack P s (arenaCells + 1) word

variable {P} {s : ReaderState}

/-- A word with another tag is not the empty list. -/
theorem word_ne_wordNil {word tag : Word} (h : tagOf word = tag) (hne : tag ≠ tagNil) :
    word ≠ wordNil := by
  rintro rfl
  exact hne (h.symm.trans tagOf_wordNil)

/-- **Reading back a held tree.** No path in it is longer than its number of pairs. -/
theorem readBack_of_represents {d : Sexp Word} (h : Represents P s d) {fuel : Nat}
    (hfuel : d.cells + 1 ≤ fuel) : readBack P s fuel d.word = some d.stored := by
  obtain ⟨fuel, rfl⟩ : ∃ n, fuel = n + 1 := ⟨fuel - 1, by omega⟩
  have htag := h.tagOf_word
  induction d generalizing fuel with
  | nil => simp only [readBack, Sexp.word, if_true, Sexp.stored]
  | fixnum label value =>
      have hne : label ≠ wordNil := word_ne_wordNil htag (by simp [Sexp.tag, tagFixnum, tagNil])
      change tagOf label = tagFixnum at htag
      simp only [readBack, Sexp.word, hne, htag, if_true, if_false, Sexp.stored, storedFixnum]
      rw [show label = encodeFixnum value from h]
  | symbol label name =>
      have hne : label ≠ wordNil := word_ne_wordNil htag (by simp [Sexp.tag, tagSymbol, tagNil])
      simp [readBack, Sexp.word, hne, h.1, h.2, Sexp.stored, tagSymbol, tagFixnum]
  | string label text =>
      have hne : label ≠ wordNil := word_ne_wordNil htag (by simp [Sexp.tag, tagBoxed, tagNil])
      have hget : s.boxed.getString P label = some text := by
        rw [BoxedTable.getString, show s.boxed.entry P label = _ from h]
      change tagOf label = tagBoxed at htag
      simp [readBack, Sexp.word, hne, htag, hget, Sexp.stored, tagSymbol, tagFixnum, tagBoxed]
  | pair label head tail ihh iht =>
      have hne : label ≠ wordNil := word_ne_wordNil htag (by simp [Sexp.tag, tagCons, tagNil])
      obtain ⟨hcar, hcdr⟩ := h.accessors
      obtain ⟨-, hhead, htail⟩ := h
      rw [Sexp.cells] at hfuel
      obtain ⟨fuel, rfl⟩ : ∃ n, fuel = n + 1 := ⟨fuel - 1, by omega⟩
      have hheadBack := ihh hhead fuel (by omega) hhead.tagOf_word
      have htailBack := iht htail fuel (by omega) htail.tagOf_word
      change tagOf label = tagCons at htag
      change readBack P s (fuel + 1 + 1) label = _
      rw [readBack]
      simp [hne, htag, hcar, hcdr, hheadBack, htailBack, Sexp.stored, Except.toOption,
        tagSymbol, tagFixnum, tagBoxed, tagCons]

/-- A tree in the heap is read back, if it has no more cells than the arena. -/
theorem readTree_of_represents {d : Sexp Word} (h : Represents P s d)
    (hfits : d.cells ≤ arenaCells) : readTree P s d.word = some d.stored :=
  readBack_of_represents h (by omega)

/-! ### The grammar is unambiguous -/

/-- Tokens derive at most one tree. -/
theorem Parses.unique {n : Nonterminal} {tokens rest rest' : List Token}
    {tree tree' : Sexp Unit} (h : Parses n tokens tree rest) (h' : Parses n tokens tree' rest') :
    tree = tree' ∧ rest = rest' := by
  induction h generalizing tree' rest' with
  | atom | str =>
      cases h'
      exact ⟨rfl, rfl⟩
  | close =>
      cases h' with
      | close => exact ⟨rfl, rfl⟩
      | item hhead _ => exact absurd rfl hhead.form_ne_close
  | list _ ih =>
      cases h' with
      | list hitems => exact ih hitems
  | item hhead htail ihh iht =>
      cases h' with
      | close => exact absurd rfl hhead.form_ne_close
      | item hhead' htail' =>
          obtain ⟨rfl, rfl⟩ := ihh hhead'
          obtain ⟨rfl, rfl⟩ := iht htail'
          exact ⟨rfl, rfl⟩

/-! ### Whole texts -/

/-- The outcome of the reader on a complete first form: it is too large; or it is built, and
what follows it decides; or the tables cannot grow. -/
theorem readOne_of_parses {source : String} {tokens rest : List Token} {tree : Sexp Unit}
    (htokens : tokenize source = .ok tokens) (h : Parses .form tokens tree rest)
    (hreset : s.arena.next = 0) :
    (arenaCells < tree.cells ∧ readOne P source s =
        (.err (.arenaCapacityExceeded tree.cells arenaCells), s)) ∨
      tree.cells ≤ arenaCells ∧
        ((∃ d s', d.erase = tree ∧ Represents P s' d ∧ s'.arena.next = tree.cells ∧
            AddsLiterals P s.boxed s'.boxed d.literals ∧
            readOne P source s =
              (if rest = [] then .ok d.word
                else .err (.trailingInput (" ".intercalate (rest.map (Token.echo P)))), s')) ∨
          ∃ s', ¬ s.Room tokens.length ∧ readOne P source s = (.abort .allocation, s')) := by
  rw [readOne, htokens]
  simp only
  obtain ⟨hcells, heq⟩ | ⟨hcells, result, hresult, heq⟩ := readTokens_of_parses (P := P) h s
  · exact .inl ⟨hcells, heq⟩
  · refine .inr ⟨hcells, ?_⟩
    cases hresult with
    | @ok d s' herase hrep hgrows hnext hliterals =>
        refine .inl ⟨d, s', herase, hrep, by omega, hliterals, ?_⟩
        rw [heq]
        by_cases hrest : rest = []
        · simp only [hrest, if_true, id_eq]
        · simp only [hrest, if_false]
    | outOfMemory hfull => omega
    | @allocation s' hroom =>
        refine .inr ⟨s', fun h => hroom ⟨?_, ?_⟩, heq⟩
        · have := h.1
          omega
        · have := h.2
          omega

/-- An outcome that neither accepts a text nor rejects it for its size. -/
def Outcome.Declines {α : Type} (outcome : Outcome Exit ReadError α) : Prop :=
  (∀ word, outcome ≠ .ok word) ∧
    ∀ required capacity, outcome ≠ .err (.arenaCapacityExceeded required capacity)

/-- On any other text the reader reports an error that is not about the size, or the process
ends. -/
theorem readOne_of_not_parses {source : String}
    (h : ∀ tokens tree rest, tokenize source = .ok tokens → ¬ Parses .form tokens tree rest)
    (s : ReaderState) : Outcome.Declines (readOne P source s).1 := by
  rw [readOne]
  cases htokens : tokenize source with
  | error e =>
      obtain rfl := lex_eq_error htokens
      exact ⟨by rintro _ ⟨⟩, by rintro _ _ ⟨⟩⟩
  | ok tokens =>
      simp only
      rcases (parses_or_unclosed tokens).1 with ⟨tree, rest, hparses⟩ | ⟨k, hunclosed⟩ | hclose
      · exact absurd hparses (h tokens tree rest htokens)
      · obtain ⟨result, hresult, heq⟩ := readTokens_of_unclosed (P := P) hunclosed s
        rw [heq]
        cases hresult with
        | eof | outOfMemory | allocation => exact ⟨by rintro _ ⟨⟩, by rintro _ _ ⟨⟩⟩
      · rw [readTokens_of_close hclose]
        exact ⟨by rintro _ ⟨⟩, by rintro _ _ ⟨⟩⟩

/-- While the tables have room, they can grow. -/
theorem readOne_ne_allocation (P : Platform) {source : String} (hreset : s.arena.next = 0)
    (hroom : s.Room source.toList.length) : (readOne P source s).1 ≠ .abort .allocation := by
  intro h
  have hmono : ∀ tokens, tokenize source = .ok tokens → s.Room tokens.length := by
    intro tokens htokens
    have hlength : tokens.length ≤ source.toList.length := length_le_of_tokenizeLoop htokens
    exact hroom.mono hlength
  cases htokens : tokenize source with
  | error e =>
      rw [readOne, htokens] at h
      cases h
  | ok tokens =>
      rcases (parses_or_unclosed tokens).1 with ⟨tree, rest, hparses⟩ | ⟨k, hunclosed⟩ | hclose
      · obtain ⟨-, heq⟩ | ⟨-, ⟨d, s', -, -, -, -, heq⟩ | ⟨s', hfull, -⟩⟩ :=
          readOne_of_parses (P := P) htokens hparses hreset
        · rw [heq] at h
          cases h
        · rw [heq] at h
          by_cases hrest : rest = []
          · rw [if_pos hrest] at h
            cases h
          · rw [if_neg hrest] at h
            cases h
        · exact hfull (hmono tokens htokens)
      · obtain ⟨result, hresult, heq⟩ := readTokens_of_unclosed (P := P) hunclosed s
        rw [readOne, htokens] at h
        simp only [heq] at h
        cases hresult with
        | eof | outOfMemory => cases h
        | allocation hfull => exact hfull (hmono tokens htokens)
      · rw [readOne, htokens] at h
        simp only [readTokens_of_close hclose] at h
        cases h

/-- The texts of one form that fits the arena. -/
def Acceptable (source : String) : Prop :=
  ∃ tokens tree, Spelling source.toList tokens ∧ Parses .form tokens tree [] ∧
    tree.cells ≤ arenaCells

/-- A text that is accepted is one form that fits, and what it built is read back. -/
theorem readBack_of_readOne {source : String} {s' : ReaderState} {word : Word}
    (hreset : s.arena.next = 0) (h : readOne P source s = (.ok word, s')) :
    ∃ tokens tree, tokenize source = .ok tokens ∧ Parses .form tokens tree [] ∧
      tree.cells ≤ arenaCells ∧ ∃ d, readTree P s' word = some d ∧ d.erase = tree.stored ∧
        AddsLiterals P s.boxed s'.boxed d.literals ∧ s'.arena.next = tree.cells := by
  by_cases hform : ∃ tokens tree rest, tokenize source = .ok tokens ∧
      Parses .form tokens tree rest
  · obtain ⟨tokens, tree, rest, htokens, hparses⟩ := hform
    obtain ⟨-, heq⟩ | ⟨hfits, ⟨d, s₁, herase, hrep, hnext, hliterals, heq⟩ | ⟨s₁, -, heq⟩⟩ :=
      readOne_of_parses (P := P) htokens hparses hreset
    · rw [heq] at h
      cases h
    · rw [heq] at h
      by_cases hrest : rest = []
      · subst hrest
        rw [if_pos rfl] at h
        cases h
        have hcells : d.cells ≤ arenaCells := by
          rw [← Sexp.cells_erase, herase]
          exact hfits
        refine ⟨tokens, tree, htokens, hparses, hfits, d.stored,
          readTree_of_represents hrep hcells, ?_, ?_, hnext⟩
        · rw [Sexp.erase_stored, herase]
        · rw [Sexp.literals_stored]
          exact hliterals
      · rw [if_neg hrest] at h
        cases h
    · rw [heq] at h
      cases h
  · have hdeclines := readOne_of_not_parses (P := P)
      (fun tokens tree rest htokens hparses => hform ⟨tokens, tree, rest, htokens, hparses⟩) s
    exact absurd (congrArg Prod.fst h) (hdeclines.1 word)

/-- A text of one form that fits is accepted, unless the tables have no room. -/
theorem readOne_of_acceptable {source : String} (hreset : s.arena.next = 0)
    (h : Acceptable source) :
    (∃ word s', readOne P source s = (.ok word, s')) ∨
      (readOne P source s).1 = .abort .allocation := by
  obtain ⟨tokens, tree, htext, hparses, hfits⟩ := h
  obtain ⟨hlarge, -⟩ | ⟨-, ⟨d, s', -, -, -, -, heq⟩ | ⟨s', -, heq⟩⟩ :=
    readOne_of_parses (P := P) (tokenize_eq_ok_iff.mpr htext) hparses hreset
  · omega
  · exact .inl ⟨_, _, heq⟩
  · exact .inr (congrArg Prod.fst heq)

/-- The texts that are rejected for their size. -/
theorem readOne_eq_capacity_iff {source : String} (hreset : s.arena.next = 0)
    (required capacity : Nat) :
    (∃ s', readOne P source s = (.err (.arenaCapacityExceeded required capacity), s')) ↔
      capacity = arenaCells ∧ ∃ tokens tree rest, tokenize source = .ok tokens ∧
        Parses .form tokens tree rest ∧ arenaCells < tree.cells ∧ required = tree.cells := by
  constructor
  · rintro ⟨s', h⟩
    by_cases hform : ∃ tokens tree rest, tokenize source = .ok tokens ∧
        Parses .form tokens tree rest
    · obtain ⟨tokens, tree, rest, htokens, hparses⟩ := hform
      obtain ⟨hlarge, heq⟩ | ⟨-, ⟨d, s₁, -, -, -, -, heq⟩ | ⟨s₁, -, heq⟩⟩ :=
        readOne_of_parses (P := P) htokens hparses hreset
      · rw [heq] at h
        cases h
        exact ⟨rfl, tokens, tree, rest, htokens, hparses, hlarge, rfl⟩
      · rw [heq] at h
        by_cases hrest : rest = []
        · rw [if_pos hrest] at h
          cases h
        · rw [if_neg hrest] at h
          cases h
      · rw [heq] at h
        cases h
    · have hdeclines := readOne_of_not_parses (P := P)
        (fun tokens tree rest htokens hparses => hform ⟨tokens, tree, rest, htokens, hparses⟩) s
      exact absurd (congrArg Prod.fst h) (hdeclines.2 required capacity)
  · rintro ⟨rfl, tokens, tree, rest, htokens, hparses, hlarge, rfl⟩
    obtain ⟨-, heq⟩ | ⟨hfits, -⟩ := readOne_of_parses (P := P) htokens hparses hreset
    · exact ⟨s, heq⟩
    · omega

/-- **What the reader accepts, and what it builds.** From an empty arena:

* the tokenizer cuts a text into the tokens that the text spells, and into no others;
* the reader returns a word exactly for the texts of one form with at most 256 list elements over
  all levels, unless the tables cannot grow, which they can while they have room;
* the tree read back from that word is the form; its string literals are new entries of the
  table, one for each, and every pair took one call of `wsm_cons`;
* it rejects a text for its size exactly when the first form is complete and has more than
  256 list elements, and says how many. -/
theorem readOne_accepts (P : Platform) (source : String) {s : ReaderState}
    (hreset : s.arena.next = 0) :
    (∀ tokens, tokenize source = .ok tokens ↔ Spelling source.toList tokens) ∧
      ((∃ word s', readOne P source s = (.ok word, s')) ↔
        Acceptable source ∧ (readOne P source s).1 ≠ .abort .allocation) ∧
      (Acceptable source → s.Room source.toList.length →
        (readOne P source s).1 ≠ .abort .allocation) ∧
      (∀ word s' tokens tree, readOne P source s = (.ok word, s') →
        Spelling source.toList tokens → Parses .form tokens tree [] →
        ∃ d, readTree P s' word = some d ∧ d.erase = tree.stored ∧
          AddsLiterals P s.boxed s'.boxed d.literals ∧ s'.arena.next = tree.cells) ∧
      ∀ required capacity,
        (∃ s', readOne P source s = (.err (.arenaCapacityExceeded required capacity), s')) ↔
          capacity = 256 ∧ ∃ tokens tree rest, Spelling source.toList tokens ∧
            Parses .form tokens tree rest ∧ 256 < tree.cells ∧ required = tree.cells := by
  refine ⟨fun tokens => tokenize_eq_ok_iff, ⟨?_, ?_⟩,
    fun _ hroom => readOne_ne_allocation P hreset hroom, ?_, ?_⟩
  · rintro ⟨word, s', h⟩
    obtain ⟨tokens, tree, htokens, hparses, hfits, -⟩ := readBack_of_readOne hreset h
    exact ⟨⟨tokens, tree, tokenize_eq_ok_iff.mp htokens, hparses, hfits⟩, by rw [h]; rintro ⟨⟩⟩
  · rintro ⟨hacceptable, habort⟩
    obtain haccepted | habort' := readOne_of_acceptable (P := P) hreset hacceptable
    · exact haccepted
    · exact absurd habort' habort
  · intro word s' tokens tree h htext hparses
    obtain ⟨tokens', tree', htokens', hparses', -, hbuilt⟩ := readBack_of_readOne hreset h
    obtain rfl := Except.ok.inj ((tokenize_eq_ok_iff.mpr htext).symm.trans htokens')
    obtain ⟨rfl, -⟩ := hparses.unique hparses'
    exact hbuilt
  · intro required capacity
    simp only [← tokenize_eq_ok_iff]
    exact readOne_eq_capacity_iff hreset required capacity

/-- A text with an escaped quote and a backslash in front of another character: `(f "a\"b\c")`. -/
def escapedText : String := "(f \"a\\\"b\\c\")"

/-- Such a text is accepted by a new session, and the literal that is read back has lost the
backslash in front of the quote and has kept the other one. -/
theorem readOne_accepts_escaped :
    ∃ word s' d, readOne .standard escapedText ReaderState.new = (.ok word, s') ∧
      readTree .standard s' word = some d ∧
      d.erase = .pair () (.symbol () "f") (.pair () (.string () "a\"b\\c") .nil) := by
  have htext : Spelling escapedText.toList
      [.open, .atom "f", .str "a\"b\\c", .close] := by
    have hbody : LiteralBody ['a', '\\', '"', 'b', '\\', 'c'] ['a', '"', 'b', '\\', 'c'] :=
      .char (by decide) (by decide) <| .quote <| .char (by decide) (by decide) <|
        .kept (by decide) (by decide) .nil
    have hchars : escapedText.toList =
        '(' :: (['f'] ++ [' ', '"', 'a', '\\', '"', 'b', '\\', 'c', '"', ')']) := by decide
    have hatom : ∀ c ∈ ['f'], AtomChar c := List.forall_mem_singleton.mpr (by decide)
    rw [hchars]
    exact .open <| .atom (List.cons_ne_nil _ _) hatom (by rintro c ⟨⟩; decide) <| .space rfl <|
      .string hbody <| .close .nil
  have hparses : Parses .form [.open, .atom "f", .str "a\"b\\c", .close]
      (.pair () (.symbol () "f") (.pair () (.string () "a\"b\\c") .nil)) [] :=
    .list (.item (.atom "f" _) (.item (.str _ _) (.close _)))
  obtain ⟨-, haccepts, hreturns, hbuilds, -⟩ :=
    readOne_accepts .standard escapedText (show ReaderState.new.arena.next = 0 from rfl)
  have hacceptable : Acceptable escapedText := ⟨_, _, htext, hparses, by decide⟩
  obtain ⟨word, s', hread⟩ :=
    haccepts.mpr ⟨hacceptable, hreturns hacceptable ⟨by decide, by decide⟩⟩
  obtain ⟨d, hback, herase, -⟩ := hbuilds word s' _ _ hread htext hparses
  exact ⟨word, s', d, hread, hback, herase⟩

end LispHost
