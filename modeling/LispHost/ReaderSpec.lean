import LispHost.Grammar
import LispHost.Lib.Positions

/-!
# What the Reader Builds

The reader's specification against the grammar. On a phrase that the grammar derives, the
parser builds exactly the derived tree in fresh cells, or runs out of cells or memory; on
a text that ends inside a form it allocates the pairs of the lists it could close and then
reports the end of input.

## Main definitions

* `Sexp.word`: the word under which the host sees a labelled tree.
* `Represents`: the heap holds a labelled tree under its word.
* `ReaderState.Grows`: how the reader's state changes while `k` tokens are read.

## Main results

* `Represents.mono`: what is in the heap stays there while the reader goes on.
* `parse_of_parses`, `parse_of_unclosed`: the specification of the mutual recursion.
* `readTokens_of_parses`, `readTokens_of_unclosed`, `readTokens_eq_ok`: its consequences
  for a whole text.
-/

namespace LispHost

open Effects

namespace Sexp

/-- The word of a tree that is labelled with words. -/
def word : Sexp Word → Word
  | fixnum label _ => label
  | symbol label _ => label
  | string label _ => label
  | nil => wordNil
  | pair label _ _ => label

/-- The string literals of a tree with their labels, from left to right. -/
def literals {α : Type} : Sexp α → List (α × String)
  | string label text => [(label, text)]
  | pair _ head tail => head.literals ++ tail.literals
  | _ => []

end Sexp

variable (P : Platform)

/-- **The heap holds the tree.** Each node is where its label says: a fixnum in its word,
a symbol and a string under their entries in the tables, a pair in an allocated cell. -/
def Represents (s : ReaderState) : Sexp Word → Prop
  | .fixnum label value => label = encodeFixnum value
  | .symbol label name => tagOf label = tagSymbol ∧ s.symbols.nameOf label = some name
  | .string label text => s.boxed.entry P label = some ⟨.str text, .transient⟩
  | .nil => True
  | .pair label head tail =>
      (∃ k, k < s.arena.next ∧ label = cellWord P k ∧ s.arena.memory (2 * k) = head.word ∧
        s.arena.memory (2 * k + 1) = tail.word) ∧
      Represents s head ∧ Represents s tail

/-- The tables have room for `k` more entries. -/
def ReaderState.Room (s : ReaderState) (k : Nat) : Prop :=
  s.symbols.nameToId.length + k < addressSpace ∧ s.boxed.values.length + k < addressSpace

/-- Room for some tokens is room for fewer. -/
theorem ReaderState.Room.mono {s : ReaderState} {k l : Nat} (h : s.Room l) (hkl : k ≤ l) :
    s.Room k :=
  ⟨(Nat.add_le_add_left hkl _).trans_lt h.1, (Nat.add_le_add_left hkl _).trans_lt h.2⟩

/-- How the state changes while `k` tokens are read: nothing that was there changes, and
the tables get at most `k` new entries. -/
structure ReaderState.Grows (s s' : ReaderState) (k : Nat) : Prop where
  symbols : s.symbols ≤ s'.symbols
  boxed : s.boxed ≤ s'.boxed
  next : s.arena.next ≤ s'.arena.next
  memory : ∀ i, i < 2 * s.arena.next → s'.arena.memory i = s.arena.memory i
  symbols_length : s'.symbols.nameToId.length ≤ s.symbols.nameToId.length + k
  boxed_length : s'.boxed.values.length ≤ s.boxed.values.length + k

namespace ReaderState.Grows

/-- Nothing is read without tokens. -/
theorem refl (s : ReaderState) (k : Nat) : s.Grows s k where
  symbols := SymbolTable.le_refl _
  boxed := BoxedTable.le_refl _
  next := le_rfl
  memory _ _ := rfl
  symbols_length := Nat.le_add_right _ _
  boxed_length := Nat.le_add_right _ _

/-- Reading goes on behind what was read. -/
theorem trans {s₁ s₂ s₃ : ReaderState} {k l : Nat} (h : s₁.Grows s₂ k)
    (h' : s₂.Grows s₃ l) : s₁.Grows s₃ (k + l) where
  symbols := SymbolTable.le_trans h.symbols h'.symbols
  boxed := BoxedTable.le_trans h.boxed h'.boxed
  next := h.next.trans h'.next
  memory i hi := by
    have hnext := h.next
    rw [h'.memory i (by omega), h.memory i hi]
  symbols_length := by
    have h₁ := h.symbols_length
    have h₂ := h'.symbols_length
    omega
  boxed_length := by
    have h₁ := h.boxed_length
    have h₂ := h'.boxed_length
    omega

/-- What was read has taken its room, and the rest is left. -/
theorem room {s s' : ReaderState} {k l : Nat} (h : s.Grows s' k) (hroom : s.Room (k + l)) :
    s'.Room l := by
  have h₁ := h.symbols_length
  have h₂ := h.boxed_length
  obtain ⟨hs, hb⟩ := hroom
  exact ⟨by omega, by omega⟩

/-- A bound on the tokens may be raised. -/
theorem mono {s s' : ReaderState} {k l : Nat} (h : s.Grows s' k) (hkl : k ≤ l) :
    s.Grows s' l where
  symbols := h.symbols
  boxed := h.boxed
  next := h.next
  memory := h.memory
  symbols_length := h.symbols_length.trans (by omega)
  boxed_length := h.boxed_length.trans (by omega)

end ReaderState.Grows

variable {P}

/-- **What is read stays read.** -/
theorem Represents.mono {s s' : ReaderState} {k : Nat} (hgrows : s.Grows s' k)
    {tree : Sexp Word} (h : Represents P s tree) : Represents P s' tree := by
  induction tree with
  | fixnum label value => exact h
  | symbol label name => exact ⟨h.1, SymbolTable.nameOf_mono hgrows.symbols h.2⟩
  | string label text => exact BoxedTable.entry_mono hgrows.boxed h
  | nil => trivial
  | pair label head tail ihh iht =>
      obtain ⟨⟨cell, hcell, hlabel, hcar, hcdr⟩, hhead, htail⟩ := h
      have hnext := hgrows.next
      refine ⟨⟨cell, by omega, hlabel, ?_, ?_⟩, ihh hhead, iht htail⟩
      · rw [hgrows.memory _ (by omega), hcar]
      · rw [hgrows.memory _ (by omega), hcdr]

/-- **Literals are fresh.** The table `b` is the table `a` with one more slot for every
literal, in their order, and the labels are the words of these slots. -/
def AddsLiterals (P : Platform) (a b : BoxedTable) (literals : List (Word × String)) : Prop :=
  b.values = a.values ++ literals.map (fun l => some ⟨.str l.2, .transient⟩) ∧
    ∀ (i : Nat) l, literals[i]? = some l →
      P.encodeBoxed (a.values.length + i + 1) = some l.1

/-- A tree without literals adds no slot. -/
theorem AddsLiterals.nil {a b : BoxedTable} (h : b.values = a.values) :
    AddsLiterals P a b [] :=
  ⟨by rw [h, List.map_nil, List.append_nil], by simp⟩

/-- Literals are added one behind the other. -/
theorem AddsLiterals.append {a b c : BoxedTable} {l l' : List (Word × String)}
    (h : AddsLiterals P a b l) (h' : AddsLiterals P b c l') :
    AddsLiterals P a c (l ++ l') := by
  obtain ⟨hvalues, hwords⟩ := h
  obtain ⟨hvalues', hwords'⟩ := h'
  refine ⟨by rw [hvalues', hvalues, List.map_append, List.append_assoc], fun i literal hi => ?_⟩
  by_cases hlt : i < l.length
  · rw [List.getElem?_append_left hlt] at hi
    exact hwords i literal hi
  · rw [List.getElem?_append_right (by omega)] at hi
    have hslot : a.values.length + i + 1 = b.values.length + (i - l.length) + 1 := by
      rw [hvalues, List.length_append, List.length_map]
      omega
    rw [hslot]
    exact hwords' _ literal hi

/-- What grows by nothing has the same values. -/
theorem ReaderState.Grows.values_eq {s s' : ReaderState} (h : s.Grows s' 0) :
    s'.boxed.values = s.boxed.values :=
  (h.boxed.eq_of_length_le h.boxed_length).symm

/-! ### The pieces -/

/-- What the program does on a phrase with the tree `tree` that takes `k` tokens, up to
running out of cells or of memory. -/
inductive ReadsTree {α : Type} (P : Platform) (s : ReaderState) (tree : Sexp Unit) (k : Nat)
    (value : Word → α) : Outcome Exit ReadError α × ReaderState → Prop
  | ok {d : Sexp Word} {s' : ReaderState} (herase : d.erase = tree)
      (hrep : Represents P s' d) (hgrows : s.Grows s' k)
      (hnext : s'.arena.next = s.arena.next + tree.cells)
      (hliterals : AddsLiterals P s.boxed s'.boxed d.literals) :
      ReadsTree P s tree k value (.ok (value d.word), s')
  | outOfMemory {s' : ReaderState} (hfull : arenaCells < s.arena.next + tree.cells) :
      ReadsTree P s tree k value (.abort (.wsmFail .outOfMemory), s')
  | allocation {s' : ReaderState} (hroom : ¬ s.Room k) :
      ReadsTree P s tree k value (.abort .allocation, s')

/-- A reading whose word is handed on. -/
theorem ReadsTree.map {α : Type} {s : ReaderState} {tree : Sexp Unit} {k : Nat}
    {p : Program Exit ReaderState ReadError Word} (h : ReadsTree P s tree k id (p s))
    (value : Word → α) : ReadsTree P s tree k value ((p >>= fun word => pure (value word)) s) := by
  generalize hrun : p s = result at h
  cases h with
  | ok herase hrep hgrows hnext hliterals =>
      rw [Program.bind_ok hrun]
      exact .ok herase hrep hgrows hnext hliterals
  | outOfMemory hfull =>
      rw [Program.bind_abort hrun]
      exact .outOfMemory hfull
  | allocation hroom =>
      rw [Program.bind_abort hrun]
      exact .allocation hroom

/-- A bound on the tokens may be raised. -/
theorem ReadsTree.mono {α : Type} {s : ReaderState} {tree : Sexp Unit} {k l : Nat}
    {value : Word → α} {result : Outcome Exit ReadError α × ReaderState}
    (h : ReadsTree P s tree k value result) (hkl : k ≤ l) : ReadsTree P s tree l value result := by
  cases h with
  | ok herase hrep hgrows hnext hliterals =>
      exact .ok herase hrep (hgrows.mono hkl) hnext hliterals
  | outOfMemory hfull => exact .outOfMemory hfull
  | allocation hroom => exact .allocation fun h => hroom (h.mono hkl)

/-- Reading an atom. -/
theorem atomToWord_spec (s : ReaderState) (atom : String) :
    ReadsTree P s (atomSexp atom) 1 id (atomToWord atom s) := by
  by_cases hnil : atom = "()"
  · rw [atomToWord, atomSexp, if_pos hnil, if_pos hnil]
    exact .ok (d := .nil) rfl trivial (.refl s 1) rfl (.nil rfl)
  rw [atomToWord, atomSexp, if_neg hnil, if_neg hnil]
  cases parseI64 atom with
  | some value =>
      exact .ok (d := .fixnum (encodeFixnum value) value) rfl rfl (.refl s 1) rfl (.nil rfl)
  | none =>
      change ReadsTree P s (.symbol () atom) 1 id (internSymbol atom s)
      rw [internSymbol]
      cases hintern : s.symbols.intern atom with
      | some result =>
          obtain ⟨word, symbols⟩ := result
          obtain ⟨hle, htag, hname⟩ := SymbolTable.intern_spec hintern
          refine .ok (d := .symbol word atom) rfl ⟨htag, hname⟩ ?_ rfl (.nil rfl)
          exact
            { symbols := hle
              boxed := BoxedTable.le_refl _
              next := le_rfl
              memory := fun _ _ => rfl
              symbols_length := SymbolTable.length_of_intern hintern
              boxed_length := Nat.le_succ _ }
      | none =>
          refine .allocation fun hroom => ?_
          obtain ⟨word, table, h⟩ := SymbolTable.exists_intern_eq_some atom hroom.1
          rw [hintern] at h
          exact absurd h (by simp)

/-- Reading a string literal. -/
theorem addStringLiteral_spec (s : ReaderState) (text : String) :
    ReadsTree P s (.string () text) 1 id (addStringLiteral P text s) := by
  rw [addStringLiteral, Program.zoom, BoxedTable.addString]
  obtain hfull | ⟨word, hroom, hword, hadd⟩ :=
    BoxedTable.add_eq (P := P) (ε := ReadError) (.str text) .transient s.boxed
  · rw [hfull]
    refine .allocation fun hroom => ?_
    obtain ⟨word, -, hadd⟩ := BoxedTable.add_eq_ok (P := P) (ε := ReadError) (.str text)
      .transient hroom.2
    rw [hfull] at hadd
    exact absurd (congrArg Prod.fst hadd) (by simp)
  · rw [hadd]
    have hliterals : AddsLiterals P s.boxed (s.boxed.push ⟨.str text, .transient⟩ hroom)
        [(word, text)] := by
      refine ⟨rfl, fun i l hi => ?_⟩
      cases i with
      | zero =>
          obtain rfl : (word, text) = l := Option.some.inj hi
          exact hword
      | succ i => cases hi
    refine .ok (d := .string word text) rfl (BoxedTable.entry_push hword hroom) ?_ rfl hliterals
    exact
      { symbols := SymbolTable.le_refl _
        boxed := BoxedTable.le_push _ _ hroom
        next := le_rfl
        memory := fun _ _ => rfl
        symbols_length := Nat.le_succ _
        boxed_length := by simp [BoxedTable.push] }

/-- Building a pair of two trees that the heap holds: it takes the next cell, or there is
none. -/
theorem wsmCons_spec {s : ReaderState} {head tail : Sexp Word} (hhead : Represents P s head)
    (htail : Represents P s tail) :
    (s.arena.next = arenaCells ∧
        wsmCons P head.word tail.word s = (.abort (.wsmFail .outOfMemory), s)) ∨
      ∃ word s', wsmCons P head.word tail.word s = (.ok word, s') ∧
        Represents P s' (.pair word head tail) ∧ s.Grows s' 0 ∧
        s'.arena.next = s.arena.next + 1 := by
  rw [wsmCons]
  cases hcons : s.arena.cons P head.word tail.word with
  | none => exact .inl ⟨Arena.cons_eq_none_iff.mp hcons, rfl⟩
  | some result =>
      obtain ⟨word, arena⟩ := result
      obtain ⟨hlt, rfl, hnext, hcar, hcdr, hmemory⟩ := Arena.cons_spec hcons
      have hgrows : s.Grows { s with arena := arena } 0 :=
        { symbols := SymbolTable.le_refl _
          boxed := BoxedTable.le_refl _
          next := by
            change s.arena.next ≤ arena.next
            omega
          memory := hmemory
          symbols_length := le_rfl
          boxed_length := le_rfl }
      refine .inr ⟨_, _, rfl, ⟨⟨s.arena.next, ?_, rfl, hcar, hcdr⟩, hhead.mono hgrows,
        htail.mono hgrows⟩, hgrows, hnext⟩
      change s.arena.next < arena.next
      omega

section Item

variable {s : ReaderState} {head tail : Sexp Unit} {k l pos pos' : Nat}
  {p : Program Exit ReaderState ReadError (Word × Nat)}
  {q : Nat → Program Exit ReaderState ReadError (Word × Nat)}

/-- Reading an item and the rest of its list. -/
theorem ReadsTree.item (hhead : ReadsTree P s head k (fun word => (word, pos)) (p s))
    (htail : ∀ s₁, ReadsTree P s₁ tail l (fun word => (word, pos')) (q pos s₁)) :
    ReadsTree P s (.pair () head tail) (k + l) (fun word => (word, pos'))
      ((p >>= fun head => q head.2 >>= fun tail =>
        wsmCons P head.1 tail.1 >>= fun word => pure (word, tail.2)) s) := by
  generalize hrun₁ : p s = result₁ at hhead
  cases hhead with
  | outOfMemory hfull =>
      rw [Program.bind_abort hrun₁]
      exact .outOfMemory (by simp only [Sexp.cells]; omega)
  | allocation hroom =>
      rw [Program.bind_abort hrun₁]
      exact .allocation fun h => hroom (h.mono (Nat.le_add_right k l))
  | @ok d₁ s₁ herase₁ hrep₁ hgrows₁ hnext₁ hliterals₁ =>
      rw [Program.bind_ok hrun₁]
      have htail₁ := htail s₁
      generalize hrun₂ : q pos s₁ = result₂ at htail₁
      cases htail₁ with
      | outOfMemory hfull =>
          rw [Program.bind_abort hrun₂]
          exact .outOfMemory (by simp only [Sexp.cells]; omega)
      | allocation hroom =>
          rw [Program.bind_abort hrun₂]
          exact .allocation fun h => hroom (hgrows₁.room h)
      | @ok d₂ s₂ herase₂ hrep₂ hgrows₂ hnext₂ hliterals₂ =>
          rw [Program.bind_ok hrun₂]
          obtain ⟨hfull, hrun₃⟩ | ⟨word, s₃, hrun₃, hrep₃, hgrows₃, hnext₃⟩ :=
            wsmCons_spec (hrep₁.mono hgrows₂) hrep₂
          · rw [Program.bind_abort hrun₃]
            exact .outOfMemory (by simp only [Sexp.cells]; omega)
          · rw [Program.bind_ok hrun₃]
            have hliterals₃ := hliterals₁.append (hliterals₂.append (.nil hgrows₃.values_eq))
            rw [List.append_nil] at hliterals₃
            refine .ok (d := .pair word d₁ d₂) ?_ hrep₃
              ((hgrows₁.trans hgrows₂).trans hgrows₃) ?_ hliterals₃
            · rw [Sexp.erase, herase₁, herase₂]
            · simp only [Sexp.cells]
              omega

end Item

/-! ### The mutual recursion -/

/-- The parser of a nonterminal. -/
def parseAt (P : Platform) (tokens : List Token) :
    Nonterminal → Nat → Nat → Program Exit ReaderState ReadError (Word × Nat)
  | .form => parseForm P tokens
  | .items => parseList P tokens

/-- **The parser builds what the grammar derives.** -/
theorem parse_of_parses {n : Nonterminal} {ts rest : List Token} {tree : Sexp Unit}
    (h : Parses n ts tree rest) {tokens : List Token} {pos : Nat}
    (hdrop : tokens.drop pos = ts) (fuel : Nat)
    (hfuel : 2 * (ts.length - rest.length) ≤ fuel) (s : ReaderState) :
    ReadsTree P s tree (ts.length - rest.length)
      (fun word => (word, pos + (ts.length - rest.length)))
      (parseAt P tokens n fuel pos s) := by
  induction h generalizing pos fuel s with
  | atom text rest =>
      have hk : (Token.atom text :: rest).length - rest.length = 1 := by simp
      rw [hk] at hfuel ⊢
      obtain ⟨fuel, rfl⟩ : ∃ f, fuel = f + 1 := ⟨fuel - 1, by omega⟩
      rw [parseAt, parseForm_atom P fuel (getElem?_of_drop hdrop)]
      exact (atomToWord_spec s text).map _
  | str text rest =>
      have hk : (Token.str text :: rest).length - rest.length = 1 := by simp
      rw [hk] at hfuel ⊢
      obtain ⟨fuel, rfl⟩ : ∃ f, fuel = f + 1 := ⟨fuel - 1, by omega⟩
      rw [parseAt, parseForm_str P fuel (getElem?_of_drop hdrop)]
      exact (addStringLiteral_spec s text).map _
  | @list ts rest tree hitems ih =>
      have hlt := hitems.length_lt
      have hk : (Token.open :: ts).length - rest.length = 1 + (ts.length - rest.length) := by
        simp only [List.length_cons]
        omega
      rw [hk] at hfuel ⊢
      obtain ⟨fuel, rfl⟩ : ∃ f, fuel = f + 1 := ⟨fuel - 1, by omega⟩
      rw [parseAt, parseForm_open P fuel (getElem?_of_drop hdrop), ← Nat.add_assoc]
      exact (ih (drop_of_drop_cons hdrop) fuel (by omega) s).mono (Nat.le_add_left _ 1)
  | close rest =>
      have hk : (Token.close :: rest).length - rest.length = 1 := by simp
      rw [hk] at hfuel ⊢
      obtain ⟨fuel, rfl⟩ : ∃ f, fuel = f + 1 := ⟨fuel - 1, by omega⟩
      rw [parseAt, parseList_close P fuel (getElem?_of_drop hdrop)]
      exact .ok (d := .nil) rfl trivial (.refl s 1) rfl (.nil rfl)
  | @item ts mid rest head tail hhead htail ihh iht =>
      have hlt₁ := hhead.length_lt
      have hlt₂ := htail.length_lt
      obtain ⟨fuel, rfl⟩ : ∃ f, fuel = f + 1 := ⟨fuel - 1, by omega⟩
      have hk : ts.length - rest.length =
          (ts.length - mid.length) + (mid.length - rest.length) := by omega
      have hmid : tokens.drop (pos + (ts.length - mid.length)) = mid := by
        subst hdrop
        exact drop_of_suffix hhead.suffix
      obtain ⟨token, ts', rfl, hclose⟩ := hhead.form_eq_cons
      rw [parseAt, parseList_item P fuel (getElem?_of_drop hdrop) hclose, hk, ← Nat.add_assoc]
      exact .item (ihh hdrop fuel (by omega) s) fun s₁ => iht hmid fuel (by omega) s₁

/-- What the program does on a text that ends inside a phrase, when the lists closed until
then have `k` elements. -/
inductive ReadsPart {α : Type} (s : ReaderState) (k tokens : Nat) :
    Outcome Exit ReadError α × ReaderState → Prop
  | eof {s' : ReaderState} (hnext : s'.arena.next = s.arena.next + k) :
      ReadsPart s k tokens (.err .unexpectedEof, s')
  | outOfMemory {s' : ReaderState} (hfull : arenaCells < s.arena.next + k) :
      ReadsPart s k tokens (.abort (.wsmFail .outOfMemory), s')
  | allocation {s' : ReaderState} (hroom : ¬ s.Room tokens) :
      ReadsPart s k tokens (.abort .allocation, s')

namespace ReadsPart

variable {α β : Type} {s : ReaderState} {k m n : Nat}

/-- A bound on the tokens may be raised. -/
theorem mono {result : Outcome Exit ReadError α × ReaderState} (h : ReadsPart s k m result)
    (hmn : m ≤ n) : ReadsPart s k n result := by
  cases h with
  | eof hnext => exact .eof hnext
  | outOfMemory hfull => exact .outOfMemory hfull
  | allocation hroom => exact .allocation fun h => hroom (h.mono hmn)

/-- What would be done behind the end is not done. -/
theorem bind {p : Program Exit ReaderState ReadError α} (h : ReadsPart s k m (p s))
    (f : α → Program Exit ReaderState ReadError β) : ReadsPart s k m ((p >>= f) s) := by
  generalize hrun : p s = result at h
  cases h with
  | eof hnext =>
      rw [Program.bind_err hrun]
      exact .eof hnext
  | outOfMemory hfull =>
      rw [Program.bind_abort hrun]
      exact .outOfMemory hfull
  | allocation hroom =>
      rw [Program.bind_abort hrun]
      exact .allocation hroom

/-- A list that ends too early behind an item. -/
theorem item {head : Sexp Unit} {pos : Nat} {p : Program Exit ReaderState ReadError (Word × Nat)}
    {q : Nat → Program Exit ReaderState ReadError (Word × Nat)}
    {f : Word × Nat → Word × Nat → Program Exit ReaderState ReadError α}
    (hhead : ReadsTree P s head m (fun word => (word, pos)) (p s))
    (htail : ∀ s₁, ReadsPart s₁ k n (q pos s₁)) :
    ReadsPart s (head.cells + k) (m + n) ((p >>= fun head => q head.2 >>= f head) s) := by
  generalize hrun : p s = result at hhead
  cases hhead with
  | outOfMemory hfull =>
      rw [Program.bind_abort hrun]
      exact .outOfMemory (by omega)
  | allocation hroom =>
      rw [Program.bind_abort hrun]
      exact .allocation fun h => hroom (h.mono (Nat.le_add_right m n))
  | @ok d s₁ _ _ hgrows hnext _ =>
      rw [Program.bind_ok hrun]
      have hrest := (htail s₁).bind (f (d.word, pos))
      generalize (q pos >>= f (d.word, pos)) s₁ = result at hrest ⊢
      cases hrest with
      | eof hnext' => exact .eof (by omega)
      | outOfMemory hfull => exact .outOfMemory (by omega)
      | allocation hroom => exact .allocation fun h => hroom (hgrows.room h)

end ReadsPart

/-- The fuel that a text of the given length cannot use up. -/
def Nonterminal.fuel : Nonterminal → Nat → Nat
  | .form, length => 2 * length + 1
  | .items, length => 2 * length + 2

/-- **The parser on a text that ends too early.** It builds the lists that are closed and
reports the end of input. -/
theorem parse_of_unclosed {n : Nonterminal} {ts : List Token} {k : Nat}
    (h : Unclosed n ts k) {tokens : List Token} {pos : Nat} (hdrop : tokens.drop pos = ts)
    (fuel : Nat) (hfuel : n.fuel ts.length ≤ fuel) (s : ReaderState) :
    ReadsPart s k ts.length (parseAt P tokens n fuel pos s) := by
  induction h generalizing pos fuel s with
  | eof n =>
      have hnone := getElem?_of_drop_nil hdrop
      obtain ⟨fuel, rfl⟩ : ∃ f, fuel = f + 1 := by
        refine ⟨fuel - 1, ?_⟩
        cases n <;> simp only [Nonterminal.fuel] at hfuel <;> omega
      cases n with
      | form =>
          rw [parseAt, parseForm_eof P fuel hnone]
          exact .eof rfl
      | items =>
          rw [parseAt, parseList_eof P fuel hnone]
          exact .eof rfl
  | @list ts k hitems ih =>
      simp only [Nonterminal.fuel, List.length_cons] at hfuel ih
      obtain ⟨fuel, rfl⟩ : ∃ f, fuel = f + 1 := ⟨fuel - 1, by omega⟩
      rw [parseAt, parseForm_open P fuel (getElem?_of_drop hdrop)]
      exact (ih (drop_of_drop_cons hdrop) fuel (by omega) s).mono (Nat.le_succ _)
  | @head ts k hform ih =>
      cases ts with
      | nil =>
          cases hform with
          | eof =>
              have hnone := getElem?_of_drop_nil hdrop
              obtain ⟨fuel, rfl⟩ : ∃ f, fuel = f + 1 := by
                simp only [Nonterminal.fuel] at hfuel
                exact ⟨fuel - 1, by omega⟩
              rw [parseAt, parseList_eof P fuel hnone]
              exact .eof rfl
      | cons token ts =>
          have hclose : token ≠ .close := by
            rintro rfl
            cases hform
          simp only [Nonterminal.fuel] at hfuel ih
          obtain ⟨fuel, rfl⟩ : ∃ f, fuel = f + 1 := ⟨fuel - 1, by omega⟩
          rw [parseAt, parseList_item P fuel (getElem?_of_drop hdrop) hclose]
          exact (ih hdrop fuel (by omega) s).bind _
  | @tail ts mid tree k hform _ ih =>
      have hlt := hform.length_lt
      simp only [Nonterminal.fuel] at hfuel ih
      obtain ⟨fuel, rfl⟩ : ∃ f, fuel = f + 1 := ⟨fuel - 1, by omega⟩
      have hmid : tokens.drop (pos + (ts.length - mid.length)) = mid := by
        subst hdrop
        exact drop_of_suffix hform.suffix
      obtain ⟨token, ts', rfl, hclose⟩ := hform.form_eq_cons
      rw [parseAt, parseList_item P fuel (getElem?_of_drop hdrop) hclose]
      have hhead := parse_of_parses (P := P) hform hdrop fuel (by omega) s
      exact (ReadsPart.item hhead fun s₁ => ih hmid fuel (by omega) s₁).mono (by omega)

/-! ### Whole texts -/

/-- **Reading a complete form.** A form that is too large is rejected without touching the
state; any other one is parsed, and anything behind it is reported. -/
theorem readTokens_of_parses {tokens rest : List Token} {tree : Sexp Unit}
    (h : Parses .form tokens tree rest) (s : ReaderState) :
    (arenaCells < tree.cells ∧ readTokens P tokens s =
        (.err (.arenaCapacityExceeded tree.cells wsmArenaCapacity), s)) ∨
      tree.cells ≤ arenaCells ∧ ∃ result,
        ReadsTree P s tree (tokens.length - rest.length) id result ∧
          readTokens P tokens s =
            match result with
            | (.ok word, s') =>
                if rest = [] then (.ok word, s')
                else (.err (.trailingInput (" ".intercalate (rest.map (Token.echo P)))), s')
            | other => other := by
  have hlt := h.length_lt
  rw [readTokens, h.requiredConsCells_eq]
  by_cases hcells : tree.cells > wsmArenaCapacity
  · refine .inl ⟨hcells, ?_⟩
    simp only [if_pos hcells, Program.throw_apply]
  · refine .inr ⟨Nat.not_lt.mp hcells, ?_⟩
    simp only [if_neg hcells, readTokens.parseTokens]
    have hspec := parse_of_parses (P := P) h (List.drop_zero : tokens.drop 0 = tokens)
      (parseFuel tokens) (by rw [parseFuel]; omega) s
    rw [parseAt] at hspec
    generalize hrun : parseForm P tokens (parseFuel tokens) 0 s = result at hspec
    cases hspec with
    | outOfMemory hfull =>
        exact ⟨_, .outOfMemory hfull, by rw [Program.bind_abort hrun]⟩
    | allocation hroom =>
        exact ⟨_, .allocation hroom, by rw [Program.bind_abort hrun]⟩
    | ok herase hrep hgrows hnext hliterals =>
        refine ⟨_, .ok herase hrep hgrows hnext hliterals, ?_⟩
        have hdrop : tokens.drop (tokens.length - rest.length) = rest :=
          (List.suffix_iff_eq_drop.mp h.suffix).symm
        rw [Program.bind_ok hrun]
        simp only [Nat.zero_add, hdrop]
        by_cases hrest : rest = []
        · subst hrest
          simp
        · have hlen : tokens.length - rest.length ≠ tokens.length := by
            have := List.length_pos_iff.mpr hrest
            omega
          simp [hrest, hlen]

/-- **Reading a text that ends inside its first form.** The preflight has no verdict, so
the lists that are closed are built before the end of input is reported. -/
theorem readTokens_of_unclosed {tokens : List Token} {k : Nat}
    (h : Unclosed .form tokens k) (s : ReaderState) :
    ∃ result : Outcome Exit ReadError Word × ReaderState,
      ReadsPart s k tokens.length result ∧ readTokens P tokens s = result := by
  have hrequired : requiredConsCells tokens = some 0 ∨ requiredConsCells tokens = none := by
    cases h with
    | eof => exact .inl rfl
    | list hitems => exact .inr hitems.requiredConsCells_eq_none
  have hread : readTokens P tokens = readTokens.parseTokens P tokens := by
    rw [readTokens]
    rcases hrequired with hzero | hnone
    · rw [hzero]
      rfl
    · rw [hnone]
  rw [hread, readTokens.parseTokens]
  have hspec := parse_of_unclosed (P := P) h (List.drop_zero : tokens.drop 0 = tokens)
    (parseFuel tokens) (by rw [Nonterminal.fuel, parseFuel]; omega) s
  rw [parseAt] at hspec
  generalize hrun : parseForm P tokens (parseFuel tokens) 0 s = result at hspec
  cases hspec with
  | eof hnext => exact ⟨_, .eof hnext, by rw [Program.bind_err hrun]⟩
  | outOfMemory hfull => exact ⟨_, .outOfMemory hfull, by rw [Program.bind_abort hrun]⟩
  | allocation hroom => exact ⟨_, .allocation hroom, by rw [Program.bind_abort hrun]⟩

/-- A text that starts with a closing parenthesis is rejected at once. -/
theorem readTokens_of_close {tokens : List Token} (h : tokens.head? = some .close)
    (s : ReaderState) : readTokens P tokens s = (.err .unexpectedCloseParen, s) := by
  obtain ⟨rest, rfl⟩ : ∃ rest, tokens = .close :: rest := by
    cases tokens with
    | nil => simp at h
    | cons token rest =>
        obtain rfl : token = .close := by simpa using h
        exact ⟨rest, rfl⟩
  rw [readTokens, requiredConsCells]
  · simp only [gt_iff_lt, Nat.not_lt_zero, if_false, readTokens.parseTokens]
    rw [parseFuel, parseForm_close P _ (List.getElem?_cons_zero (l := rest))]
    rfl
  · simp

/-- **What an accepted text is.** The tokens are one form of the grammar, and the heap
holds its tree under the word returned; its string literals are new entries. -/
theorem readTokens_eq_ok {tokens : List Token} {s s' : ReaderState} {word : Word}
    (h : readTokens P tokens s = (.ok word, s')) :
    ∃ d : Sexp Word, d.word = word ∧ Parses .form tokens d.erase [] ∧
      Represents P s' d ∧ s.Grows s' tokens.length ∧
      s'.arena.next = s.arena.next + d.cells ∧
      AddsLiterals P s.boxed s'.boxed d.literals := by
  rcases (parses_or_unclosed tokens).1 with ⟨tree, rest, hparses⟩ | ⟨k, hunclosed⟩ | hclose
  · obtain ⟨-, heq⟩ | ⟨-, result, hresult, heq⟩ := readTokens_of_parses (P := P) hparses s
    · rw [heq] at h
      exact absurd (congrArg Prod.fst h) (by simp)
    · rw [heq] at h
      cases hresult with
      | @ok d s₁ herase hrep hgrows hnext hliterals =>
          by_cases hrest : rest = []
          · simp only [id_eq, if_pos hrest, Prod.mk.injEq, Outcome.ok.injEq] at h
            obtain ⟨rfl, rfl⟩ := h
            subst hrest
            rw [← herase, Sexp.cells_erase] at hnext
            exact ⟨d, rfl, herase ▸ hparses, hrep, hgrows.mono (by omega), hnext, hliterals⟩
          · simp only [id_eq, if_neg hrest, Prod.mk.injEq, reduceCtorEq, false_and] at h
      | outOfMemory => exact absurd (congrArg Prod.fst h) (by simp)
      | allocation => exact absurd (congrArg Prod.fst h) (by simp)
  · obtain ⟨result, hresult, heq⟩ := readTokens_of_unclosed (P := P) hunclosed s
    rw [heq] at h
    subst h
    cases hresult
  · rw [readTokens_of_close hclose] at h
    exact absurd (congrArg Prod.fst h) (by simp)

end LispHost
