import LispHost.Eval
import LispHost.Lib.Transition
import LispHost.Printer
import LispHost.ReaderKeeps

/-!
# The Order of the Arena

The reader allocates a pair behind everything that the pair points to. So a pair in an allocated
cell leads only to earlier cells, whatever was read before and whether the reading succeeded,
and the number of the cell bounds every walk over words.

## Main definitions

* `Arena.Ordered`: pairs lead to earlier cells, and the second word of a pair is a list.
* `ChainEnds`: following the second words ends at `()`.
* `reads`: reading texts one after the other into one arena.

## Main results

* `ordered_of_reads`: the arena is ordered after every sequence of readings.
* `eval_terminates`, `write_terminates`: walks over an ordered arena end.
* `walks_of_reads`: both, for every word that a reading returned.
-/

namespace LispHost

open Effects

variable {P : Platform}

/-! ### Words and cells -/

/-- A word that leads at most to the first `n` cells. -/
def LeadsBelow (P : Platform) (n : Nat) (word : Word) : Prop :=
  tagOf word = tagCons → ∃ k, k < n ∧ word = cellWord P k

/-- A list in the first `n` cells. -/
def ListBelow (P : Platform) (n : Nat) (word : Word) : Prop :=
  word = wordNil ∨ ∃ k, k < n ∧ word = cellWord P k

/-- **The order of an arena.** -/
structure Arena.Ordered (P : Platform) (arena : Arena) : Prop where
  car : ∀ k, k < arena.next → LeadsBelow P k (arena.memory (2 * k))
  cdr : ∀ k, k < arena.next → ListBelow P k (arena.memory (2 * k + 1))

/-- The second words of pairs, one after the other, end at `()`. -/
inductive ChainEnds (P : Platform) (arena : Arena) : Word → Prop
  | nil : ChainEnds P arena wordNil
  | pair {k : Nat} (hk : k < arena.next)
      (hrest : ChainEnds P arena (arena.memory (2 * k + 1))) : ChainEnds P arena (cellWord P k)

section Words

variable {m n : Nat} {word : Word} {arena : Arena}

/-- A bound on where a word leads may be raised. -/
theorem LeadsBelow.mono (h : LeadsBelow P m word) (hmn : m ≤ n) : LeadsBelow P n word := by
  intro htag
  obtain ⟨k, hk, hword⟩ := h htag
  exact ⟨k, Nat.lt_of_lt_of_le hk hmn, hword⟩

/-- So may the bound of a list. -/
theorem ListBelow.mono (h : ListBelow P m word) (hmn : m ≤ n) : ListBelow P n word := by
  rcases h with hnil | ⟨k, hk, hword⟩
  · exact .inl hnil
  · exact .inr ⟨k, Nat.lt_of_lt_of_le hk hmn, hword⟩

/-- A word that is no pair leads nowhere. -/
theorem LeadsBelow.of_tag (h : tagOf word ≠ tagCons) : LeadsBelow P n word :=
  fun htag => absurd htag h

/-- A list leads where its first cell does. -/
theorem ListBelow.leadsBelow (h : ListBelow P n word) : LeadsBelow P n word := by
  rcases h with rfl | hcell
  · exact .of_tag (by decide)
  · exact fun _ => hcell

namespace Arena.Ordered

/-- An arena without cells is in order. -/
theorem reset (arena : Arena) : arena.reset.Ordered P :=
  ⟨fun _ hk => absurd hk (Nat.not_lt_zero _), fun _ hk => absurd hk (Nat.not_lt_zero _)⟩

/-- A new pair goes behind what it leads to. -/
theorem cons {arena' : Arena} {car cdr : Word} (h : arena.Ordered P)
    (hcar : LeadsBelow P arena.next car) (hcdr : ListBelow P arena.next cdr)
    (hcons : arena.cons P car cdr = some (word, arena')) : arena'.Ordered P := by
  obtain ⟨-, -, hnext, hnew, hnew', hkept⟩ := Arena.cons_spec hcons
  constructor
  · intro k hk
    by_cases hlast : k = arena.next
    · rw [hlast, hnew]
      exact hcar
    · rw [hkept _ (by omega)]
      exact h.car k (by omega)
  · intro k hk
    by_cases hlast : k = arena.next
    · rw [hlast, hnew']
      exact hcdr
    · rw [hkept _ (by omega)]
      exact h.cdr k (by omega)

/-- **Chains end.** By induction on the cell, since every link leads to an earlier one. -/
theorem chainEnds (h : arena.Ordered P) (hn : n ≤ arena.next) (hword : ListBelow P n word) :
    ChainEnds P arena word := by
  induction n using Nat.strong_induction_on generalizing word with
  | _ n ih =>
      rcases hword with rfl | ⟨k, hk, rfl⟩
      · exact .nil
      · have hlt : k < arena.next := Nat.lt_of_lt_of_le hk hn
        exact .pair hlt (ih k hk (Nat.le_of_lt hlt) (h.cdr k hlt))

end Arena.Ordered

end Words

/-! ### Reading -/

/-- The arena of a reader's state is ordered and has at least `n` cells. -/
def OrderedState (P : Platform) (n : Nat) (s : ReaderState) : Prop :=
  n ≤ s.arena.next ∧ s.arena.Ordered P

/-- Interning a name allocates nothing in the arena. -/
theorem keeps_internSymbol (n : Nat) (name : String) :
    Keeps (OrderedState P) (LeadsBelow P) (fun _ => True) n (internSymbol name) := by
  intro j _ s hs
  rw [internSymbol]
  cases hintern : s.symbols.intern name with
  | none => exact ⟨j, le_rfl, hs, by simp, by simp⟩
  | some result =>
      obtain ⟨-, htag, -⟩ := SymbolTable.intern_spec hintern
      refine ⟨j, le_rfl, hs, fun word hword => ?_, by simp⟩
      cases hword
      exact .of_tag (by rw [htag]; decide)

/-- Nor does storing a literal. -/
theorem keeps_addStringLiteral (n : Nat) (text : String) :
    Keeps (OrderedState P) (LeadsBelow P) (fun _ => True) n (addStringLiteral P text) := by
  intro j _ s hs
  rw [addStringLiteral, Program.zoom, BoxedTable.addString]
  refine ⟨j, le_rfl, hs, fun word hword => ?_, by simp⟩
  rcases BoxedTable.add_eq (P := P) (ε := ReadError) (.str text) .transient s.boxed with
    hfull | ⟨word', hroom, hencode, hadd⟩
  · rw [hfull] at hword
    cases hword
  · rw [hadd] at hword
    cases hword
    exact .of_tag (by rw [P.tagOf_encodeBoxed _ _ hencode]; decide)

/-- A new cell is above what it leads to. -/
theorem keeps_wsmCons {n : Nat} {car cdr : Word} (hcar : LeadsBelow P n car)
    (hcdr : ListBelow P n cdr) :
    Keeps (OrderedState P) (ListBelow P) (fun _ => True) n (wsmCons P car cdr) := by
  rintro j hnj s ⟨hnext, hordered⟩
  rw [wsmCons]
  cases hcons : s.arena.cons P car cdr with
  | none => exact ⟨j, le_rfl, ⟨hnext, hordered⟩, by simp, by simp⟩
  | some result =>
      obtain ⟨word, arena⟩ := result
      obtain ⟨-, rfl, hsucc, -⟩ := Arena.cons_spec hcons
      refine ⟨s.arena.next + 1, by omega, ⟨hsucc.ge, ?_⟩, fun word' hword => ?_, by simp⟩
      · exact hordered.cons (hcar.mono (hnj.trans hnext)) (hcdr.mono (hnj.trans hnext)) hcons
      · cases hword
        exact .inr ⟨_, Nat.lt_succ_self _, rfl⟩

/-- The reader's steps keep the order. -/
theorem readerInv_ordered (tokens : List Token) :
    ReaderInv P tokens (OrderedState P) (LeadsBelow P) (ListBelow P) fun _ => True where
  form_mono hij h := h.mono hij
  list_mono hij h := h.mono hij
  form_of_list h := h.leadsBelow
  nil _ := .inl rfl
  fixnum _ n := .of_tag (by rw [tagOf_encodeFixnum]; decide)
  intern n text _ := keeps_internSymbol n text
  string n text _ := keeps_addStringLiteral n text
  cons _ _ _ hhead htail := keeps_wsmCons hhead htail
  eof := trivial
  closeParen := trivial
  capacity _ := trivial
  trailing _ := trivial

/-- **Reading keeps the order**, and returns a word that leads below the next cell. -/
theorem ordered_readOne {s : ReaderState} (h : s.arena.Ordered P) (text : String) :
    (readOne P text s).2.arena.Ordered P ∧
      s.arena.next ≤ (readOne P text s).2.arena.next ∧
      ∀ word, (readOne P text s).1 = .ok word →
        LeadsBelow P (readOne P text s).2.arena.next word := by
  have hkeeps : Keeps (OrderedState P) (LeadsBelow P) (fun _ => True) s.arena.next
      (readOne P text) :=
    ReaderInv.readOne (fun _ _ => trivial) (fun tokens _ => readerInv_ordered tokens) _
  obtain ⟨n, hn, ⟨hnext, hordered⟩, hvalue, -⟩ := hkeeps.spec (s := s) ⟨le_rfl, h⟩
  exact ⟨hordered, hn.trans hnext, fun word hword => (hvalue word hword).mono hnext⟩

/-! ### Evaluating -/

/-- Not a run out of fuel. -/
def Ends (stop : Stop Exit) : Prop := stop ≠ .timeout

section Eval

variable {σ : Type} {Γ : EvalContext σ} {n : Nat} {word : Word}

/-- A value goes to what is behind it. -/
theorem pure_bind {σ ε α β : Type} (a : α) (f : α → Program Exit σ ε β) :
    (pure a >>= f : Program Exit σ ε β) = f a := rfl

/-- What is behind an abort does not run. -/
theorem abort_bind {σ ε α β : Type} (exit : Exit) (f : α → Program Exit σ ε β) :
    (Program.abort exit >>= f : Program Exit σ ε β) = Program.abort exit := rfl

/-- A load ends, or the process does. -/
theorem load_ends (r : Except Exit Word) : Program.StopsOnly Ends (load r : Program Exit
    (EvalState σ) EvalError Word) := by
  cases r with
  | ok word => exact .pure word
  | error exit => exact .abort (by rintro ⟨⟩)

/-- The value of a symbol ends. -/
theorem evalSymbol_ends (word : Word) : Program.StopsOnly Ends (evalSymbol Γ word) := by
  intro s stop hstop
  rw [evalSymbol] at hstop
  cases hname : Γ.symbols.nameOf word with
  | none =>
      rw [hname] at hstop
      cases hstop
  | some name =>
      rw [hname] at hstop
      by_cases ht : name = "t"
      · simp [ht, Outcome.stop] at hstop
      · cases hvalue : s.world.bindings.value name <;> simp [ht, hvalue, Outcome.stop] at hstop

/-- A call of a primitive ends. -/
theorem callPrimitive_ends (primitives : Primitives σ) (name : String) (args : List Word) :
    Program.StopsOnly Ends (callPrimitive primitives name args) :=
  (callPrimitive_stops primitives name args).imp fun stop hstop => by rw [hstop]; rintro ⟨⟩

/-- The words of a cell, as the raw accessors load them. -/
theorem load_cell (hordered : Γ.arena.Ordered P) {k : Nat} (hk : k < Γ.arena.next) :
    ∃ car cdr, wsmCar P Γ.arena (cellWord P k) = .ok car ∧
      wsmCdr P Γ.arena (cellWord P k) = .ok cdr ∧ LeadsBelow P k car ∧ ListBelow P k cdr := by
  have hcells := Nat.lt_of_lt_of_le hk Γ.arena.next_le
  exact ⟨_, _, wsmCar_cellWord Γ.arena hcells, wsmCdr_cellWord Γ.arena hcells,
    hordered.car k hk, hordered.cdr k hk⟩

/-- The argument of a form leads below the form's cell. -/
theorem argument_of_leadsBelow (hordered : Γ.arena.Ordered P) (hn : n ≤ Γ.arena.next)
    (hword : LeadsBelow P n word) (form : String) :
    (∃ e, singleArgument P Γ word form = Program.throw e) ∨
      ∃ k argument, k < n ∧ LeadsBelow P k argument ∧
        singleArgument P Γ word form = pure argument := by
  rw [singleArgument]
  by_cases htag : tagOf word = tagCons
  · obtain ⟨k, hk, rfl⟩ := hword htag
    obtain ⟨car, cdr, hcar, hcdr, hbelow, -⟩ := load_cell hordered (Nat.lt_of_lt_of_le hk hn)
    rw [if_neg (not_not_intro htag), hcar, hcdr]
    simp only [load, pure_bind]
    by_cases htail : cdr = wordNil
    · rw [if_neg (not_not_intro htail)]
      exact .inr ⟨k, car, hk, hbelow, rfl⟩
    · rw [if_pos htail]
      exact .inl ⟨_, rfl⟩
  · rw [if_pos htag]
    exact .inl ⟨_, rfl⟩

/-- The forms of a clause lead below the clause's cell. -/
theorem forms_of_leadsBelow (hordered : Γ.arena.Ordered P) (hn : n ≤ Γ.arena.next)
    (hword : LeadsBelow P n word) :
    (∃ e, condClause P Γ word = Program.throw e) ∨
      ∃ k forms, k < n ∧ LeadsBelow P k forms.1 ∧ LeadsBelow P k forms.2 ∧
        condClause P Γ word = pure forms := by
  rw [condClause]
  by_cases htag : tagOf word = tagCons
  · obtain ⟨k, hk, rfl⟩ := hword htag
    have hlt := Nat.lt_of_lt_of_le hk hn
    obtain ⟨test, body, hcar, hcdr, htest, hbody⟩ := load_cell hordered hlt
    rw [if_neg (not_not_intro htag), hcar, hcdr]
    simp only [load, pure_bind]
    by_cases htag' : tagOf body = tagCons
    · obtain ⟨l, hl, rfl⟩ := hbody.leadsBelow htag'
      obtain ⟨result, tail, hcar', hcdr', hresult, -⟩ := load_cell hordered (hl.trans hlt)
      rw [if_neg (not_not_intro htag'), hcar', hcdr']
      simp only [pure_bind]
      by_cases htail : tail = wordNil
      · rw [if_neg (not_not_intro htail)]
        exact .inr ⟨k, (test, result), hk, htest, hresult.mono (Nat.le_of_lt hl), rfl⟩
      · rw [if_pos htail]
        exact .inl ⟨_, rfl⟩
    · rw [if_pos htag']
      exact .inl ⟨_, rfl⟩
  · rw [if_pos htag]
    exact .inl ⟨_, rfl⟩

/-- Evaluations of words that lead below the cell `n` end, with fuel in proportion. -/
structure EvalEnds (P : Platform) (Γ : EvalContext σ) (n : Nat) : Prop where
  eval : ∀ fuel word, LeadsBelow P n word → 2 * n + 2 ≤ fuel →
    Program.StopsOnly Ends (eval P Γ fuel word)
  evalArgs : ∀ fuel word, LeadsBelow P n word → 2 * n + 1 ≤ fuel →
    Program.StopsOnly Ends (evalArgs P Γ fuel word)
  evalCond : ∀ fuel word, LeadsBelow P n word → 2 * n + 1 ≤ fuel →
    Program.StopsOnly Ends (evalCond P Γ fuel word)
  evalCheckedAccessor : ∀ fuel word, LeadsBelow P n word → 2 * n + 1 ≤ fuel →
    ∀ name accessor, Program.StopsOnly Ends (evalCheckedAccessor P Γ fuel word name accessor)

section Step

variable (hordered : Γ.arena.Ordered P) (hn : n ≤ Γ.arena.next)
  (ih : ∀ k, k < n → EvalEnds P Γ k) {fuel : Nat}

include hordered hn ih

/-- A list is evaluated along the words of its first cell. -/
theorem evalList_ends (hword : LeadsBelow P n word) (htag : tagOf word = tagCons)
    (hfuel : 2 * n + 1 ≤ fuel) : Program.StopsOnly Ends (evalList P Γ fuel word) := by
  obtain ⟨fuel, rfl⟩ := Nat.exists_eq_succ_of_ne_zero (show fuel ≠ 0 by omega)
  obtain ⟨k, hk, rfl⟩ := hword htag
  obtain ⟨head, rest, hcar, hcdr, -, hrest⟩ := load_cell hordered (Nat.lt_of_lt_of_le hk hn)
  have hbelow := hrest.leadsBelow
  have hends := ih k hk
  rw [evalList, hcar, hcdr]
  simp only [load, pure_bind]
  by_cases hsymbol : tagOf head = tagSymbol
  · rw [if_neg (not_not_intro hsymbol)]
    cases Γ.symbols.nameOf head with
    | none => exact .panic
    | some name =>
        by_cases hcond : P.condSpellings.contains name
        · simp only [if_pos hcond]
          exact hends.evalCond fuel rest hbelow (by omega)
        · simp only [if_neg hcond]
          by_cases hquote : P.quoteSpellings.contains name
          · simp only [if_pos hquote]
            rcases argument_of_leadsBelow hordered (Nat.le_of_lt (Nat.lt_of_lt_of_le hk hn)) hbelow
              "quote" with ⟨e, heq⟩ | ⟨-, argument, -, -, heq⟩
            · rw [heq]
              exact .throw e
            · rw [heq]
              exact .pure argument
          · simp only [if_neg hquote]
            by_cases hcarName : P.carSpellings.contains name
            · simp only [if_pos hcarName]
              exact hends.evalCheckedAccessor fuel rest hbelow (by omega) _ _
            · simp only [if_neg hcarName]
              by_cases hcdrName : P.cdrSpellings.contains name
              · simp only [if_pos hcdrName]
                exact hends.evalCheckedAccessor fuel rest hbelow (by omega) _ _
              · simp only [if_neg hcdrName]
                exact (hends.evalArgs fuel rest hbelow (by omega)).bind
                  fun args => callPrimitive_ends Γ.primitives name args
  · rw [if_pos hsymbol]
    exact .throw _

/-- **Evaluation ends** with fuel for every cell below the word, twice. -/
theorem eval_ends (hword : LeadsBelow P n word) (hfuel : 2 * n + 2 ≤ fuel) :
    Program.StopsOnly Ends (eval P Γ fuel word) := by
  obtain ⟨fuel, rfl⟩ := Nat.exists_eq_succ_of_ne_zero (show fuel ≠ 0 by omega)
  rw [eval]
  by_cases hself : tagOf word = tagFixnum ∨ tagOf word = tagNil ∨ tagOf word = tagBoxed
  · rw [if_pos hself]
    exact .pure word
  · rw [if_neg hself]
    by_cases hsymbol : tagOf word = tagSymbol
    · rw [if_pos hsymbol]
      exact evalSymbol_ends word
    · rw [if_neg hsymbol]
      by_cases hcons : tagOf word = tagCons
      · rw [if_pos hcons]
        exact evalList_ends hordered hn ih hword hcons (by omega)
      · rw [if_neg hcons]
        exact .pure word

/-- So does an accessor with its argument. -/
theorem evalCheckedAccessor_ends (hword : LeadsBelow P n word) (hfuel : 2 * n + 1 ≤ fuel)
    (name : String) (accessor : Word → Except Exit Word) :
    Program.StopsOnly Ends (evalCheckedAccessor P Γ fuel word name accessor) := by
  obtain ⟨fuel, rfl⟩ := Nat.exists_eq_succ_of_ne_zero (show fuel ≠ 0 by omega)
  rw [evalCheckedAccessor]
  rcases argument_of_leadsBelow hordered hn hword name with
    ⟨e, heq⟩ | ⟨k, argument, hk, hbelow, heq⟩
  · rw [heq]
    exact .throw e
  · rw [heq, pure_bind]
    refine ((ih k hk).eval fuel argument hbelow (by omega)).bind fun value => ?_
    by_cases htag : tagOf value = tagCons
    · rw [if_neg (not_not_intro htag)]
      exact load_ends _
    · rw [if_pos htag]
      exact .throw _

/-- So do the arguments of a call. -/
theorem evalArgs_ends (hword : LeadsBelow P n word) (hfuel : 2 * n + 1 ≤ fuel) :
    Program.StopsOnly Ends (evalArgs P Γ fuel word) := by
  obtain ⟨fuel, rfl⟩ := Nat.exists_eq_succ_of_ne_zero (show fuel ≠ 0 by omega)
  rw [evalArgs]
  by_cases hnil : word = wordNil
  · rw [if_pos hnil]
    exact .pure []
  · rw [if_neg hnil]
    by_cases htag : tagOf word = tagCons
    · obtain ⟨k, hk, rfl⟩ := hword htag
      obtain ⟨item, rest, hcar, hcdr, hitem, hrest⟩ :=
        load_cell hordered (Nat.lt_of_lt_of_le hk hn)
      have hends := ih k hk
      rw [hcar, hcdr]
      simp only [load, pure_bind]
      refine (hends.eval fuel item hitem (by omega)).bind fun value => ?_
      exact (hends.evalArgs fuel rest hrest.leadsBelow (by omega)).bind fun values => .pure _
    · rw [wsmCar, if_neg htag]
      simp only [load, abort_bind]
      exact .abort (by rintro ⟨⟩)

/-- So do the clauses of a `cond`. -/
theorem evalCond_ends (hword : LeadsBelow P n word) (hfuel : 2 * n + 1 ≤ fuel) :
    Program.StopsOnly Ends (evalCond P Γ fuel word) := by
  obtain ⟨fuel, rfl⟩ := Nat.exists_eq_succ_of_ne_zero (show fuel ≠ 0 by omega)
  rw [evalCond]
  by_cases hnil : word = wordNil
  · rw [if_pos hnil]
    exact .pure wordNil
  · rw [if_neg hnil]
    by_cases htag : tagOf word = tagCons
    · obtain ⟨k, hk, rfl⟩ := hword htag
      have hlt := Nat.lt_of_lt_of_le hk hn
      obtain ⟨clause, rest, hcar, hcdr, hclause, hrest⟩ := load_cell hordered hlt
      have hends := ih k hk
      rw [if_neg (not_not_intro htag), hcar, hcdr]
      simp only [load, pure_bind]
      rcases forms_of_leadsBelow hordered (Nat.le_of_lt hlt) hclause with
        ⟨e, heq⟩ | ⟨l, forms, hl, htest, hresult, heq⟩
      · rw [heq]
        exact .throw e
      · rw [heq, pure_bind]
        refine ((ih l (hl.trans hk)).eval fuel forms.1 htest (by omega)).bind fun test => ?_
        by_cases htruthy : isTruthy test
        · rw [if_pos htruthy]
          exact (ih l (hl.trans hk)).eval fuel forms.2 hresult (by omega)
        · rw [if_neg htruthy]
          exact hends.evalCond fuel rest hrest.leadsBelow (by omega)
    · rw [if_pos htag]
      exact .throw _

end Step

/-- **Evaluations over an ordered arena end.** By induction on the cells that a word leads
to. -/
theorem eval_terminates (hordered : Γ.arena.Ordered P) (hn : n ≤ Γ.arena.next) :
    EvalEnds P Γ n := by
  induction n using Nat.strong_induction_on with
  | _ n ih =>
      have hbelow : ∀ k, k < n → EvalEnds P Γ k := fun k hk => ih k hk (by omega)
      exact
        { eval := fun fuel word => eval_ends hordered hn hbelow
          evalArgs := fun fuel word => evalArgs_ends hordered hn hbelow
          evalCond := fun fuel word => evalCond_ends hordered hn hbelow
          evalCheckedAccessor := fun fuel word => evalCheckedAccessor_ends hordered hn hbelow }

end Eval

/-! ### Printing -/

section Write

variable {arena : Arena} {n : Nat} {word : Word}

/-- A walk goes on without running out of fuel where both its parts do. -/
theorem andThen_ne_timeout {walk : Walk} {next : String → Walk} (h : walk ≠ .timeout)
    (hnext : ∀ text, next text ≠ .timeout) : walk.andThen next ≠ .timeout := by
  cases walk with
  | ok text => exact hnext text
  | timeout => exact absurd rfl h
  | err e => exact e.elim
  | panic => rintro ⟨⟩
  | abort exit => rintro ⟨⟩

/-- Printing words that lead below the cell `n` ends, with fuel in proportion. -/
structure WriteEnds (P : Platform) (arena : Arena) (symbols : SymbolTable) (boxed : BoxedTable)
    (n : Nat) : Prop where
  writeValue : ∀ fuel word, LeadsBelow P n word → 2 * n + 2 ≤ fuel →
    writeValue P arena symbols boxed fuel word ≠ .timeout
  writeTail : ∀ fuel word first, ListBelow P n word → 2 * n + 1 ≤ fuel →
    writeTail P arena symbols boxed fuel word first ≠ .timeout

/-- **Printing over an ordered arena ends.** -/
theorem write_terminates (hordered : arena.Ordered P) (symbols : SymbolTable)
    (boxed : BoxedTable) (hn : n ≤ arena.next) : WriteEnds P arena symbols boxed n := by
  induction n using Nat.strong_induction_on with
  | _ n ih =>
      have htail : ∀ fuel word first, ListBelow P n word → 2 * n + 1 ≤ fuel →
          writeTail P arena symbols boxed fuel word first ≠ .timeout := by
        intro fuel word first hword hfuel
        obtain ⟨fuel, rfl⟩ := Nat.exists_eq_succ_of_ne_zero (show fuel ≠ 0 by omega)
        rw [writeTail]
        rcases hword with rfl | ⟨k, hk, rfl⟩
        · simp
        · have hlt := Nat.lt_of_lt_of_le hk hn
          have hcells := Nat.lt_of_lt_of_le hlt arena.next_le
          have hends := ih k hk (Nat.le_of_lt hlt)
          rw [if_neg (by rw [tagOf_cellWord hcells]; decide), if_pos (tagOf_cellWord hcells),
            wsmCar_cellWord arena hcells, wsmCdr_cellWord arena hcells]
          simp only [Walk.load]
          refine andThen_ne_timeout
            (hends.writeValue fuel _ (hordered.car k hlt) (by omega)) fun headText => ?_
          exact andThen_ne_timeout
            (hends.writeTail fuel _ false (hordered.cdr k hlt) (by omega)) fun text => by simp
      refine ⟨fun fuel word hword hfuel => ?_, htail⟩
      obtain ⟨fuel, rfl⟩ := Nat.exists_eq_succ_of_ne_zero (show fuel ≠ 0 by omega)
      rw [writeValue]
      by_cases hnil : tagOf word = tagNil
      · rw [if_pos hnil]
        rintro ⟨⟩
      · rw [if_neg hnil]
        by_cases htag : tagOf word = tagCons
        · rw [if_pos htag]
          refine andThen_ne_timeout (htail fuel word true (.inr (hword htag)) (by omega)) ?_
          rintro text ⟨⟩
        · rw [if_neg htag]
          rintro ⟨⟩

/-- The loop over a word that is no pair looks at it once more. -/
theorem writeTail_ends (hordered : arena.Ordered P) (symbols : SymbolTable) (boxed : BoxedTable)
    (hn : n ≤ arena.next) (hword : LeadsBelow P n word) (first : Bool) {fuel : Nat}
    (hfuel : 2 * n + 3 ≤ fuel) : writeTail P arena symbols boxed fuel word first ≠ .timeout := by
  have hends := write_terminates hordered symbols boxed hn
  by_cases htag : tagOf word = tagCons
  · exact hends.writeTail fuel word first (.inr (hword htag)) (by omega)
  · obtain ⟨fuel, rfl⟩ := Nat.exists_eq_succ_of_ne_zero (show fuel ≠ 0 by omega)
    rw [writeTail]
    by_cases hnil : tagOf word = tagNil
    · rw [if_pos hnil]
      rintro ⟨⟩
    · rw [if_neg hnil, if_neg htag]
      refine andThen_ne_timeout (hends.writeValue fuel word hword (by omega)) ?_
      rintro text ⟨⟩

end Write

/-! ### Readings one after the other -/

/-- Reading a text into the arena, with the tables of any session, and what that returned. The
process goes on, so the cells were enough. -/
def reads (P : Platform) (arena : Arena) (reading : String × Except ReadError Word)
    (arena' : Arena) : Prop :=
  ∃ s s' : ReaderState, s.arena = arena ∧ s'.arena = arena' ∧
    match reading.2 with
    | .ok word => readOne P reading.1 s = (.ok word, s')
    | .error e => readOne P reading.1 s = (.err e, s')

variable {arena arena' : Arena} {readings : List (String × Except ReadError Word)}

/-- **One reading** keeps the order, and its word leads below the new end. -/
theorem ordered_of_read {reading : String × Except ReadError Word} (h : arena.Ordered P)
    (hread : reads P arena reading arena') :
    arena'.Ordered P ∧ arena.next ≤ arena'.next ∧
      ∀ word, reading.2 = .ok word → LeadsBelow P arena'.next word := by
  obtain ⟨s, s', rfl, rfl, hrun⟩ := hread
  obtain ⟨hordered, hnext, hvalue⟩ := ordered_readOne h reading.1
  obtain ⟨text, result⟩ := reading
  cases result with
  | ok word =>
      simp only at hrun
      rw [hrun] at hordered hnext hvalue
      exact ⟨hordered, hnext, fun word' hword => hvalue word' (by cases hword; rfl)⟩
  | error e =>
      simp only at hrun
      rw [hrun] at hordered hnext
      exact ⟨hordered, hnext, by simp⟩

/-- What holds of the arena after some readings. -/
def ReadInto (P : Platform) (readings : List (String × Except ReadError Word))
    (arena : Arena) : Prop :=
  arena.Ordered P ∧
    ∀ text word, (text, Except.ok word) ∈ readings → LeadsBelow P arena.next word

/-- **The arena is ordered** after every sequence of readings. -/
theorem ordered_of_reads (h : Run (reads P) arena.reset readings arena') :
    ReadInto P readings arena' := by
  refine h.history (I := ReadInto P) ?_ ⟨.reset arena, by simp⟩
  rintro readings arena reading arena' ⟨hordered, hwords⟩ hread
  obtain ⟨hordered', hnext, hvalue⟩ := ordered_of_read hordered hread
  refine ⟨hordered', fun text word hmem => ?_⟩
  rcases List.mem_append.mp hmem with hmem | hmem
  · exact (hwords text word hmem).mono hnext
  · exact hvalue word (congrArg Prod.snd (List.mem_singleton.mp hmem)).symm

/-- **Walks over the arena end.** After every sequence of readings from a reset on, every pair
leads to earlier cells, every list ends at `()`, and every word that a reading returned is
evaluated and printed with the fuel that the model gives these walks. -/
theorem walks_of_reads (h : Run (reads P) arena.reset readings arena') :
    arena'.Ordered P ∧
      (∀ k, k < arena'.next → ChainEnds P arena' (cellWord P k)) ∧
      ∀ text word, (text, Except.ok word) ∈ readings →
        (∀ {σ : Type} (Γ : EvalContext σ), Γ.arena = arena' →
          Program.StopsOnly Ends (eval P Γ evalFuel word) ∧
            Program.StopsOnly Ends (evalArgs P Γ evalFuel word) ∧
            Program.StopsOnly Ends (evalCond P Γ evalFuel word)) ∧
        ∀ symbols boxed, writeValue P arena' symbols boxed printFuel word ≠ .timeout ∧
          ∀ first, writeTail P arena' symbols boxed printFuel word first ≠ .timeout := by
  obtain ⟨hordered, hwords⟩ := ordered_of_reads h
  have hfuel : 2 * arena'.next + 3 ≤ evalFuel := by
    have hcells := arena'.next_le
    have hbound : evalFuel = 4 * arenaCells + 8 := rfl
    omega
  refine ⟨hordered, fun k hk => hordered.chainEnds (n := k + 1) hk (.inr ⟨k, by omega, rfl⟩),
    fun text word hmem => ⟨fun Γ hΓ => ?_, fun symbols boxed => ?_⟩⟩
  · subst hΓ
    have hends := eval_terminates hordered le_rfl
    have hword := hwords text word hmem
    exact ⟨hends.eval _ _ hword (by omega), hends.evalArgs _ _ hword (by omega),
      hends.evalCond _ _ hword (by omega)⟩
  · have hends := write_terminates hordered symbols boxed le_rfl
    have hword := hwords text word hmem
    exact ⟨hends.writeValue _ _ hword (Nat.le_of_succ_le hfuel),
      fun first => writeTail_ends hordered symbols boxed le_rfl hword first hfuel⟩

/-- A list, and behind it a text that ends inside one. -/
theorem walks_of_reads_seven :
    ∃ arena, Run (reads .standard) ReaderState.new.arena.reset
      [("(7)", .ok (cellWord .standard 0)), ("(7", .error .unexpectedEof)] arena ∧
      ChainEnds .standard arena (cellWord .standard 0) := by
  have hfirst : reads .standard ReaderState.new.arena.reset
      ("(7)", .ok (cellWord .standard 0)) (readOne .standard "(7)" ReaderState.new).2.arena :=
    ⟨_, _, rfl, rfl, Prod.ext rfl rfl⟩
  have hsecond : reads .standard (readOne .standard "(7)" ReaderState.new).2.arena
      ("(7", .error .unexpectedEof)
      (readOne .standard "(7" (readOne .standard "(7)" ReaderState.new).2).2.arena :=
    ⟨_, _, rfl, rfl, Prod.ext rfl rfl⟩
  have hrun := Run.cons hfirst (.single hsecond)
  obtain ⟨-, hchains, -⟩ := walks_of_reads hrun
  exact ⟨_, hrun, hchains 0 Nat.one_pos⟩

end LispHost
