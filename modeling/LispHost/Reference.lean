import LispHost.ReaderSpec
import LispHost.Session

/-!
# The Reference Evaluator

What the evaluator is for, said over syntax trees: no words are taken apart, no arena is
read and no fuel is needed, since every call is on a part of the tree. A value is a piece
of the source text or a word that came from the host. The trees carry the words under which the
host sees them, which matter only as arguments of host primitives.

The evaluator over words refines it: on a tree that the heap holds, both make the same
host calls in the same order and end alike.

## Main definitions

* `Value`, `refEval`, `refCall`: the reference evaluator, its values and its calls of the host.
* `NonCons`: the host neither binds nor returns pairs.
* `Value.Held`: the heap holds the value.

## Main results

* `refEval_stops`: only the host can stop the reference evaluator.
* `evalSimulates`: the simulation, by induction on the fuel.
* `eval_refines_refEval`: what it says about an accepted source text.
-/

namespace LispHost

open Effects

/-- A value: a piece of the source, or a word of the host's. -/
inductive Value where
  | datum (tree : Sexp Word)
  | host (word : Word)
deriving DecidableEq, Repr

namespace Value

/-- The word of a value. -/
def word : Value → Word
  | datum tree => tree.word
  | host word => word

/-- The value is not `()`. -/
def isTrue : Value → Bool
  | datum .nil => false
  | datum _ => true
  | host word => word != wordNil

end Value

/-! ### Evaluation of trees -/

variable {σ : Type} (P : Platform) (primitives : Primitives σ)

/-- A symbol: `t` is itself, any other name is what the host bound it to. -/
def refSymbol (tree : Sexp Word) (name : String) :
    Program Exit (EvalState σ) EvalError Value := fun s =>
  if name = "t" then (.ok (.datum tree), s)
  else
    match s.world.bindings.value name with
    | some value => (.ok (.host value), s)
    | none => (.err (.unknownSymbol name), s)

/-- `quote`: the argument as it stands. -/
def refQuote : Sexp Word → Program Exit (EvalState σ) EvalError Value
  | .pair _ argument .nil => pure (.datum argument)
  | _ => Program.throw (.invalidForm ("quote" ++ " takes exactly one argument"))

/-- A call of the host. The primitive that is registered under the name is handed the words of
the arguments, and the call is recorded with the tables that it found and the way it ended. What
it returns is a word of the host's, and its message is reported under its name; a panic and an
exit of the host are those of the evaluation. -/
def refCall (name : String) (args : List Value) :
    Program Exit (EvalState σ) EvalError Value := fun s =>
  match primitives name with
  | none => (.err (.unknownSymbol name), s)
  | some primitive =>
      let words := args.map Value.word
      let after (result : HostResult) (world : HostWorld σ) : EvalState σ :=
        { world := world
          calls := s.calls ++ [{
            name := name
            args := words
            boxed := s.world.boxed
            bindings := s.world.bindings
            result := result }] }
      match primitive.call words s.world with
      | (.ok word, world) => (.ok (.host word), after (.ok word) world)
      | (.failed message, world) =>
          (.err (.hostPrimitiveFailed name message), after (.failed message) world)
      | (.panicked, world) => (.panic, after .panicked world)
      | (.exited, world) => (.abort .host, after .exited world)

mutual

/-- The value of a form. -/
def refEval : Sexp Word → Program Exit (EvalState σ) EvalError Value
  | .symbol label name => refSymbol (.symbol label name) name
  | .pair _ (.symbol _ name) tail =>
      if P.condSpellings.contains name then
        refCond tail
      else if P.quoteSpellings.contains name then
        refQuote tail
      else if P.carSpellings.contains name then
        refAccessor tail "car" fun head _ => head
      else if P.cdrSpellings.contains name then
        refAccessor tail "cdr" fun _ rest => rest
      else do
        let args ← refArgs tail
        refCall primitives name args
  | .pair _ _ _ => Program.throw .notCallable
  | tree => pure (.datum tree)

/-- `car` and `cdr`: a part of the pair that the only argument evaluates to. -/
def refAccessor : Sexp Word → String → (Sexp Word → Sexp Word → Sexp Word) →
    Program Exit (EvalState σ) EvalError Value
  | .pair _ argument .nil, name, part => do
      match ← refEval argument with
      | .datum (.pair _ head tail) => pure (.datum (part head tail))
      | _ => Program.throw (.typeError (name ++ " expects a non-empty list"))
  | _, name, _ => Program.throw (.invalidForm (name ++ " takes exactly one argument"))

/-- The values of the arguments, from left to right. -/
def refArgs : Sexp Word → Program Exit (EvalState σ) EvalError (List Value)
  | .pair _ item rest => do
      let value ← refEval item
      let values ← refArgs rest
      pure (value :: values)
  | _ => pure []

/-- The clauses of a `cond`: tests from left to right, and the body of the first true
one. -/
def refCond : Sexp Word → Program Exit (EvalState σ) EvalError Value
  | .pair _ (.pair _ test (.pair _ body .nil)) rest => do
      let value ← refEval test
      if value.isTrue then refEval body else refCond rest
  | .pair _ _ _ => Program.throw (.invalidForm "cond clause takes exactly two forms")
  | _ => pure (.datum .nil)

end

/-- The dispatch of the evaluator on the words of the arguments is a call of the host. -/
theorem refCall_eq (name : String) (args : List Value) :
    refCall primitives name args =
      callPrimitive primitives name (args.map Value.word) >>= fun word => pure (.host word) := by
  funext s
  rw [refCall]
  cases hname : primitives name with
  | none => rw [Program.bind_err (callPrimitive_of_none hname _ s)]
  | some primitive =>
      have hrun := callPrimitive_of_some hname (args.map Value.word) s
      rcases hcall : primitive.call (args.map Value.word) s.world with ⟨result, world⟩
      rw [hcall] at hrun
      simp only [hcall]
      cases result with
      | ok word =>
          rw [Program.bind_ok hrun]
          rfl
      | failed message => rw [Program.bind_err hrun]
      | panicked => rw [Program.bind_panic hrun]
      | exited => rw [Program.bind_abort hrun]

/-! ### Only the host stops an evaluation -/

section Stops

variable (R : Stop Exit → Prop)

/-- The value of a symbol stops nothing. -/
theorem refSymbol_stops (tree : Sexp Word) (name : String) :
    Program.StopsOnly R (refSymbol (σ := σ) tree name) := by
  intro s r h
  rw [refSymbol] at h
  split at h
  · cases h
  · split at h <;> cases h

/-- Nor does a quoted form. -/
theorem refQuote_stops (tail : Sexp Word) :
    Program.StopsOnly R (refQuote (σ := σ) tail) := by
  rw [refQuote.eq_def]
  split
  · exact .pure _
  · exact .throw _

/-- What is shown about the four functions on one tree. -/
structure RefStops (tree : Sexp Word) : Prop where
  eval : Program.StopsOnly R (refEval P primitives tree)
  accessor : ∀ name part, Program.StopsOnly R (refAccessor P primitives tree name part)
  args : Program.StopsOnly R (refArgs P primitives tree)
  cond : Program.StopsOnly R (refCond P primitives tree)

/-- One tree, when all smaller trees are done. -/
theorem refStops_step (tree : Sexp Word)
    (hcall : ∀ name args, Program.StopsOnly R (callPrimitive primitives name args))
    (ih : ∀ tree' : Sexp Word, tree'.cells < tree.cells → RefStops P primitives R tree') :
    RefStops P primitives R tree := by
  constructor
  · rw [refEval.eq_def]
    split
    · exact refSymbol_stops R _ _
    · rename_i tail
      have htail := ih tail (by simp only [Sexp.cells]; omega)
      split
      · exact htail.cond
      split
      · exact refQuote_stops R tail
      split
      · exact htail.accessor _ _
      split
      · exact htail.accessor _ _
      · refine htail.args.bind fun args => ?_
        rw [refCall_eq]
        exact (hcall _ _).bind fun word => .pure _
    · exact .throw _
    · exact .pure _
  · intro name part
    rw [refAccessor.eq_def]
    split
    · rename_i argument
      have hargument := ih argument (by simp only [Sexp.cells]; omega)
      refine hargument.eval.bind fun value => ?_
      split
      · exact .pure _
      · exact .throw _
    · exact .throw _
  · rw [refArgs.eq_def]
    split
    · rename_i item rest
      have hitem := ih item (by simp only [Sexp.cells]; omega)
      have hrest := ih rest (by simp only [Sexp.cells]; omega)
      exact hitem.eval.bind fun value => hrest.args.bind fun values => .pure _
    · exact .pure _
  · rw [refCond.eq_def]
    split
    · rename_i test _ body rest
      have htest := ih test (by simp only [Sexp.cells]; omega)
      have hbody := ih body (by simp only [Sexp.cells]; omega)
      have hrest := ih rest (by simp only [Sexp.cells]; omega)
      refine htest.eval.bind fun value => ?_
      split
      · exact hbody.eval
      · exact hrest.cond
    · exact .throw _
    · exact .pure _

/-- **Only the host stops the reference evaluator**: it stops where a call of a primitive
does. -/
theorem refEval_stops
    (hcall : ∀ name args, Program.StopsOnly R (callPrimitive primitives name args))
    (tree : Sexp Word) :
    Program.StopsOnly R (refEval P primitives tree) := by
  have h : RefStops P primitives R tree := by
    induction hcells : tree.cells using Nat.strong_induction_on generalizing tree with
    | _ cells ih =>
      subst hcells
      exact refStops_step P primitives R tree hcall fun tree' hlt => ih _ hlt tree' rfl
  exact h.eval

end Stops

/-! ### Trees in the heap -/

section Heap

variable {P} {s : ReaderState}

/-- The tag of a tree's word. -/
def Sexp.tag : Sexp Word → Word
  | .fixnum _ _ => tagFixnum
  | .symbol _ _ => tagSymbol
  | .string _ _ => tagBoxed
  | .nil => tagNil
  | .pair _ _ _ => tagCons

/-- The word of a held tree has the tree's tag. -/
theorem Represents.tagOf_word {d : Sexp Word} (h : Represents P s d) :
    tagOf d.word = d.tag := by
  cases d with
  | fixnum label value =>
      rw [Sexp.word, show label = encodeFixnum value from h, tagOf_encodeFixnum, Sexp.tag]
  | symbol label name => exact h.1
  | string label text => exact BoxedTable.tagOf_of_entry h
  | nil => exact tagOf_wordNil
  | pair label head tail =>
      obtain ⟨⟨k, hk, rfl, -, -⟩, -, -⟩ := h
      exact tagOf_cellWord (by have := s.arena.next_le; omega)

/-- Only the empty list is held under the word of `()`. -/
theorem Represents.word_eq_wordNil {d : Sexp Word} (h : Represents P s d)
    (hword : d.word = wordNil) : d = .nil := by
  have htag := h.tagOf_word
  rw [hword, tagOf_wordNil] at htag
  cases d with
  | nil => rfl
  | fixnum | symbol | string | pair =>
      rw [Sexp.tag] at htag
      exact absurd htag (by decide)

/-- The accessors read the parts of a held pair. -/
theorem Represents.accessors {label : Word} {head tail : Sexp Word}
    (h : Represents P s (.pair label head tail)) :
    wsmCar P s.arena label = .ok head.word ∧ wsmCdr P s.arena label = .ok tail.word := by
  obtain ⟨⟨k, hk, rfl, hcar, hcdr⟩, -, -⟩ := h
  have hlt : k < arenaCells := by
    have := s.arena.next_le
    omega
  rw [wsmCar_cellWord _ hlt, wsmCdr_cellWord _ hlt, hcar, hcdr]
  exact ⟨rfl, rfl⟩

/-- The heap holds the tree, which is a proper list with proper lists in it and fits the
arena. -/
structure Sexp.Held (P : Platform) (s : ReaderState) (d : Sexp Word) : Prop where
  represents : Represents P s d
  proper : d.Proper
  fits : d.cells ≤ arenaCells

/-- The head of a pair that is held is held. -/
theorem Sexp.Held.head {label : Word} {head tail : Sexp Word}
    (h : (Sexp.pair label head tail).Held P s) : head.Held P s where
  represents := h.represents.2.1
  proper := h.proper.1
  fits := by
    have := h.fits
    rw [Sexp.cells] at this
    omega

/-- So is its tail, which is a list. -/
theorem Sexp.Held.tail {label : Word} {head tail : Sexp Word}
    (h : (Sexp.pair label head tail).Held P s) : tail.Held P s ∧ tail.IsList := by
  have hfits := h.fits
  rw [Sexp.cells] at hfits
  exact ⟨⟨h.represents.2.2, h.proper.2.1, by omega⟩, h.proper.2.2⟩

/-- The heap holds the value: a tree as it stands, and no pair for a word of the host. -/
def Value.Held (P : Platform) (s : ReaderState) : Value → Prop
  | .datum tree => tree.Held P s
  | .host word => tagOf word ≠ tagCons

/-- The test of the runtime decides the truth of a held value. -/
theorem Value.isTruthy_word {v : Value} (h : v.Held P s) : isTruthy v.word = v.isTrue := by
  cases v with
  | host word => rfl
  | datum tree =>
      rw [isTruthy, Value.word]
      by_cases hnil : tree = .nil
      · subst hnil
        rfl
      · have hne : tree.word ≠ wordNil := fun hword => hnil (h.represents.word_eq_wordNil hword)
        rw [bne_iff_ne.mpr hne]
        cases tree with
        | nil => exact absurd rfl hnil
        | fixnum | symbol | string | pair => rfl

end Heap

/-! ### The simulation -/

/-- No name is bound to a pair. -/
def Bindings.NonCons (bindings : Bindings) : Prop :=
  ∀ name word, bindings.value name = some word → tagOf word ≠ tagCons

/-- The host neither returns pairs nor binds names to them. -/
structure Primitives.NonCons (primitives : Primitives σ) : Prop where
  result : ∀ name primitive, primitives name = some primitive → ∀ args world word,
    (primitive.call args world).1 = .ok word → tagOf word ≠ tagCons
  bindings : ∀ name primitive, primitives name = some primitive → ∀ args world,
    world.bindings.NonCons → (primitive.call args world).2.bindings.NonCons

/-- A host whose only primitive returns no pair hands out no pairs. -/
theorem Primitives.NonCons.single (name : String) {word : Word} (h : tagOf word ≠ tagCons) :
    (Primitives.single (σ := σ) name (.returning (.ok word))).NonCons := by
  constructor
  · intro name' primitive hname args world value hvalue
    simp only [Primitives.single, Option.ite_none_right_eq_some, Option.some.injEq] at hname
    obtain ⟨-, rfl⟩ := hname
    obtain rfl : word = value := by simpa [HostPrimitive.returning] using hvalue
    exact h
  · intro name' primitive hname args world hworld
    simp only [Primitives.single, Option.ite_none_right_eq_some, Option.some.injEq] at hname
    obtain ⟨-, rfl⟩ := hname
    exact hworld

/-- One binding to a word that is no pair. -/
theorem Bindings.NonCons.singleton (name : String) {word : Word} (h : tagOf word ≠ tagCons) :
    Bindings.NonCons [(name, word)] := by
  intro name' value hvalue
  have hmem : (name', value) ∈ [(name, word)] := Bindings.mem_of_value hvalue
  obtain ⟨-, rfl⟩ : name' = name ∧ value = word := by simpa using hmem
  exact h

section Simulation

variable {P} {primitives} {s : ReaderState}

/-- The two evaluations are in the same state. -/
def SameState (_ : Fixed) (a b : EvalState σ) : Prop := a = b ∧ a.world.bindings.NonCons

/-- The word is the word of the held value. -/
def IsValue (P : Platform) (s : ReaderState) (_ : Fixed) (word : Word) (v : Value) : Prop :=
  v.word = word ∧ v.Held P s

/-- The two evaluations run in lockstep. -/
abbrev Simulates {α β : Type} (V : Fixed → α → β → Prop)
    (p : Program Exit (EvalState σ) EvalError α) (q : Program Exit (EvalState σ) EvalError β) :
    Prop :=
  Lockstep (fun _ => False) SameState V .world p q

/-- A datum is a value as it stands. -/
theorem simulates_datum {d : Sexp Word} (h : d.Held P s) :
    Simulates (σ := σ) (IsValue P s) (pure d.word) (pure (.datum d)) :=
  .pure fun _ _ => ⟨rfl, h⟩

/-- A symbol has the value of its name. -/
theorem evalSymbol_simulates {label : Word} {name : String}
    (h : (Sexp.symbol label name).Held P s) :
    Simulates (IsValue P s) (evalSymbol ⟨s.arena, s.symbols, primitives⟩ label)
      (refSymbol (.symbol label name) name) := by
  intro _ _ a b hab
  obtain ⟨rfl, hbindings⟩ := hab
  refine .inr ⟨.world, le_rfl, ?_⟩
  simp only [evalSymbol, refSymbol, h.represents.2]
  by_cases ht : name = "t"
  · rw [if_pos ht, if_pos ht]
    exact ⟨⟨rfl, hbindings⟩, .ok ⟨rfl, h⟩⟩
  · rw [if_neg ht, if_neg ht]
    cases hvalue : a.world.bindings.value name with
    | none => exact ⟨⟨rfl, hbindings⟩, .err _⟩
    | some word => exact ⟨⟨rfl, hbindings⟩, .ok ⟨rfl, hbindings name word hvalue⟩⟩

/-- A call gives the word that the primitive returns. -/
theorem callPrimitive_simulates (hprimitives : primitives.NonCons) (name : String)
    (args : List Word) :
    Simulates (IsValue P s) (callPrimitive primitives name args)
      (callPrimitive primitives name args >>= fun word => pure (.host word)) := by
  rintro _ - a _ ⟨rfl, hbindings⟩
  refine .inr ⟨.world, le_rfl, ?_⟩
  cases hname : primitives name with
  | none =>
      have hrun := callPrimitive_of_none hname args a
      rw [Program.bind_err hrun, hrun]
      exact ⟨⟨rfl, hbindings⟩, .err _⟩
  | some primitive =>
      have hrun := callPrimitive_of_some hname args a
      have hafter := hprimitives.bindings name primitive hname args a.world hbindings
      have hresult := hprimitives.result name primitive hname args a.world
      generalize primitive.call args a.world = run at hrun hafter hresult
      obtain ⟨result, world⟩ := run
      cases result with
      | ok word =>
          rw [Program.bind_ok hrun, hrun]
          exact ⟨⟨rfl, hafter⟩, .ok ⟨rfl, hresult word rfl⟩⟩
      | failed message =>
          rw [Program.bind_err hrun, hrun]
          exact ⟨⟨rfl, hafter⟩, .err _⟩
      | panicked =>
          rw [Program.bind_panic hrun, hrun]
          exact ⟨⟨rfl, hafter⟩, .panic⟩
      | exited =>
          rw [Program.bind_abort hrun, hrun]
          exact ⟨⟨rfl, hafter⟩, .abort _⟩

/-- A form with one argument is taken apart as its tree is. -/
theorem singleArgument_eq (d : Sexp Word) (form : String) : d.Held P s →
    singleArgument P ⟨s.arena, s.symbols, primitives⟩ d.word form =
      match d with
      | .pair _ argument .nil => pure argument.word
      | _ => Program.throw (.invalidForm (form ++ " takes exactly one argument")) := by
  intro h
  have htag := h.represents.tagOf_word
  rw [singleArgument, htag]
  cases d with
  | fixnum | symbol | string | nil =>
      rw [Sexp.tag]
      exact if_pos (by decide)
  | pair label head tail =>
      rw [Sexp.tag, if_neg (not_not_intro rfl), Sexp.word, h.represents.accessors.1,
        h.represents.accessors.2]
      change (if tail.word ≠ wordNil then _ else _) = _
      cases tail with
      | nil => exact if_neg (by decide)
      | fixnum | symbol | string | pair =>
          refine if_pos fun hnil => ?_
          exact absurd (h.tail.1.represents.word_eq_wordNil hnil) (by simp)

/-- A clause is taken apart as its tree is. -/
theorem condClause_eq (d : Sexp Word) : d.Held P s →
    condClause P ⟨s.arena, s.symbols, primitives⟩ d.word =
      match d with
      | .pair _ test (.pair _ body .nil) => pure (test.word, body.word)
      | _ => Program.throw (.invalidForm "cond clause takes exactly two forms") := by
  intro h
  have htag := h.represents.tagOf_word
  rw [condClause, htag]
  cases d with
  | fixnum | symbol | string | nil =>
      rw [Sexp.tag]
      exact if_pos (by decide)
  | pair label test rest =>
      rw [Sexp.tag, if_neg (not_not_intro rfl), Sexp.word, h.represents.accessors.1,
        h.represents.accessors.2]
      have hrest := h.tail.1
      change (if tagOf rest.word ≠ tagCons then _ else _) = _
      rw [hrest.represents.tagOf_word]
      cases rest with
      | fixnum | symbol | string | nil =>
          rw [Sexp.tag]
          exact if_pos (by decide)
      | pair label' body tail =>
          rw [Sexp.tag, if_neg (not_not_intro rfl), Sexp.word, hrest.represents.accessors.1,
            hrest.represents.accessors.2]
          change (if tail.word ≠ wordNil then _ else _) = _
          cases tail with
          | nil => exact if_neg (by decide)
          | fixnum | symbol | string | pair =>
              refine if_pos fun hnil => ?_
              exact absurd (hrest.tail.1.represents.word_eq_wordNil hnil) (by simp)

/-- What the simulation says about the five functions at one amount of fuel, on trees that
are small enough for it. -/
structure SimulatesAt (P : Platform) (primitives : Primitives σ) (s : ReaderState)
    (fuel : Nat) : Prop where
  eval : ∀ d : Sexp Word, d.Held P s → 3 * d.cells + 1 ≤ fuel →
    Simulates (IsValue P s) (eval P ⟨s.arena, s.symbols, primitives⟩ fuel d.word)
      (refEval P primitives d)
  list : ∀ label head tail, (Sexp.pair label head tail).Held P s →
    3 * (Sexp.pair label head tail).cells ≤ fuel →
    Simulates (IsValue P s) (evalList P ⟨s.arena, s.symbols, primitives⟩ fuel label)
      (refEval P primitives (.pair label head tail))
  accessor : ∀ (d : Sexp Word) name access part, d.Held P s → 3 * d.cells + 1 ≤ fuel →
    (∀ label head tail, (Sexp.pair label head tail).Held P s →
      access label = .ok (part head tail).word ∧ (part head tail).Held P s) →
    Simulates (IsValue P s)
      (evalCheckedAccessor P ⟨s.arena, s.symbols, primitives⟩ fuel d.word name access)
      (refAccessor P primitives d name part)
  args : ∀ d : Sexp Word, d.Held P s → d.IsList → 3 * d.cells + 1 ≤ fuel →
    Simulates (fun k => List.Forall₂ (IsValue P s k))
      (evalArgs P ⟨s.arena, s.symbols, primitives⟩ fuel d.word) (refArgs P primitives d)
  cond : ∀ d : Sexp Word, d.Held P s → d.IsList → 3 * d.cells + 1 ≤ fuel →
    Simulates (IsValue P s) (evalCond P ⟨s.arena, s.symbols, primitives⟩ fuel d.word)
      (refCond P primitives d)

namespace SimulatesAt

variable {fuel : Nat} (ih : SimulatesAt P primitives s fuel)

include ih

/-- A form, with one more unit of fuel. -/
theorem eval_succ (d : Sexp Word) (h : d.Held P s) (hfuel : 3 * d.cells + 1 ≤ fuel + 1) :
    Simulates (IsValue P s) (LispHost.eval P ⟨s.arena, s.symbols, primitives⟩ (fuel + 1) d.word)
      (refEval P primitives d) := by
  have htag := h.represents.tagOf_word
  rw [LispHost.eval, htag]
  cases d with
  | fixnum | string | nil =>
      rw [Sexp.tag, if_pos (by decide)]
      exact simulates_datum h
  | symbol label name =>
      rw [Sexp.tag, if_neg (by decide), if_pos rfl]
      exact evalSymbol_simulates h
  | pair label head tail =>
      rw [Sexp.tag, if_neg (by decide), if_neg (by decide), if_pos rfl]
      exact ih.list label head tail h (by omega)

/-- A list by the name at its head, with one more unit of fuel. -/
theorem list_succ (hprimitives : primitives.NonCons) (label : Word) (head tail : Sexp Word)
    (h : (Sexp.pair label head tail).Held P s)
    (hfuel : 3 * (Sexp.pair label head tail).cells ≤ fuel + 1) :
    Simulates (IsValue P s) (evalList P ⟨s.arena, s.symbols, primitives⟩ (fuel + 1) label)
      (refEval P primitives (.pair label head tail)) := by
  have hcells : 3 * tail.cells + 1 ≤ fuel := by
    simp only [Sexp.cells] at hfuel
    omega
  have htail := h.tail
  rw [evalList, h.represents.accessors.1, h.represents.accessors.2]
  change Simulates _ (if tagOf head.word ≠ tagSymbol then _ else _) _
  rw [h.head.represents.tagOf_word]
  cases head with
  | fixnum | string | nil | pair =>
      rw [Sexp.tag, if_pos (by decide)]
      exact .throw _
  | symbol label' name =>
      have hname : s.symbols.nameOf (Sexp.symbol label' name).word = some name :=
        h.head.represents.2
      rw [Sexp.tag, if_neg (not_not_intro rfl), refEval]
      simp only [hname]
      split
      · exact ih.cond tail htail.1 htail.2 hcells
      split
      · rw [singleArgument_eq tail "quote" htail.1, refQuote.eq_def]
        split
        · exact simulates_datum htail.1.head
        · exact .throw _
      split
      · exact ih.accessor tail "car" _ _ htail.1 hcells fun l a b hpair =>
          ⟨hpair.represents.accessors.1, hpair.head⟩
      split
      · exact ih.accessor tail "cdr" _ _ htail.1 hcells fun l a b hpair =>
          ⟨hpair.represents.accessors.2, hpair.tail.1⟩
      · refine (ih.args tail htail.1 htail.2 hcells).bind fun _ _ args values hargs => ?_
        have hwords : values.map Value.word = args := by
          induction hargs with
          | nil => rfl
          | cons hvalue _ ih => rw [List.map_cons, ih, hvalue.1]
        rw [refCall_eq, hwords]
        exact callPrimitive_simulates hprimitives name args

/-- An accessor takes its part of the value of its argument, with one more unit of fuel. -/
theorem accessor_succ (d : Sexp Word) (name : String) (access : Word → Except Exit Word)
    (part : Sexp Word → Sexp Word → Sexp Word) (h : d.Held P s)
    (hfuel : 3 * d.cells + 1 ≤ fuel + 1)
    (hpart : ∀ label head tail, (Sexp.pair label head tail).Held P s →
      access label = .ok (part head tail).word ∧ (part head tail).Held P s) :
    Simulates (IsValue P s)
      (evalCheckedAccessor P ⟨s.arena, s.symbols, primitives⟩ (fuel + 1) d.word name access)
      (refAccessor P primitives d name part) := by
  rw [evalCheckedAccessor, singleArgument_eq d name h, refAccessor.eq_def]
  split
  · rename_i label argument
    have hcells : 3 * argument.cells + 1 ≤ fuel := by
      simp only [Sexp.cells] at hfuel
      omega
    refine (ih.eval argument h.head hcells).bind fun _ _ word value hvalue => ?_
    obtain ⟨rfl, hheld⟩ := hvalue
    cases value with
    | host word =>
        have hnotCons : tagOf word ≠ tagCons := hheld
        rw [Value.word, if_pos hnotCons]
        exact .throw _
    | datum tree =>
        rw [Value.word, hheld.represents.tagOf_word]
        cases tree with
        | fixnum | symbol | string | nil =>
            rw [Sexp.tag, if_pos (by decide)]
            exact .throw _
        | pair label' head tail =>
            obtain ⟨haccess, hpartHeld⟩ := hpart label' head tail hheld
            rw [Sexp.tag, if_neg (not_not_intro rfl), Sexp.word, haccess]
            exact simulates_datum hpartHeld
  · rename_i hne
    split
    · exact absurd rfl (hne _ _)
    · rw [Program.throw_bind]
      exact .throw _

/-- The arguments one by one, with one more unit of fuel. -/
theorem args_succ (d : Sexp Word) (h : d.Held P s) (hlist : d.IsList)
    (hfuel : 3 * d.cells + 1 ≤ fuel + 1) :
    Simulates (fun k => List.Forall₂ (IsValue P s k))
      (evalArgs P ⟨s.arena, s.symbols, primitives⟩ (fuel + 1) d.word)
      (refArgs P primitives d) := by
  rw [evalArgs]
  cases d with
  | fixnum | symbol | string => exact hlist.elim
  | nil =>
      rw [Sexp.word, if_pos rfl, refArgs.eq_def]
      exact .pure fun _ _ => .nil
  | pair label item rest =>
      simp only [Sexp.cells] at hfuel
      have hne : label ≠ wordNil := fun hnil =>
        absurd (h.represents.word_eq_wordNil hnil) (by simp)
      rw [Sexp.word, if_neg hne, h.represents.accessors.1, h.represents.accessors.2, refArgs]
      refine (ih.eval item h.head (by omega)).bind fun _ _ word value hvalue => ?_
      refine (ih.args rest h.tail.1 h.tail.2 (by omega)).bind fun _ _ words values hvalues => ?_
      exact .pure fun _ _ => .cons hvalue hvalues

/-- The clauses one by one, with one more unit of fuel. -/
theorem cond_succ (d : Sexp Word) (h : d.Held P s) (hlist : d.IsList)
    (hfuel : 3 * d.cells + 1 ≤ fuel + 1) :
    Simulates (IsValue P s)
      (evalCond P ⟨s.arena, s.symbols, primitives⟩ (fuel + 1) d.word)
      (refCond P primitives d) := by
  rw [evalCond]
  cases d with
  | fixnum | symbol | string => exact hlist.elim
  | nil =>
      rw [Sexp.word, if_pos rfl, refCond.eq_def]
      exact simulates_datum h
  | pair label clause rest =>
      simp only [Sexp.cells] at hfuel
      have hne : label ≠ wordNil := fun hnil =>
        absurd (h.represents.word_eq_wordNil hnil) (by simp)
      rw [Sexp.word, if_neg hne, show tagOf label = tagCons from h.represents.tagOf_word,
        if_neg (not_not_intro rfl), h.represents.accessors.1, h.represents.accessors.2]
      change Simulates _ (condClause P ⟨s.arena, s.symbols, primitives⟩ clause.word >>= _) _
      rw [condClause_eq clause h.head, refCond.eq_def]
      split
      · rename_i label' test label'' body
        have hclause := h.head
        simp only [Sexp.cells] at hfuel
        refine (ih.eval test hclause.head (by omega)).bind fun _ _ word value hvalue => ?_
        obtain ⟨rfl, hheld⟩ := hvalue
        rw [Value.isTruthy_word hheld]
        by_cases htrue : value.isTrue
        · rw [if_pos htrue, if_pos htrue]
          exact ih.eval body hclause.tail.1.head (by omega)
        · rw [if_neg htrue, if_neg htrue]
          exact ih.cond rest h.tail.1 h.tail.2 (by omega)
      · rename_i hne
        split
        · rename_i heq
          simp only [Sexp.pair.injEq] at heq
          exact absurd heq.2.1 (hne _ _ _ _)
        · rw [Program.throw_bind]
          exact .throw _
        · rename_i hpair
          exact absurd rfl (hpair _ _ _)

end SimulatesAt

/-- **The simulation.** -/
theorem evalSimulates (hprimitives : primitives.NonCons) (fuel : Nat) :
    SimulatesAt P primitives s fuel := by
  induction fuel with
  | zero =>
      refine ⟨fun d _ h => ?_, fun label head tail _ h => ?_, fun d _ _ _ _ h _ => ?_,
        fun d _ _ h => ?_, fun d _ _ h => ?_⟩
      · omega
      · simp only [Sexp.cells] at h
        omega
      · omega
      · omega
      · omega
  | succ fuel ih =>
      exact ⟨ih.eval_succ, ih.list_succ hprimitives, ih.accessor_succ, ih.args_succ,
        ih.cond_succ⟩

/-- An accepted text is one form of the grammar, and the heap holds its tree. -/
theorem held_of_readOne {text : String} {s₀ : ReaderState} {word : Word}
    (hread : readOne P text s₀ = (.ok word, s)) :
    ∃ tokens, ∃ d : Sexp Word, tokenize text = .ok tokens ∧ Parses .form tokens d.erase [] ∧
      d.word = word ∧ d.Held P s := by
  rw [readOne] at hread
  cases htokens : tokenize text with
  | error e =>
      rw [htokens] at hread
      exact absurd (congrArg Prod.fst hread) (by simp)
  | ok tokens =>
      rw [htokens] at hread
      obtain ⟨d, rfl, hparses, hrep, -, hnext, -⟩ := readTokens_eq_ok hread
      refine ⟨tokens, d, rfl, hparses, rfl, hrep, d.proper_erase.mp hparses.proper.1, ?_⟩
      have := s.arena.next_le
      omega

/-- Evaluating the word of a held tree is evaluating the tree, and ends in a held value; it
stops only where a call of a primitive does. -/
theorem Sexp.Held.eval {d : Sexp Word} (h : d.Held P s) (hprimitives : primitives.NonCons)
    {st : EvalState σ} (hbindings : st.world.bindings.NonCons) {fuel : Nat}
    (hfuel : evalFuel ≤ fuel) :
    SameState .world (LispHost.eval P ⟨s.arena, s.symbols, primitives⟩ fuel d.word st).2
        (refEval P primitives d st).2 ∧
      (LispHost.eval P ⟨s.arena, s.symbols, primitives⟩ fuel d.word st).1.Agree
        (IsValue P s .world) (refEval P primitives d st).1 ∧
      ∀ R : Stop Exit → Prop,
        (∀ name args, Program.StopsOnly R (callPrimitive primitives name args)) →
        ∀ stop, (LispHost.eval P ⟨s.arena, s.symbols, primitives⟩ fuel d.word st).1.stop =
          some stop → R stop := by
  have hbound : 3 * d.cells + 1 ≤ fuel := by
    have := h.fits
    rw [evalFuel] at hfuel
    omega
  have hsim := (evalSimulates (P := P) (s := s) hprimitives fuel).eval d h hbound
  obtain ⟨_, -, hstate, hagree⟩ :=
    hsim.agree (s := st) (t := st) ⟨rfl, hbindings⟩ (by simp [Outcome.Excused])
  refine ⟨hstate, hagree, fun R hcall stop hstop => ?_⟩
  rw [hagree.stop_eq] at hstop
  exact refEval_stops P primitives R hcall d st stop hstop

/-- **The evaluator refines the reference evaluator.** An accepted text is one form of the
grammar, and evaluating its word makes the same host calls and ends in the same way and
the same state as evaluating its tree. Only the host can stop it: the raw accessors are
never applied to a word that is not a pair, and the fuel does not run out. -/
theorem eval_refines_refEval {text : String} {s₀ : ReaderState} {word : Word}
    (hread : readOne P text s₀ = (.ok word, s)) :
    ∃ tokens d, tokenize text = .ok tokens ∧ Parses .form tokens d.erase [] ∧
      Represents P s d ∧ d.word = word ∧
      ∀ {σ : Type} (primitives : Primitives σ), primitives.NonCons →
        ∀ st : EvalState σ, st.world.bindings.NonCons → ∀ fuel, evalFuel ≤ fuel →
          (eval P ⟨s.arena, s.symbols, primitives⟩ fuel word st).2 =
              (refEval P primitives d st).2 ∧
            (eval P ⟨s.arena, s.symbols, primitives⟩ fuel word st).1.Agree
              (fun w v => v.word = w) (refEval P primitives d st).1 ∧
            ∀ stop, (eval P ⟨s.arena, s.symbols, primitives⟩ fuel word st).1.stop = some stop →
              stop = .abort .host := by
  obtain ⟨tokens, d, htokens, hparses, rfl, hheld⟩ := held_of_readOne hread
  refine ⟨tokens, d, htokens, hparses, hheld.represents, rfl, ?_⟩
  intro σ primitives hprimitives st hbindings fuel hfuel
  obtain ⟨hstate, hagree, hstop⟩ := hheld.eval hprimitives hbindings hfuel
  exact ⟨hstate.1, hagree.imp fun w v h => h.1, hstop HostStop (callPrimitive_stops primitives)⟩

/-- A call of a host primitive, read in a new session. -/
theorem eval_refines_refEval_call :
    ∃ s d, readOne .standard "(f 7)" .new = (.ok (cellWord .standard 1), s) ∧
      Sexp.word d = cellWord .standard 1 ∧
      let primitives : Primitives Unit := .single "f" (.returning (.ok wordNil))
      let st : EvalState Unit := ⟨⟨.new, [("x", wordNil)], ()⟩, []⟩
      (eval .standard ⟨s.arena, s.symbols, primitives⟩ evalFuel (cellWord .standard 1) st).2 =
          (refEval .standard primitives d st).2 ∧
        (eval .standard ⟨s.arena, s.symbols, primitives⟩ evalFuel (cellWord .standard 1) st).1.Agree
          (fun w v => v.word = w) (refEval .standard primitives d st).1 := by
  have hok : (readOne .standard "(f 7)" .new).1 = .ok (cellWord .standard 1) := by
    decide +kernel
  have hread : readOne .standard "(f 7)" .new =
      (.ok (cellWord .standard 1), (readOne .standard "(f 7)" .new).2) := by
    rw [← hok]
  obtain ⟨tokens, d, -, -, -, hword, hall⟩ := eval_refines_refEval hread
  refine ⟨_, d, hread, hword, ?_⟩
  intro primitives st
  obtain ⟨hstate, hagree, -⟩ := hall primitives (.single "f" (by decide)) st
    (.singleton "x" (by decide)) evalFuel le_rfl
  exact ⟨hstate, hagree⟩

end Simulation

end LispHost
