import LispHost.Arena
import LispHost.Boxed
import LispHost.Symbols

/-!
# The Evaluator

The evaluator runs over words: it reads the arena and the symbol table, which nothing
changes during an evaluation, and calls host primitives, which may change everything the
host can reach. `fuel` bounds the mutual recursion; each function hands the remaining
fuel to its calls.

A host primitive is an arbitrary function on the `HostWorld`, the part of the session the
C interface lets it reach, together with what the interface guarantees: the boxed table
only grows and bindings are only added. Evaluations do not nest: no primitive of the
adapter calls `wsm_eval_string`. `Bindings` keeps every binding ever made, the latest
first, so that overwriting one does not erase it from the model.

## Main definitions

* `HostWorld`, `HostPrimitive`, `EvalContext`, `EvalState`.
* `eval`, `evalList`, `evalArgs`, `evalCond`: the evaluator.
* `evalSymbol`, `singleArgument`, `condClause`, `callPrimitive`: its helpers.
-/

namespace LispHost

open Effects

/-- Why an evaluation fails. -/
inductive EvalError where
  | unknownSymbol (name : String)
  | notCallable
  | invalidForm (message : String)
  | typeError (message : String)
  | hostPrimitiveFailed (name message : String)
deriving DecidableEq, Repr

/-! ### The host -/

/-- The bindings of a session, the latest first. -/
abbrev Bindings : Type := List (String × Word)

/-- The value a name is bound to. -/
def Bindings.value (bindings : Bindings) (name : String) : Option Word :=
  List.lookup name bindings

/-- The value of a name stands next to it in the bindings. -/
theorem Bindings.mem_of_value {bindings : Bindings} {name : String} {word : Word}
    (h : bindings.value name = some word) : (name, word) ∈ bindings := by
  obtain ⟨before, after, heq, -⟩ := List.lookup_eq_some_iff.mp h
  exact heq ▸ List.mem_append_right before List.mem_cons_self

/-- `Env::bind`. -/
def Bindings.bind (bindings : Bindings) (name : String) (value : Word) : Bindings :=
  (name, value) :: bindings

/-- What a host primitive can reach: the boxed table and the bindings of its session, and
the host's own state. -/
structure HostWorld (σ : Type) where
  boxed : BoxedTable
  bindings : Bindings
  host : σ

/-- How a call of a host primitive ends. -/
inductive HostResult where
  | ok (word : Word)
  | failed (message : String)
  | panicked
  | exited
deriving DecidableEq, Repr

/-- A host primitive, with what the C interface guarantees about every call. -/
structure HostPrimitive (σ : Type) where
  call : List Word → HostWorld σ → HostResult × HostWorld σ
  boxed_le : ∀ args world, world.boxed ≤ (call args world).2.boxed
  bindings_suffix : ∀ args world, world.bindings <:+ (call args world).2.bindings

/-- A primitive that changes nothing and always ends the same way. -/
def HostPrimitive.returning {σ : Type} (result : HostResult) : HostPrimitive σ where
  call _ world := (result, world)
  boxed_le _ world := BoxedTable.le_refl world.boxed
  bindings_suffix _ world := List.suffix_refl world.bindings

/-- The registered primitives of a session. -/
abbrev Primitives (σ : Type) : Type := String → Option (HostPrimitive σ)

/-- One registered primitive. -/
def Primitives.single {σ : Type} (name : String) (primitive : HostPrimitive σ) : Primitives σ :=
  fun name' => if name' = name then some primitive else none

/-- The record of one call of a host primitive: its name, its argument words, the session's
tables at that moment, and how it ended. -/
structure HostCall where
  name : String
  args : List Word
  boxed : BoxedTable
  bindings : Bindings
  result : HostResult

/-- What an evaluation reads and does not change. -/
structure EvalContext (σ : Type) where
  arena : Arena
  symbols : SymbolTable
  primitives : Primitives σ

/-- What an evaluation changes. `calls` records the calls of host primitives, in order. -/
structure EvalState (σ : Type) where
  world : HostWorld σ
  calls : List HostCall

/-! ### The evaluator -/

variable {σ : Type} (P : Platform) (Γ : EvalContext σ)

/-- A raw accessor inside an evaluation: its failure ends the process. -/
def load (word : Except Exit Word) : Program Exit (EvalState σ) EvalError Word :=
  match word with
  | .ok word => pure word
  | .error exit => Program.abort exit

/-- Look a symbol up: `t` is itself, any other name is its binding. -/
def evalSymbol (word : Word) : Program Exit (EvalState σ) EvalError Word := fun s =>
  match Γ.symbols.nameOf word with
  | none => (.panic, s)
  | some name =>
      if name = "t" then (.ok word, s)
      else
        match s.world.bindings.value name with
        | some value => (.ok value, s)
        | none => (.err (.unknownSymbol name), s)

/-- The only argument of a form. -/
def singleArgument (list : Word) (form : String) :
    Program Exit (EvalState σ) EvalError Word :=
  if tagOf list ≠ tagCons then
    Program.throw (.invalidForm (form ++ " takes exactly one argument"))
  else do
    let argument ← load (wsmCar P Γ.arena list)
    let tail ← load (wsmCdr P Γ.arena list)
    if tail ≠ wordNil then
      Program.throw (.invalidForm (form ++ " takes exactly one argument"))
    else
      pure argument

/-- The two forms of a `cond` clause. -/
def condClause (clause : Word) : Program Exit (EvalState σ) EvalError (Word × Word) :=
  if tagOf clause ≠ tagCons then
    Program.throw (.invalidForm "cond clause takes exactly two forms")
  else do
    let test ← load (wsmCar P Γ.arena clause)
    let body ← load (wsmCdr P Γ.arena clause)
    if tagOf body ≠ tagCons then
      Program.throw (.invalidForm "cond clause takes exactly two forms")
    else do
      let result ← load (wsmCar P Γ.arena body)
      let tail ← load (wsmCdr P Γ.arena body)
      if tail ≠ wordNil then
        Program.throw (.invalidForm "cond clause takes exactly two forms")
      else
        pure (test, result)

/-- How an evaluation goes on behind a call of the primitive. -/
def HostResult.outcome (name : String) : HostResult → Outcome Exit EvalError Word
  | ok word => .ok word
  | failed message => .err (.hostPrimitiveFailed name message)
  | panicked => .panic
  | exited => .abort .host

/-- Call the primitive of that name on evaluated arguments. -/
def callPrimitive (primitives : Primitives σ) (name : String) (args : List Word) :
    Program Exit (EvalState σ) EvalError Word := fun s =>
  match primitives name with
  | none => (.err (.unknownSymbol name), s)
  | some primitive =>
      let result := primitive.call args s.world
      (result.1.outcome name,
        ⟨result.2, s.calls ++ [⟨name, args, s.world.boxed, s.world.bindings, result.1⟩]⟩)

/-- A name without a primitive is an unknown symbol, and nothing is called. -/
theorem callPrimitive_of_none {primitives : Primitives σ} {name : String}
    (h : primitives name = none) (args : List Word) (s : EvalState σ) :
    callPrimitive primitives name args s = (.err (.unknownSymbol name), s) := by
  rw [callPrimitive, h]

/-- A primitive is called, its call is recorded, and its result is that of the form. -/
theorem callPrimitive_of_some {primitives : Primitives σ} {name : String}
    {primitive : HostPrimitive σ} (h : primitives name = some primitive) (args : List Word)
    (s : EvalState σ) :
    callPrimitive primitives name args s =
      ((primitive.call args s.world).1.outcome name,
        ⟨(primitive.call args s.world).2, s.calls ++ [⟨name, args, s.world.boxed,
          s.world.bindings, (primitive.call args s.world).1⟩]⟩) := by
  rw [callPrimitive, h]

/-- The stop of a primitive that ends the process. -/
def HostStop (stop : Stop Exit) : Prop := stop = .abort .host

/-- Calling a primitive stops only where the primitive does. -/
theorem callPrimitive_stops (primitives : Primitives σ) (name : String) (args : List Word) :
    Program.StopsOnly HostStop (callPrimitive primitives name args) := by
  intro s r h
  cases hprimitive : primitives name with
  | none =>
      rw [callPrimitive_of_none hprimitive] at h
      cases h
  | some primitive =>
      rw [callPrimitive_of_some hprimitive] at h
      cases hresult : (primitive.call args s.world).1 with
      | ok | failed | panicked =>
          rw [hresult] at h
          cases h
      | exited =>
          rw [hresult] at h
          exact (Option.some.inj h).symm

/-- No primitive ends the process. -/
def Primitives.Return (primitives : Primitives σ) : Prop :=
  ∀ name primitive, primitives name = some primitive → ∀ args world,
    (primitive.call args world).1 ≠ .exited

/-- A host whose only primitive returns does not end the process. -/
theorem Primitives.Return.single (name : String) {result : HostResult} (h : result ≠ .exited) :
    (Primitives.single (σ := σ) name (.returning result)).Return := by
  intro name' primitive hname args world
  simp only [Primitives.single, Option.ite_none_right_eq_some, Option.some.injEq] at hname
  obtain ⟨-, rfl⟩ := hname
  exact h

/-- Calling a primitive that does not end the process does not stop. -/
theorem Primitives.Return.callPrimitive_stops {primitives : Primitives σ}
    (h : primitives.Return) (name : String) (args : List Word) :
    Program.StopsOnly (fun _ => False) (callPrimitive primitives name args) := by
  intro s r hstop
  cases hprimitive : primitives name with
  | none =>
      rw [callPrimitive_of_none hprimitive] at hstop
      cases hstop
  | some primitive =>
      rw [callPrimitive_of_some hprimitive] at hstop
      have hreturns := h name primitive hprimitive args s.world
      cases hresult : (primitive.call args s.world).1 with
      | ok | failed | panicked =>
          rw [hresult] at hstop
          cases hstop
      | exited => exact hreturns hresult

mutual

/-- `eval`: an atom is its own value or that of a symbol, and a list is a form. -/
def eval : Nat → Word → Program Exit (EvalState σ) EvalError Word
  | 0, _ => Program.timeout
  | fuel + 1, word =>
      if tagOf word = tagFixnum ∨ tagOf word = tagNil ∨ tagOf word = tagBoxed then
        pure word
      else if tagOf word = tagSymbol then
        evalSymbol Γ word
      else if tagOf word = tagCons then
        evalList fuel word
      else
        pure word

/-- A list: a special form, a checked accessor, or a call of a host primitive. -/
def evalList : Nat → Word → Program Exit (EvalState σ) EvalError Word
  | 0, _ => Program.timeout
  | fuel + 1, word => do
      let head ← load (wsmCar P Γ.arena word)
      let rest ← load (wsmCdr P Γ.arena word)
      if tagOf head ≠ tagSymbol then
        Program.throw .notCallable
      else
        match Γ.symbols.nameOf head with
        | none => Program.panic
        | some name =>
            if P.condSpellings.contains name then
              evalCond fuel rest
            else if P.quoteSpellings.contains name then
              singleArgument P Γ rest "quote"
            else if P.carSpellings.contains name then
              evalCheckedAccessor fuel rest "car" (wsmCar P Γ.arena)
            else if P.cdrSpellings.contains name then
              evalCheckedAccessor fuel rest "cdr" (wsmCdr P Γ.arena)
            else do
              let args ← evalArgs fuel rest
              callPrimitive Γ.primitives name args

/-- `car` and `cdr` check their argument before the raw accessor sees it. -/
def evalCheckedAccessor : Nat → Word → String → (Word → Except Exit Word) →
    Program Exit (EvalState σ) EvalError Word
  | 0, _, _, _ => Program.timeout
  | fuel + 1, list, canonicalName, accessor => do
      let argument ← singleArgument P Γ list canonicalName
      let value ← eval fuel argument
      if tagOf value ≠ tagCons then
        Program.throw (.typeError (canonicalName ++ " expects a non-empty list"))
      else
        load (accessor value)

/-- The values of the arguments, from left to right. -/
def evalArgs : Nat → Word → Program Exit (EvalState σ) EvalError (List Word)
  | 0, _ => Program.timeout
  | fuel + 1, list =>
      if list = wordNil then
        pure []
      else do
        let item ← load (wsmCar P Γ.arena list)
        let value ← eval fuel item
        let rest ← load (wsmCdr P Γ.arena list)
        let values ← evalArgs fuel rest
        pure (value :: values)

/-- The clauses of a `cond`: the first true test wins, and nothing behind it is
evaluated. -/
def evalCond : Nat → Word → Program Exit (EvalState σ) EvalError Word
  | 0, _ => Program.timeout
  | fuel + 1, clauses =>
      if clauses = wordNil then
        pure wordNil
      else if tagOf clauses ≠ tagCons then
        Program.throw (.invalidForm "cond expects a list of clauses")
      else do
        let clause ← load (wsmCar P Γ.arena clauses)
        let forms ← condClause P Γ clause
        let test ← eval fuel forms.1
        if isTruthy test then
          eval fuel forms.2
        else do
          let rest ← load (wsmCdr P Γ.arena clauses)
          evalCond fuel rest

end

/-- The fuel that evaluating a form of one arena cannot use up. -/
def evalFuel : Nat := 4 * arenaCells + 8

end LispHost
