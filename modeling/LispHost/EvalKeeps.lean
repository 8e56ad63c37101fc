import LispHost.Eval
import LispHost.Lib.Keeps

/-!
# Invariants of the Evaluator

The evaluator touches its state in one place: it calls a host primitive. Everything else that an
evaluation reports is a text of its own or the name of a symbol. `EvalInv` lists what an
invariant has to respect, and the theorem below it says that an evaluation keeps the invariant,
however it ends.

## Main definitions

* `invalidFormTexts`, `typeErrorTexts`: the texts of the evaluator's own errors.
* `EvalInv`: what is kept by the calls of primitives.

## Main results

* `EvalInv.eval`: what an evaluation keeps.
-/

namespace LispHost

open Effects

variable {σ ι : Type} [Preorder ι]

/-- The special forms with one argument. -/
def oneArgumentForms : List String := ["quote", "car", "cdr"]

/-- The texts of the forms that are not valid. -/
def invalidFormTexts : List String :=
  oneArgumentForms.map (· ++ " takes exactly one argument") ++
    ["cond clause takes exactly two forms", "cond expects a list of clauses"]

/-- The texts of the values that have the wrong type. -/
def typeErrorTexts : List String :=
  ["car expects a non-empty list", "cdr expects a non-empty list"]

/-- An invariant of the states, and a predicate on errors, that an evaluation keeps. -/
structure EvalInv (Γ : EvalContext σ) (S : ι → EvalState σ → Prop) (E : EvalError → Prop) :
    Prop where
  call : ∀ (i : ι) {word : Word} {name : String} (args : List Word),
    Γ.symbols.nameOf word = some name →
      Keeps S (fun _ _ => True) E i (callPrimitive Γ.primitives name args)
  unknownSymbol : ∀ {word : Word} {name : String},
    Γ.symbols.nameOf word = some name → E (.unknownSymbol name)
  notCallable : E .notCallable
  invalidForm : ∀ message ∈ invalidFormTexts, E (.invalidForm message)
  typeError : ∀ message ∈ typeErrorTexts, E (.typeError message)

namespace EvalInv

variable {P : Platform} {Γ : EvalContext σ} {S : ι → EvalState σ → Prop} {E : EvalError → Prop}
  (R : EvalInv Γ S E)

/-- Loading a word changes nothing. -/
theorem load (i : ι) (word : Except Exit Word) :
    Keeps S (fun _ _ => True) E i (load word) := by
  cases word with
  | ok word => exact .pure fun _ _ => trivial
  | error exit => exact .abort exit

include R

/-- The value of a symbol changes nothing, and its error is the one allowed. -/
theorem evalSymbol (i : ι) (word : Word) :
    Keeps S (fun _ _ => True) E i (evalSymbol Γ word) := by
  intro j _ s hS
  rw [LispHost.evalSymbol]
  cases hname : Γ.symbols.nameOf word with
  | none => exact ⟨j, le_rfl, hS, by simp, by simp⟩
  | some name =>
      by_cases ht : name = "t"
      · simp only [if_pos ht]
        exact ⟨j, le_rfl, hS, by simp, by simp⟩
      · simp only [if_neg ht]
        cases s.world.bindings.value name with
        | none =>
            refine ⟨j, le_rfl, hS, by simp, fun e he => ?_⟩
            cases he
            exact R.unknownSymbol hname
        | some value => exact ⟨j, le_rfl, hS, by simp, by simp⟩

/-- A form with one argument fails with its own text only. -/
theorem singleArgument (i : ι) (list : Word) {form : String} (hform : form ∈ oneArgumentForms) :
    Keeps S (fun _ _ => True) E i (singleArgument P Γ list form) := by
  have herror : E (.invalidForm (form ++ " takes exactly one argument")) :=
    R.invalidForm _ (List.mem_append_left _ (List.mem_map_of_mem hform))
  rw [LispHost.singleArgument]
  by_cases htag : tagOf list = tagCons
  · rw [if_neg (not_not_intro htag)]
    refine (load i _).bind fun j _ argument _ => ?_
    refine (load j _).bind fun k _ tail _ => ?_
    by_cases htail : tail = wordNil
    · rw [if_neg (not_not_intro htail)]
      exact .pure fun _ _ => trivial
    · rw [if_pos htail]
      exact .throw herror
  · rw [if_pos htag]
    exact .throw herror

/-- So does a clause of `cond`. -/
theorem condClause (i : ι) (clause : Word) :
    Keeps S (fun _ _ => True) E i (condClause P Γ clause) := by
  have herror : E (.invalidForm "cond clause takes exactly two forms") :=
    R.invalidForm _ (List.mem_append_right _ List.mem_cons_self)
  rw [LispHost.condClause]
  by_cases htag : tagOf clause = tagCons
  · rw [if_neg (not_not_intro htag)]
    refine (load i _).bind fun j _ test _ => ?_
    refine (load j _).bind fun k _ body _ => ?_
    by_cases hbody : tagOf body = tagCons
    · rw [if_neg (not_not_intro hbody)]
      refine (load k _).bind fun l _ result _ => ?_
      refine (load l _).bind fun m _ tail _ => ?_
      by_cases htail : tail = wordNil
      · rw [if_neg (not_not_intro htail)]
        exact .pure fun _ _ => trivial
      · rw [if_pos htail]
        exact .throw herror
    · rw [if_pos hbody]
      exact .throw herror
  · rw [if_pos htag]
    exact .throw herror

/-- What keeping the invariant means for the mutual recursion at one amount of fuel. -/
structure AtFuel (P : Platform) (Γ : EvalContext σ) (S : ι → EvalState σ → Prop)
    (E : EvalError → Prop) (fuel : Nat) : Prop where
  eval : ∀ i word, Keeps S (fun _ _ => True) E i (eval P Γ fuel word)
  evalList : ∀ i word, Keeps S (fun _ _ => True) E i (evalList P Γ fuel word)
  evalCheckedAccessor : ∀ i list, ∀ name ∈ ["car", "cdr"], ∀ accessor,
    Keeps S (fun _ _ => True) E i (evalCheckedAccessor P Γ fuel list name accessor)
  evalArgs : ∀ i list, Keeps S (fun _ _ => True) E i (evalArgs P Γ fuel list)
  evalCond : ∀ i clauses, Keeps S (fun _ _ => True) E i (evalCond P Γ fuel clauses)

section Succ

variable {fuel : Nat} (ih : AtFuel P Γ S E fuel)

include ih

/-- Evaluation with one more unit of fuel. -/
theorem eval_succ (i : ι) (word : Word) :
    Keeps S (fun _ _ => True) E i (LispHost.eval P Γ (fuel + 1) word) := by
  rw [LispHost.eval]
  by_cases hself : tagOf word = tagFixnum ∨ tagOf word = tagNil ∨ tagOf word = tagBoxed
  · rw [if_pos hself]
    exact .pure fun _ _ => trivial
  · rw [if_neg hself]
    by_cases hsymbol : tagOf word = tagSymbol
    · rw [if_pos hsymbol]
      exact R.evalSymbol i word
    · rw [if_neg hsymbol]
      by_cases hcons : tagOf word = tagCons
      · rw [if_pos hcons]
        exact ih.evalList i word
      · rw [if_neg hcons]
        exact .pure fun _ _ => trivial

/-- A list with one more unit of fuel. -/
theorem evalList_succ (i : ι) (word : Word) :
    Keeps S (fun _ _ => True) E i (LispHost.evalList P Γ (fuel + 1) word) := by
  rw [LispHost.evalList]
  refine (load i _).bind fun j _ head _ => ?_
  refine (load j _).bind fun k _ rest _ => ?_
  by_cases hsymbol : tagOf head = tagSymbol
  · rw [if_neg (not_not_intro hsymbol)]
    cases hname : Γ.symbols.nameOf head with
    | none => exact .panic
    | some name =>
        by_cases hcond : P.condSpellings.contains name
        · simp only [if_pos hcond]
          exact ih.evalCond k rest
        · simp only [if_neg hcond]
          by_cases hquote : P.quoteSpellings.contains name
          · simp only [if_pos hquote]
            exact R.singleArgument k rest (by simp [oneArgumentForms])
          · simp only [if_neg hquote]
            by_cases hcar : P.carSpellings.contains name
            · simp only [if_pos hcar]
              exact ih.evalCheckedAccessor k rest "car" (by simp) _
            · simp only [if_neg hcar]
              by_cases hcdr : P.cdrSpellings.contains name
              · simp only [if_pos hcdr]
                exact ih.evalCheckedAccessor k rest "cdr" (by simp) _
              · simp only [if_neg hcdr]
                exact (ih.evalArgs k rest).bind fun l _ args _ => R.call l args hname
  · rw [if_pos hsymbol]
    exact .throw R.notCallable

/-- An accessor with one more unit of fuel. -/
theorem evalCheckedAccessor_succ (i : ι) (list : Word) (name : String)
    (hname : name ∈ ["car", "cdr"]) (accessor : Word → Except Exit Word) :
    Keeps S (fun _ _ => True) E i
      (LispHost.evalCheckedAccessor P Γ (fuel + 1) list name accessor) := by
  have hform : name ∈ oneArgumentForms := List.mem_cons_of_mem _ hname
  have htext : name ++ " expects a non-empty list" ∈ typeErrorTexts :=
    List.mem_map_of_mem (f := (· ++ " expects a non-empty list")) hname
  rw [LispHost.evalCheckedAccessor]
  refine (R.singleArgument i list hform).bind fun j _ argument _ => ?_
  refine (ih.eval j argument).bind fun k _ value _ => ?_
  by_cases hcons : tagOf value = tagCons
  · rw [if_neg (not_not_intro hcons)]
    exact load k _
  · rw [if_pos hcons]
    exact .throw (R.typeError _ htext)

omit R in
/-- The arguments with one more unit of fuel. -/
theorem evalArgs_succ (i : ι) (list : Word) :
    Keeps S (fun _ _ => True) E i (LispHost.evalArgs P Γ (fuel + 1) list) := by
  rw [LispHost.evalArgs]
  by_cases hnil : list = wordNil
  · rw [if_pos hnil]
    exact .pure fun _ _ => trivial
  · rw [if_neg hnil]
    refine (load i _).bind fun j _ item _ => ?_
    refine (ih.eval j item).bind fun k _ value _ => ?_
    refine (load k _).bind fun l _ rest _ => ?_
    refine (ih.evalArgs l rest).bind fun m _ values _ => ?_
    exact .pure fun _ _ => trivial

/-- The clauses with one more unit of fuel. -/
theorem evalCond_succ (i : ι) (clauses : Word) :
    Keeps S (fun _ _ => True) E i (LispHost.evalCond P Γ (fuel + 1) clauses) := by
  rw [LispHost.evalCond]
  by_cases hnil : clauses = wordNil
  · rw [if_pos hnil]
    exact .pure fun _ _ => trivial
  · rw [if_neg hnil]
    by_cases hcons : tagOf clauses = tagCons
    · rw [if_neg (not_not_intro hcons)]
      refine (load i _).bind fun j _ clause _ => ?_
      refine (R.condClause j clause).bind fun k _ forms _ => ?_
      refine (ih.eval k forms.1).bind fun l _ test _ => ?_
      by_cases htest : isTruthy test
      · rw [if_pos htest]
        exact ih.eval l forms.2
      · rw [if_neg htest]
        exact (load l _).bind fun m _ rest _ => ih.evalCond m rest
    · rw [if_pos hcons]
      exact .throw (R.invalidForm _ (List.mem_append_right _ (by simp)))

end Succ

/-- All parts of the evaluator with any fuel. -/
theorem atFuel (fuel : Nat) : AtFuel P Γ S E fuel := by
  induction fuel with
  | zero =>
      refine ⟨fun i word => ?_, fun i word => ?_, fun i list name _ accessor => ?_,
        fun i list => ?_, fun i clauses => ?_⟩
      · rw [LispHost.eval]
        exact .timeout
      · rw [LispHost.evalList]
        exact .timeout
      · rw [LispHost.evalCheckedAccessor]
        exact .timeout
      · rw [LispHost.evalArgs]
        exact .timeout
      · rw [LispHost.evalCond]
        exact .timeout
  | succ fuel ih =>
      exact ⟨R.eval_succ ih, R.evalList_succ ih, R.evalCheckedAccessor_succ ih,
        evalArgs_succ ih, R.evalCond_succ ih⟩

/-- **An evaluation keeps the invariant.** -/
theorem eval (i : ι) (fuel : Nat) (word : Word) :
    Keeps S (fun _ _ => True) E i (LispHost.eval P Γ fuel word) :=
  (R.atFuel fuel).eval i word

end EvalInv

end LispHost
