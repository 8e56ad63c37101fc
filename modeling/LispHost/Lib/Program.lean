import Mathlib.Order.Basic

/-!
# Stateful Programs and Their Two-Run Logic

A program over a state `σ` either returns a value, reports an error that its caller can
handle, panics (unwinds to the nearest handler), ends the process, or runs out of the
fuel that bounds a recursion of the model. `Program φ σ ε α` is the type of such
programs: `φ` names the ways the process can end and `ε` the reportable errors.

The logic of this module is relational. `Lockstep X S V i p q` says that from any two
states related by `S` the programs `p` and `q` end alike, in related states and with
values related by `V`. Both relations are indexed by a preorder `ι` of worlds that only
grows along a run, so that a relation may record what the two runs have allocated so
far. Where the first run ends the process for a reason in `X`, nothing is compared.

## Main definitions

* `Outcome`, `Program`: outcomes and programs, with a monad structure.
* `StopsOnly`: for which reasons a program can stop without a handler.
* `Program.attempt`: hand an error to the caller as a value.
* `Program.zoom`: run a program on a part of a larger state.
* `Lockstep`: the indexed two-run relation.
* `Fixed`: the index of relations that do not change.

## Main results

* `Lockstep.pure`, `Lockstep.bind` and the others: the rules by which a lockstep proof
  follows the text of the two programs.
* `Lockstep.agree`: what a lockstep says about two runs that are not excused.
-/

namespace Effects

/-- How a program ends. `timeout` is the model running out of fuel; it is not something
a program does. -/
inductive Outcome (φ ε α : Type) where
  | ok (value : α)
  | err (error : ε)
  | panic
  | abort (reason : φ)
  | timeout
deriving DecidableEq, Repr

/-- Why a run stops, when no handler gets control back. -/
inductive Stop (φ : Type) where
  | abort (reason : φ)
  | timeout
deriving DecidableEq, Repr

/-- The stop that an outcome is, if it is one. -/
def Outcome.stop {φ ε α : Type} : Outcome φ ε α → Option (Stop φ)
  | abort r => some (.abort r)
  | timeout => some .timeout
  | _ => none

/-- A program over the state `σ`. -/
def Program (φ σ ε α : Type) : Type := σ → Outcome φ ε α × σ

variable {φ σ τ ε ε' α β γ δ : Type}

namespace Program

/-- Return a value and leave the state alone. -/
protected def pure (a : α) : Program φ σ ε α := fun s => (.ok a, s)

/-- Run `p`, and continue with `f` when it returns a value. -/
protected def bind (p : Program φ σ ε α) (f : α → Program φ σ ε β) :
    Program φ σ ε β := fun s =>
  match p s with
  | (.ok a, s') => f a s'
  | (.err e, s') => (.err e, s')
  | (.panic, s') => (.panic, s')
  | (.abort r, s') => (.abort r, s')
  | (.timeout, s') => (.timeout, s')

instance : Monad (Program φ σ ε) where
  pure := Program.pure
  bind := Program.bind

/-- Report an error. -/
def throw (e : ε) : Program φ σ ε α := fun s => (.err e, s)

/-- Panic. -/
def panic : Program φ σ ε α := fun s => (.panic, s)

/-- End the process. -/
def abort (r : φ) : Program φ σ ε α := fun s => (.abort r, s)

/-- The fuel of the model ran out. -/
def timeout : Program φ σ ε α := fun s => (.timeout, s)

/-- Change the state. -/
def modify (f : σ → σ) : Program φ σ ε Unit := fun s => (.ok (), f s)

/-- Run `p` and return its error, if it reports one, as a value. -/
def attempt (p : Program φ σ ε α) : Program φ σ ε' (Except ε α) := fun s =>
  match p s with
  | (.ok a, s') => (.ok (.ok a), s')
  | (.err e, s') => (.ok (.error e), s')
  | (.panic, s') => (.panic, s')
  | (.abort r, s') => (.abort r, s')
  | (.timeout, s') => (.timeout, s')

/-- Run `p` on the part of the state that `view` selects and `put` writes back. -/
def zoom (view : τ → σ) (put : τ → σ → τ) (p : Program φ σ ε α) : Program φ τ ε α :=
  fun t => ((p (view t)).1, put t (p (view t)).2)

/-! ### Running a program step by step -/

@[simp] theorem pure_apply (a : α) (s : σ) :
    (pure a : Program φ σ ε α) s = (.ok a, s) := rfl

@[simp] theorem throw_apply (e : ε) (s : σ) :
    (throw e : Program φ σ ε α) s = (.err e, s) := rfl

@[simp] theorem panic_apply (s : σ) : (panic : Program φ σ ε α) s = (.panic, s) := rfl

@[simp] theorem abort_apply (r : φ) (s : σ) :
    (abort r : Program φ σ ε α) s = (.abort r, s) := rfl

@[simp] theorem timeout_apply (s : σ) :
    (timeout : Program φ σ ε α) s = (.timeout, s) := rfl

@[simp] theorem modify_apply (f : σ → σ) (s : σ) :
    (modify f : Program φ σ ε Unit) s = (.ok (), f s) := rfl

/-- A bind continues from the value and the state its first part leaves. -/
theorem bind_ok {p : Program φ σ ε α} {f : α → Program φ σ ε β} {s s' : σ} {a : α}
    (h : p s = (.ok a, s')) : (p >>= f) s = f a s' := by
  change Program.bind p f s = f a s'
  simp only [Program.bind, h]

/-- A bind whose first part reports an error reports it. -/
theorem bind_err {p : Program φ σ ε α} {f : α → Program φ σ ε β} {s s' : σ} {e : ε}
    (h : p s = (.err e, s')) : (p >>= f) s = (.err e, s') := by
  change Program.bind p f s = _
  simp only [Program.bind, h]

/-- A bind whose first part panics panics. -/
theorem bind_panic {p : Program φ σ ε α} {f : α → Program φ σ ε β} {s s' : σ}
    (h : p s = (.panic, s')) : (p >>= f) s = (.panic, s') := by
  change Program.bind p f s = _
  simp only [Program.bind, h]

/-- A bind whose first part ends the process ends the process. -/
theorem bind_abort {p : Program φ σ ε α} {f : α → Program φ σ ε β} {s s' : σ} {r : φ}
    (h : p s = (.abort r, s')) : (p >>= f) s = (.abort r, s') := by
  change Program.bind p f s = _
  simp only [Program.bind, h]

/-- A bind whose first part runs out of fuel runs out of fuel. -/
theorem bind_timeout {p : Program φ σ ε α} {f : α → Program φ σ ε β} {s s' : σ}
    (h : p s = (.timeout, s')) : (p >>= f) s = (.timeout, s') := by
  change Program.bind p f s = _
  simp only [Program.bind, h]

/-- What is behind an error does not run. -/
theorem throw_bind (e : ε) (f : α → Program φ σ ε β) :
    (throw e >>= f : Program φ σ ε β) = throw e := rfl

/-! ### How a program can stop -/

/-- Whenever the program stops, it is for a reason in `R`. -/
def StopsOnly (R : Stop φ → Prop) (p : Program φ σ ε α) : Prop :=
  ∀ s r, (p s).1.stop = some r → R r

section StopsOnly

variable {R : Stop φ → Prop}

/-- Returning a value stops nothing. -/
theorem StopsOnly.pure (a : α) : StopsOnly R (Pure.pure a : Program φ σ ε α) := by
  rintro _ _ ⟨⟩

/-- An error is no stop. -/
theorem StopsOnly.throw (e : ε) : StopsOnly R (throw e : Program φ σ ε α) := by
  rintro _ _ ⟨⟩

/-- A panic gets to a handler, and is no stop either. -/
theorem StopsOnly.panic : StopsOnly R (panic : Program φ σ ε α) := by rintro _ _ ⟨⟩

/-- An abort stops for its own reason. -/
theorem StopsOnly.abort {r : φ} (hr : R (.abort r)) :
    StopsOnly R (abort r : Program φ σ ε α) := by
  rintro s r' h
  obtain rfl : Stop.abort r = r' := Option.some.inj h
  exact hr

/-- A change of the state stops nothing. -/
theorem StopsOnly.modify (f : σ → σ) : StopsOnly R (modify f : Program φ σ ε Unit) := by
  rintro _ _ ⟨⟩

/-- Running out of fuel is a stop of its own. -/
theorem StopsOnly.timeout (hr : R .timeout) : StopsOnly R (timeout : Program φ σ ε α) := by
  rintro s r' h
  obtain rfl : Stop.timeout = r' := Option.some.inj h
  exact hr

/-- A sequence stops where its first part does or where the continuation does. -/
theorem StopsOnly.bind {p : Program φ σ ε α} {f : α → Program φ σ ε β}
    (hp : StopsOnly R p) (hf : ∀ a, StopsOnly R (f a)) : StopsOnly R (p >>= f) := by
  intro s r h
  have hfirst := hp s r
  rcases hrun : p s with ⟨o, s'⟩
  rw [hrun] at hfirst
  cases o with
  | ok a =>
      rw [bind_ok hrun] at h
      exact hf a s' r h
  | err e =>
      rw [bind_err hrun] at h
      cases h
  | panic =>
      rw [bind_panic hrun] at h
      cases h
  | abort r' =>
      rw [bind_abort hrun] at h
      exact hfirst h
  | timeout =>
      rw [bind_timeout hrun] at h
      exact hfirst h

/-- More reasons may be allowed than occur. -/
theorem StopsOnly.imp {R' : Stop φ → Prop} {p : Program φ σ ε α} (hp : StopsOnly R p)
    (h : ∀ r, R r → R' r) : StopsOnly R' p := fun s r hr => h r (hp s r hr)

end StopsOnly

end Program

/-! ### The two-run relation -/

/-- Two outcomes agree when they end the same way, with values related by `V` and with
equal errors. -/
inductive Outcome.Agree (V : α → β → Prop) : Outcome φ ε α → Outcome φ ε β → Prop
  | ok {a : α} {b : β} (h : V a b) : Agree V (.ok a) (.ok b)
  | err (e : ε) : Agree V (.err e) (.err e)
  | panic : Agree V .panic .panic
  | abort (r : φ) : Agree V (.abort r) (.abort r)
  | timeout : Agree V .timeout .timeout

/-- The outcome ends the process for one of the reasons in `X`. -/
def Outcome.Excused (X : φ → Prop) (o : Outcome φ ε α) : Prop :=
  ∃ r, o = .abort r ∧ X r

/-- Outcomes agree by a weaker relation of their values too. -/
theorem Outcome.Agree.imp {V W : α → β → Prop} {o : Outcome φ ε α} {o' : Outcome φ ε β}
    (h : o.Agree V o') (hVW : ∀ a b, V a b → W a b) : o.Agree W o' := by
  cases h with
  | ok hv => exact .ok (hVW _ _ hv)
  | err e => exact .err e
  | panic => exact .panic
  | abort r => exact .abort r
  | timeout => exact .timeout

/-- An outcome agrees with itself. -/
theorem Outcome.Agree.refl (o : Outcome φ ε α) : o.Agree (· = ·) o := by
  cases o with
  | ok a => exact .ok rfl
  | err e => exact .err e
  | panic => exact .panic
  | abort r => exact .abort r
  | timeout => exact .timeout

/-- Outcomes that agree stop for the same reason. -/
theorem Outcome.Agree.stop_eq {V : α → β → Prop} {o : Outcome φ ε α} {o' : Outcome φ ε β}
    (h : o.Agree V o') : o.stop = o'.stop := by
  cases h <;> rfl

/-- The only world of relations that do not change along a run. -/
inductive Fixed where
  | world
deriving DecidableEq, Repr

instance : Preorder Fixed where
  le _ _ := True
  le_refl _ := trivial
  le_trans _ _ _ _ _ := trivial

section Lockstep

variable {ι : Type} [Preorder ι] {X : φ → Prop} {S : ι → σ → τ → Prop}
  {V : ι → α → β → Prop} {W : ι → γ → δ → Prop} {i j : ι}

/-- **Lockstep.** From states related at any later world the two programs end alike, in
states related at a still later world, unless the first one is excused. -/
def Lockstep (X : φ → Prop) (S : ι → σ → τ → Prop) (V : ι → α → β → Prop) (i : ι)
    (p : Program φ σ ε α) (q : Program φ τ ε β) : Prop :=
  ∀ j, i ≤ j → ∀ s t, S j s t →
    (p s).1.Excused X ∨
      ∃ k, j ≤ k ∧ S k (p s).2 (q t).2 ∧ (p s).1.Agree (V k) (q t).1

/-- Lockstep at a world is lockstep at every later one. -/
theorem Lockstep.mono {p : Program φ σ ε α} {q : Program φ τ ε β}
    (h : Lockstep X S V i p q) (hij : i ≤ j) : Lockstep X S V j p q :=
  fun k hjk => h k (hij.trans hjk)

/-- A lockstep may forget part of what it says about the values. -/
theorem Lockstep.imp {V' : ι → α → β → Prop} {p : Program φ σ ε α}
    {q : Program φ τ ε β} (h : Lockstep X S V i p q)
    (hV : ∀ k, i ≤ k → ∀ a b, V k a b → V' k a b) : Lockstep X S V' i p q := by
  intro j hij s t hS
  rcases h j hij s t hS with hx | ⟨k, hjk, hS', hagree⟩
  · exact .inl hx
  · exact .inr ⟨k, hjk, hS', hagree.imp (hV k (hij.trans hjk))⟩

/-- Two values that are related at all later indices are returned in lockstep. -/
theorem Lockstep.pure {a : α} {b : β} (h : ∀ j, i ≤ j → V j a b) :
    Lockstep (ε := ε) X S V i (pure a) (pure b) :=
  fun j hij _ _ hS => .inr ⟨j, le_rfl, hS, .ok (h j hij)⟩

/-- One error, thrown by both. -/
theorem Lockstep.throw (e : ε) :
    Lockstep X S V i (Program.throw e) (Program.throw e) :=
  fun j _ _ _ hS => .inr ⟨j, le_rfl, hS, .err e⟩

/-- A panic of both. -/
theorem Lockstep.panic : Lockstep (ε := ε) X S V i Program.panic Program.panic :=
  fun j _ _ _ hS => .inr ⟨j, le_rfl, hS, .panic⟩

/-- An abort of both, for one reason. -/
theorem Lockstep.abort (r : φ) :
    Lockstep (ε := ε) X S V i (Program.abort r) (Program.abort r) :=
  fun j _ _ _ hS => .inr ⟨j, le_rfl, hS, .abort r⟩

/-- Both are out of fuel. -/
theorem Lockstep.timeout : Lockstep (ε := ε) X S V i Program.timeout Program.timeout :=
  fun j _ _ _ hS => .inr ⟨j, le_rfl, hS, .timeout⟩

/-- **The rule for sequencing.** The continuations have to run in lockstep at the world
the first parts end in, on any values related there. -/
theorem Lockstep.bind {p : Program φ σ ε α} {q : Program φ τ ε β}
    {f : α → Program φ σ ε γ} {g : β → Program φ τ ε δ} (h : Lockstep X S V i p q)
    (hf : ∀ j, i ≤ j → ∀ a b, V j a b → Lockstep X S W j (f a) (g b)) :
    Lockstep X S W i (p >>= f) (q >>= g) := by
  intro j hij s t hS
  rcases h j hij s t hS with ⟨r, hr, hx⟩ | ⟨k, hjk, hS', hagree⟩
  · have hp : p s = (.abort r, (p s).2) := Prod.ext hr rfl
    exact .inl ⟨r, by rw [Program.bind_abort hp], hx⟩
  · generalize hp : p s = ps at hS' hagree
    generalize hq : q t = qt at hS' hagree
    obtain ⟨o, s'⟩ := ps
    obtain ⟨o', t'⟩ := qt
    cases hagree with
    | ok hv =>
        rw [Program.bind_ok hp, Program.bind_ok hq]
        rcases hf k (hij.trans hjk) _ _ hv k le_rfl s' t' hS' with hx | ⟨l, hkl, hl⟩
        · exact .inl hx
        · exact .inr ⟨l, hjk.trans hkl, hl⟩
    | err e =>
        rw [Program.bind_err hp, Program.bind_err hq]
        exact .inr ⟨k, hjk, hS', .err e⟩
    | panic =>
        rw [Program.bind_panic hp, Program.bind_panic hq]
        exact .inr ⟨k, hjk, hS', .panic⟩
    | abort r =>
        rw [Program.bind_abort hp, Program.bind_abort hq]
        exact .inr ⟨k, hjk, hS', .abort r⟩
    | timeout =>
        rw [Program.bind_timeout hp, Program.bind_timeout hq]
        exact .inr ⟨k, hjk, hS', .timeout⟩

/-- Two results of `attempt` are related when both are values related by `V`, or both
are the same error. -/
inductive ExceptAgree (V : α → β → Prop) : Except ε α → Except ε β → Prop
  | ok {a : α} {b : β} (h : V a b) : ExceptAgree V (.ok a) (.ok b)
  | error (e : ε) : ExceptAgree V (.error e) (.error e)

/-- A result agrees with itself, where values are related to themselves. -/
theorem ExceptAgree.refl {V : α → α → Prop} (h : ∀ a, V a a) (x : Except ε α) :
    ExceptAgree V x x := by
  cases x with
  | ok a => exact .ok (h a)
  | error e => exact .error e

/-- What lockstep says when the first run is not excused. -/
theorem Lockstep.agree {p : Program φ σ ε α} {q : Program φ τ ε β}
    (h : Lockstep X S V i p q) {s : σ} {t : τ} (hS : S i s t)
    (hp : ¬ (p s).1.Excused X) :
    ∃ k, i ≤ k ∧ S k (p s).2 (q t).2 ∧ (p s).1.Agree (V k) (q t).1 := by
  rcases h i le_rfl s t hS with hx | hk
  · exact absurd hx hp
  · exact hk

end Lockstep

end Effects
