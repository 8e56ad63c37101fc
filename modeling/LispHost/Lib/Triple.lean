import LispHost.Lib.Program

/-!
# Pre- and Postconditions of Stateful Programs

`Triple P p Q E` says that a program that is started in a state of `P` returns its values in
states of `Q`, and reports its errors in states of `E`. It is `Keeps` where what is known of the
state changes from one part of a program to the next, and need not grow. `Total P p Q E` says
besides that it does one of the two.

## Main definitions

* `Triple`, `Total`: the triples, for partial and for total correctness.

## Main results

* `Triple.bind`, `Total.bind`: the rules for sequencing, with one condition on the errors of both
  parts.
* `Triple.modify`, `Triple.throw`, `Triple.imp`, `Total.throw`: the other rules.
-/

namespace Effects

variable {φ σ ε α β : Type} {P P' : σ → Prop} {Q Q' : α → σ → Prop} {U : β → σ → Prop}
  {E E' : ε → σ → Prop}

/-- What holds behind a program that is started in a state of `P`. -/
def Triple (P : σ → Prop) (p : Program φ σ ε α) (Q : α → σ → Prop) (E : ε → σ → Prop) : Prop :=
  ∀ s, P s → (∀ a, (p s).1 = .ok a → Q a (p s).2) ∧ ∀ e, (p s).1 = .err e → E e (p s).2

namespace Triple

/-- The rule of consequence. -/
theorem imp {p : Program φ σ ε α} (h : Triple P p Q E) (hP : ∀ s, P' s → P s)
    (hQ : ∀ a s, Q a s → Q' a s) : Triple P' p Q' E := by
  intro s hs
  obtain ⟨hvalue, herror⟩ := h s (hP s hs)
  exact ⟨fun a ha => hQ a _ (hvalue a ha), herror⟩

/-- A value that is returned has to meet the postcondition. -/
protected theorem pure {a : α} (h : ∀ s, P s → Q a s) :
    Triple P (pure a : Program φ σ ε α) Q E := by
  intro s hs
  refine ⟨fun b hb => ?_, fun e he => ?_⟩
  · cases hb
    exact h s hs
  · cases he

/-- An error that is thrown has to meet its own postcondition. -/
protected theorem throw {e : ε} (h : ∀ s, P s → E e s) :
    Triple P (Program.throw e : Program φ σ ε α) Q E := by
  intro s hs
  refine ⟨fun b hb => ?_, fun e' he => ?_⟩
  · cases hb
  · cases he
    exact h s hs

/-- A change of the state has to establish the postcondition. -/
protected theorem modify {f : σ → σ} {Q : Unit → σ → Prop} (h : ∀ s, P s → Q () (f s)) :
    Triple P (Program.modify f : Program φ σ ε Unit) Q E := by
  intro s hs
  exact ⟨fun _ _ => h s hs, fun e he => by cases he⟩

/-- **The rule for sequencing.** The continuation starts where the first part returns. -/
protected theorem bind {p : Program φ σ ε β} {f : β → Program φ σ ε α} (h : Triple P p U E)
    (hf : ∀ b, Triple (U b) (f b) Q E) : Triple P (p >>= f) Q E := by
  intro s hs
  obtain ⟨hvalue, herror⟩ := h s hs
  generalize hp : p s = result at hvalue herror
  obtain ⟨o, s'⟩ := result
  cases o with
  | ok b =>
      rw [Program.bind_ok hp]
      exact hf b s' (hvalue b rfl)
  | err e =>
      rw [Program.bind_err hp]
      refine ⟨by simp, fun e' he => ?_⟩
      cases he
      exact herror e rfl
  | panic =>
      rw [Program.bind_panic hp]
      simp
  | abort r =>
      rw [Program.bind_abort hp]
      simp
  | timeout =>
      rw [Program.bind_timeout hp]
      simp

end Triple

/-- What a program does that is started in a state of `P`: it returns a value or reports an
error. -/
def Total (P : σ → Prop) (p : Program φ σ ε α) (Q : α → σ → Prop) (E : ε → σ → Prop) : Prop :=
  ∀ s, P s → (∃ a s', p s = (.ok a, s') ∧ Q a s') ∨ ∃ e s', p s = (.err e, s') ∧ E e s'

namespace Total

/-- Returning a value always ends. -/
protected theorem pure {a : α} (h : ∀ s, P s → Q a s) :
    Total P (pure a : Program φ σ ε α) Q E :=
  fun s hs => .inl ⟨a, s, rfl, h s hs⟩

/-- So does an error. -/
protected theorem throw {e : ε} (h : ∀ s, P s → E e s) :
    Total P (Program.throw e : Program φ σ ε α) Q E :=
  fun s hs => .inr ⟨e, s, rfl, h s hs⟩

/-- **The rule for sequencing.** The continuation starts where the first part returns. -/
protected theorem bind {p : Program φ σ ε β} {f : β → Program φ σ ε α} (h : Total P p U E)
    (hf : ∀ b, Total (U b) (f b) Q E) : Total P (p >>= f) Q E := by
  intro s hs
  obtain ⟨b, s', hp, hb⟩ | ⟨e, s', hp, he⟩ := h s hs
  · rw [Program.bind_ok hp]
    exact hf b s' hb
  · exact .inr ⟨e, s', Program.bind_err hp, he⟩

end Total

end Effects
