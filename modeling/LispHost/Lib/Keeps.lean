import LispHost.Lib.Program

/-!
# Invariants of Stateful Programs

The logic of one run. `Keeps S V E i p` says that a program that is started in a state of the
invariant `S` ends in one, however it ends, and that what it returns is in `V` and what it
reports is in `E`. As in the two-run logic the invariant and the values are indexed by a
preorder of worlds that only grows along a run.

## Main definitions

* `Keeps`: the indexed triples.

## Main results

* `Keeps.pure`, `Keeps.throw`, `Keeps.bind`: the rules by which a proof follows the text of the
  program.
* `Keeps.spec`: what it says of a run.
-/

namespace Effects

variable {φ σ ε α β ι : Type} [Preorder ι] {S : ι → σ → Prop} {V W : ι → α → Prop}
  {U : ι → β → Prop} {E : ε → Prop} {i j : ι}

/-- **A program keeps an invariant**, from any later world on. -/
def Keeps (S : ι → σ → Prop) (V : ι → α → Prop) (E : ε → Prop) (i : ι)
    (p : Program φ σ ε α) : Prop :=
  ∀ j, i ≤ j → ∀ s, S j s →
    ∃ k, j ≤ k ∧ S k (p s).2 ∧ (∀ a, (p s).1 = .ok a → V k a) ∧ ∀ e, (p s).1 = .err e → E e

namespace Keeps

/-- What is kept from an index on is kept from a later one on. -/
theorem mono {p : Program φ σ ε α} (h : Keeps S V E i p) (hij : i ≤ j) : Keeps S V E j p :=
  fun k hjk => h k (hij.trans hjk)

/-- The rule of consequence, for the value. -/
theorem imp {p : Program φ σ ε α} (h : Keeps S V E i p) (hV : ∀ k, i ≤ k → ∀ a, V k a → W k a) :
    Keeps S W E i p := by
  intro j hij s hS
  obtain ⟨k, hjk, hS', hvalue, herror⟩ := h j hij s hS
  exact ⟨k, hjk, hS', fun a ha => hV k (hij.trans hjk) a (hvalue a ha), herror⟩

/-- A value that is returned has to be good at every later index. -/
protected theorem pure {a : α} (h : ∀ j, i ≤ j → V j a) :
    Keeps S V E i (pure a : Program φ σ ε α) := by
  intro j hij s hS
  refine ⟨j, le_rfl, hS, fun b hb => ?_, fun e he => ?_⟩
  · cases hb
    exact h j hij
  · cases he

/-- An error that is thrown has to be one of those allowed. -/
protected theorem throw {e : ε} (h : E e) :
    Keeps S V E i (Program.throw e : Program φ σ ε α) := by
  intro j _ s hS
  refine ⟨j, le_rfl, hS, fun a ha => ?_, fun e' he => ?_⟩
  · cases ha
  · cases he
    exact h

/-- A run that is out of fuel returns nothing that could be wrong. -/
protected theorem timeout : Keeps S V E i (Program.timeout : Program φ σ ε α) := by
  intro j _ s hS
  refine ⟨j, le_rfl, hS, fun a ha => ?_, fun e he => ?_⟩
  · cases ha
  · cases he

/-- A panic returns nothing that could be wrong. -/
protected theorem panic : Keeps S V E i (Program.panic : Program φ σ ε α) := by
  intro j _ s hS
  refine ⟨j, le_rfl, hS, fun a ha => ?_, fun e he => ?_⟩
  · cases ha
  · cases he

/-- An abort returns nothing that could be wrong. -/
protected theorem abort (r : φ) : Keeps S V E i (Program.abort r : Program φ σ ε α) := by
  intro j _ s hS
  refine ⟨j, le_rfl, hS, fun a ha => ?_, fun e he => ?_⟩
  · cases ha
  · cases he

/-- **The rule for sequencing.** The continuation keeps the invariant at the world in which the
first part ends, on any value that it may return there. -/
theorem bind {p : Program φ σ ε β} {f : β → Program φ σ ε α} (h : Keeps S U E i p)
    (hf : ∀ j, i ≤ j → ∀ b, U j b → Keeps S V E j (f b)) : Keeps S V E i (p >>= f) := by
  intro j hij s hS
  obtain ⟨k, hjk, hS', hvalue, herror⟩ := h j hij s hS
  generalize hp : p s = result at hS' hvalue herror
  obtain ⟨o, s'⟩ := result
  cases o with
  | ok b =>
      rw [Program.bind_ok hp]
      obtain ⟨l, hkl, hrest⟩ := hf k (hij.trans hjk) b (hvalue b rfl) k le_rfl s' hS'
      exact ⟨l, hjk.trans hkl, hrest⟩
  | err e =>
      rw [Program.bind_err hp]
      refine ⟨k, hjk, hS', by simp, fun e' he => ?_⟩
      cases he
      exact herror e rfl
  | panic =>
      rw [Program.bind_panic hp]
      exact ⟨k, hjk, hS', by simp, by simp⟩
  | abort r =>
      rw [Program.bind_abort hp]
      exact ⟨k, hjk, hS', by simp, by simp⟩
  | timeout =>
      rw [Program.bind_timeout hp]
      exact ⟨k, hjk, hS', by simp, by simp⟩

/-- What it says of a run. -/
theorem spec {p : Program φ σ ε α} (h : Keeps S V E i p) {s : σ} (hS : S i s) :
    ∃ k, i ≤ k ∧ S k (p s).2 ∧ (∀ a, (p s).1 = .ok a → V k a) ∧ ∀ e, (p s).1 = .err e → E e :=
  h i le_rfl s hS

end Keeps

end Effects
