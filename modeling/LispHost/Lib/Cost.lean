import LispHost.Lib.Program

/-!
# What a Program Adds to its State

`Costs μ n p` says that no run of the program `p`, however it ends, adds more than `n` to the
measure `μ` of the state. The rules follow the text of a program, as those of `StopsOnly` do.

## Main definitions

* `Costs`: an upper bound of what a program adds.

## Main results

* `Costs.bind`: the bounds of the parts add up.
-/

namespace Effects

variable {φ σ ε α β : Type} {μ : σ → Nat} {m n : Nat}

/-- No run adds more than `n` to the measure of the state. -/
def Costs (μ : σ → Nat) (n : Nat) (p : Program φ σ ε α) : Prop := ∀ s, μ (p s).2 ≤ μ s + n

namespace Costs

/-- A bound may be larger than the cost. -/
theorem mono {p : Program φ σ ε α} (h : Costs μ m p) (hmn : m ≤ n) : Costs μ n p := fun s =>
  Nat.le_trans (h s) (Nat.add_le_add_left hmn _)

/-- Returning a value costs nothing. -/
theorem pure (a : α) : Costs μ n (Pure.pure a : Program φ σ ε α) := fun _ => Nat.le_add_right _ _

/-- Failing costs nothing. -/
theorem throw (e : ε) : Costs μ n (Program.throw e : Program φ σ ε α) := fun _ =>
  Nat.le_add_right _ _

/-- A panic costs nothing. -/
theorem panic : Costs μ n (Program.panic : Program φ σ ε α) := fun _ => Nat.le_add_right _ _

/-- An abort costs nothing. -/
theorem abort (r : φ) : Costs μ n (Program.abort r : Program φ σ ε α) := fun _ =>
  Nat.le_add_right _ _

/-- Running out of fuel costs nothing. -/
theorem timeout : Costs μ n (Program.timeout : Program φ σ ε α) := fun _ => Nat.le_add_right _ _

/-- **The parts of a program.** -/
theorem bind {p : Program φ σ ε β} {f : β → Program φ σ ε α} (hp : Costs μ m p)
    (hf : ∀ b, Costs μ n (f b)) : Costs μ (m + n) (p >>= f) := by
  intro s
  have hfirst := hp s
  rcases hrun : p s with ⟨o, s'⟩
  rw [hrun] at hfirst
  change μ s' ≤ μ s + m at hfirst
  have hstop : μ s' ≤ μ s + (m + n) := by omega
  cases o with
  | ok b =>
      rw [Program.bind_ok hrun]
      have hrest := hf b s'
      omega
  | err e => rwa [Program.bind_err hrun]
  | panic => rwa [Program.bind_panic hrun]
  | abort r => rwa [Program.bind_abort hrun]
  | timeout => rwa [Program.bind_timeout hrun]

end Costs

end Effects
