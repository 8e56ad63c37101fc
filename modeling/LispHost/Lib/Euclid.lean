import Mathlib.Algebra.Ring.Int.Parity
import Mathlib.Data.Int.GCD

/-!
# Euclid's Algorithm with Truncated Remainders

The usual recursion `gcd a b = gcd b (a mod b)`, run on signed numbers with a remainder
that takes the sign of the dividend. Its result is a greatest common divisor up to sign.
From a negative first argument the signs alternate, so the sign of the result is the
parity of the number of divisions.

## Main definitions

* `truncGcd`: the recursion on integers.
* `euclidSteps`: the number of divisions that Euclid's algorithm takes.

## Main results

* `truncGcd_natCast`: on natural numbers the result is the greatest common divisor.
* `truncGcd_neg`: the sign of the result from a negative first argument.
-/

namespace Effects

/-- Euclid's recursion with truncated remainders. -/
def truncGcd (a b : Int) : Int :=
  if b = 0 then a else truncGcd b (a.tmod b)
termination_by b.natAbs
decreasing_by
  rw [Int.natAbs_tmod]
  exact Nat.mod_lt _ (by omega)

/-- How many divisions Euclid's algorithm makes before the remainder is zero. -/
def euclidSteps (m n : Nat) : Nat :=
  if n = 0 then 0 else euclidSteps n (m % n) + 1
termination_by n
decreasing_by exact Nat.mod_lt _ (by omega)

/-- Where the second number is zero, the loop ends with the first one. -/
theorem truncGcd_zero (a : Int) : truncGcd a 0 = a := by
  rw [truncGcd, if_pos rfl]

/-- A turn of the loop. -/
theorem truncGcd_of_ne {b : Int} (hb : b ≠ 0) (a : Int) :
    truncGcd a b = truncGcd b (a.tmod b) := by
  rw [truncGcd, if_neg hb]

/-- No turn is made where the second number is zero. -/
theorem euclidSteps_zero (m : Nat) : euclidSteps m 0 = 0 := by
  rw [euclidSteps, if_pos rfl]

/-- Where it is not, one turn is made, and those of the numbers behind it. -/
theorem euclidSteps_of_ne {n : Nat} (hn : n ≠ 0) (m : Nat) :
    euclidSteps m n = euclidSteps n (m % n) + 1 := by
  rw [euclidSteps, if_neg hn]

/-- A turn keeps the greatest common divisor. -/
private theorem gcd_mod_step (m n : Nat) : Nat.gcd n (m % n) = Nat.gcd m n := by
  rw [Nat.gcd_comm n, ← Nat.gcd_rec, Nat.gcd_comm]

/-- On natural numbers the recursion stays on natural numbers. -/
theorem truncGcd_natCast (m n : Nat) : truncGcd m n = Nat.gcd m n := by
  induction m, n using euclidSteps.induct with
  | case1 m => rw [Int.natCast_zero, truncGcd_zero, Nat.gcd_zero_right]
  | case2 m n hn ih =>
      rw [truncGcd_of_ne (by omega), ← Int.ofNat_tmod, ih, gcd_mod_step]

/-- The two alternating cases: the sign sits on the first argument or on the second. -/
private theorem truncGcd_signs (m n : Nat) :
    truncGcd (-m) n = (-1) ^ (euclidSteps m n + 1) * Nat.gcd m n ∧
      truncGcd m (-n) = (-1) ^ euclidSteps m n * Nat.gcd m n := by
  induction m, n using euclidSteps.induct with
  | case1 m => simp [truncGcd_zero, euclidSteps_zero]
  | case2 m n hn ih =>
      obtain ⟨ihfirst, ihsecond⟩ := ih
      rw [euclidSteps_of_ne hn, ← gcd_mod_step]
      constructor
      · rw [truncGcd_of_ne (by omega), Int.neg_tmod, ← Int.ofNat_tmod, ihsecond, pow_succ,
          pow_succ, mul_assoc _ (-1) (-1), neg_one_mul, neg_neg, mul_one]
      · rw [truncGcd_of_ne (by omega), Int.tmod_neg, ← Int.ofNat_tmod, ihfirst]

/-- **The sign of the result.** From a negative first argument the result is positive
exactly when the number of divisions is odd. -/
theorem truncGcd_neg (m n : Nat) :
    truncGcd (-m) n = if Odd (euclidSteps m n) then (Nat.gcd m n : Int) else -Nat.gcd m n := by
  rw [(truncGcd_signs m n).1]
  by_cases hodd : Odd (euclidSteps m n)
  · rw [if_pos hodd, hodd.add_one.neg_one_pow, one_mul]
  · rw [if_neg hodd, (Nat.not_odd_iff_even.mp hodd).add_one.neg_one_pow, neg_one_mul]

end Effects
