import LispHost.Boxed
import LispHost.Lib.Euclid
import Mathlib.Data.Int.GCD
import Mathlib.Data.Nat.GCD.Basic
import Mathlib.Data.Nat.Prime.Basic
import Mathlib.Tactic.Ring
import Mathlib.Tactic.Linarith

/-!
# Exact Fractions

The host hands in fractions as two `i64`s. `reduce` moves the sign of the denominator to
the numerator and divides both by their greatest common divisor. It works with `i64`
arithmetic throughout, which wraps in a release build and panics on overflow in a build
with overflow checks; division and remainder panic on overflow in every build.

## Main definitions

* `Overflow`: what the build does with an `i64` result out of range.
* `reduce`, `BoxedTable.addRational`, `BoxedTable.addTransientRational`.
* `wsmWrapRational`, `wsmWrapTransientRational`: the C interface.
* `NormalForm`: a positive denominator, no common divisor, and the same value.

## Main results

* `reduce_of_ne_min`: away from the end of the range every build reduces to normal form.
* `wsmWrap_normalForm_iff`: exactly which fractions are stored in normal form.
-/

namespace LispHost

open Effects

/-- What the build does when the result of an `i64` operation is out of range. -/
inductive Overflow where
  /-- The release profile: the result wraps. -/
  | wraps
  /-- Overflow checks are on: the operation panics. -/
  | panics
deriving DecidableEq, Repr

/-! ### `i64` arithmetic

`none` is a panic. -/

/-- `i64::MIN`. -/
def i64Min : Word := BitVec.intMin 64

/-- `*`; `none` is the panic of a build that checks overflow. -/
def i64Mul (mode : Overflow) (a b : Word) : Option Word :=
  if mode = .panics ∧ a.smulOverflow b then none else some (a * b)

/-- `abs`, which overflows on the least number. -/
def i64Abs (mode : Overflow) (a : Word) : Option Word :=
  if mode = .panics ∧ a = i64Min then none else some a.abs

/-- `%`; `none` is the panic on a zero divisor and on the one overflow. -/
def i64Rem (a b : Word) : Option Word :=
  if b = 0 ∨ (a = i64Min ∧ b = -1) then none else some (a.srem b)

/-- `/`, which panics where `%` does. -/
def i64Div (a b : Word) : Option Word :=
  if b = 0 ∨ (a = i64Min ∧ b = -1) then none else some (a.sdiv b)

/-- `max`. -/
def i64Max (a b : Word) : Word := if b.slt a then a else b

/-- A remainder is smaller than the divisor. -/
theorem natAbs_srem_lt {a b : Word} (hb : b ≠ 0) :
    (a.srem b).toInt.natAbs < b.toInt.natAbs := by
  have hne : b.toInt ≠ 0 := fun h => hb (BitVec.eq_of_toInt_eq h)
  rw [BitVec.toInt_srem, Int.natAbs_tmod]
  exact Nat.mod_lt _ (by omega)

/-- Where there is a remainder, the divisor is not zero. -/
theorem i64Rem_eq_some {a b r : Word} (h : i64Rem a b = some r) : b ≠ 0 ∧ r = a.srem b := by
  by_cases hpanic : b = 0 ∨ (a = i64Min ∧ b = -1)
  · rw [i64Rem, if_pos hpanic] at h
    cases h
  · rw [i64Rem, if_neg hpanic] at h
    exact ⟨fun hb => hpanic (.inl hb), (Option.some.inj h).symm⟩

/-- The `gcd` inside `reduce`. -/
def gcd (a b : Word) : Option Word :=
  if b = 0 then some a
  else
    match _hrem : i64Rem a b with
    | none => none
    | some r => gcd b r
termination_by b.toInt.natAbs
decreasing_by
  obtain ⟨hb, rfl⟩ := i64Rem_eq_some _hrem
  exact natAbs_srem_lt hb

/-- Reduce a fraction and make its denominator positive. -/
def reduce (mode : Overflow) (numerator denominator : Word) : Option (Word × Word) := do
  let sign : Word := if denominator.slt 0 then -1 else 1
  let n ← i64Mul mode numerator sign
  let d ← i64Mul mode denominator sign
  let divisor ← gcd (← i64Abs mode n) d
  let divisor := i64Max divisor 1
  return (← i64Div n divisor, ← i64Div d divisor)

/-! ### The table and the C interface -/

namespace BoxedTable

variable (P : Platform)

/-- Reduce a fraction and append it. A zero denominator and an overflow are panics. -/
def addReduced {ε : Type} (mode : Overflow) (lifetime : BoxedLifetime) (n d : Word) :
    Program Exit BoxedTable ε Word :=
  if d = 0 then Program.panic
  else
    match reduce mode n d with
    | some (n, d) => add P (.rational n d) lifetime
    | none => Program.panic

/-- A fraction that is kept with the session. -/
def addRational {ε : Type} (mode : Overflow) (n d : Word) : Program Exit BoxedTable ε Word :=
  addReduced P mode .persistent n d

/-- A fraction that is kept until the end of the evaluation. -/
def addTransientRational {ε : Type} (mode : Overflow) (n d : Word) :
    Program Exit BoxedTable ε Word :=
  addReduced P mode .transient n d

end BoxedTable

/-- What a wrapping function of the C interface is called with. -/
structure WrapArgs where
  sessionNull : Bool
  outNull : Bool
  numerator : Word
  denominator : Word

/-- What it answers: the code and what it wrote to `out`. -/
structure WrapReply where
  code : Int
  out : Option Word
deriving DecidableEq, Repr

/-- Reject null pointers and a zero denominator, add, and catch a panic. -/
def wrapWith (add : Word → Word → Program Exit BoxedTable Empty Word) (args : WrapArgs) :
    Program Exit BoxedTable Empty WrapReply := fun table =>
  if args.sessionNull ∨ args.outNull ∨ args.denominator = 0 then (.ok ⟨-1, none⟩, table)
  else
    match add args.numerator args.denominator table with
    | (.ok word, table) => (.ok ⟨0, some word⟩, table)
    | (.err e, _) => e.elim
    | (.panic, table) => (.ok ⟨-2, none⟩, table)
    | (.abort r, table) => (.abort r, table)
    | (.timeout, table) => (.timeout, table)

variable (P : Platform) (mode : Overflow)

/-- `wsm_wrap_rational`. -/
def wsmWrapRational : WrapArgs → Program Exit BoxedTable Empty WrapReply :=
  wrapWith (BoxedTable.addRational P mode)

/-- `wsm_wrap_transient_rational`. -/
def wsmWrapTransientRational : WrapArgs → Program Exit BoxedTable Empty WrapReply :=
  wrapWith (BoxedTable.addTransientRational P mode)

/-- **Normal form.** The fraction `n' / d'` is reduced, its denominator is positive, and it
has the value of `n / d`. -/
def NormalForm (n d n' d' : Int) : Prop :=
  0 < d' ∧ Int.gcd n' d' = 1 ∧ n' * d = n * d'

/-- A call that answers with an error, or stores its fraction in normal form. -/
def StoresNormalForm (args : WrapArgs)
    (result : Outcome Exit Empty WrapReply × BoxedTable) : Prop :=
  ∀ reply, result.1 = .ok reply → reply.code ≠ 0 ∨
    ∃ word n' d', reply.out = some word ∧ result.2.getRational P word = some (n', d') ∧
      NormalForm args.numerator.toInt args.denominator.toInt n'.toInt d'.toInt

/-! ### What the arithmetic computes -/

/-- The least number as an integer. -/
theorem toInt_i64Min : i64Min.toInt = -2 ^ 63 := rfl

/-- There is a remainder but for a zero divisor and the one overflow. -/
theorem i64Rem_eq {a b : Word} (hb : b ≠ 0) (h : ¬(a = i64Min ∧ b = -1)) :
    i64Rem a b = some (a.srem b) := by
  rw [i64Rem, if_neg (by simp only [hb, h, or_self, not_false_eq_true])]

/-- Where the second number is zero, the loop ends with the first one. -/
theorem gcd_zero (a : Word) : gcd a 0 = some a := by
  rw [gcd, if_pos rfl]

/-- A turn of the loop. -/
theorem gcd_of_rem {a b r : Word} (h : i64Rem a b = some r) : gcd a b = gcd b r := by
  rw [gcd, if_neg (i64Rem_eq_some h).1]
  split
  · rename_i hrem
    rw [h] at hrem
    cases hrem
  · rename_i r' hrem
    rw [h] at hrem
    rw [Option.some.inj hrem]

/-- No remainder on the way from here overflows. -/
def GcdSafe (a b : Word) : Prop :=
  (a = i64Min → b ≠ -1) ∧ (b = i64Min → a ≠ -1)

/-- Minus one as an integer. -/
theorem toInt_neg_one : (-1 : Word).toInt = -1 := rfl

/-- One division keeps the recursion safe: a remainder is smaller than its divisor. -/
theorem GcdSafe.step {a b : Word} (h : GcdSafe a b) (hb : b ≠ 0) : GcdSafe b (a.srem b) := by
  have hlt := natAbs_srem_lt (a := a) hb
  refine ⟨fun hmin hrem => h.2 hmin ?_, fun hmin => ?_⟩
  · -- Below `i64Min` in size, a number is its own remainder.
    subst hmin
    have hint := congrArg BitVec.toInt hrem
    rw [BitVec.toInt_srem, toInt_i64Min, toInt_neg_one, Int.tmod_neg] at hint
    have hneg : a.toInt < 0 := by
      by_contra hpos
      have := Int.tmod_nonneg (2 ^ 63) (not_lt.mp hpos)
      omega
    have hmod : -a.toInt % 2 ^ 63 = 1 := by
      rw [← Int.tmod_eq_emod_of_nonneg (by omega), Int.neg_tmod, hint]
      rfl
    have hle := BitVec.le_toInt a
    apply BitVec.eq_of_toInt_eq
    rw [toInt_neg_one]
    omega
  · rw [hmin, toInt_i64Min] at hlt
    have hle := BitVec.le_toInt b
    have hge := BitVec.toInt_lt (x := b)
    omega

/-- **The machine's `gcd` is Euclid's recursion on the integers.** -/
theorem gcd_toInt {a b : Word} (h : GcdSafe a b) :
    ∃ g, gcd a b = some g ∧ g.toInt = truncGcd a.toInt b.toInt := by
  induction hn : b.toInt.natAbs using Nat.strong_induction_on generalizing a b with
  | _ n ih =>
      subst hn
      by_cases hb : b = 0
      · subst hb
        exact ⟨a, gcd_zero a, (truncGcd_zero _).symm⟩
      · have hrem : i64Rem a b = some (a.srem b) := i64Rem_eq hb (fun hmin => h.1 hmin.1 hmin.2)
        have hne : b.toInt ≠ 0 := fun hzero => hb (BitVec.eq_of_toInt_eq hzero)
        obtain ⟨g, hg, hint⟩ := ih _ (natAbs_srem_lt hb) (h.step hb) rfl
        refine ⟨g, (gcd_of_rem hrem).trans hg, ?_⟩
        rw [hint, BitVec.toInt_srem, truncGcd_of_ne hne]

/-- `max` with one, on integers. -/
theorem toInt_i64Max (a : Word) : (i64Max a 1).toInt = max a.toInt 1 := by
  have hone : (1 : Word).toInt = 1 := rfl
  rw [i64Max]
  by_cases h : (1 : Word).slt a
  · rw [if_pos h]
    rw [BitVec.slt_iff_toInt_lt, hone] at h
    omega
  · rw [if_neg h, hone]
    rw [BitVec.slt_iff_toInt_lt, hone] at h
    omega

/-- Division by a positive number is exact truncation. -/
theorem i64Div_toInt {a b : Word} (hb : 0 < b.toInt) :
    ∃ q, i64Div a b = some q ∧ q.toInt = a.toInt.tdiv b.toInt := by
  have hzero : b ≠ 0 := by
    rintro rfl
    exact absurd hb (by decide)
  have hone : b ≠ -1 := by
    rintro rfl
    exact absurd hb (by decide)
  refine ⟨a.sdiv b, ?_, BitVec.toInt_sdiv_of_ne_or_ne a b (.inr hone)⟩
  rw [i64Div, if_neg (by simp only [hzero, hone, and_false, or_self, not_false_eq_true])]

/-- **What `reduce` computes** once its signs are moved. -/
theorem reduce_eq {mode : Overflow} {n d sign n₁ d₁ a : Word}
    (hsign : (if d.slt 0 then -1 else 1 : Word) = sign)
    (hn : i64Mul mode n sign = some n₁) (hd : i64Mul mode d sign = some d₁)
    (habs : i64Abs mode n₁ = some a) (hsafe : GcdSafe a d₁) :
    ∃ n' d', reduce mode n d = some (n', d') ∧
      n'.toInt = n₁.toInt.tdiv (max (truncGcd a.toInt d₁.toInt) 1) ∧
      d'.toInt = d₁.toInt.tdiv (max (truncGcd a.toInt d₁.toInt) 1) := by
  obtain ⟨g, hg, hgcd⟩ := gcd_toInt hsafe
  have hdivisor : (i64Max g 1).toInt = max (truncGcd a.toInt d₁.toInt) 1 := by
    rw [toInt_i64Max, hgcd]
  have hpos : 0 < (i64Max g 1).toInt := by omega
  obtain ⟨n', hn', hnint⟩ := i64Div_toInt (a := n₁) hpos
  obtain ⟨d', hd', hdint⟩ := i64Div_toInt (a := d₁) hpos
  refine ⟨n', d', ?_, hdivisor ▸ hnint, hdivisor ▸ hdint⟩
  simp only [reduce, hsign, hn, hd, habs, hg, hn', hd', Option.bind_eq_bind, Option.bind_some,
    Option.pure_def]

/-! ### Normal forms -/

/-- A fraction and the one with both signs changed have one normal form. -/
theorem NormalForm.neg {n d n' d' : Int} (h : NormalForm (-n) (-d) n' d') :
    NormalForm n d n' d' := by
  obtain ⟨hpos, hgcd, hvalue⟩ := h
  refine ⟨hpos, hgcd, ?_⟩
  rw [mul_neg, neg_mul] at hvalue
  exact neg_inj.mp hvalue

/-- Dividing by the greatest common divisor gives the normal form. -/
theorem normalForm_div {n d : Int} (hd : 0 < d) :
    NormalForm n d (n.tdiv (Int.gcd n d)) (d.tdiv (Int.gcd n d)) := by
  have hpos : 0 < Int.gcd n d := Int.gcd_pos_of_ne_zero_right n (by omega)
  rw [Int.tdiv_eq_ediv_of_dvd (Int.gcd_dvd_left n d), Int.tdiv_eq_ediv_of_dvd
    (Int.gcd_dvd_right n d)]
  refine ⟨Int.ediv_pos_of_pos_of_dvd hd (by omega) (Int.gcd_dvd_right n d),
    Int.gcd_ediv_gcd_ediv_gcd hpos, ?_⟩
  obtain ⟨n₀, hn₀⟩ := Int.gcd_dvd_left n d
  obtain ⟨d₀, hd₀⟩ := Int.gcd_dvd_right n d
  have hg : (Int.gcd n d : Int) ≠ 0 := by omega
  calc n / Int.gcd n d * d = n₀ * d := by
        rw [Int.ediv_eq_of_eq_mul_right hg hn₀]
    _ = n₀ * (Int.gcd n d * d₀) := by rw [← hd₀]
    _ = Int.gcd n d * n₀ * d₀ := by ring
    _ = n * d₀ := by rw [← hn₀]
    _ = n * (d / Int.gcd n d) := by rw [Int.ediv_eq_of_eq_mul_right hg hd₀]

/-! ### Operands in range -/

/-- Multiplying by one changes nothing and never overflows. -/
theorem i64Mul_one (mode : Overflow) (a : Word) : i64Mul mode a 1 = some a := by
  have hone : (1 : Word).toInt = 1 := rfl
  have hle := BitVec.le_toInt a
  have hlt := BitVec.toInt_lt (x := a)
  have hsafe : a.smulOverflow 1 = false := by
    simp only [BitVec.smulOverflow, hone, mul_one, Bool.or_eq_false_iff, decide_eq_false_iff_not]
    omega
  rw [i64Mul, hsafe, if_neg (by simp)]
  exact congrArg some (BitVec.mul_one a)

/-- The sign of any other number than the least one can be changed. -/
theorem toInt_mul_neg_one {a : Word} (h : a ≠ i64Min) : (a * -1).toInt = -a.toInt := by
  have hmul : a * 1 = a := BitVec.mul_one a
  rw [BitVec.mul_neg, hmul]
  exact BitVec.toInt_neg_of_ne_intMin h

/-- A word other than the least one is another integer. -/
theorem toInt_ne_of_ne_min {a : Word} (h : a ≠ i64Min) : a.toInt ≠ -2 ^ 63 :=
  fun heq => h (BitVec.eq_of_toInt_eq heq)

/-- Changing the sign overflows on the least number only. -/
theorem i64Mul_neg_one (mode : Overflow) {a : Word} (h : a ≠ i64Min) :
    i64Mul mode a (-1) = some (a * -1) := by
  have hle := BitVec.le_toInt a
  have hlt := BitVec.toInt_lt (x := a)
  have hne := toInt_ne_of_ne_min h
  have hsafe : a.smulOverflow (-1) = false := by
    simp only [BitVec.smulOverflow, toInt_neg_one, Bool.or_eq_false_iff, decide_eq_false_iff_not]
    omega
  rw [i64Mul, hsafe, if_neg (by simp)]

/-- So does `abs`, and otherwise it is the absolute value. -/
theorem i64Abs_eq (mode : Overflow) {a : Word} (h : a ≠ i64Min) :
    i64Abs mode a = some a.abs ∧ a.abs.toInt = a.toInt.natAbs := by
  refine ⟨?_, BitVec.toInt_abs_eq_natAbs_of_ne_intMin h⟩
  rw [i64Abs, if_neg (fun hmin => h hmin.2)]

/-- Euclid's loop is safe from the overflow where its first number is not negative. -/
theorem gcdSafe_of_nonneg {a b : Word} (ha : 0 ≤ a.toInt) : GcdSafe a b := by
  refine ⟨fun hmin => ?_, fun _ hone => ?_⟩
  · rw [hmin, toInt_i64Min] at ha
    omega
  · rw [hone, toInt_neg_one] at ha
    omega

/-- And where its second one is positive. -/
theorem gcdSafe_of_pos {a b : Word} (hb : 0 < b.toInt) : GcdSafe a b := by
  refine ⟨fun _ hone => ?_, fun hmin => ?_⟩
  · rw [hone, toInt_neg_one] at hb
    omega
  · rw [hmin, toInt_i64Min] at hb
    omega

/-- On the absolute value and a positive number the loop computes the divisor. -/
theorem truncGcd_natAbs {n d : Int} (hd : 0 < d) :
    max (truncGcd n.natAbs d) 1 = Int.gcd n d := by
  have hpos : 0 < Int.gcd n d := Int.gcd_pos_of_ne_zero_right n (by omega)
  have hcast : d = (d.natAbs : Int) := by omega
  have hgcd : truncGcd n.natAbs d = Int.gcd n d := by
    rw [hcast, truncGcd_natCast, Int.gcd, Int.natAbs_natCast]
  omega

/-- **Away from the end of the range** every fraction is reduced to normal form, in every
build. -/
theorem reduce_of_ne_min (mode : Overflow) {n d : Word} (hn : n ≠ i64Min) (hd : d ≠ i64Min)
    (hzero : d ≠ 0) :
    ∃ n' d', reduce mode n d = some (n', d') ∧
      NormalForm n.toInt d.toInt n'.toInt d'.toInt := by
  have hne : d.toInt ≠ 0 := fun h => hzero (BitVec.eq_of_toInt_eq h)
  obtain ⟨habs, hint⟩ := i64Abs_eq mode hn
  have hnonneg : 0 ≤ n.abs.toInt := by omega
  by_cases hneg : d.toInt < 0
  · -- A negative denominator: both signs change.
    have hslt : d.slt 0 = true := BitVec.slt_iff_toInt_lt.mpr hneg
    have hnint := toInt_mul_neg_one hn
    have hdint := toInt_mul_neg_one hd
    have hnmin : n * -1 ≠ i64Min := by
      intro hmin
      rw [hmin, toInt_i64Min] at hnint
      have := BitVec.toInt_lt (x := n)
      omega
    obtain ⟨habs', hint'⟩ := i64Abs_eq mode hnmin
    have hpos : 0 < (d * -1).toInt := by omega
    obtain ⟨n', d', hreduce, hn', hd'⟩ := reduce_eq (if_pos hslt)
      (i64Mul_neg_one mode hn) (i64Mul_neg_one mode hd) habs' (gcdSafe_of_pos hpos)
    rw [hint', truncGcd_natAbs hpos] at hn' hd'
    refine ⟨n', d', hreduce, NormalForm.neg ?_⟩
    rw [hn', hd', ← hnint, ← hdint]
    exact normalForm_div hpos
  · have hslt : ¬d.slt 0 = true := fun h => hneg (BitVec.slt_iff_toInt_lt.mp h)
    have hpos : 0 < d.toInt := by omega
    obtain ⟨n', d', hreduce, hn', hd'⟩ := reduce_eq (if_neg hslt)
      (i64Mul_one mode n) (i64Mul_one mode d) habs (gcdSafe_of_pos hpos)
    rw [hint, truncGcd_natAbs hpos] at hn' hd'
    refine ⟨n', d', hreduce, ?_⟩
    rw [hn', hd']
    exact normalForm_div hpos

/-! ### The end of the range -/

/-- With overflow checks the end of the range panics. -/
theorem reduce_panics_of_min {n d : Word} (h : n = i64Min ∨ d = i64Min) :
    reduce .panics n d = none := by
  have hmul : i64Mul .panics i64Min (-1) = none := by decide
  have habs : i64Abs .panics i64Min = none := by decide
  by_cases hd : d = i64Min
  · subst hd
    have hslt : i64Min.slt 0 = true := by decide
    simp only [reduce, hslt, if_true, hmul, Option.bind_eq_bind, Option.bind_none,
      Option.bind_fun_none]
  · obtain rfl : n = i64Min := h.resolve_right hd
    by_cases hslt : d.slt 0 = true
    · simp only [reduce, hslt, if_true, hmul, Option.bind_eq_bind, Option.bind_none]
    · simp only [reduce, if_neg hslt, i64Mul_one, habs, Option.bind_eq_bind, Option.bind_none,
        Option.bind_some]

/-- A build that wraps has an absolute value of every number. -/
theorem i64Abs_wraps (a : Word) : i64Abs .wraps a = some a.abs := by
  rw [i64Abs, if_neg (by simp)]

/-- A build that wraps has a product of all numbers. -/
theorem i64Mul_wraps (a b : Word) : i64Mul .wraps a b = some (a * b) := by
  rw [i64Mul, if_neg (by simp)]

/-- Truncation towards zero keeps a negative number from becoming positive. -/
theorem tdiv_nonpos {a b : Int} (ha : a ≤ 0) (hb : 0 < b) : a.tdiv b ≤ 0 := by
  have := Int.tdiv_nonneg (Int.neg_nonneg_of_nonpos ha) hb.le
  rw [Int.neg_tdiv] at this
  omega

/-- The denominator at the end of the range stays negative. -/
theorem reduce_wraps_denominator_min (n : Word) :
    ∃ n' d', reduce .wraps n i64Min = some (n', d') ∧ d'.toInt ≤ 0 := by
  have hslt : i64Min.slt 0 = true := by decide
  have hmin : i64Min * -1 = i64Min := by decide
  have habs : i64Min.abs = i64Min := by decide
  have hsafe : GcdSafe (n * -1).abs (i64Min * -1) := by
    rw [hmin]
    by_cases hn : n * -1 = i64Min
    · rw [hn, habs]
      exact ⟨fun _ => by decide, fun _ => by decide⟩
    · have hint := (i64Abs_eq .wraps hn).2
      exact gcdSafe_of_nonneg (by omega)
  obtain ⟨n', d', hreduce, -, hd'⟩ := reduce_eq (if_pos hslt)
    (i64Mul_wraps n (-1)) (i64Mul_wraps i64Min (-1)) (i64Abs_wraps _) hsafe
  refine ⟨n', d', hreduce, ?_⟩
  rw [hd', hmin]
  exact tdiv_nonpos (by decide) (by omega)

/-- What the recursion does with the numerator at the end of the range. -/
theorem truncGcd_min {d : Int} (hd : 0 < d) :
    truncGcd i64Min.toInt d =
      if Odd (euclidSteps (2 ^ 63) d.toNat) then (Nat.gcd (2 ^ 63) d.toNat : Int)
      else -Nat.gcd (2 ^ 63) d.toNat := by
  have hcast : d = (d.toNat : Int) := by omega
  rw [← truncGcd_neg, ← hcast]
  rfl

/-- The numerator at the end of the range, over a positive denominator: the recursion
ends on the divisor itself or on its negation, and a negative one is replaced by one. -/
theorem reduce_wraps_numerator_min {d : Word} (hd : 0 < d.toInt) :
    ∃ n' d', reduce .wraps i64Min d = some (n', d') ∧
      (NormalForm i64Min.toInt d.toInt n'.toInt d'.toInt ↔
        Odd d.toInt ∨ Odd (euclidSteps (2 ^ 63) d.toInt.toNat)) := by
  have hslt : ¬d.slt 0 = true := by
    rw [BitVec.slt_iff_toInt_lt]
    exact not_lt.mpr hd.le
  have habs : i64Min.abs = i64Min := by decide
  have hgcd : (Nat.gcd (2 ^ 63) d.toInt.toNat : Int) = Int.gcd i64Min.toInt d.toInt := by
    have hnat : d.toInt.toNat = d.toInt.natAbs := by omega
    rw [hnat]
    rfl
  have hpos : 0 < Int.gcd i64Min.toInt d.toInt :=
    Int.gcd_pos_of_ne_zero_right _ (by omega)
  obtain ⟨n', d', hreduce, hn', hd'⟩ := reduce_eq (if_neg hslt)
    (i64Mul_one .wraps i64Min) (i64Mul_one .wraps d) (i64Abs_wraps _)
    (gcdSafe_of_pos hd)
  refine ⟨n', d', hreduce, ?_⟩
  rw [habs, truncGcd_min hd, hgcd] at hn' hd'
  by_cases hsteps : Odd (euclidSteps (2 ^ 63) d.toInt.toNat)
  · rw [if_pos hsteps, max_eq_left (by omega)] at hn' hd'
    rw [hn', hd']
    exact ⟨fun _ => .inr hsteps, fun _ => normalForm_div hd⟩
  · rw [if_neg hsteps, max_eq_right (by omega), Int.tdiv_one] at hn' hd'
    rw [hn', hd', or_iff_left hsteps]
    have hcoprime : Int.gcd i64Min.toInt d.toInt = 1 ↔ Odd d.toInt := by
      have : Int.gcd i64Min.toInt d.toInt = Nat.gcd (2 ^ 63) d.toInt.natAbs := rfl
      rw [this, ← Nat.coprime_iff_gcd_eq_one, Nat.coprime_pow_left_iff (by decide),
        Nat.coprime_two_left, Int.natAbs_odd]
    rw [← hcoprime]
    exact ⟨fun h => h.2.1, fun h => ⟨hd, h, rfl⟩⟩

/-- The numerator at the end of the range, over a negative denominator: its sign does not
change, so the value does. -/
theorem reduce_wraps_numerator_min_neg {d : Word} (hd : d.toInt < 0) (hmin : d ≠ i64Min) :
    ∃ n' d', reduce .wraps i64Min d = some (n', d') ∧
      ¬NormalForm i64Min.toInt d.toInt n'.toInt d'.toInt := by
  have hslt : d.slt 0 = true := BitVec.slt_iff_toInt_lt.mpr hd
  have hnum : i64Min * -1 = i64Min := by decide
  have hint := toInt_mul_neg_one hmin
  obtain ⟨n', d', hreduce, hn', -⟩ := reduce_eq (if_pos hslt)
    (i64Mul_wraps i64Min (-1)) (i64Mul_wraps d (-1)) (i64Abs_wraps _)
    (gcdSafe_of_pos (by omega))
  refine ⟨n', d', hreduce, ?_⟩
  rintro ⟨hpos, -, hvalue⟩
  have hnonpos : n'.toInt ≤ 0 := by
    rw [hn', hnum]
    exact tdiv_nonpos (by decide) (by omega)
  have hleft : 0 ≤ n'.toInt * d.toInt := mul_nonneg_of_nonpos_of_nonpos hnonpos hd.le
  have hright : i64Min.toInt * d'.toInt < 0 := mul_neg_of_neg_of_pos (by decide) hpos
  omega

/-! ### Exactly which fractions are reduced -/

/-- The fractions that wrapping arithmetic reduces to normal form. The denominator is not
the end of the range; a numerator that is the end of the range stands over a positive
denominator, which is odd or takes Euclid's algorithm an odd number of divisions. -/
def Reducible (n d : Int) : Prop :=
  d ≠ -2 ^ 63 ∧
    (n ≠ -2 ^ 63 ∨ 0 < d ∧ (Odd d ∨ Odd (euclidSteps (2 ^ 63) d.toNat)))

/-- Only the least word is the least integer. -/
theorem toInt_eq_min_iff {a : Word} : a.toInt = -2 ^ 63 ↔ a = i64Min :=
  ⟨fun h => BitVec.eq_of_toInt_eq h, fun h => h ▸ rfl⟩

/-- A word pair is what `reduce` returns, and it is a normal form. -/
def ReducesTo (mode : Overflow) (n d : Word) (P : Prop) : Prop :=
  ∃ n' d', reduce mode n d = some (n', d') ∧ (NormalForm n.toInt d.toInt n'.toInt d'.toInt ↔ P)

/-- In a release build `reduce` always returns, and the result is a normal form exactly for
the reducible fractions. -/
theorem reduce_wraps {n d : Word} (hzero : d ≠ 0) :
    ReducesTo .wraps n d (Reducible n.toInt d.toInt) := by
  rw [ReducesTo, Reducible, Ne, Ne, toInt_eq_min_iff, toInt_eq_min_iff]
  have hne : d.toInt ≠ 0 := fun h => hzero (BitVec.eq_of_toInt_eq h)
  by_cases hd : d = i64Min
  · subst hd
    obtain ⟨n', d', hreduce, hnonpos⟩ := reduce_wraps_denominator_min n
    refine ⟨n', d', hreduce, fun h => absurd h.1 (by omega), fun h => absurd rfl h.1⟩
  by_cases hn : n = i64Min
  · subst hn
    rcases lt_or_gt_of_ne hne with hneg | hpos
    · obtain ⟨n', d', hreduce, hnot⟩ := reduce_wraps_numerator_min_neg hneg hd
      refine ⟨n', d', hreduce, fun h => absurd h hnot, ?_⟩
      rintro ⟨-, hmin | ⟨hpos, -⟩⟩
      · exact absurd rfl hmin
      · omega
    · obtain ⟨n', d', hreduce, hiff⟩ := reduce_wraps_numerator_min hpos
      refine ⟨n', d', hreduce, hiff.trans ⟨fun h => ⟨hd, .inr ⟨hpos, h⟩⟩, ?_⟩⟩
      rintro ⟨-, hmin | ⟨-, h⟩⟩
      · exact absurd rfl hmin
      · exact h
  · obtain ⟨n', d', hreduce, hnormal⟩ := reduce_of_ne_min .wraps hn hd hzero
    exact ⟨n', d', hreduce, fun _ => ⟨hd, .inl hn⟩, fun _ => hnormal⟩

/-- With overflow checks whatever `reduce` returns is a normal form. -/
theorem normalForm_of_reduce_panics {n d n' d' : Word} (hzero : d ≠ 0)
    (h : reduce .panics n d = some (n', d')) :
    NormalForm n.toInt d.toInt n'.toInt d'.toInt := by
  by_cases hmin : n = i64Min ∨ d = i64Min
  · rw [reduce_panics_of_min hmin] at h
    cases h
  · obtain ⟨hn, hd⟩ := not_or.mp hmin
    obtain ⟨n₀, d₀, hreduce, hnormal⟩ := reduce_of_ne_min .panics hn hd hzero
    rw [h] at hreduce
    cases hreduce
    exact hnormal

section Wrap

variable {P : Platform} {mode : Overflow} (lifetime : BoxedLifetime) {args : WrapArgs}

/-- A fraction that was added is found under its word. -/
theorem getRational_push {table : BoxedTable} {word n d : Word}
    (hword : P.encodeBoxed (table.values.length + 1) = some word)
    (hroom : table.values.length + 1 < addressSpace) :
    (table.push ⟨.rational n d, lifetime⟩ hroom).getRational P word = some (n, d) := by
  rw [BoxedTable.getRational, BoxedTable.entry_push hword]

/-- A call with live pointers on a reduced fraction: it stores the fraction. -/
theorem wrapWith_of_reduce {n' d' : Word} (hnull : ¬(args.sessionNull ∨ args.outNull ∨
      args.denominator = 0))
    (h : reduce mode args.numerator args.denominator = some (n', d')) (table : BoxedTable) :
    wrapWith (BoxedTable.addReduced P mode lifetime) args table = (.abort .allocation, table) ∨
      ∃ word hroom, P.encodeBoxed (table.values.length + 1) = some word ∧
        wrapWith (BoxedTable.addReduced P mode lifetime) args table =
          (.ok ⟨0, some word⟩, table.push ⟨.rational n' d', lifetime⟩ hroom) := by
  have hzero : args.denominator ≠ 0 := fun hz => hnull (.inr (.inr hz))
  have hadd : BoxedTable.addReduced (ε := Empty) P mode lifetime args.numerator
      args.denominator = BoxedTable.add P (.rational n' d') lifetime := by
    rw [BoxedTable.addReduced, if_neg hzero, h]
  rw [wrapWith, if_neg hnull, hadd]
  obtain habort | ⟨word, hroom, hword, hok⟩ :=
    BoxedTable.add_eq (ε := Empty) (P := P) (.rational n' d') lifetime table
  · exact .inl (by rw [habort])
  · exact .inr ⟨word, hroom, hword, by rw [hok]⟩

/-- A call whose reduction panics answers `-2`. -/
theorem wrapWith_of_reduce_none (hnull : ¬(args.sessionNull ∨ args.outNull ∨
      args.denominator = 0))
    (h : reduce mode args.numerator args.denominator = none) (table : BoxedTable) :
    wrapWith (BoxedTable.addReduced P mode lifetime) args table = (.ok ⟨-2, none⟩, table) := by
  have hzero : args.denominator ≠ 0 := fun hz => hnull (.inr (.inr hz))
  have hadd : BoxedTable.addReduced (ε := Empty) P mode lifetime args.numerator
      args.denominator = Program.panic := by
    rw [BoxedTable.addReduced, if_neg hzero, h]
  rw [wrapWith, if_neg hnull, hadd]
  rfl

/-- A call that stores `n' / d'` stores a normal form exactly when that is one. -/
theorem storesNormalForm_of_reduce {n' d' : Word} (hnull : ¬(args.sessionNull ∨
      args.outNull ∨ args.denominator = 0))
    (h : reduce mode args.numerator args.denominator = some (n', d')) :
    (∀ table, StoresNormalForm P args
        (wrapWith (BoxedTable.addReduced P mode lifetime) args table)) ↔
      NormalForm args.numerator.toInt args.denominator.toInt n'.toInt d'.toInt := by
  constructor
  · intro hstores
    -- The empty table has room for the entry.
    obtain habort | ⟨word, hroom, hword, hok⟩ :=
      wrapWith_of_reduce (P := P) lifetime hnull h .new
    · obtain ⟨word, -, hadd⟩ := BoxedTable.add_eq_ok (P := P) (ε := Empty)
        (.rational n' d') lifetime (by decide : BoxedTable.new.values.length + 1 < addressSpace)
      have hzero : args.denominator ≠ 0 := fun hz => hnull (.inr (.inr hz))
      rw [wrapWith, if_neg hnull, BoxedTable.addReduced, if_neg hzero, h] at habort
      simp only [hadd, Prod.mk.injEq, reduceCtorEq, false_and] at habort
    · have hstored := hstores .new
      rw [hok] at hstored
      rcases hstored _ rfl with hcode | ⟨word', n₀, d₀, hout, hget, hnormal⟩
      · exact absurd rfl hcode
      · cases hout
        rw [getRational_push _ hword] at hget
        cases hget
        exact hnormal
  · intro hnormal table reply hreply
    obtain habort | ⟨word, hroom, hword, hok⟩ :=
      wrapWith_of_reduce (P := P) lifetime hnull h table
    · rw [habort] at hreply
      cases hreply
    · rw [hok] at hreply ⊢
      cases hreply
      exact .inr ⟨word, n', d', rfl, getRational_push _ hword hroom, hnormal⟩

/-- Exactly when a wrapping function keeps its promise. -/
theorem storesNormalForm_iff (hd : args.denominator ≠ 0) :
    (∀ table, StoresNormalForm P args
        (wrapWith (BoxedTable.addReduced P mode lifetime) args table)) ↔
      args.sessionNull ∨ args.outNull ∨ mode = .panics ∨
        Reducible args.numerator.toInt args.denominator.toInt := by
  by_cases hnull : args.sessionNull ∨ args.outNull ∨ args.denominator = 0
  · -- Null pointers are answered with `-1`.
    constructor
    · intro _
      rcases hnull with hsession | hout | hzero
      · exact .inl hsession
      · exact .inr (.inl hout)
      · exact absurd hzero hd
    · intro _ table reply hreply
      rw [wrapWith, if_pos hnull] at hreply
      cases hreply
      exact .inl (by decide)
  · have hlive : ¬(args.sessionNull = true ∨ args.outNull = true) :=
      fun h => hnull (h.imp_right .inl)
    obtain ⟨hsession, hout⟩ := not_or.mp hlive
    rw [or_iff_right hsession, or_iff_right hout]
    cases mode with
    | wraps =>
        obtain ⟨n', d', hreduce, hiff⟩ := reduce_wraps (n := args.numerator) hd
        rw [storesNormalForm_of_reduce lifetime hnull hreduce, hiff, or_iff_right (by decide)]
    | panics =>
        refine ⟨fun _ => .inl rfl, fun _ => ?_⟩
        cases hreduce : reduce .panics args.numerator args.denominator with
        | none =>
            intro table reply hreply
            rw [wrapWith_of_reduce_none lifetime hnull hreduce] at hreply
            cases hreply
            exact .inl (by decide)
        | some pair =>
            obtain ⟨n', d'⟩ := pair
            exact (storesNormalForm_of_reduce lifetime hnull hreduce).mpr
              (normalForm_of_reduce_panics hd hreduce)

end Wrap

/-- **Which fractions are stored in normal form.** Every one in a build with overflow
checks, and exactly the reducible ones in a release build; both wrapping functions alike. -/
theorem wsmWrap_normalForm_iff (P : Platform) (mode : Overflow) (args : WrapArgs)
    (hd : args.denominator ≠ 0) :
    ((∀ table, StoresNormalForm P args (wsmWrapRational P mode args table)) ↔
        args.sessionNull ∨ args.outNull ∨ mode = .panics ∨
          Reducible args.numerator.toInt args.denominator.toInt) ∧
      ((∀ table, StoresNormalForm P args (wsmWrapTransientRational P mode args table)) ↔
        args.sessionNull ∨ args.outNull ∨ mode = .panics ∨
          Reducible args.numerator.toInt args.denominator.toInt) :=
  ⟨storesNormalForm_iff _ hd, storesNormalForm_iff _ hd⟩

/-- Six over minus four is stored in normal form by a release build. -/
theorem wsmWrap_normalForm_six :
    StoresNormalForm .standard ⟨false, false, 6, -4⟩
      (wsmWrapRational .standard .wraps ⟨false, false, 6, -4⟩ .new) :=
  (wsmWrap_normalForm_iff .standard .wraps ⟨false, false, 6, -4⟩ (by decide)).1.mpr
    (.inr (.inr (.inr ⟨by decide, .inl (by decide)⟩))) .new

/-- In a release build `i64::MIN / 6` is stored as it is: the recursion ends on `-2`, which
counts as one. -/
theorem wsmWrapRational_min_six :
    ¬StoresNormalForm .standard ⟨false, false, i64Min, 6⟩
      (wsmWrapRational .standard .wraps ⟨false, false, i64Min, 6⟩ .new) := by
  have hgcd : gcd i64Min 6 = some (-2) := by
    rw [gcd_of_rem (r := -2) (by decide), gcd_of_rem (r := 0) (by decide), gcd_zero]
  have habs : i64Abs .wraps i64Min = some i64Min := by decide
  have hreduce : reduce .wraps i64Min 6 = some (i64Min, 6) := by
    have hslt : (6 : Word).slt 0 = false := by decide
    have hmax : i64Max (-2) 1 = 1 := by decide
    have hdiv : i64Div i64Min 1 = some i64Min ∧ i64Div 6 1 = some 6 := by decide
    simp only [reduce, hslt, i64Mul_one, habs, hgcd, hmax, hdiv, Option.bind_eq_bind,
      Option.bind_some, Option.pure_def, Bool.false_eq_true, if_false]
  intro hstores
  obtain ⟨word, hword, hadd⟩ := BoxedTable.add_eq_ok (P := .standard) (ε := Empty)
    (.rational i64Min 6) .persistent (by decide : BoxedTable.new.values.length + 1 < addressSpace)
  have hcall : wsmWrapRational .standard .wraps ⟨false, false, i64Min, 6⟩ .new =
      (.ok ⟨0, some word⟩, BoxedTable.new.push ⟨.rational i64Min 6, .persistent⟩ (by decide)) := by
    rw [wsmWrapRational, wrapWith, if_neg (by decide), BoxedTable.addRational,
      BoxedTable.addReduced, if_neg (by decide), hreduce]
    simp only [hadd]
  rw [hcall] at hstores
  rcases hstores _ rfl with hcode | ⟨word', n', d', hout, hget, -, hcoprime, -⟩
  · exact absurd rfl hcode
  · cases hout
    rw [getRational_push _ hword] at hget
    cases hget
    exact absurd hcoprime (by decide)

end LispHost
