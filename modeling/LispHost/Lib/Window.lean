import Mathlib.Data.List.Destutter
import Mathlib.Data.List.DropRight

/-!
# Windows on a Log

A log that is kept in bounded memory drops its oldest entry for every entry that comes in once
it is full. What is left is a window on the log that was never cut: its last entries. This
module has the push into a window, and the logs that leave out an entry equal to the one before.

## Main definitions

* `pushWindow`: the push, as a window does it.

## Main results

* `pushWindow_rtake`: pushing into a window of a log gives the window of the longer log.
* `rtake_rtake`: a window on a window.
* `destutter_ne_concat`: a log without consecutive duplicates grows by what differs from the
  last entry.
* `changesFrom_concat`: the changes of a value grow by what differs from the value.
-/

namespace Effects

variable {α : Type}

/-- A push into a window: the front goes when the window is full. -/
def pushWindow (capacity : Nat) (window : List α) (a : α) : List α :=
  (if window.length = capacity then window.tail else window) ++ [a]

/-- The back of a list has at most as many items as are asked for. -/
theorem length_rtake (l : List α) (n : Nat) : (l.rtake n).length = min n l.length := by
  rw [List.rtake, List.length_drop]
  omega

/-- A window never grows beyond its capacity. -/
theorem length_pushWindow_le {capacity : Nat} {window : List α} {a : α} (hpos : 0 < capacity)
    (hwindow : window.length ≤ capacity) : (pushWindow capacity window a).length ≤ capacity := by
  rw [pushWindow, List.length_append, List.length_singleton]
  by_cases hfull : window.length = capacity
  · rw [if_pos hfull, List.length_tail]
    omega
  · rw [if_neg hfull]
    omega

/-- **Pushing into a window of a log gives the window of the longer log.** -/
theorem pushWindow_rtake {capacity : Nat} (hpos : 0 < capacity) (l : List α) (a : α) :
    pushWindow capacity (l.rtake capacity) a = (l ++ [a]).rtake capacity := by
  obtain ⟨c, rfl⟩ := Nat.exists_eq_succ_of_ne_zero hpos.ne'
  rw [List.rtake_concat_succ, pushWindow, length_rtake]
  refine congrArg (· ++ [a]) ?_
  by_cases hfull : min c.succ l.length = c.succ
  · -- a full window gives up exactly the entry that the shorter window does not reach
    rw [if_pos hfull, List.rtake, List.rtake, List.tail_drop]
    exact congrArg (List.drop · l) (by omega)
  · rw [if_neg hfull, List.rtake, List.rtake]
    exact congrArg (List.drop · l) (by omega)

/-- The back of a back is the shorter back. -/
theorem rtake_rtake (l : List α) (m n : Nat) : (l.rtake n).rtake m = l.rtake (min m n) := by
  simp only [List.rtake, List.drop_drop, List.length_drop]
  exact congrArg (List.drop · l) (by omega)

/-- A back that is not empty has the last item of the list. -/
theorem getLast?_rtake {n : Nat} (hpos : 0 < n) (l : List α) :
    (l.rtake n).getLast? = l.getLast? := by
  rcases List.eq_nil_or_concat l with rfl | ⟨l, a, rfl⟩
  · rw [List.rtake_nil]
  · obtain ⟨n, rfl⟩ := Nat.exists_eq_succ_of_ne_zero hpos.ne'
    rw [List.concat_eq_append, List.rtake_concat_succ, List.getLast?_concat, List.getLast?_concat]

section Destutter

variable [DecidableEq α]

/-- Behind a running entry `a`: what comes in is kept if it differs from the last one. -/
theorem destutter'_ne_concat (l : List α) (a b : α) :
    (l ++ [b]).destutter' (· ≠ ·) a =
      l.destutter' (· ≠ ·) a ++ if (a :: l).getLast? = some b then [] else [b] := by
  induction l generalizing a with
  | nil =>
      by_cases hab : a = b <;> simp [List.destutter', hab]
  | cons c l ih =>
      by_cases hac : a = c
      · subst hac
        rw [List.cons_append, List.destutter'_cons_neg _ (by simp),
          List.destutter'_cons_neg _ (by simp), ih, List.getLast?_cons_cons]
      · rw [List.cons_append, List.destutter'_cons_pos _ hac, List.destutter'_cons_pos _ hac, ih,
          List.cons_append, List.getLast?_cons_cons]

/-- **A log without consecutive duplicates grows by what differs from the last entry.** -/
theorem destutter_ne_concat (l : List α) (a : α) :
    (l ++ [a]).destutter (· ≠ ·) =
      l.destutter (· ≠ ·) ++ if l.getLast? = some a then [] else [a] := by
  cases l with
  | nil => simp
  | cons b l => exact destutter'_ne_concat l b a

/-- Dropping repetitions keeps the last item. -/
theorem getLast?_destutter_ne (l : List α) : (l.destutter (· ≠ ·)).getLast? = l.getLast? := by
  induction l using List.reverseRecOn with
  | nil => rfl
  | append_singleton l a ih =>
      rw [destutter_ne_concat, List.getLast?_concat]
      by_cases hlast : l.getLast? = some a
      · rw [if_pos hlast, List.append_nil, ih, hlast]
      · rw [if_neg hlast, List.getLast?_concat]

/-- The values that a value has taken after `a`, one after the other. -/
def changesFrom (a : α) (l : List α) : List α := ((a :: l).destutter (· ≠ ·)).tail

@[simp] theorem changesFrom_nil (a : α) : changesFrom a [] = [] := rfl

/-- A last item is a change unless it repeats the one before it. -/
theorem changesFrom_concat (a : α) (l : List α) (b : α) :
    changesFrom a (l ++ [b]) = changesFrom a l ++ if l.getLast?.getD a = b then [] else [b] := by
  have hlast : (a :: l).getLast? = some (l.getLast?.getD a) := List.getLast?_cons
  have hne : (a :: l).destutter (· ≠ ·) ≠ [] := by
    intro hnil
    have hsame := getLast?_destutter_ne (a :: l)
    rw [hnil, hlast] at hsame
    cases hsame
  rw [changesFrom, ← List.cons_append, destutter_ne_concat, List.tail_append_of_ne_nil hne,
    hlast, changesFrom]
  simp only [Option.some_inj]

end Destutter

end Effects
