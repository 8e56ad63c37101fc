import Mathlib.Data.List.Basic
import Mathlib.Data.Set.Insert

/-!
# Resources that Are Acquired, Used and Released

What a program does with its resources is a list of operations, each on the key of a resource.
The operations are disciplined if each comes at its time: a key is acquired once, and used and
released only while it is live. So nothing is used behind its release, or released twice.

A program that is disciplined and knows what it holds can go on. `Holds ops held` says both, and
there is a rule for each operation.

## Main definitions

* `ResourceOp`, `Live`: the operations, and what is live behind some of them.
* `Disciplined`: every operation comes at its time.
* `Holds`: what a disciplined program holds.

## Main results

* `Holds.acquire`, `Holds.use`, `Holds.release`: the rules.
* `Disciplined.count_release_le`: nothing is released twice.
-/

namespace Effects

/-- What a program does with a resource. -/
inductive ResourceOp (κ : Type) where
  | acquire (key : κ)
  | use (key : κ)
  | release (key : κ)
deriving DecidableEq, Repr

namespace ResourceOp

variable {κ : Type}

/-- What is live behind some operations. -/
def Live (ops : List (ResourceOp κ)) (key : κ) : Prop := acquire key ∈ ops ∧ release key ∉ ops

/-- The operations that may come next. -/
def Allowed (ops : List (ResourceOp κ)) : ResourceOp κ → Prop
  | acquire key => acquire key ∉ ops
  | use key => Live ops key
  | release key => Live ops key

/-- **Discipline.** Every operation may come behind those before it. -/
def Disciplined (ops : List (ResourceOp κ)) : Prop :=
  ∀ before op after, ops = before ++ op :: after → Allowed before op

/-- What a disciplined program holds. -/
structure Holds (ops : List (ResourceOp κ)) (held : Set κ) : Prop where
  disciplined : Disciplined ops
  live : ∀ key, Live ops key ↔ key ∈ held

variable {ops : List (ResourceOp κ)} {held : Set κ} {key : κ}

/-- Doing nothing is disciplined. -/
theorem disciplined_nil : Disciplined ([] : List (ResourceOp κ)) := by
  intro before op after h
  cases before <;> cases h

/-- One more operation. -/
theorem disciplined_snoc {op : ResourceOp κ} :
    Disciplined (ops ++ [op]) ↔ Disciplined ops ∧ Allowed ops op := by
  constructor
  · intro h
    constructor
    · rintro before op' after rfl
      exact h before op' (after ++ [op]) (by simp)
    · exact h ops op [] rfl
  · rintro ⟨h, hlast⟩ before op' after heq
    rcases after.eq_nil_or_concat' with rfl | ⟨after', last, rfl⟩
    · obtain ⟨rfl, hop⟩ := List.append_inj' heq rfl
      rwa [← List.singleton_inj.mp hop]
    · rw [← List.cons_append, ← List.append_assoc] at heq
      obtain ⟨rfl, -⟩ := List.append_inj' heq rfl
      exact h before op' after' rfl

/-- Nothing is released before it is acquired. -/
theorem Disciplined.acquire_mem (h : Disciplined ops) (hmem : release key ∈ ops) :
    acquire key ∈ ops := by
  obtain ⟨before, after, rfl⟩ := List.append_of_mem hmem
  exact List.mem_append_left _ (h before _ after rfl).1

/-- **Nothing is released twice.** -/
theorem Disciplined.count_release_le [DecidableEq κ] (h : Disciplined ops) :
    ops.count (release key) ≤ 1 := by
  by_cases hmem : release key ∈ ops
  · obtain ⟨before, after, rfl⟩ := List.append_of_mem hmem
    have hbefore : release key ∉ before := (h before _ after rfl).2
    have hafter : release key ∉ after := by
      intro hlater
      obtain ⟨middle, last, rfl⟩ := List.append_of_mem hlater
      have hlive : Live (before ++ release key :: middle) key :=
        h (before ++ release key :: middle) (release key) last (by simp)
      exact hlive.2 (List.mem_append_right _ List.mem_cons_self)
    rw [List.count_append, List.count_cons_self, List.count_eq_zero.mpr hbefore,
      List.count_eq_zero.mpr hafter]
  · rw [List.count_eq_zero.mpr hmem]
    exact Nat.zero_le _

namespace Holds

/-- At first nothing is held. -/
theorem nil : Holds ([] : List (ResourceOp κ)) ∅ where
  disciplined := disciplined_nil
  live key := iff_of_false (by rintro ⟨⟨⟩, -⟩) (Set.notMem_empty key)

/-- What is held is a set; how it is written does not matter. -/
theorem congr {held' : Set κ} (h : Holds ops held) (heq : ∀ key, key ∈ held' ↔ key ∈ held) :
    Holds ops held' :=
  ⟨h.disciplined, fun key => (h.live key).trans (heq key).symm⟩

/-- What was not acquired is not live. -/
theorem not_mem (h : Holds ops held) (hnew : acquire key ∉ ops) : key ∉ held := fun hmem =>
  hnew ((h.live key).mpr hmem).1

/-- **Acquiring** what was not acquired before. -/
theorem acquire (h : Holds ops held) (hnew : acquire key ∉ ops) :
    Holds (ops ++ [.acquire key]) (insert key held) where
  disciplined := disciplined_snoc.mpr ⟨h.disciplined, hnew⟩
  live other := by
    have hreleased : release key ∉ ops := fun hmem => hnew (h.disciplined.acquire_mem hmem)
    have hlive := h.live other
    simp only [Live, List.mem_append, List.mem_singleton, reduceCtorEq, or_false,
      ResourceOp.acquire.injEq, Set.mem_insert_iff] at hlive ⊢
    by_cases heq : other = key
    · subst heq
      exact iff_of_true ⟨.inr rfl, hreleased⟩ (.inl rfl)
    · rw [or_iff_left heq, or_iff_right heq]
      exact hlive

/-- **Using** what is held. -/
theorem use (h : Holds ops held) (hheld : key ∈ held) : Holds (ops ++ [.use key]) held where
  disciplined := disciplined_snoc.mpr ⟨h.disciplined, (h.live key).mpr hheld⟩
  live other := by
    have hlive := h.live other
    simpa [Live] using hlive

/-- **Releasing** what is held. -/
theorem release (h : Holds ops held) (hheld : key ∈ held) :
    Holds (ops ++ [.release key]) (held \ {key}) where
  disciplined := disciplined_snoc.mpr ⟨h.disciplined, (h.live key).mpr hheld⟩
  live other := by
    have hlive := h.live other
    simp only [Live, List.mem_append, List.mem_singleton, reduceCtorEq, or_false,
      ResourceOp.release.injEq, not_or, Set.mem_sdiff, Set.mem_singleton_iff] at hlive ⊢
    rw [← hlive, and_assoc]

end Holds

end ResourceOp

end Effects
