import LispHost.Lib.Transition
import Mathlib.Data.List.Induction

/-!
# What a History Says

Two ways to speak of a run by its labels alone. Something stands when a label has opened it and
no label has closed it since; what stands can be a part of the state. And a rule of conduct says
of each label what the labels before it have to be like.

## Main definitions

* `Standing`: what was opened and has not been closed since.
* `Obeys`: the histories that keep to a rule.

## Main results

* `standing_snoc`: one more label.
* `Run.standing`: a part of the state that some labels set and others reset.
* `obeys_append`, `Obeys.at`: a rule along a history, and at one of its labels.
* `Obeys.exclusive`: a rule that keeps two things from standing at one time.
-/

namespace Effects

variable {σ ℓ : Type} {opens closes opens' closes' : ℓ → Prop} {allowed : List ℓ → ℓ → Prop}

/-! ### What stands -/

/-- A label has opened it, and none has closed it since. -/
def Standing (opens closes : ℓ → Prop) (ls : List ℓ) : Prop :=
  ∃ before l after, ls = before ++ l :: after ∧ opens l ∧ ∀ l' ∈ after, ¬closes l'

/-- At the beginning nothing stands. -/
theorem not_standing_nil : ¬Standing opens closes [] := by
  rintro ⟨before, l, after, heq, -⟩
  exact List.cons_ne_nil l after (List.append_eq_nil_iff.mp heq.symm).2

/-- What stands was opened. -/
theorem Standing.exists_mem {ls : List ℓ} (h : Standing opens closes ls) : ∃ l ∈ ls, opens l := by
  obtain ⟨before, l, after, rfl, hopens, -⟩ := h
  exact ⟨l, List.mem_append_right _ List.mem_cons_self, hopens⟩

/-- **One more label** opens, or closes, or leaves what stands. -/
theorem standing_snoc {ls : List ℓ} {l : ℓ} :
    Standing opens closes (ls ++ [l]) ↔ opens l ∨ Standing opens closes ls ∧ ¬closes l := by
  constructor
  · rintro ⟨before, l', after, heq, hopens, hafter⟩
    rcases List.eq_nil_or_concat' after with rfl | ⟨after, last, rfl⟩
    · obtain ⟨-, hlast⟩ := List.append_inj' heq rfl
      obtain rfl := List.singleton_inj.mp hlast
      exact .inl hopens
    · rw [← List.cons_append, ← List.append_assoc] at heq
      obtain ⟨rfl, hlast⟩ := List.append_inj' heq rfl
      obtain rfl := List.singleton_inj.mp hlast
      exact .inr ⟨⟨before, l', after, rfl, hopens, fun l'' hmem =>
        hafter l'' (List.mem_append_left _ hmem)⟩, hafter l (by simp)⟩
  · rintro (hopens | ⟨⟨before, l', after, rfl, hopens, hafter⟩, hcloses⟩)
    · exact ⟨ls, l, [], rfl, hopens, by rintro _ ⟨⟩⟩
    · refine ⟨before, l', after ++ [l], by simp, hopens, ?_⟩
      intro l'' hmem
      obtain hmem | hmem := List.mem_append.mp hmem
      · exact hafter l'' hmem
      · rwa [List.mem_singleton.mp hmem]

/-- **What stands in the state.** A property of states that holds behind a step exactly if its
label opens it, or it held before and the label does not close it, stands in the history. -/
theorem Run.standing {step : σ → ℓ → σ → Prop} {Q : σ → Prop}
    (hstep : ∀ s l s', step s l s' → (Q s' ↔ opens l ∨ Q s ∧ ¬closes l)) {s s' : σ} {ls : List ℓ}
    (h : Run step s ls s') (hs : ¬Q s) : Q s' ↔ Standing opens closes ls := by
  refine h.history (I := fun ls s => Q s ↔ Standing opens closes ls) ?_
    (iff_of_false hs not_standing_nil)
  intro ls s₁ l s₂ hI hnext
  rw [hstep s₁ l s₂ hnext, hI, standing_snoc]

/-! ### Rules of conduct -/

/-- Every label is allowed by the labels before it, of which `past` are the first. -/
def Obeys (allowed : List ℓ → ℓ → Prop) : List ℓ → List ℓ → Prop
  | _, [] => True
  | past, l :: ls => allowed past l ∧ Obeys allowed (past ++ [l]) ls

/-- **A history in two parts.** -/
theorem obeys_append {past ls ls' : List ℓ} : Obeys allowed past (ls ++ ls') ↔
    Obeys allowed past ls ∧ Obeys allowed (past ++ ls) ls' := by
  induction ls generalizing past with
  | nil => simp only [List.nil_append, List.append_nil, Obeys, true_and]
  | cons l ls ih =>
      simp only [List.cons_append, Obeys, ih, List.append_assoc, List.nil_append, and_assoc]

/-- What a rule says at one label. -/
theorem Obeys.at {before after : List ℓ} {l : ℓ}
    (h : Obeys allowed [] (before ++ l :: after)) : allowed before l :=
  (obeys_append.mp h).2.1

/-- **Mutual exclusion.** Where neither of two things may be opened while the other stands, they
never stand at one time. -/
theorem Obeys.exclusive {ls : List ℓ} (h : Obeys allowed [] ls)
    (hfirst : ∀ past l, allowed past l → opens l → ¬opens' l ∧ ¬Standing opens' closes' past)
    (hsecond : ∀ past l, allowed past l → opens' l → ¬Standing opens closes past)
    (hstands : Standing opens closes ls) : ¬Standing opens' closes' ls := by
  induction ls using List.reverseRecOn with
  | nil => exact absurd hstands not_standing_nil
  | append_singleton ls l ih =>
      obtain ⟨hpast, hallowed, -⟩ := obeys_append.mp h
      rw [List.nil_append] at hallowed
      rw [standing_snoc] at hstands ⊢
      rintro (hopens' | ⟨hstands', -⟩)
      · obtain hopens | ⟨hstands, -⟩ := hstands
        · exact (hfirst ls l hallowed hopens).1 hopens'
        · exact hsecond ls l hallowed hopens' hstands
      · obtain hopens | ⟨hstands, -⟩ := hstands
        · exact (hfirst ls l hallowed hopens).2 hstands'
        · exact ih hpast hstands hstands'

end Effects
