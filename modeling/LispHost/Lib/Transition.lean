import Mathlib.Data.List.Basic

/-!
# Labelled Transition Systems

A transition system is a step relation `step : σ → ℓ → σ → Prop` between states, with a
label on every step. A run lists the labels of its steps. This module has the runs and
the rules by which a property of single steps becomes a property of runs.

## Main definitions

* `Run`: the runs of a transition system.

## Main results

* `Run.append_iff`: a run splits where its labels do.
* `Run.invariant`: what every step preserves, every run preserves.
* `Run.history`, `Run.history_along`: the same with the labels so far.
* `Run.labels`: what holds of the label of every step, holds of all labels.
* `Run.restrict`: labels that have a property.
* `Run.conserves`: what goes in comes out in order, or is held.
* `Run.map`, `Run.flatMap`: steps that are mapped to steps, or to runs, map runs to runs.
-/

namespace Effects

variable {σ τ ℓ κ : Type}

/-- The runs of a transition system, with the labels of their steps. -/
inductive Run (step : σ → ℓ → σ → Prop) : σ → List ℓ → σ → Prop where
  | nil (s : σ) : Run step s [] s
  | cons {s s' s'' : σ} {l : ℓ} {ls : List ℓ} :
      step s l s' → Run step s' ls s'' → Run step s (l :: ls) s''

namespace Run

variable {step : σ → ℓ → σ → Prop}

/-- A run without labels goes nowhere. -/
theorem nil_iff {s s' : σ} : Run step s [] s' ↔ s = s' := by
  constructor
  · rintro ⟨⟩
    rfl
  · rintro rfl
    exact .nil s

/-- A run with a first label makes its step first. -/
theorem cons_iff {s s'' : σ} {l : ℓ} {ls : List ℓ} :
    Run step s (l :: ls) s'' ↔ ∃ s', step s l s' ∧ Run step s' ls s'' := by
  constructor
  · rintro (_ | ⟨hstep, hrun⟩)
    exact ⟨_, hstep, hrun⟩
  · rintro ⟨s', hstep, hrun⟩
    exact .cons hstep hrun

/-- **A run splits where its labels do.** -/
theorem append_iff {s s'' : σ} {ls ls' : List ℓ} :
    Run step s (ls ++ ls') s'' ↔ ∃ s', Run step s ls s' ∧ Run step s' ls' s'' := by
  induction ls generalizing s with
  | nil => simp only [List.nil_append, nil_iff, exists_eq_left']
  | cons l ls ih =>
      simp only [List.cons_append, cons_iff, ih]
      constructor
      · rintro ⟨s₁, hstep, s', hrun, hrest⟩
        exact ⟨s', ⟨s₁, hstep, hrun⟩, hrest⟩
      · rintro ⟨s', ⟨s₁, hstep, hrun⟩, hrest⟩
        exact ⟨s₁, hstep, s', hrun, hrest⟩

/-- A step is a run. -/
theorem single {s s' : σ} {l : ℓ} (h : step s l s') : Run step s [l] s' :=
  .cons h (.nil s')

/-- **Invariants.** What every step preserves, every run preserves. -/
theorem invariant {I : σ → Prop} (hstep : ∀ s l s', I s → step s l s' → I s')
    {s s' : σ} {ls : List ℓ} (h : Run step s ls s') (hs : I s) : I s' := by
  induction h with
  | nil => exact hs
  | cons hfirst _ ih => exact ih (hstep _ _ _ hs hfirst)

/-- **Histories.** A relation between the labels so far and the state that every step
preserves holds at the end of a run. -/
theorem history {I : List ℓ → σ → Prop}
    (hstep : ∀ ls s l s', I ls s → step s l s' → I (ls ++ [l]) s')
    {s s' : σ} {ls : List ℓ} (h : Run step s ls s') (hs : I [] s) : I ls s' := by
  have hpast : ∀ past, I past s → I (past ++ ls) s' := by
    clear hs
    induction h with
    | nil s =>
        intro past hs
        rwa [List.append_nil]
    | @cons s s' s'' l ls hfirst _ ih =>
        intro past hs
        have hnext := ih (past ++ [l]) (hstep past s l s' hs hfirst)
        rwa [List.append_assoc, List.singleton_append] at hnext
  exact hpast [] hs

/-- A history can use what is known of every run. -/
theorem history_along {I J : List ℓ → σ → Prop} {s s' : σ} {ls : List ℓ} (h : Run step s ls s')
    (hknown : ∀ {ls s'}, Run step s ls s' → J ls s')
    (hstep : ∀ ls s l s', J ls s → I ls s → step s l s' → I (ls ++ [l]) s') (hs : I [] s) :
    I ls s' := by
  have hboth : Run step s ls s' ∧ I ls s' := by
    refine h.history (I := fun ls s' => Run step s ls s' ∧ I ls s') ?_ ⟨.nil s, hs⟩
    rintro ls s₁ l s₂ ⟨hrun, hI⟩ hnext
    exact ⟨append_iff.mpr ⟨s₁, hrun, .single hnext⟩, hstep ls s₁ l s₂ (hknown hrun) hI hnext⟩
  exact hboth.2

/-- **Labels.** What every step from a state of the invariant says of its label, holds of all
labels of a run. -/
theorem labels {I : σ → Prop} {Q : ℓ → Prop} (hstep : ∀ s l s', I s → step s l s' → I s' ∧ Q l)
    {s s' : σ} {ls : List ℓ} (h : Run step s ls s') (hs : I s) : ∀ l ∈ ls, Q l := by
  induction h with
  | nil =>
      rintro l ⟨⟩
  | cons hfirst _ ih =>
      obtain ⟨hs', hlabel⟩ := hstep _ _ _ hs hfirst
      exact List.forall_mem_cons.mpr ⟨hlabel, ih hs'⟩

/-- **Conservation.** Where every step hands on in order what it holds and takes in, the run
does. -/
theorem conserves {α : Type} (held : σ → List α) {ins outs : ℓ → List α} {I : σ → Prop}
    (hstep : ∀ s l s', I s → step s l s' → I s' ∧ held s ++ ins l = outs l ++ held s')
    {s s' : σ} {ls : List ℓ} (h : Run step s ls s') (hs : I s) :
    held s ++ ls.flatMap ins = ls.flatMap outs ++ held s' := by
  induction h with
  | nil => rw [List.flatMap_nil, List.flatMap_nil, List.append_nil, List.nil_append]
  | @cons s s' s'' l ls hfirst _ ih =>
      obtain ⟨hs', hflow⟩ := hstep _ _ _ hs hfirst
      calc held s ++ (l :: ls).flatMap ins
          = (held s ++ ins l) ++ ls.flatMap ins := by rw [List.flatMap_cons, List.append_assoc]
        _ = outs l ++ (held s' ++ ls.flatMap ins) := by rw [hflow, List.append_assoc]
        _ = (l :: ls).flatMap outs ++ held s'' := by
          rw [ih hs', List.flatMap_cons, List.append_assoc]

/-- A run at one of its steps. -/
theorem split {s s'' : σ} {before after : List ℓ} {l : ℓ}
    (h : Run step s (before ++ l :: after) s'') :
    ∃ s₁ s₂, Run step s before s₁ ∧ step s₁ l s₂ ∧ Run step s₂ after s'' := by
  obtain ⟨s₁, hbefore, hrest⟩ := append_iff.mp h
  obtain ⟨s₂, hstep, hafter⟩ := cons_iff.mp hrest
  exact ⟨s₁, s₂, hbefore, hstep, hafter⟩

/-- A run whose labels have a property is one of the steps whose labels have it. -/
theorem restrict {Q : ℓ → Prop} {s s' : σ} {ls : List ℓ} (h : Run step s ls s')
    (hls : ∀ l ∈ ls, Q l) : Run (fun s l s' => step s l s' ∧ Q l) s ls s' := by
  induction h with
  | nil => exact .nil _
  | cons hfirst _ ih =>
      obtain ⟨hl, hrest⟩ := List.forall_mem_cons.mp hls
      exact .cons ⟨hfirst, hl⟩ (ih hrest)

/-- Steps that are mapped to steps, as long as an invariant holds, map runs to runs. -/
theorem map {step' : τ → κ → τ → Prop} (f : σ → τ) (g : ℓ → κ) {I : σ → Prop}
    (hinv : ∀ s l s', I s → step s l s' → I s')
    (hstep : ∀ s l s', I s → step s l s' → step' (f s) (g l) (f s'))
    {s s' : σ} {ls : List ℓ} (h : Run step s ls s') (hs : I s) :
    Run step' (f s) (ls.map g) (f s') := by
  induction h with
  | nil => exact .nil _
  | cons hfirst _ ih => exact .cons (hstep _ _ _ hs hfirst) (ih (hinv _ _ _ hs hfirst))

/-- Steps that are mapped to runs map runs to runs. -/
theorem flatMap {step' : τ → κ → τ → Prop} (f : σ → τ) (g : ℓ → List κ)
    (hstep : ∀ s l s', step s l s' → Run step' (f s) (g l) (f s'))
    {s s' : σ} {ls : List ℓ} (h : Run step s ls s') : Run step' (f s) (ls.flatMap g) (f s') := by
  induction h with
  | nil => exact .nil _
  | cons hfirst _ ih => exact append_iff.mpr ⟨_, hstep _ _ _ hfirst, ih⟩

end Run

end Effects
