import LispHost.Plugin
import Mathlib.Data.Option.Basic

/-!
# When a Load Completes

The journal changes nothing of what the globals are: a call does to them what it does without
the journal. Only the dispatch source of a failed load is left open there; an empty file clears
it.
-/

open Effects

namespace LispHost

open Loading (Step require expect record loadDispatchSource openSession checkSession)

variable {S R α β γ : Type}

/-- An outcome, up to the numbers of resources; `none` is `return false`. -/
def Answers (outcome : Outcome Empty Unit α) : Option β → (β → α → Prop) → Prop
  | none, _ => outcome = .err ()
  | some b, V => ∃ a, outcome = .ok a ∧ V b a

/-- What a step returns, from wherever it is started. -/
def Agrees (step : Step S R α) (answer : Option β) (V : β → α → Prop) : Prop :=
  ∀ loading, Answers (step loading).1 answer V

variable {step : Step S R α} {answer : Option β} {V : β → α → Prop}

/-- A value agrees with an answer that it stands for. -/
theorem agrees_pure {a : α} {b : β} (h : V b a) :
    Agrees (pure a : Step S R α) (some b) V := fun _ => ⟨a, rfl, h⟩

/-- Steps agree one behind the other. -/
theorem agrees_bind {first : Step S R γ} {rest : γ → Step S R α} {δ : Type} {answer : Option δ}
    {next : δ → Option β} {U : δ → γ → Prop} (h : Agrees first answer U)
    (hrest : ∀ d c, U d c → Agrees (rest c) (next d) V) :
    Agrees (first >>= rest) (answer >>= next) V := by
  intro loading
  have hfirst := h loading
  rcases hrun : first loading with ⟨o, loading'⟩
  rw [hrun] at hfirst
  cases answer with
  | none =>
      cases hfirst
      rw [Program.bind_err hrun]
      rfl
  | some d =>
      obtain ⟨c, rfl, hc⟩ := hfirst
      rw [Program.bind_ok hrun]
      exact hrest d c hc loading'

/-- A step that returns what is known. -/
theorem agrees_known {first : Step S R γ} {rest : γ → Step S R α} {c : γ}
    (h : Agrees first (some c) Eq) (hrest : Agrees (rest c) answer V) :
    Agrees (first >>= rest) answer V := by
  intro loading
  obtain ⟨c', hc, heq⟩ := h loading
  subst heq
  rcases hrun : first loading with ⟨o, loading'⟩
  rw [hrun] at hc
  cases hc
  rw [Program.bind_ok hrun]
  exact hrest loading'

/-- A step that always returns something. -/
theorem agrees_skip {first : Step S R γ} {rest : γ → Step S R α}
    (h : Agrees first (some ()) fun _ _ => True) (hrest : ∀ c, Agrees (rest c) answer V) :
    Agrees (first >>= rest) answer V := by
  intro loading
  obtain ⟨c, hc, -⟩ := h loading
  rcases hrun : first loading with ⟨o, loading'⟩
  rw [hrun] at hc
  cases hc
  rw [Program.bind_ok hrun]
  exact hrest c loading'

/-- A check agrees with a guard. -/
theorem agrees_require (check : Prop) [Decidable check] :
    Agrees (require check : Step S R Unit) (guard check) fun _ _ => True := by
  intro loading
  by_cases h : check
  · rw [require, if_pos h, guard, if_pos h]
    exact ⟨(), rfl, trivial⟩
  · rw [require, if_neg h, guard, if_neg h]
    rfl

/-- An answer that has to be there agrees with itself. -/
theorem agrees_expect (answer : Option α) :
    Agrees (expect answer : Step S R α) answer Eq := by
  intro loading
  cases answer with
  | some a => exact ⟨a, rfl, rfl⟩
  | none => rfl

/-- The last pointer that is checked. -/
theorem agrees_last {answer : Option β} {rest : β → Step S R α}
    (hrest : ∀ b, Agrees (rest b) (some b) V) : Agrees (expect answer >>= rest) answer V := by
  cases answer with
  | none => exact fun _ => rfl
  | some b => exact hrest b

/-- The dispatch source agrees with the first file that is not empty. -/
theorem agrees_loadDispatchSource (files : List (Option Bytes)) :
    Agrees (loadDispatchSource files : Step S R Bool) (some (firstSource files).isSome) Eq :=
  fun loading => ⟨_, rfl, (loadFirstExisting_spec files loading.plugin.dispatchSource).1.symm⟩

/-- A record in the journal cannot fail. -/
theorem agrees_record (f : Journal → Journal) :
    Agrees (record f : Step S R Unit) (some ()) fun _ _ => True := fun _ => ⟨(), rfl, trivial⟩

/-- **When a load gets a session.** -/
theorem agrees_openSession (calls : LoadCalls S) :
    Agrees (openSession calls : Step S R (Resource × Resource × S)) calls.opened
      fun state opened => opened.2.2 = state := by
  rw [openSession, LoadCalls.opened]
  refine agrees_skip (fun _ => ⟨_, rfl, trivial⟩) fun _ => ?_
  refine agrees_bind (agrees_require _) fun _ _ _ => ?_
  refine agrees_skip (fun _ => ⟨_, rfl, trivial⟩) fun wsmModule => ?_
  refine agrees_bind (agrees_expect _) fun abiVersion _ heq => ?_
  subst heq
  refine agrees_bind (agrees_expect _) fun featureBits _ heq => ?_
  subst heq
  refine agrees_skip (agrees_record _) fun _ => ?_
  refine agrees_bind (agrees_require _) fun _ _ _ => ?_
  refine agrees_skip (agrees_record _) fun _ => ?_
  refine agrees_bind (agrees_require _) fun _ _ _ => ?_
  refine agrees_skip (agrees_record _) fun _ => ?_
  refine agrees_skip (agrees_record _) fun _ => ?_
  refine agrees_bind (agrees_expect _) fun init _ heq => ?_
  subst heq
  refine agrees_skip (agrees_record _) fun _ => ?_
  refine agrees_last fun state => ?_
  exact agrees_skip (fun _ => ⟨_, rfl, trivial⟩) fun session => agrees_pure rfl

/-- **When the checks behind the session succeed.** -/
theorem agrees_checkSession (calls : LoadCalls S) (wsmModule session : Resource) (state : S) :
    Agrees (checkSession calls wsmModule session state : Step S R (EvalString S × S))
      (calls.checked state) Eq := by
  rw [checkSession, LoadCalls.checked]
  refine agrees_bind (agrees_expect _) fun evalString _ heq => ?_
  subst heq
  refine agrees_bind (agrees_require _) fun _ _ _ => ?_
  refine agrees_skip (agrees_record _) fun _ => ?_
  refine agrees_bind (agrees_require _) fun _ _ _ => ?_
  refine agrees_skip (agrees_record _) fun _ => ?_
  refine agrees_bind (agrees_require _) fun _ _ _ => ?_
  refine agrees_skip (agrees_record _) fun _ => ?_
  refine agrees_bind (agrees_require _) fun _ _ _ => ?_
  refine agrees_skip (agrees_record _) fun _ => ?_
  refine agrees_bind (agrees_expect _) fun text _ heq => ?_
  subst heq
  refine agrees_skip (agrees_record _) fun _ => ?_
  refine agrees_bind (agrees_require _) fun _ _ _ => ?_
  refine agrees_known (agrees_loadDispatchSource _) ?_
  exact agrees_bind (agrees_require _) fun _ _ _ => agrees_pure rfl

/-- The checks of `Load` in two halves. -/
theorem LoadCalls.prepared_eq {S : Type} (calls : LoadCalls S) :
    calls.prepared = calls.opened.bind fun state => (calls.checked state).bind fun checked =>
      calls.dispatchSource.map fun source => (checked.2, checked.1, source) := by
  obtain ⟨⟨module, abiVersion, featureBits, sessionInit, evalString, freeString, otherExports,
    registerLog, registerPlayerPresent, registerClass, dispatchSource, start⟩, sessionFree, files,
    -, hsource⟩ := calls
  simp only at hsource
  subst hsource
  simp only [LoadAnswers.prepared, LoadCalls.opened, LoadCalls.checked, guard,
    Option.failure_eq_none]
  rcases module with _ | _
  · rfl
  rcases abiVersion with _ | abiVersion
  · rfl
  rcases featureBits with _ | featureBits
  · rfl
  by_cases habi : abiVersion = kExpectedHostAbiVersion
  case neg => simp [habi]
  by_cases hfeatures : featureBits &&& kRequiredHostFeatures = kRequiredHostFeatures
  case neg => simp [habi, hfeatures]
  rcases sessionInit with _ | _ | state
  · simp [habi]
  · simp [habi]
  rcases evalString with _ | evalString
  · simp [habi, hfeatures]
  rcases hresult : evalString state (utf8 "(quote ())") with ⟨_ | text, state'⟩
  · simp [habi, hfeatures, hresult]
  by_cases htext : text = utf8 "()"
  case neg => simp [habi, hfeatures, hresult, htext]
  rcases hsource : firstSource files with _ | source
  · simp [habi, hfeatures]
  simp [habi, hfeatures, hresult, htext]
  cases freeString <;> cases otherExports <;> cases registerLog <;> cases registerPlayerPresent <;>
    cases registerClass <;> rfl

end LispHost
