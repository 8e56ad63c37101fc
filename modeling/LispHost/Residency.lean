import LispHost.Lib.History
import LispHost.Lifecycle

/-!
# The Residency of the Bridge

`version.dll` runs a thread of its own, `BridgeThread`. The thread sleeps until the loader has
settled, takes a reference to the module that it runs in, records that the bridge is alive, runs
`RunCanonicalRepl`, and gives its reference back in the call that ends it; if it cannot take the
reference it returns at once. The owners of the module take references with `LoadLibrary` and
give them back with `FreeLibrary`, whenever they like. When there is none left, the module is
unmapped, and whoever is still in its code is stranded: the thread, the socket worker that it has
started, or a caller of `MyLispBridgeShutdown`, which may be anybody at any time. The callers of
the forwarded exports of `version.dll` are left out, and so is a second life of the module: an
unmapped module is not loaded again.

What is shown is when exactly somebody is stranded, and that nobody is where the owners wait for
a shutdown to be confirmed and for all calls to return.

## Main definitions

* `ThreadStage`, `LoadedModule`: the state.
* `ModuleStep`: the steps of the thread, of the callers and of the owners.
* `LoadedModule.Stranded`: somebody is in the code of a module that is not mapped any more.
* `GivenBack`, `Holding`, `Calling`: what a run says about the references and the callers.
* `Considerate`: owners that wait.

## Main results

* `threadKept_run`, `references_run`, `pinned_run`, `callers_run`: what holds in every run.
* `module_resident`: nobody is stranded in a run of owners that wait.
* `stranded_iff`: who is stranded in any run.
-/

namespace LispHost

open Effects

/-- Where `BridgeThread` is: `pinFailed` is in front of its `return 10`, and `returned` behind
it. -/
inductive ThreadStage where
  | absent
  | sleeping
  | pinFailed
  | returned
  | observing
  | running
  | exited (code : Nat)
deriving DecidableEq, Repr

/-- In the code of the module. -/
def ThreadStage.inside : ThreadStage → Bool
  | sleeping | pinFailed | observing | running => true
  | absent | returned | exited _ => false

/-- The module from the moment it is mapped: the atomics of the bridge and its callers, the thread,
whether the thread holds a reference, and how many references the owners hold. -/
structure LoadedModule (ι S H : Type) where
  bridge : Bridge ι S H
  thread : ThreadStage
  pinned : Bool
  references : Nat

variable {ι S H : Type}

namespace LoadedModule

/-- Behind `DllMain`: the owner that loads the module has a reference, and the thread was created or
was not. -/
def attached (started : Bool) : LoadedModule ι S H where
  bridge := .prepared
  thread := if started then .sleeping else .absent
  pinned := false
  references := 1

/-- The loader keeps the module while somebody holds a reference. -/
def Mapped (m : LoadedModule ι S H) : Prop := m.pinned = true ∨ m.references ≠ 0

/-- Somebody is in the code of the module: the thread, the socket worker, or a caller. -/
def Inside (m : LoadedModule ι S H) : Prop :=
  m.thread.inside = true ∨ m.bridge.socket = .running ∨ ∃ i, m.bridge.callers i ≠ .idle

/-- Somebody is in code that is not there any more. -/
def Stranded (m : LoadedModule ι S H) : Prop := m.Inside ∧ ¬m.Mapped

end LoadedModule

/-- The steps of the thread, of the callers and of the owners. A reference that is given back may be
the last one of the owners. -/
inductive ModuleEvent (ι S H : Type) where
  | load
  | free (last : Bool)
  | pin (succeeded : Bool)
  | leave
  | observe (written : Bool)
  | bridge (event : BridgeEvent ι S H)
  | release

/-- What an event is for the bridge. -/
def ModuleEvent.bridge? : ModuleEvent ι S H → Option (BridgeEvent ι S H)
  | bridge event => some event
  | _ => none

/-- What the worker and the callers do in a run. -/
def bridgeEvents (events : List (ModuleEvent ι S H)) : List (BridgeEvent ι S H) :=
  events.filterMap ModuleEvent.bridge?

/-- `BridgeThread`, `MyLispBridgeShutdown`, and the owners. Nobody takes a step in code that is not
mapped: who is stranded stays where he is. But an owner frees a reference whoever is inside, and a
call is entered from outside, mapped or not. -/
inductive ModuleStep [DecidableEq ι] :
    LoadedModule ι S H → ModuleEvent ι S H → LoadedModule ι S H → Prop where
  | load {m : LoadedModule ι S H} : m.Mapped →
      ModuleStep m .load { m with references := m.references + 1 }
  | free {m : LoadedModule ι S H} : m.references ≠ 0 →
      ModuleStep m (.free (m.references == 1)) { m with references := m.references - 1 }
  | pin {m : LoadedModule ι S H} : m.Mapped → m.thread = .sleeping →
      ModuleStep m (.pin true) { m with thread := .observing, pinned := true }
  | pinFails {m : LoadedModule ι S H} : m.Mapped → m.thread = .sleeping →
      ModuleStep m (.pin false) { m with thread := .pinFailed }
  | leave {m : LoadedModule ι S H} : m.Mapped → m.thread = .pinFailed →
      ModuleStep m .leave { m with thread := .returned }
  | observe {m : LoadedModule ι S H} (written : Bool) : m.Mapped → m.thread = .observing →
      ModuleStep m (.observe written) { m with thread := .running }
  | worker {m : LoadedModule ι S H} {event : WorkerEvent S H} {b : Bridge ι S H} :
      m.Mapped → m.thread = .running → WorkerStep m.bridge event b →
      ModuleStep m (.bridge (.worker event)) { m with bridge := b }
  | call {m : LoadedModule ι S H} {i : ι} {b : Bridge ι S H} : CallerStep i m.bridge .call b →
      ModuleStep m (.bridge (.caller i .call)) { m with bridge := b }
  | caller {m : LoadedModule ι S H} {i : ι} {event : CallerEvent H} {b : Bridge ι S H} :
      m.Mapped → CallerStep i m.bridge event b →
      ModuleStep m (.bridge (.caller i event)) { m with bridge := b }
  | release {m : LoadedModule ι S H} {code : Nat} : m.Mapped → m.thread = .running →
      m.bridge.worker = .exited code →
      ModuleStep m .release { m with thread := .exited code, pinned := false }

/-! ### What a run says -/

/-- The owners have given their last reference back, and have taken none since. -/
def GivenBack : List (ModuleEvent ι S H) → Prop :=
  Standing (· = .free true) (· = .load)

/-- The thread has taken its reference, and has not given it back. -/
def Holding : List (ModuleEvent ι S H) → Prop :=
  Standing (· = .pin true) (· = .release)

/-- A call of `MyLispBridgeShutdown` by `i` has begun, and has not returned. -/
def Calling (i : ι) : List (ModuleEvent ι S H) → Prop :=
  Standing (· = .bridge (.caller i .call))
    fun event => ∃ result, event = .bridge (.caller i (.returned result))

/-- **The rules of owners that wait.** The last reference is given back behind a shutdown that was
confirmed, and under no call; and a call is made only while an owner holds a reference. -/
def Waits (before : List (ModuleEvent ι S H)) : ModuleEvent ι S H → Prop
  | .free true =>
      (∃ i, .bridge (.caller i (.returned true)) ∈ before) ∧ ∀ i, ¬Calling i before
  | .bridge (.caller _ .call) => ¬GivenBack before
  | _ => True

/-- A run of owners that wait. -/
def Considerate (events : List (ModuleEvent ι S H)) : Prop := Obeys Waits [] events

section Events

variable {events : List (ModuleEvent ι S H)}

/-- The events of the bridge are those of the run. -/
theorem mem_bridgeEvents {event : BridgeEvent ι S H} :
    event ∈ bridgeEvents events ↔ .bridge event ∈ events := by
  rw [bridgeEvents, List.mem_filterMap]
  constructor
  · rintro ⟨event', hmem, hevent⟩
    cases event' <;> cases hevent
    exact hmem
  · exact fun hmem => ⟨_, hmem, rfl⟩

/-- **Under the rules** nobody is in a call while the owners hold no reference. -/
theorem Considerate.not_calling (h : Considerate events) (hback : GivenBack events) (i : ι) :
    ¬Calling i events := by
  refine h.exclusive ?_ ?_ hback
  · rintro past _ hwaits rfl
    exact ⟨by rintro ⟨⟩, hwaits.2 i⟩
  · rintro past _ hwaits rfl
    exact hwaits

/-- Under the rules a shutdown is confirmed before the last reference is given back. -/
theorem Considerate.confirmed (h : Considerate events) (hback : GivenBack events) :
    ∃ i, .bridge (.caller i (.returned true)) ∈ events := by
  obtain ⟨before, _, after, rfl, rfl, -⟩ := hback
  obtain ⟨⟨i, hmem⟩, -⟩ : Waits before (.free true) := h.at
  exact ⟨i, List.mem_append_left _ hmem⟩

end Events

/-! ### What holds in every run -/

/-- A step of the worker leaves the callers where they are. -/
theorem WorkerStep.callers_eq {b b' : Bridge ι S H} {event : WorkerEvent S H}
    (h : WorkerStep b event b') : b'.callers = b.callers := by
  cases h <;> rfl

/-- Before `RunCanonicalRepl`, or past it without having run it. -/
def ThreadStage.Early (stage : ThreadStage) : Prop :=
  stage ≠ .running ∧ ∀ code, stage ≠ .exited code

/-- **Where the thread is**, what that says of the bridge, and what the run says of it. -/
structure ThreadKept (started : Bool) (events : List (ModuleEvent ι S H))
    (m : LoadedModule ι S H) : Prop where
  early : m.thread.Early → m.bridge.worker = .createEvent
  exited : ∀ code, m.thread = .exited code → m.bridge.worker = .exited code
  holds : m.pinned = true ↔ m.thread = .observing ∨ m.thread = .running
  inside : m.thread.inside = true ↔ started = true ∧ .leave ∉ events ∧ .release ∉ events
  absent : started = false → m.thread = .absent
  failed : .pin false ∈ events → m.thread = .pinFailed ∨ m.thread = .returned

section Thread

variable {started : Bool} {events : List (ModuleEvent ι S H)} {m m' : LoadedModule ι S H}
  {event : ModuleEvent ι S H}

/-- A thread that stays where it is, under an event that is not one of its own. -/
theorem ThreadKept.stays (h : ThreadKept started events m) (hthread : m'.thread = m.thread)
    (hpinned : m'.pinned = m.pinned) (hleave : event ≠ .leave) (hrelease : event ≠ .release)
    (hpin : event ≠ .pin false)
    (hearly : m.thread.Early → m'.bridge.worker = m.bridge.worker)
    (hexited : ∀ code, m.thread = .exited code → m'.bridge.worker = m.bridge.worker) :
    ThreadKept started (events ++ [event]) m' where
  early hstage := by
    rw [hthread] at hstage
    exact (hearly hstage).trans (h.early hstage)
  exited code hstage := by
    rw [hthread] at hstage
    exact (hexited code hstage).trans (h.exited code hstage)
  holds := by
    rw [hthread, hpinned]
    exact h.holds
  inside := by
    rw [hthread, h.inside]
    simp [hleave.symm, hrelease.symm]
  absent hstarted := hthread.trans (h.absent hstarted)
  failed hmem := by
    rw [hthread]
    exact h.failed (by simpa [hpin.symm] using hmem)

/-- At the beginning the thread sleeps, if there is one. -/
theorem threadKept_attached :
    ThreadKept started [] (.attached started : LoadedModule ι S H) where
  early _ := rfl
  exited := by cases started <;> rintro code ⟨⟩
  holds := by cases started <;> simp [LoadedModule.attached]
  inside := by cases started <;> simp [LoadedModule.attached, ThreadStage.inside]
  absent := by
    rintro rfl
    rfl
  failed := by rintro ⟨⟩

/-- A thread that goes on inside of the module, outside of `RunCanonicalRepl`. -/
theorem ThreadKept.moves (h : ThreadKept started events m) {thread : ThreadStage}
    {pinned : Bool} (hfrom : m.thread.inside = true) (hto : thread.inside = true)
    (hleave : event ≠ .leave) (hrelease : event ≠ .release)
    (hfailed : .pin false ∈ events ++ [event] → thread = .pinFailed ∨ thread = .returned)
    (hholds : pinned = true ↔ thread = .observing ∨ thread = .running)
    (hearly : thread.Early → m.thread.Early) :
    ThreadKept started (events ++ [event]) { m with thread, pinned } where
  early hstage := h.early (hearly hstage)
  exited code hstage := by
    change thread = .exited code at hstage
    rw [hstage] at hto
    cases hto
  holds := hholds
  inside := by
    have hinside := h.inside
    rw [hfrom] at hinside
    simpa [hto, hleave.symm, hrelease.symm] using hinside
  absent hstarted := by
    rw [h.absent hstarted] at hfrom
    cases hfrom
  failed := hfailed

end Thread

section Steps

variable [DecidableEq ι] {started : Bool} {events : List (ModuleEvent ι S H)}
  {m m' : LoadedModule ι S H} {event : ModuleEvent ι S H}

/-- **One step of the thread's invariant.** -/
theorem threadKept_step (h : ThreadKept started events m) (hstep : ModuleStep m event m') :
    ThreadKept started (events ++ [event]) m' := by
  cases hstep with
  | load | free =>
      exact h.stays rfl rfl (by rintro ⟨⟩) (by rintro ⟨⟩) (by rintro ⟨⟩) (fun _ => rfl)
        fun _ _ => rfl
  | pin hmapped hthread =>
      refine h.moves (by rw [hthread]; rfl) rfl (by rintro ⟨⟩) (by rintro ⟨⟩) (fun hmem => ?_)
        (by simp) fun _ => ?_
      · have hstage := h.failed (by simpa using hmem)
        rw [hthread] at hstage
        obtain hstage | hstage := hstage <;> cases hstage
      · rw [hthread]
        exact ⟨by rintro ⟨⟩, by rintro code ⟨⟩⟩
  | pinFails hmapped hthread =>
      have hholds := h.holds
      rw [hthread] at hholds
      refine h.moves (by rw [hthread]; rfl) rfl (by rintro ⟨⟩) (by rintro ⟨⟩)
        (fun _ => .inl rfl) (by simpa using hholds) fun _ => ?_
      rw [hthread]
      exact ⟨by rintro ⟨⟩, by rintro code ⟨⟩⟩
  | leave hmapped hthread =>
      have hholds := h.holds
      rw [hthread] at hholds
      have hearly : m.thread.Early := by
        rw [hthread]
        exact ⟨by rintro ⟨⟩, by rintro code ⟨⟩⟩
      exact
        { early := fun _ => h.early hearly
          exited := by rintro code ⟨⟩
          holds := by simpa using hholds
          inside := by simp [ThreadStage.inside]
          absent := fun hstarted => by
            have habsent := h.absent hstarted
            rw [hthread] at habsent
            cases habsent
          failed := fun _ => .inr rfl }
  | observe written hmapped hthread =>
      have hholds := h.holds
      rw [hthread] at hholds
      refine h.moves (by rw [hthread]; rfl) rfl (by rintro ⟨⟩) (by rintro ⟨⟩) (fun hmem => ?_)
        (by simpa using hholds) fun hearly => absurd rfl hearly.1
      have hstage := h.failed (by simpa using hmem)
      rw [hthread] at hstage
      obtain hstage | hstage := hstage <;> cases hstage
  | worker hmapped hthread hworker =>
      refine h.stays rfl rfl (by rintro ⟨⟩) (by rintro ⟨⟩) (by rintro ⟨⟩)
        (fun hearly => absurd hthread hearly.1) fun code hexited => ?_
      cases hthread.symm.trans hexited
  | call hcaller | caller _ hcaller =>
      exact h.stays rfl rfl (by rintro ⟨⟩) (by rintro ⟨⟩) (by rintro ⟨⟩)
        (fun _ => hcaller.frame.1) fun _ _ => hcaller.frame.1
  | @release code hmapped hthread hworker =>
      exact
        { early := fun hearly => absurd rfl (hearly.2 code)
          exited := by
            rintro code' ⟨⟩
            exact hworker
          holds := by simp
          inside := by simp [ThreadStage.inside]
          absent := fun hstarted => by
            have habsent := h.absent hstarted
            rw [hthread] at habsent
            cases habsent
          failed := fun hmem => by
            have hstage := h.failed (by simpa using hmem)
            rw [hthread] at hstage
            obtain hstage | hstage := hstage <;> cases hstage }

/-- **The thread's invariant holds in every run.** -/
theorem threadKept_run (h : Run ModuleStep (.attached started) events m) :
    ThreadKept started events m :=
  h.history (fun _ _ _ _ hs hstep => threadKept_step hs hstep) threadKept_attached

/-- What the worker and the callers do in a run of the module is a run of the bridge. -/
theorem bridge_run (h : Run ModuleStep (.attached started) events m) :
    Run BridgeStep .prepared (bridgeEvents events) m.bridge := by
  rw [bridgeEvents, List.filterMap_eq_flatMap_toList]
  refine h.flatMap LoadedModule.bridge (fun event => event.bridge?.toList) ?_
  intro m event m' hstep
  cases hstep with
  | worker _ _ hworker => exact .single (.worker hworker)
  | call hcaller | caller _ hcaller => exact .single (.caller hcaller)
  | _ => exact .nil _

/-- The references of the owners. -/
theorem references_run (h : Run ModuleStep (.attached started) events m) :
    m.references = 0 ↔ GivenBack events := by
  refine h.standing (Q := fun m => m.references = 0) ?_ Nat.one_ne_zero
  intro m event m' hstep
  cases hstep with
  | load => simp
  | free hsome =>
      have hlast : m.references - 1 = 0 ↔ m.references = 1 := by omega
      simp [hlast, hsome]
  | _ => simp

/-- The reference of the thread. -/
theorem pinned_run (h : Run ModuleStep (.attached started) events m) :
    m.pinned = true ↔ Holding events := by
  refine h.standing (Q := fun m => m.pinned = true) ?_ (by rintro ⟨⟩)
  intro m event m' hstep
  cases hstep <;> simp

/-- A caller is in a call behind its step, if it begins one, or was in one and does not return. -/
theorem CallerStep.calling_iff {i : ι} {b b' : Bridge ι S H} {event : CallerEvent H}
    (h : CallerStep i b event b') :
    b'.callers i ≠ .idle ↔
      event = .call ∨ b.callers i ≠ .idle ∧ ¬∃ result, event = .returned result := by
  cases h with
  | call hpc => simp [Bridge.setCaller]
  | returned hpc => simp [Bridge.setCaller]
  | loadFinished hpc => cases hfinished : b.finished <;> simp [Bridge.setCaller, hpc, hfinished]
  | storeStop hpc | loadEvent hpc | timedOut hpc | sleep hpc | timeLeft hpc | wait hpc
  | waited hpc | notWaited hpc | exchange hpc | exchangeNone hpc | closeHandle hpc =>
      simp [Bridge.setCaller, hpc]

/-- The callers of `MyLispBridgeShutdown`. -/
theorem callers_run (h : Run ModuleStep (.attached started) events m) (i : ι) :
    m.bridge.callers i ≠ .idle ↔ Calling i events := by
  refine h.standing (Q := fun m => m.bridge.callers i ≠ .idle) ?_ (not_not_intro rfl)
  intro m event m' hstep
  have hcaller : ∀ {j : ι} {event : CallerEvent H} {b : Bridge ι S H},
      CallerStep j m.bridge event b →
      (b.callers i ≠ .idle ↔ ModuleEvent.bridge (S := S) (.caller j event) =
          .bridge (.caller i .call) ∨ m.bridge.callers i ≠ .idle ∧
          ¬∃ result, ModuleEvent.bridge (S := S) (.caller j event) =
            .bridge (.caller i (.returned result))) := by
    intro j event b hstep
    by_cases hj : j = i
    · subst hj
      simpa using hstep.calling_iff
    · simp [hstep.others (Ne.symm hj), hj]
  cases hstep with
  | worker _ _ hworker => simp [hworker.callers_eq]
  | call hstep | caller _ hstep => exact hcaller hstep
  | _ => simp

/-- **Whoever is told of the completion** is told so behind it. -/
theorem finished_of_returned {events : List (BridgeEvent ι S H)} {b : Bridge ι S H}
    (h : Run BridgeStep .prepared events b) {i : ι} (hmem : .caller i (.returned true) ∈ events) :
    b.finished = true := by
  obtain ⟨before, after, rfl⟩ := List.append_of_mem hmem
  obtain ⟨b₁, b₂, hbefore, hstep, hafter⟩ := h.split
  obtain ⟨hlife, hinformed⟩ := informed_run hbefore
  cases hstep with
  | caller hcaller =>
      have hworker := hcaller.frame.1
      have hfinished : b₁.finished = true := by
        cases hcaller with
        | returned hpc => exact hinformed.callers i (by rw [hpc]; rfl)
      have hstage : 12 ≤ b₂.worker.stage := by
        rw [hworker]
        exact hlife.finished_iff.mp hfinished
      refine (lifecycle_run h).finished_iff.mpr (hafter.invariant
        (I := fun b => 12 ≤ b.worker.stage) (fun _ _ _ hs hstep => ?_) hstage)
      exact Nat.le_trans hs hstep.stage_le

/-! ### Who is stranded -/

/-- A confirmed shutdown is one of a thread that runs, or that has returned from
`RunCanonicalRepl`. -/
theorem not_early_of_returned (h : Run ModuleStep (.attached started) events m) {i : ι}
    (hmem : .bridge (.caller i (.returned true)) ∈ events) : ¬m.thread.Early := by
  intro hearly
  have hbridge := bridge_run h
  have hfinished := finished_of_returned hbridge (mem_bridgeEvents.mpr hmem)
  have hstage := (lifecycle_run hbridge).finished_iff.mp hfinished
  rw [(threadKept_run h).early hearly] at hstage
  cases hstage

/-- The socket worker runs under the thread, which holds its reference then. -/
theorem pinned_of_serving (h : Run ModuleStep (.attached started) events m)
    (hserving : m.bridge.socket = .running) : m.pinned = true := by
  have hthread := threadKept_run h
  obtain ⟨hlow, hhigh⟩ := stage_of_serving (bridge_run h) hserving
  rw [hthread.holds]
  cases hstage : m.thread with
  | observing => exact .inl rfl
  | running => exact .inr rfl
  | exited code =>
      rw [hthread.exited code hstage] at hhigh
      simp [WorkerPC.stage] at hhigh
  | absent | sleeping | pinFailed | returned =>
      have hearly : m.thread.Early := by
        rw [hstage]
        exact ⟨by rintro ⟨⟩, by rintro code ⟨⟩⟩
      rw [hthread.early hearly] at hlow
      simp [WorkerPC.stage] at hlow

/-- A module is unmapped when neither the owners nor the thread hold a reference. -/
theorem not_mapped_iff (h : Run ModuleStep (.attached started) events m) :
    ¬m.Mapped ↔ GivenBack events ∧ ¬Holding events := by
  rw [LoadedModule.Mapped, not_or, pinned_run h, not_not, references_run h, and_comm]

/-- **Owners that wait are safe.** In every interleaving of the thread, of the callers and of the
owners, if the last reference is given back behind a shutdown that was confirmed and under no call,
and calls are made only while an owner holds a reference:

* nobody is ever in the code of a module that is not mapped;
* when the module is unmapped, the thread has returned from `RunCanonicalRepl` and has ended, every
  session of the run has been freed, and every further step breaks a rule;
* if the thread was not created, or could not take its reference, no shutdown is confirmed, and the
  module stays. -/
theorem module_resident (h : Run ModuleStep (.attached started) events m)
    (hconsiderate : Considerate events) :
    ¬m.Stranded ∧
      (¬m.Mapped →
        (∃ code, m.thread = .exited code ∧ m.bridge.worker = .exited code) ∧
          freed (bridgeEvents events) = created (bridgeEvents events) ∧
          ∀ event m', ModuleStep m event m' → ¬Considerate (events ++ [event])) ∧
      (started = false ∨ .pin false ∈ events →
        (∀ i, .bridge (.caller i (.returned true)) ∉ events) ∧ m.Mapped) := by
  have hthread := threadKept_run h
  have hlife := lifecycle_run (bridge_run h)
  have hexited : ¬m.Mapped → ∃ code, m.thread = .exited code := by
    intro hunmapped
    obtain ⟨hback, hreleased⟩ := (not_mapped_iff h).mp hunmapped
    obtain ⟨i, hmem⟩ := hconsiderate.confirmed hback
    by_contra hnot
    refine not_early_of_returned h hmem ⟨fun hrunning => hreleased ?_, fun code hcode =>
      hnot ⟨code, hcode⟩⟩
    rw [← pinned_run h, hthread.holds]
    exact .inr hrunning
  refine ⟨?_, fun hunmapped => ?_, fun hfailed => ?_⟩
  · rintro ⟨hinside, hunmapped⟩
    obtain ⟨code, hcode⟩ := hexited hunmapped
    obtain hinside | hserving | ⟨i, hcaller⟩ := hinside
    · rw [hcode] at hinside
      cases hinside
    · exact hunmapped (.inl (pinned_of_serving h hserving))
    · exact hconsiderate.not_calling ((not_mapped_iff h).mp hunmapped).1 i
        ((callers_run h i).mp hcaller)
  · obtain ⟨code, hcode⟩ := hexited hunmapped
    have hworker := hthread.exited code hcode
    refine ⟨⟨code, hcode, hworker⟩, ?_, ?_⟩
    · rw [hlife.sessions, hlife.gone (by simp [hworker, WorkerPC.stage])]
      exact (List.append_nil _).symm
    · intro event m' hstep hnext
      have hback := ((not_mapped_iff h).mp hunmapped).1
      cases hstep with
      | free hsome => exact hsome ((references_run h).mpr hback)
      | call => exact (Obeys.at hnext : Waits events _) hback
      | load hmapped | pin hmapped | pinFails hmapped | leave hmapped | observe _ hmapped
      | worker hmapped | caller hmapped | release hmapped => exact hunmapped hmapped
  · have hearly : m.thread.Early := by
      obtain hstarted | hmem := hfailed
      · rw [hthread.absent hstarted]
        exact ⟨by rintro ⟨⟩, by rintro code ⟨⟩⟩
      · obtain hstage | hstage := hthread.failed hmem
        all_goals
          rw [hstage]
          exact ⟨by rintro ⟨⟩, by rintro code ⟨⟩⟩
    refine ⟨fun i hmem => not_early_of_returned h hmem hearly, ?_⟩
    by_contra hunmapped
    obtain ⟨code, hcode⟩ := hexited hunmapped
    exact hearly.2 code hcode

/-- **Who is stranded.** In a run of any owners and any callers, somebody is left in the code of the
unmapped module exactly if the owners have given their last reference back, the thread holds none,
and the thread was created and has not ended or a call has begun and has not returned. -/
theorem stranded_iff (h : Run ModuleStep (.attached started) events m) :
    m.Stranded ↔ GivenBack events ∧ ¬Holding events ∧
      (started = true ∧ .leave ∉ events ∧ .release ∉ events ∨ ∃ i, Calling i events) := by
  rw [LoadedModule.Stranded, not_mapped_iff h, LoadedModule.Inside, (threadKept_run h).inside]
  simp only [callers_run h]
  constructor
  · rintro ⟨hinside | hserving | hcalling, hback, hreleased⟩
    · exact ⟨hback, hreleased, .inl hinside⟩
    · exact absurd ((pinned_run h).mp (pinned_of_serving h hserving)) hreleased
    · exact ⟨hback, hreleased, .inr hcalling⟩
  · rintro ⟨hback, hreleased, hinside | hcalling⟩
    · exact ⟨.inl hinside, hback, hreleased⟩
    · exact ⟨.inr (.inr hcalling), hback, hreleased⟩

end Steps

/-! ### Some runs -/

/-- An owner that stops the bridge while it starts; another one has loaded the module. -/
def patientStart : List (ModuleEvent Unit Unit Unit) :=
  .pin true :: .observe true :: .load :: earlyShutdown.map .bridge

/-- Behind that both give their references back, before the thread has ended. -/
def patientOwner : List (ModuleEvent Unit Unit Unit) :=
  patientStart ++ [.free false, .free true, .bridge (.worker .destroyServer),
    .bridge (.worker (.hostStop none)), .release]

/-- These owners keep to the rules. -/
theorem considerate_patientOwner : Considerate patientOwner := by
  have hheld : ¬GivenBack [.pin true, .observe true, (.load : ModuleEvent Unit Unit Unit)] := by
    intro hback
    obtain ⟨_, hmem, rfl⟩ := hback.exists_mem
    simp at hmem
  have hcalling : ∀ i, ¬Calling i (patientStart ++ [.free false]) := by
    rintro ⟨⟩
    have hlast : patientStart =
        patientStart.dropLast ++ [.bridge (.caller () (.returned true))] := rfl
    rw [Calling, standing_snoc, hlast, standing_snoc]
    rintro (⟨⟨⟩⟩ | ⟨⟨⟨⟩⟩ | ⟨-, hreturned⟩, -⟩)
    exact hreturned ⟨true, rfl⟩
  refine obeys_append.mpr ⟨?_, trivial, ⟨⟨(), by simp [patientStart, earlyShutdown]⟩, hcalling⟩,
    trivial, trivial, trivial, trivial⟩
  exact ⟨trivial, trivial, trivial, hheld, trivial, trivial, trivial, trivial, trivial, trivial,
    trivial, trivial, trivial, trivial, trivial, trivial⟩

/-- Such owners are safe. -/
theorem module_resident_patient : ∃ m : LoadedModule Unit Unit Unit,
    Run ModuleStep (.attached true) patientOwner m ∧ ¬m.Mapped ∧ ¬m.Stranded ∧
      ∃ code, m.thread = .exited code := by
  have hrun : ∃ m : LoadedModule Unit Unit Unit,
      Run ModuleStep (.attached true) patientOwner m ∧ ¬m.Mapped := by
    refine ⟨_, .cons (.pin (.inr Nat.one_ne_zero) rfl) <| .cons (.observe true (.inl rfl) rfl) <|
      .cons (.load (.inl rfl)) <| .cons (.call (.call rfl)) <|
      .cons (.caller (.inl rfl) (.storeStop rfl)) <|
      .cons (.worker (.inl rfl) rfl (.createEvent () rfl)) <|
      .cons (.worker (.inl rfl) rfl (.storeEvent rfl)) <|
      .cons (.worker (.inl rfl) rfl (.checkStop rfl)) <|
      .cons (.worker (.inl rfl) rfl (.storeFinished rfl)) <|
      .cons (.worker (.inl rfl) rfl (.loadEvent rfl rfl)) <|
      .cons (.worker (.inl rfl) rfl (.setEvent rfl)) <|
      .cons (.caller (.inl rfl) (.loadFinished rfl)) <|
      .cons (.caller (.inl rfl) (.exchange rfl rfl)) <|
      .cons (.caller (.inl rfl) (.closeHandle rfl)) <|
      .cons (.caller (.inl rfl) (.returned rfl)) <| .cons (.free (by decide)) <|
      .cons (.free (by decide)) <| .cons (.worker (.inl rfl) rfl (.destroyServer rfl)) <|
      .cons (.worker (.inl rfl) rfl (.destroyHost rfl)) <|
      .cons (.release (.inl rfl) rfl rfl) <| .nil _, ?_⟩
    rintro (hpinned | hsome)
    · cases hpinned
    · exact hsome rfl
  obtain ⟨m, hrun, hunmapped⟩ := hrun
  obtain ⟨hsafe, hgone, -⟩ := module_resident hrun considerate_patientOwner
  obtain ⟨⟨code, hcode, -⟩, -⟩ := hgone hunmapped
  exact ⟨m, hrun, hunmapped, hsafe, code, hcode⟩

/-- An owner that does not wait strands the thread in its sleep or in front of its return, and a
caller where there is no thread. A thread that has returned is not stranded. -/
theorem stranded_iff_hasty :
    (∃ m : LoadedModule Unit Unit Unit,
        Run ModuleStep (.attached true) [.free true] m ∧ m.Stranded) ∧
      (∃ m : LoadedModule Unit Unit Unit,
        Run ModuleStep (.attached true) [.pin false, .free true] m ∧ m.Stranded) ∧
      (∃ m : LoadedModule Unit Unit Unit,
        Run ModuleStep (.attached true) [.pin false, .leave, .free true] m ∧ ¬m.Stranded) ∧
      ∃ m : LoadedModule Unit Unit Unit,
        Run ModuleStep (.attached false) [.bridge (.caller () .call), .free true] m ∧
          m.Stranded := by
  have hback : ∀ before : List (ModuleEvent Unit Unit Unit), GivenBack (before ++ [.free true]) :=
    fun before => standing_snoc.mpr (.inl rfl)
  have hnever : ∀ {events : List (ModuleEvent Unit Unit Unit)}, .pin true ∉ events →
      ¬Holding events := by
    intro events hnot hholding
    obtain ⟨_, hmem, rfl⟩ := hholding.exists_mem
    exact hnot hmem
  refine ⟨?_, ?_, ?_, ?_⟩
  · have hrun : ∃ m : LoadedModule Unit Unit Unit,
        Run ModuleStep (.attached true) [.free true] m := ⟨_, .single (.free Nat.one_ne_zero)⟩
    obtain ⟨m, hrun⟩ := hrun
    exact ⟨m, hrun, (stranded_iff hrun).mpr ⟨hback [], hnever (by simp), .inl ⟨rfl, by simp⟩⟩⟩
  · have hrun : ∃ m : LoadedModule Unit Unit Unit,
        Run ModuleStep (.attached true) [.pin false, .free true] m :=
      ⟨_, .cons (.pinFails (.inr Nat.one_ne_zero) rfl) <| .single (.free Nat.one_ne_zero)⟩
    obtain ⟨m, hrun⟩ := hrun
    exact ⟨m, hrun, (stranded_iff hrun).mpr
      ⟨hback [.pin false], hnever (by simp), .inl ⟨rfl, by simp⟩⟩⟩
  · have hrun : ∃ m : LoadedModule Unit Unit Unit,
        Run ModuleStep (.attached true) [.pin false, .leave, .free true] m :=
      ⟨_, .cons (.pinFails (.inr Nat.one_ne_zero) rfl) <|
        .cons (.leave (.inr Nat.one_ne_zero) rfl) <| .single (.free Nat.one_ne_zero)⟩
    obtain ⟨m, hrun⟩ := hrun
    refine ⟨m, hrun, fun hstranded => ?_⟩
    obtain ⟨-, -, ⟨-, hleave, -⟩ | ⟨i, hcalling⟩⟩ := (stranded_iff hrun).mp hstranded
    · exact hleave (by simp)
    · obtain ⟨_, hmem, rfl⟩ := hcalling.exists_mem
      simp at hmem
  · have hrun : ∃ m : LoadedModule Unit Unit Unit,
        Run ModuleStep (.attached false) [.bridge (.caller () .call), .free true] m :=
      ⟨_, .cons (.call (.call rfl)) <| .single (.free Nat.one_ne_zero)⟩
    obtain ⟨m, hrun⟩ := hrun
    exact ⟨m, hrun, (stranded_iff hrun).mpr ⟨hback [.bridge (.caller () .call)],
      hnever (by simp), .inr ⟨(), [], _, [.free true], rfl, rfl, by simp⟩⟩⟩

end LispHost
