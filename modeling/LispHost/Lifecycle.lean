import LispHost.Bridge

/-!
# The Lifecycle of the Bridge

The worker goes through its stages in order, and every early exit skips some of them. What it
has done can be read off its stage: before the session is created there is none, behind
`host.Stop()` there is none any more, and `g_finished` is stored behind that. The callers learn
of the completion from `g_finished` or from the event, which is set and closed only behind the
store. So what holds of the stage holds of what the callers are told, in any interleaving.

## Main definitions

* `WorkerPC.stage`: the order of the worker's operations.
* `created`, `freed`: the sessions of a run.
* `Lifecycle`: what the stage says about the run so far.
* `Informed`: who knows that the worker has finished.

## Main results

* `WorkerStep.stage_le`, `WorkerStep.conserves`: what a step of the worker does.
* `lifecycle_step`, `informed_step`: the invariants.
* `bridge_lifecycle`: stop requests, sessions and the result of `ShutdownCanonicalRepl`.
-/

namespace LispHost

open Effects

variable {ι S H : Type}

/-! ### The worker's stages -/

/-- The order of the worker's operations. -/
def WorkerPC.stage : WorkerPC H → Nat
  | createEvent => 0
  | noEvent => 0
  | storeEvent _ => 1
  | checkStop => 2
  | abiVersion => 3
  | sessionNew => 4
  | record => 5
  | serverStart => 6
  | checkLoop => 7
  | drain => 7
  | serverStop => 8
  | serverJoin => 9
  | hostStop _ => 10
  | storeFinished _ => 11
  | loadEvent _ => 12
  | setEvent _ _ => 13
  | destroyServer _ => 14
  | destroyHost _ => 15
  | exited _ => 16

/-- The session that an operation creates. -/
def WorkerEvent.created : WorkerEvent S H → Option S
  | sessionNew result => result
  | _ => none

/-- The session that an operation frees. -/
def WorkerEvent.freed : WorkerEvent S H → Option S
  | hostStop session => session
  | _ => none

/-- The stages at which an operation is done. -/
def WorkerEvent.At : WorkerEvent S H → Nat → Prop
  | createEvent _, stage => stage = 0
  | storeEvent _, stage => stage = 1
  | checkStop _, stage => stage = 2
  | abiVersion _, stage => stage = 3
  | sessionNew _, stage => stage = 4
  | record _, stage => stage = 5
  | serverStart _, stage => stage = 6
  | checkLoop _, stage => stage = 7
  | evaluate _, stage => stage = 7
  | drained, stage => stage = 7
  | serverStop, stage => stage = 8
  | serverJoin, stage => stage = 9
  | hostStop _, stage => stage = 10 ∨ stage = 15
  | storeFinished, stage => stage = 0 ∨ stage = 11
  | loadEvent _, stage => stage = 12
  | setEvent _, stage => stage = 13
  | destroyServer, stage => stage = 14

/-- Every operation has its stage. -/
theorem WorkerStep.at {b b' : Bridge ι S H} {event : WorkerEvent S H}
    (h : WorkerStep b event b') : event.At b.worker.stage := by
  cases h <;> simp_all [WorkerEvent.At, WorkerPC.stage]

/-- **The stages are passed in order.** -/
theorem WorkerStep.stage_le {b b' : Bridge ι S H} {event : WorkerEvent S H}
    (h : WorkerStep b event b') : b.worker.stage ≤ b'.worker.stage := by
  cases h with
  | checkStop hpc =>
      cases b.stopRequested <;> simp [hpc, WorkerPC.stage]
  | checkLoop hpc =>
      cases b.stopRequested <;> simp [hpc, WorkerPC.stage]
  | abiVersion accepted hpc =>
      cases accepted <;> simp [hpc, WorkerPC.stage]
  | record written hpc =>
      cases written <;> simp [hpc, WorkerPC.stage]
  | evaluate => exact Nat.le_refl _
  | createEvent _ hpc | createEventFails hpc | finishWithoutEvent hpc | storeEvent hpc
  | sessionNew _ hpc | sessionNewFails hpc | serverStart hpc | serverStartFails hpc
  | drained hpc | serverStop hpc | serverJoin hpc | hostStop hpc | storeFinished hpc
  | loadNoEvent hpc | loadEvent hpc | setEvent hpc | destroyServer hpc | destroyHost hpc =>
      simp [hpc, WorkerPC.stage]

/-- **Sessions are conserved.** What a step creates is held behind it, and what it frees was
held before it. -/
theorem WorkerStep.conserves {b b' : Bridge ι S H} {event : WorkerEvent S H}
    (h : WorkerStep b event b') (hearly : b.worker.stage ≤ 4 → b.session = none) :
    b.session.toList ++ event.created.toList = event.freed.toList ++ b'.session.toList := by
  cases h with
  | sessionNew session hpc =>
      rw [hearly (by simp [hpc, WorkerPC.stage])]
      rfl
  | sessionNewFails hpc =>
      rw [hearly (by simp [hpc, WorkerPC.stage])]
      rfl
  | _ => simp [WorkerEvent.created, WorkerEvent.freed]

/-- A stage behind the server is reached from a stage before it, by joining its thread, or
from such a stage. -/
theorem WorkerStep.leaving {b b' : Bridge ι S H} {event : WorkerEvent S H}
    (h : WorkerStep b event b') (hleaving : 10 ≤ b'.worker.stage) :
    (b.worker.stage ≤ 6 ∧ event ≠ .serverStart true) ∨ event = .serverJoin ∨
      10 ≤ b.worker.stage := by
  cases h with
  | serverJoin => exact .inr (.inl rfl)
  | checkLoop hpc =>
      cases hstop : b.stopRequested <;> simp [hstop, WorkerPC.stage] at hleaving
  | hostStop hpc | storeFinished hpc | loadNoEvent hpc | loadEvent hpc | setEvent hpc
  | destroyServer hpc | destroyHost hpc => exact .inr (.inr (by simp [hpc, WorkerPC.stage]))
  | evaluate => exact .inr (.inr hleaving)
  | serverStart hpc | drained hpc | serverStop hpc => simp [WorkerPC.stage] at hleaving
  | createEvent _ hpc | createEventFails hpc | finishWithoutEvent hpc | storeEvent hpc
  | checkStop hpc | abiVersion _ hpc | sessionNew _ hpc | sessionNewFails hpc | record _ hpc
  | serverStartFails hpc => exact .inl ⟨by simp [hpc, WorkerPC.stage], by rintro ⟨⟩⟩

/-- `g_finished` is stored when the stages behind that are reached. -/
theorem WorkerStep.finished_iff {b b' : Bridge ι S H} {event : WorkerEvent S H}
    (h : WorkerStep b event b') (hb : b.finished = true ↔ 12 ≤ b.worker.stage) :
    (b'.finished = true ↔ 12 ≤ b'.worker.stage) ∧
      (b'.finished = true ↔ b.finished = true ∨ event = .storeFinished) := by
  cases h with
  | checkStop hpc =>
      cases hstop : b.stopRequested <;> simp_all [WorkerPC.stage]
  | checkLoop hpc =>
      cases hstop : b.stopRequested <;> simp_all [WorkerPC.stage]
  | abiVersion accepted hpc => cases accepted <;> simp_all [WorkerPC.stage]
  | record written hpc => cases written <;> simp_all [WorkerPC.stage]
  | _ => simp_all [WorkerPC.stage]

/-- A session is created between its two stages. -/
theorem WorkerStep.stage_of_created {b b' : Bridge ι S H} {event : WorkerEvent S H} {session : S}
    (h : WorkerStep b event b') (hcreated : event.created = some session) :
    b.worker.stage = 4 ∧ b'.worker.stage = 5 := by
  cases h with
  | sessionNew _ hpc => simp [hpc, WorkerPC.stage]
  | _ => cases hcreated

/-- The server is started between its two stages. -/
theorem WorkerStep.stage_of_serverStart {b b' : Bridge ι S H}
    (h : WorkerStep b (.serverStart true) b') : b.worker.stage = 6 ∧ b'.worker.stage = 7 := by
  cases h with
  | serverStart hpc => simp [hpc, WorkerPC.stage]

/-- Without the check, a step from before it stays there, or leads to the end. -/
theorem WorkerStep.unchecked {b b' : Bridge ι S H} {event : WorkerEvent S H}
    (h : WorkerStep b event b') (hcheck : ∀ seen, event ≠ .checkStop seen)
    (hbefore : b.worker.stage ≤ 2) : b'.worker.stage ≤ 2 ∨ 11 ≤ b'.worker.stage := by
  cases h with
  | createEvent | createEventFails | finishWithoutEvent | storeEvent => simp [WorkerPC.stage]
  | checkStop => exact absurd rfl (hcheck _)
  | evaluate => exact .inl hbefore
  | abiVersion _ hpc | sessionNew _ hpc | sessionNewFails hpc | record _ hpc | serverStart hpc
  | serverStartFails hpc | checkLoop hpc | drained hpc | serverStop hpc | serverJoin hpc
  | hostStop hpc | storeFinished hpc | loadNoEvent hpc | loadEvent hpc | setEvent hpc
  | destroyServer hpc | destroyHost hpc => simp [hpc, WorkerPC.stage] at hbefore

/-- Behind `host.Stop()` there is no session, unless there was one before and none was freed. -/
theorem WorkerStep.session_of_late {b b' : Bridge ι S H} {event : WorkerEvent S H}
    (h : WorkerStep b event b') (hlate : 11 ≤ b'.worker.stage) :
    b'.session = none ∨
      b'.session = b.session ∧ (b.worker.stage ≤ 4 ∨ 11 ≤ b.worker.stage) := by
  cases h with
  | sessionNewFails | hostStop | destroyHost => exact .inl rfl
  | evaluate => exact .inr ⟨rfl, .inr hlate⟩
  | record written hpc => cases written <;> simp [WorkerPC.stage] at hlate
  | checkLoop hpc => cases hstop : b.stopRequested <;> simp [hstop, WorkerPC.stage] at hlate
  | createEvent | storeEvent | sessionNew | serverStart | serverStartFails | drained | serverStop
  | serverJoin => simp [WorkerPC.stage] at hlate
  | createEventFails hpc | finishWithoutEvent hpc | checkStop hpc | abiVersion _ hpc
  | storeFinished hpc | loadNoEvent hpc | loadEvent hpc | setEvent hpc | destroyServer hpc =>
      exact .inr ⟨rfl, by simp [hpc, WorkerPC.stage]⟩

/-- `host.Stop()` passes its session on to be freed. -/
theorem WorkerStep.stage_of_hostStop {b b' : Bridge ι S H} {session : Option S}
    (h : WorkerStep b (.hostStop session) b') :
    session = b.session ∧ 10 ≤ b.worker.stage ∧ 11 ≤ b'.worker.stage := by
  cases h with
  | hostStop hpc | destroyHost hpc => simp [hpc, WorkerPC.stage]

/-! ### The run so far -/

/-- The session that an event creates. -/
def BridgeEvent.created : BridgeEvent ι S H → Option S
  | worker event => event.created
  | caller _ _ => none

/-- The session that an event frees. -/
def BridgeEvent.freed : BridgeEvent ι S H → Option S
  | worker event => event.freed
  | caller _ _ => none

/-- The sessions that a run creates, in order. -/
def created (events : List (BridgeEvent ι S H)) : List S := events.filterMap BridgeEvent.created

/-- The sessions that a run frees, in order. -/
def freed (events : List (BridgeEvent ι S H)) : List S := events.filterMap BridgeEvent.freed

/-- The sessions created, with one more event. -/
theorem created_snoc (events : List (BridgeEvent ι S H)) (event : BridgeEvent ι S H) :
    created (events ++ [event]) = created events ++ event.created.toList := by
  rw [created, created, List.filterMap_append]
  cases h : event.created <;> simp [h]

/-- The sessions freed, with one more event. -/
theorem freed_snoc (events : List (BridgeEvent ι S H)) (event : BridgeEvent ι S H) :
    freed (events ++ [event]) = freed events ++ event.freed.toList := by
  rw [freed, freed, List.filterMap_append]
  cases h : event.freed <;> simp [h]

/-- The sessions that two runs create. -/
theorem created_append (before after : List (BridgeEvent ι S H)) :
    created (before ++ after) = created before ++ created after :=
  List.filterMap_append

/-- The sessions that two runs free. -/
theorem freed_append (before after : List (BridgeEvent ι S H)) :
    freed (before ++ after) = freed before ++ freed after :=
  List.filterMap_append

/-- Events that create nothing. -/
theorem created_eq_nil {events : List (BridgeEvent ι S H)}
    (h : ∀ event ∈ events, event.created = none) : created events = [] :=
  List.filterMap_eq_nil_iff.mpr h

/-- **What the stage says about the run so far.** -/
structure Lifecycle (events : List (BridgeEvent ι S H)) (b : Bridge ι S H) : Prop where
  sessions : created events = freed events ++ b.session.toList
  early : b.worker.stage ≤ 4 → created events = []
  single : (created events).length ≤ 1
  gone : 11 ≤ b.worker.stage → b.session = none
  finished_iff : b.finished = true ↔ 12 ≤ b.worker.stage
  stored_iff : b.finished = true ↔ .worker .storeFinished ∈ events
  unchecked : (∀ seen, .worker (.checkStop seen) ∉ events) →
    (b.worker.stage ≤ 2 ∨ 11 ≤ b.worker.stage) ∧ created events = []
  notStarted : b.worker.stage ≤ 6 → .worker (.serverStart true) ∉ events
  joined : 10 ≤ b.worker.stage → .worker (.serverStart true) ∈ events →
    .worker .serverJoin ∈ events

/-- In the beginning there was no session. -/
theorem lifecycle_prepared : Lifecycle [] (Bridge.prepared : Bridge ι S H) where
  sessions := rfl
  early _ := rfl
  single := Nat.zero_le 1
  gone _ := rfl
  finished_iff := by simp [Bridge.prepared, WorkerPC.stage]
  stored_iff := by simp [Bridge.prepared]
  unchecked _ := ⟨.inl (Nat.zero_le 2), rfl⟩
  notStarted _ := List.not_mem_nil
  joined h := absurd h (by simp [Bridge.prepared, WorkerPC.stage])

/-- A step of the worker keeps the invariant. -/
theorem lifecycle_worker {events : List (BridgeEvent ι S H)} {b b' : Bridge ι S H}
    {event : WorkerEvent S H} (h : Lifecycle events b) (hstep : WorkerStep b event b') :
    Lifecycle (events ++ [.worker event]) b' := by
  have hle := hstep.stage_le
  have hat := hstep.at
  have hnone : b.worker.stage ≤ 4 → b.session = none := by
    intro hearly
    have hempty := h.sessions
    rw [h.early hearly] at hempty
    exact Option.toList_eq_nil_iff.mp (List.append_eq_nil_iff.mp hempty.symm).2
  have hsession := hstep.conserves hnone
  have hcreated : created (events ++ [.worker event]) = created events ++ event.created.toList :=
    created_snoc _ _
  have hkeeps : b.worker.stage ≠ 4 ∨ b'.worker.stage ≠ 5 → event.created = none := by
    intro hne
    cases hsome : event.created with
    | none => rfl
    | some session =>
        have hstages := hstep.stage_of_created hsome
        omega
  obtain ⟨hdone, hstored⟩ := hstep.finished_iff h.finished_iff
  have hmem : ∀ e : WorkerEvent S H,
      .worker e ∈ events ++ [.worker event] ↔ .worker e ∈ events ∨ e = event := by
    simp
  constructor
  · rw [hcreated, freed_snoc, h.sessions, List.append_assoc, List.append_assoc, hsession]
    rfl
  · intro hearly
    rw [hcreated, h.early (Nat.le_trans hle hearly), hkeeps (.inr (by omega))]
    rfl
  · rw [hcreated]
    cases hsome : event.created with
    | none => simpa using h.single
    | some session =>
        rw [h.early (Nat.le_of_eq (hstep.stage_of_created hsome).1)]
        exact Nat.le_refl 1
  · intro hlate
    rcases hstep.session_of_late hlate with hgone | ⟨hsame, hbefore⟩
    · exact hgone
    · rw [hsame]
      exact hbefore.elim hnone h.gone
  · exact hdone
  · rw [hstored, hmem, h.stored_iff]
    exact or_congr Iff.rfl eq_comm
  · intro hunchecked
    have hevents : ∀ seen, .worker (.checkStop seen) ∉ events := fun seen hseen =>
      hunchecked seen ((hmem _).mpr (.inl hseen))
    have hevent : ∀ seen, event ≠ .checkStop seen := fun seen hseen =>
      hunchecked seen ((hmem _).mpr (.inr hseen.symm))
    obtain ⟨hstage, hempty⟩ := h.unchecked hevents
    refine ⟨?_, ?_⟩
    · rcases hstage with hbefore | hbehind
      · exact hstep.unchecked hevent hbefore
      · exact .inr (Nat.le_trans hbehind hle)
    · rw [hcreated, hempty, hkeeps (.inl (by omega))]
      rfl
  · intro hbefore hstarted
    rcases (hmem _).mp hstarted with hstarted | rfl
    · exact h.notStarted (Nat.le_trans hle hbefore) hstarted
    · have hstages := hstep.stage_of_serverStart
      omega
  · intro hleaving hstarted
    rw [hmem] at hstarted ⊢
    rcases hstep.leaving hleaving with ⟨hbefore, hne⟩ | rfl | hbehind
    · rcases hstarted with hstarted | rfl
      · exact absurd hstarted (h.notStarted hbefore)
      · exact absurd rfl hne
    · exact .inr rfl
    · rcases hstarted with hstarted | rfl
      · exact .inl (h.joined hbehind hstarted)
      · have hstages := hstep.stage_of_serverStart
        omega

/-! ### Who knows that the worker has finished -/

/-- A caller that has learnt of the completion. -/
def CallerPC.Informed : CallerPC H → Prop
  | exchange => True
  | close _ => True
  | returning result => result = true
  | _ => False

/-- Whoever knows of the completion is right. -/
structure Informed (b : Bridge ι S H) : Prop where
  signaled : b.signaled = true → b.finished = true
  closed : b.closed = true → b.finished = true
  callers : ∀ i, (b.callers i).Informed → b.finished = true

/-- In the beginning nobody knows of a completion. -/
theorem informed_prepared : Informed (Bridge.prepared : Bridge ι S H) where
  signaled h := by cases h
  closed h := by cases h
  callers i h := h.elim

/-- The worker signals the completion behind the store of it. -/
theorem informed_worker {b b' : Bridge ι S H} {event : WorkerEvent S H} (h : Informed b)
    (hfinished : b.finished = true ↔ 12 ≤ b.worker.stage) (hstep : WorkerStep b event b') :
    Informed b' := by
  obtain ⟨-, hstored⟩ := hstep.finished_iff hfinished
  have hkeeps : b.finished = true → b'.finished = true := fun hb => hstored.mpr (.inl hb)
  have hframe : b'.closed = b.closed ∧ b'.callers = b.callers := by
    cases hstep <;> exact ⟨rfl, rfl⟩
  have hsignaled : b'.signaled = true → b.signaled = true ∨ 12 ≤ b.worker.stage := by
    cases hstep with
    | setEvent hpc => exact fun _ => .inr (by simp [hpc, WorkerPC.stage])
    | _ => exact .inl
  constructor
  · intro hset
    exact hkeeps ((hsignaled hset).elim h.signaled hfinished.mpr)
  · rw [hframe.1]
    exact fun hclosed => hkeeps (h.closed hclosed)
  · rw [hframe.2]
    exact fun i hi => hkeeps (h.callers i hi)

/-! ### All steps -/

section Callers

variable [DecidableEq ι]

/-- What no step of a caller changes. -/
theorem CallerStep.frame {i : ι} {b b' : Bridge ι S H} {event : CallerEvent H}
    (h : CallerStep i b event b') :
    b'.worker = b.worker ∧ b'.session = b.session ∧ b'.finished = b.finished ∧
      b'.signaled = b.signaled := by
  cases h <;> exact ⟨rfl, rfl, rfl, rfl⟩

/-- A step of a caller touches neither the sessions nor the stage. -/
theorem lifecycle_caller {events : List (BridgeEvent ι S H)} {b b' : Bridge ι S H} {i : ι}
    {event : CallerEvent H} (h : Lifecycle events b) (hstep : CallerStep i b event b') :
    Lifecycle (events ++ [.caller i event]) b' := by
  obtain ⟨hworker, hsession, hfinished, -⟩ := hstep.frame
  have hcreated : created (events ++ [.caller i event]) = created events := by
    rw [created_snoc]
    exact List.append_nil _
  have hfreed : freed (events ++ [.caller i event]) = freed events := by
    rw [freed_snoc]
    exact List.append_nil _
  have hmem : ∀ e : WorkerEvent S H,
      .worker e ∈ events ++ [.caller i event] ↔ .worker e ∈ events := by
    simp
  constructor <;> simp only [hworker, hsession, hfinished, hcreated, hfreed, hmem]
  exacts [h.sessions, h.early, h.single, h.gone, h.finished_iff, h.stored_iff, h.unchecked,
    h.notStarted, h.joined]

/-- Every step keeps the invariant. -/
theorem lifecycle_step {events : List (BridgeEvent ι S H)} {b b' : Bridge ι S H}
    {event : BridgeEvent ι S H} (h : Lifecycle events b) (hstep : BridgeStep b event b') :
    Lifecycle (events ++ [event]) b' := by
  cases hstep with
  | worker hstep => exact lifecycle_worker h hstep
  | caller hstep => exact lifecycle_caller h hstep

/-- **Every run has the invariant.** -/
theorem lifecycle_run {events : List (BridgeEvent ι S H)} {b : Bridge ι S H}
    (h : Run BridgeStep .prepared events b) : Lifecycle events b :=
  h.history (fun _ _ _ _ hs hstep => lifecycle_step hs hstep) lifecycle_prepared

/-- A caller is where its step leads, and the others stay where they are. -/
theorem CallerStep.others {i : ι} {b b' : Bridge ι S H} {event : CallerEvent H}
    (h : CallerStep i b event b') {j : ι} (hj : j ≠ i) : b'.callers j = b.callers j := by
  cases h <;> exact Function.update_of_ne hj _ _

/-- A caller learns of the completion behind the store only. -/
theorem CallerStep.informed {i : ι} {b b' : Bridge ι S H} {event : CallerEvent H}
    (h : CallerStep i b event b') (hb : Informed b) (hi : (b'.callers i).Informed) :
    b.finished = true := by
  have hown : (b.callers i).Informed → b.finished = true := hb.callers i
  cases h with
  | loadFinished hpc =>
      cases hfinished : b.finished with
      | true => rfl
      | false => simp [Bridge.setCaller, hfinished, CallerPC.Informed] at hi
  | waited hpc hdone => exact hdone.elim hb.signaled hb.closed
  | exchange hpc | exchangeNone hpc | closeHandle hpc =>
      rw [hpc] at hown
      exact hown trivial
  | _ => simp [Bridge.setCaller, CallerPC.Informed] at hi

/-- Only a caller that knows of the completion closes the handle. -/
theorem CallerStep.closed {i : ι} {b b' : Bridge ι S H} {event : CallerEvent H}
    (h : CallerStep i b event b') (hclosed : b'.closed = true) :
    b.closed = true ∨ (b.callers i).Informed := by
  cases h with
  | closeHandle hpc => exact .inr (by rw [hpc]; trivial)
  | _ => exact .inl hclosed

/-- Every step keeps what is known right. -/
theorem informed_step {b b' : Bridge ι S H} {event : BridgeEvent ι S H} (h : Informed b)
    (hfinished : b.finished = true ↔ 12 ≤ b.worker.stage) (hstep : BridgeStep b event b') :
    Informed b' := by
  cases hstep with
  | worker hstep => exact informed_worker h hfinished hstep
  | @caller _ i _ hstep =>
      obtain ⟨-, -, hsame, hsignaled⟩ := hstep.frame
      constructor
      · rw [hsame, hsignaled]
        exact h.signaled
      · intro hclosed
        rw [hsame]
        exact (hstep.closed hclosed).elim h.closed (h.callers i)
      · intro j hj
        rw [hsame]
        by_cases hji : j = i
        · exact hstep.informed h (hji ▸ hj)
        · exact h.callers j (hstep.others hji ▸ hj)

/-- **Both invariants hold in every run.** -/
theorem informed_run {events : List (BridgeEvent ι S H)} {b : Bridge ι S H}
    (h : Run BridgeStep .prepared events b) : Lifecycle events b ∧ Informed b :=
  ⟨lifecycle_run h, h.history_along (I := fun _ b => Informed b) lifecycle_run
    (fun _ _ _ _ hlifecycle hinformed hstep =>
      informed_step hinformed hlifecycle.finished_iff hstep) informed_prepared⟩

/-- A caller does not touch the socket server. -/
theorem CallerStep.socket {i : ι} {b b' : Bridge ι S H} {event : CallerEvent H}
    (h : CallerStep i b event b') : b'.socket = b.socket := by
  cases h <;> rfl

/-- **The socket worker runs only between its start and its join.** -/
theorem stage_of_serving {events : List (BridgeEvent ι S H)} {b : Bridge ι S H}
    (h : Run BridgeStep .prepared events b) (hserving : b.socket = .running) :
    7 ≤ b.worker.stage ∧ b.worker.stage ≤ 9 := by
  refine h.invariant (I := fun b => b.socket = .running →
    7 ≤ b.worker.stage ∧ b.worker.stage ≤ 9) ?_ (by rintro ⟨⟩) hserving
  intro b event b' hb hstep hrunning
  cases hstep with
  | caller hstep =>
      rw [hstep.socket] at hrunning
      rw [hstep.frame.1]
      exact hb hrunning
  | worker hstep =>
      cases hstep with
      | serverStart => simp [WorkerPC.stage]
      | serverJoin => cases hrunning
      | destroyServer hpc =>
          by_cases hbefore : b.socket = .running
          · have hstages := hb hbefore
            simp [hpc, WorkerPC.stage] at hstages
          · rw [if_neg hbefore] at hrunning
            exact absurd hrunning hbefore
      | evaluate => exact hb hrunning
      | checkLoop => cases b.stopRequested <;> simp [WorkerPC.stage]
      | drained | serverStop => simp [WorkerPC.stage]
      | createEvent _ hpc | createEventFails hpc | finishWithoutEvent hpc | storeEvent hpc
      | checkStop hpc | abiVersion _ hpc | sessionNew _ hpc | sessionNewFails hpc | record _ hpc
      | serverStartFails hpc | hostStop hpc | storeFinished hpc | loadNoEvent hpc | loadEvent hpc
      | setEvent hpc | destroyHost hpc =>
          have hstages := hb hrunning
          simp [hpc, WorkerPC.stage] at hstages

/-! ### Runs at one of their steps -/

/-- A stop request stays. -/
theorem BridgeStep.stopRequested {b b' : Bridge ι S H} {event : BridgeEvent ι S H}
    (h : BridgeStep b event b') (hb : b.stopRequested = true) : b'.stopRequested = true := by
  cases h with
  | worker hstep => cases hstep <;> exact hb
  | caller hstep => cases hstep <;> first | exact hb | rfl

/-- The worker does not go back. -/
theorem BridgeStep.stage_le {b b' : Bridge ι S H} {event : BridgeEvent ι S H}
    (h : BridgeStep b event b') : b.worker.stage ≤ b'.worker.stage := by
  cases h with
  | worker hstep => exact hstep.stage_le
  | caller hstep => exact Nat.le_of_eq (congrArg WorkerPC.stage hstep.frame.1.symm)

/-- Sessions are created at one stage. -/
theorem BridgeStep.created_eq_none {b b' : Bridge ι S H} {event : BridgeEvent ι S H}
    (h : BridgeStep b event b') (hb : b.worker.stage ≠ 4) : event.created = none := by
  cases h with
  | caller => rfl
  | @worker _ event hstep =>
      cases hsome : event.created with
      | none => exact hsome
      | some session => exact absurd (hstep.stage_of_created hsome).1 hb

/-- **A stop request is not lost.** Behind its store, every check sees it. -/
theorem seen_of_stopRequested {b b' : Bridge ι S H} {events : List (BridgeEvent ι S H)}
    (h : Run BridgeStep b events b') (hb : b.stopRequested = true) (seen : Bool)
    (hseen : .worker (.checkStop seen) ∈ events ∨ .worker (.checkLoop seen) ∈ events) :
    seen = true := by
  have hlabels : ∀ event ∈ events, ∀ seen : Bool,
      event = .worker (.checkStop seen) ∨ event = .worker (.checkLoop seen) → seen = true := by
    refine h.labels (I := fun b => b.stopRequested = true) ?_ hb
    intro b event b' hstop hstep
    refine ⟨hstep.stopRequested hstop, ?_⟩
    rintro seen (rfl | rfl)
    · cases hstep with
      | worker hstep =>
          cases hstep
          exact hstop
    · cases hstep with
      | worker hstep =>
          cases hstep
          exact hstop
  exact hseen.elim (fun hmem => hlabels _ hmem seen (.inl rfl))
    fun hmem => hlabels _ hmem seen (.inr rfl)

/-- **No session behind a stop request** that comes before the check. -/
theorem created_eq_nil_of_stopRequested {b b' : Bridge ι S H}
    {events : List (BridgeEvent ι S H)} (h : Run BridgeStep b events b')
    (hb : b.stopRequested = true) (hstage : b.worker.stage ≤ 2 ∨ 11 ≤ b.worker.stage) :
    created events = [] := by
  refine created_eq_nil (h.labels
    (I := fun b => b.stopRequested = true ∧ (b.worker.stage ≤ 2 ∨ 11 ≤ b.worker.stage)) ?_
    ⟨hb, hstage⟩)
  rintro b event b' ⟨hstop, hstage⟩ hstep
  refine ⟨⟨hstep.stopRequested hstop, ?_⟩, hstep.created_eq_none (by omega)⟩
  rcases hstage with hbefore | hbehind
  · cases hstep with
    | caller hstep => exact .inl (hstep.frame.1 ▸ hbefore)
    | @worker _ event hstep =>
        by_cases hcheck : ∃ seen, event = .checkStop seen
        · obtain ⟨seen, rfl⟩ := hcheck
          cases hstep
          simp [hstop, WorkerPC.stage]
        · exact hstep.unchecked (fun seen hseen => hcheck ⟨seen, hseen⟩) hbefore
  · exact .inr (Nat.le_trans hbehind hstep.stage_le)

/-- Behind `host.Stop()` nothing is created and nothing is evaluated. -/
theorem labels_of_late {b b' : Bridge ι S H} {events : List (BridgeEvent ι S H)}
    (h : Run BridgeStep b events b') (hb : 11 ≤ b.worker.stage) :
    created events = [] ∧ ∀ session, .worker (.evaluate session) ∉ events := by
  have hlabels : ∀ event ∈ events, event.created = none ∧
      ∀ session, event ≠ .worker (.evaluate session) := by
    refine h.labels (I := fun b => 11 ≤ b.worker.stage) ?_ hb
    intro b event b' hlate hstep
    refine ⟨Nat.le_trans hlate hstep.stage_le, hstep.created_eq_none (by omega), ?_⟩
    rintro session rfl
    cases hstep with
    | worker hstep =>
        have hat : b.worker.stage = 7 := hstep.at
        omega
  exact ⟨created_eq_nil fun event hmem => (hlabels event hmem).1,
    fun session hmem => (hlabels _ hmem).2 session rfl⟩

/-- **The lifecycle of the bridge.** In every interleaving of the worker with any number of
callers, from the state behind `PrepareCanonicalRepl`:

* a stop request stays, every later check of the worker sees it, and no session is created if
  it comes before the first check;
* at most one session is created, and when `g_finished` is stored, every session that was
  created has been freed;
* where a session is freed, it is the only one, and this is the only time; if a socket worker
  was started, it has been joined; and nothing is evaluated any more;
* when `ShutdownCanonicalRepl` returns true, `g_finished` has been stored, and every session
  of the run has been freed. -/
theorem bridge_lifecycle {events : List (BridgeEvent ι S H)} {b : Bridge ι S H}
    (h : Run BridgeStep .prepared events b) :
    (∀ before i after, events = before ++ .caller i .storeStop :: after →
      b.stopRequested = true ∧
        (∀ seen, .worker (.checkStop seen) ∈ after ∨ .worker (.checkLoop seen) ∈ after →
          seen = true) ∧
        ((∀ seen, .worker (.checkStop seen) ∉ before) → created events = [])) ∧
      ((created events).length ≤ 1 ∧ (b.finished = true → freed events = created events)) ∧
      (∀ before session after,
        events = before ++ .worker (.hostStop (some session)) :: after →
          created events = [session] ∧ freed before = [] ∧ freed after = [] ∧
            (.worker (.serverStart true) ∈ before → .worker .serverJoin ∈ before) ∧
            ∀ session', .worker (.evaluate session') ∉ after) ∧
      ∀ before i after, events = before ++ .caller i (.returned true) :: after →
        .worker .storeFinished ∈ before ∧ freed before = created events := by
  obtain ⟨hlife, -⟩ := informed_run h
  refine ⟨?_, ⟨hlife.single, fun hfinished => ?_⟩, ?_, ?_⟩
  · rintro before i after rfl
    obtain ⟨s₁, s₂, hbefore, hstep, hafter⟩ := h.split
    cases hstep with
    | caller hstep =>
        have hstop : s₂.stopRequested = true := by
          cases hstep
          rfl
        have hworker := hstep.frame.1
        refine ⟨hafter.invariant (fun _ _ _ hs hstep => hstep.stopRequested hs) hstop,
          seen_of_stopRequested hafter hstop, fun hunchecked => ?_⟩
        obtain ⟨hstage, hempty⟩ := (informed_run hbefore).1.unchecked hunchecked
        rw [← hworker] at hstage
        have hrest := created_eq_nil_of_stopRequested hafter hstop hstage
        rw [created_append, hempty]
        exact hrest
  · have hdone := hlife.finished_iff.mp hfinished
    rw [hlife.sessions, hlife.gone (by omega)]
    exact (List.append_nil _).symm
  · rintro before session after rfl
    obtain ⟨s₁, s₂, hbefore, hstep, hafter⟩ := h.split
    cases hstep with
    | worker hstep =>
        obtain ⟨hsession, hstage, hlate⟩ := hstep.stage_of_hostStop
        have hjoined := (informed_run hbefore).1.joined hstage
        have hsingle := hlife.single
        have hsessions := hlife.sessions
        have hfreed : freed (before ++ .worker (.hostStop (some session)) :: after) =
            freed before ++ session :: freed after := freed_append _ _
        rw [hsessions, hfreed] at hsingle
        simp only [List.length_append, List.length_cons] at hsingle
        have hbeforeNil : freed before = [] := List.length_eq_zero_iff.mp (by omega)
        have hafterNil : freed after = [] := List.length_eq_zero_iff.mp (by omega)
        have hsessionNil : b.session.toList = [] := List.length_eq_zero_iff.mp (by omega)
        refine ⟨?_, hbeforeNil, hafterNil, hjoined, (labels_of_late hafter hlate).2⟩
        rw [hsessions, hfreed, hbeforeNil, hafterNil, hsessionNil]
        rfl
  · rintro before i after rfl
    obtain ⟨s₁, s₂, hbefore, hstep, hafter⟩ := h.split
    obtain ⟨hlife₁, hinformed⟩ := informed_run hbefore
    cases hstep with
    | caller hstep =>
        have hworker := hstep.frame.1
        have hfinished : s₁.finished = true := by
          cases hstep with
          | returned hpc => exact hinformed.callers i (by rw [hpc]; rfl)
        have hdone := hlife₁.finished_iff.mp hfinished
        have hrest := (labels_of_late hafter (by rw [hworker]; omega)).1
        refine ⟨hlife₁.stored_iff.mp hfinished, ?_⟩
        have hcreated : created (before ++ .caller i (.returned true) :: after) =
            created before ++ created after := created_append _ _
        rw [hcreated, hrest, hlife₁.sessions, hlife₁.gone (by omega), Option.toList_none,
          List.append_nil, List.append_nil]

end Callers

/-- A run in which the stop is requested before the worker starts, up to the return of
`ShutdownCanonicalRepl`. -/
def earlyShutdown : List (BridgeEvent Unit Unit Unit) :=
  [.caller () .call, .caller () .storeStop, .worker (.createEvent (some ())),
    .worker (.storeEvent ()), .worker (.checkStop true), .worker .storeFinished,
    .worker (.loadEvent (some ())), .worker (.setEvent ()), .caller () (.loadFinished true),
    .caller () (.exchange (some ())), .caller () (.closeHandle ()), .caller () (.returned true)]

/-- Such a run creates no session. -/
theorem bridge_lifecycle_early :
    ∃ b, Run BridgeStep .prepared earlyShutdown b ∧ created earlyShutdown = [] := by
  have hrun : ∃ b, Run BridgeStep .prepared earlyShutdown b :=
    ⟨_, .cons (.caller (.call rfl)) <| .cons (.caller (.storeStop rfl)) <|
      .cons (.worker (.createEvent () rfl)) <| .cons (.worker (.storeEvent rfl)) <|
      .cons (.worker (.checkStop rfl)) <| .cons (.worker (.storeFinished rfl)) <|
      .cons (.worker (.loadEvent rfl rfl)) <| .cons (.worker (.setEvent rfl)) <|
      .cons (.caller (.loadFinished rfl)) <| .cons (.caller (.exchange rfl rfl)) <|
      .cons (.caller (.closeHandle rfl)) <| .cons (.caller (.returned rfl)) <| .nil _⟩
  obtain ⟨b, hrun⟩ := hrun
  obtain ⟨-, -, hnone⟩ := (bridge_lifecycle hrun).1 [.caller () .call] () _ rfl
  exact ⟨b, hrun, hnone fun seen => by simp⟩

end LispHost
