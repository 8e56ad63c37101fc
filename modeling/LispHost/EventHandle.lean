import LispHost.Lifecycle

/-!
# The Handle of the Stopped Event

The worker publishes the handle of its event once, and a caller that learns of the completion
takes it out and closes it. Taking it out is one atomic exchange, so the handle is closed at
most once. But a handle that was loaded before the exchange is still used behind it: the worker
stores `g_finished`, loads the handle and only then signals it, and in between a caller may have
closed it. The handle is safe exactly if nobody is between a load and the use when it is closed.

## Main definitions

* `Unheld`: nobody is between loading a handle and using it.
* `UsesHandle`, `SafeHandles`: the uses of handles, and runs without one behind the close.
* `Handles`: where the handle is.

## Main results

* `handles_run`: the handle is in one place at a time.
* `unheld_iff`: when a close is harmless.
* `event_handle_safe`: the handle is closed once, and used before that.
-/

namespace LispHost

open Effects

variable {ι S H : Type}

/-- The handle that an operation closes. -/
def BridgeEvent.closed : BridgeEvent ι S H → Option H
  | caller _ (.closeHandle event) => some event
  | _ => none

/-- The handles that a run closes, in order. -/
def closedHandles (events : List (BridgeEvent ι S H)) : List H :=
  events.filterMap BridgeEvent.closed

/-- `SetEvent` or `WaitForSingleObject` on the handle. -/
inductive UsesHandle (event : H) : BridgeEvent ι S H → Prop where
  | setEvent : UsesHandle event (.worker (.setEvent event))
  | wait (i : ι) : UsesHandle event (.caller i (.wait event))

/-- No handle is used that has been closed before. -/
def SafeHandles (events : List (BridgeEvent ι S H)) : Prop :=
  ∀ before use after event, events = before ++ use :: after → UsesHandle event use →
    event ∉ closedHandles before

/-- Nobody has loaded the handle and not used it yet. -/
structure Unheld (b : Bridge ι S H) (event : H) : Prop where
  worker : ∀ code, b.worker ≠ .setEvent code event
  checkTime : ∀ i, b.callers i ≠ .checkTime (some event)
  wait : ∀ i, b.callers i ≠ .wait event

/-- **Where the handle is**: not published yet, or in `g_stoppedEvent`, or with one caller, or
closed. -/
structure Handles (events : List (BridgeEvent ι S H)) (b : Bridge ι S H) : Prop where
  early : b.worker.stage ≤ 1 → b.stoppedEvent = none ∧ closedHandles events = [] ∧
    ∀ i event, b.callers i ≠ .close event
  published : b.stoppedEvent ≠ none → closedHandles events = [] ∧
    ∀ i event, b.callers i ≠ .close event
  taken : ∀ i event, b.callers i = .close event → closedHandles events = [] ∧
    ∀ j event', b.callers j = .close event' → j = i
  closed : (closedHandles events).length ≤ 1

/-- The handles that are closed, with one more event. -/
theorem closedHandles_snoc (events : List (BridgeEvent ι S H)) (event : BridgeEvent ι S H) :
    closedHandles (events ++ [event]) = closedHandles events ++ event.closed.toList := by
  rw [closedHandles, closedHandles, List.filterMap_append]
  cases h : event.closed <;> simp [h]

/-- A handle that was closed was closed by a caller. -/
theorem mem_closedHandles {events : List (BridgeEvent ι S H)} {event : H}
    (h : event ∈ closedHandles events) :
    ∃ before i after, events = before ++ .caller i (.closeHandle event) :: after := by
  obtain ⟨close, hmem, hclosed⟩ := List.mem_filterMap.mp h
  obtain ⟨before, after, rfl⟩ := List.append_of_mem hmem
  cases close with
  | worker => cases hclosed
  | caller i e =>
      cases e with
      | closeHandle =>
          cases hclosed
          exact ⟨before, i, after, rfl⟩
      | _ => cases hclosed

/-- In the beginning there is no handle. -/
theorem handles_prepared : Handles [] (Bridge.prepared : Bridge ι S H) where
  early _ := ⟨rfl, rfl, by rintro _ _ ⟨⟩⟩
  published h := absurd rfl h
  taken := by rintro _ _ ⟨⟩
  closed := Nat.zero_le 1

/-- What a step of the worker does to the handle. -/
theorem WorkerStep.stoppedEvent {b b' : Bridge ι S H} {event : WorkerEvent S H}
    (h : WorkerStep b event b') :
    b'.callers = b.callers ∧
      (b'.stoppedEvent = b.stoppedEvent ∨ b.worker.stage = 1 ∧ b'.worker.stage = 2) := by
  cases h with
  | storeEvent hpc => exact ⟨rfl, .inr (by simp [hpc, WorkerPC.stage])⟩
  | _ => exact ⟨rfl, .inl rfl⟩

/-- A step of the worker closes no handle, and publishes one at most. -/
theorem handles_worker {events : List (BridgeEvent ι S H)} {b b' : Bridge ι S H}
    {event : WorkerEvent S H} (h : Handles events b) (hstep : WorkerStep b event b') :
    Handles (events ++ [.worker event]) b' := by
  have hle := hstep.stage_le
  have hclosed : closedHandles (events ++ [.worker event]) = closedHandles events := by
    rw [closedHandles_snoc]
    exact List.append_nil _
  obtain ⟨hcallers, hsame⟩ := hstep.stoppedEvent
  constructor
  · intro hearly
    rw [hclosed, hcallers]
    rcases hsame with hsame | hstage
    · rw [hsame]
      exact h.early (Nat.le_trans hle hearly)
    · omega
  · intro hne
    rw [hclosed, hcallers]
    rcases hsame with hsame | ⟨hstage, -⟩
    · exact h.published (hsame ▸ hne)
    · exact (h.early (Nat.le_of_eq hstage)).2
  · rw [hclosed, hcallers]
    exact h.taken
  · rw [hclosed]
    exact h.closed

/-- The worker holds the handle because it has just loaded it, or it held it before. -/
theorem WorkerStep.holds {b b' : Bridge ι S H} {event : WorkerEvent S H} {code : Nat} {e : H}
    (h : WorkerStep b event b') (hset : b'.worker = .setEvent code e) :
    b.stoppedEvent = some e ∨ b.worker = .setEvent code e := by
  cases h with
  | loadEvent _ hevent =>
      obtain ⟨-, rfl⟩ := WorkerPC.setEvent.inj hset
      exact .inl hevent
  | evaluate => exact .inr hset
  | checkStop => cases hstop : b.stopRequested <;> simp [hstop] at hset
  | checkLoop => cases hstop : b.stopRequested <;> simp [hstop] at hset
  | abiVersion accepted => cases accepted <;> cases hset
  | record written => cases written <;> cases hset
  | _ => cases hset

/-- The handle is nowhere any more. -/
structure Gone (event : H) (b : Bridge ι S H) : Prop where
  stage : 2 ≤ b.worker.stage
  stoppedEvent : b.stoppedEvent = none
  unheld : Unheld b event

/-- The worker does not bring back what is gone. -/
theorem gone_worker {event : H} {b b' : Bridge ι S H} {e : WorkerEvent S H} (h : Gone event b)
    (hstep : WorkerStep b e b') : Gone event b' := by
  have hle := hstep.stage_le
  obtain ⟨hcallers, hsame⟩ := hstep.stoppedEvent
  have hstage := h.stage
  refine ⟨by omega, ?_, ?_, ?_, ?_⟩
  · rcases hsame with hsame | ⟨hbefore, -⟩
    · rw [hsame]
      exact h.stoppedEvent
    · omega
  · intro code hset
    rcases hstep.holds hset with hevent | hheld
    · cases hevent.symm.trans h.stoppedEvent
    · exact h.unheld.worker code hheld
  · rw [hcallers]
    exact h.unheld.checkTime
  · rw [hcallers]
    exact h.unheld.wait

/-! ### Callers -/

section Callers

variable [DecidableEq ι]

/-- **What a step of a caller does to the handle**: nothing, or it takes the handle out, or it
closes the handle. -/
theorem CallerStep.handle {i : ι} {b b' : Bridge ι S H} {event : CallerEvent H}
    (h : CallerStep i b event b') :
    (b'.stoppedEvent = b.stoppedEvent ∧ (∀ e, event ≠ .closeHandle e) ∧
        (∀ e, b.callers i ≠ .close e) ∧ ∀ e, b'.callers i ≠ .close e) ∨
      (∃ e, b.stoppedEvent = some e ∧ event = .exchange (some e) ∧ b'.stoppedEvent = none) ∨
      ∃ e, b.callers i = .close e ∧ event = .closeHandle e ∧
        b'.stoppedEvent = b.stoppedEvent ∧ ∀ e', b'.callers i ≠ .close e' := by
  cases h with
  | exchange _ hevent => exact .inr (.inl ⟨_, hevent, rfl, rfl⟩)
  | closeHandle hpc => exact .inr (.inr ⟨_, hpc, rfl, rfl, by simp [Bridge.setCaller]⟩)
  | loadFinished hpc => cases hfinished : b.finished <;> simp [Bridge.setCaller, hpc, hfinished]
  | call hpc | storeStop hpc | loadEvent hpc | timedOut hpc | sleep hpc | timeLeft hpc
  | wait hpc | waited hpc | notWaited hpc | exchangeNone hpc | returned hpc =>
      simp [Bridge.setCaller, hpc]

/-- A caller takes the handle out before it closes it. -/
theorem handles_caller {events : List (BridgeEvent ι S H)} {b b' : Bridge ι S H} {i : ι}
    {event : CallerEvent H} (h : Handles events b) (hstep : CallerStep i b event b') :
    Handles (events ++ [.caller i event]) b' := by
  have hworker := hstep.frame.1
  obtain ⟨hsame, hclose, hbefore, hbehind⟩ | ⟨e, hpublished, rfl, hnone⟩ |
    ⟨e, htaken, rfl, hsame, hbehind⟩ := hstep.handle
  · have hclosed : closedHandles (events ++ [.caller i event]) = closedHandles events := by
      have hnone : (BridgeEvent.caller i event : BridgeEvent ι S H).closed = none := by
        cases event with
        | closeHandle e => exact absurd rfl (hclose e)
        | _ => rfl
      rw [closedHandles_snoc, hnone]
      exact List.append_nil _
    have hcallers : ∀ {j e}, b'.callers j = .close e → b.callers j = .close e := by
      intro j e hj
      by_cases hji : j = i
      · exact absurd (hji ▸ hj) (hbehind e)
      · exact hstep.others hji ▸ hj
    constructor
    · intro hearly
      rw [hclosed, hsame]
      rw [hworker] at hearly
      obtain ⟨hnone, hempty, hfree⟩ := h.early hearly
      exact ⟨hnone, hempty, fun j e hj => hfree j e (hcallers hj)⟩
    · intro hne
      rw [hclosed]
      rw [hsame] at hne
      obtain ⟨hempty, hfree⟩ := h.published hne
      exact ⟨hempty, fun j e hj => hfree j e (hcallers hj)⟩
    · intro j e hj
      rw [hclosed]
      obtain ⟨hempty, hunique⟩ := h.taken j e (hcallers hj)
      exact ⟨hempty, fun k e' hk => hunique k e' (hcallers hk)⟩
    · rw [hclosed]
      exact h.closed
  · have hclosed : closedHandles (events ++ [.caller i (.exchange (some e))]) =
        closedHandles events := by
      rw [closedHandles_snoc]
      exact List.append_nil _
    have hsome : b.stoppedEvent ≠ none := by
      rw [hpublished]
      rintro ⟨⟩
    obtain ⟨hempty, hfree⟩ := h.published hsome
    have howner : ∀ {j e'}, b'.callers j = .close e' → j = i := by
      intro j e' hj
      by_contra hji
      exact hfree j e' (hstep.others hji ▸ hj)
    constructor
    · intro hearly
      rw [hworker] at hearly
      exact absurd (h.early hearly).1 hsome
    · exact fun hne => absurd hnone hne
    · intro j e' hj
      rw [hclosed]
      exact ⟨hempty, fun k e'' hk => (howner hk).trans (howner hj).symm⟩
    · rw [hclosed]
      exact h.closed
  · obtain ⟨hempty, hunique⟩ := h.taken i e htaken
    have hclosed : closedHandles (events ++ [.caller i (.closeHandle e)]) = [e] := by
      rw [closedHandles_snoc, hempty]
      rfl
    have hfree : ∀ j e', b'.callers j ≠ .close e' := by
      intro j e' hj
      by_cases hji : j = i
      · exact hbehind e' (hji ▸ hj)
      · exact hji (hunique j e' (hstep.others hji ▸ hj))
    constructor
    · intro hearly
      rw [hworker] at hearly
      exact absurd htaken ((h.early hearly).2.2 i e)
    · intro hne
      rw [hsame] at hne
      exact absurd htaken ((h.published hne).2 i e)
    · exact fun j e' hj => absurd hj (hfree j e')
    · rw [hclosed]
      exact Nat.le_refl 1

/-- Every step keeps track of the handle. -/
theorem handles_step {events : List (BridgeEvent ι S H)} {b b' : Bridge ι S H}
    {event : BridgeEvent ι S H} (h : Handles events b) (hstep : BridgeStep b event b') :
    Handles (events ++ [event]) b' := by
  cases hstep with
  | worker hstep => exact handles_worker h hstep
  | caller hstep => exact handles_caller h hstep

/-- **The handle is in one place at a time.** -/
theorem handles_run {events : List (BridgeEvent ι S H)} {b : Bridge ι S H}
    (h : Run BridgeStep .prepared events b) : Handles events b :=
  h.history (fun _ _ _ _ hs hstep => handles_step hs hstep) handles_prepared

/-- A caller holds the handle because it has just loaded it, or it held it before. -/
theorem CallerStep.holds {i : ι} {b b' : Bridge ι S H} {event : CallerEvent H} {e : H}
    (h : CallerStep i b event b')
    (hi : b'.callers i = .checkTime (some e) ∨ b'.callers i = .wait e) :
    b.stoppedEvent = some e ∨ b.callers i = .checkTime (some e) := by
  cases h with
  | loadEvent => exact .inl (by simpa [Bridge.setCaller] using hi)
  | timeLeft hpc =>
      have he := by simpa [Bridge.setCaller] using hi
      exact .inr (he ▸ hpc)
  | loadFinished => cases hfinished : b.finished <;> simp [Bridge.setCaller, hfinished] at hi
  | _ => simp [Bridge.setCaller] at hi

/-! ### When a close is harmless -/

/-- A caller does not bring back what is gone. -/
theorem gone_caller {event : H} {b b' : Bridge ι S H} {i : ι} {e : CallerEvent H}
    (h : Gone event b) (hstep : CallerStep i b e b') : Gone event b' := by
  obtain ⟨hworker, -⟩ := hstep.frame
  have hfree : ∀ j, b'.callers j ≠ .checkTime (some event) ∧ b'.callers j ≠ .wait event := by
    intro j
    by_cases hji : j = i
    · subst hji
      have hnot : ¬ (b'.callers j = .checkTime (some event) ∨ b'.callers j = .wait event) := by
        intro hheld
        rcases hstep.holds hheld with hevent | hheld
        · cases hevent.symm.trans h.stoppedEvent
        · exact h.unheld.checkTime j hheld
      exact not_or.mp hnot
    · rw [hstep.others hji]
      exact ⟨h.unheld.checkTime j, h.unheld.wait j⟩
  refine ⟨?_, ?_, ?_, fun j => (hfree j).1, fun j => (hfree j).2⟩
  · rw [hworker]
    exact h.stage
  · rcases hstep.handle with ⟨hsame, -⟩ | ⟨_, -, -, hnone⟩ | ⟨_, -, -, hsame, -⟩
    · rw [hsame]
      exact h.stoppedEvent
    · exact hnone
    · rw [hsame]
      exact h.stoppedEvent
  · rw [hworker]
    exact h.unheld.worker

/-- A handle that is gone is not used. -/
theorem not_usesHandle_of_gone {event : H} {b b' : Bridge ι S H}
    {events : List (BridgeEvent ι S H)} (h : Run BridgeStep b events b') (hb : Gone event b) :
    ∀ use ∈ events, ¬ UsesHandle event use := by
  refine h.labels (I := Gone event) ?_ hb
  intro b use b' hgone hstep
  cases hstep with
  | worker hstep =>
      refine ⟨gone_worker hgone hstep, ?_⟩
      rintro ⟨⟩
      cases hstep with
      | setEvent hpc => exact hgone.unheld.worker _ hpc
  | caller hstep =>
      refine ⟨gone_caller hgone hstep, ?_⟩
      rintro ⟨⟩
      cases hstep with
      | wait hpc => exact hgone.unheld.wait _ hpc

/-- **When a close is harmless**: exactly if nobody holds the handle. -/
theorem unheld_iff {events : List (BridgeEvent ι S H)} {b b' : Bridge ι S H} {i : ι} {event : H}
    (h : Run BridgeStep .prepared events b) (hclose : CallerStep i b (.closeHandle event) b') :
    Unheld b event ↔ ∀ events' b'', Run BridgeStep b' events' b'' →
      ∀ use ∈ events', ¬ UsesHandle event use := by
  have hhandles := handles_run h
  obtain ⟨hworker, -⟩ := hclose.frame
  have hpc : b.callers i = .close event := by
    cases hclose with
    | closeHandle hpc => exact hpc
  have hother : ∀ {j pc}, b.callers j = pc → pc ≠ .close event → b'.callers j = pc := by
    rintro j _ rfl hne
    exact hclose.others fun hji => hne (hji ▸ hpc)
  have hback : ∀ {j pc}, b'.callers j = pc → pc ≠ .returning true → b.callers j = pc := by
    rintro j _ rfl hne
    refine (hclose.others fun hji => hne ?_).symm
    cases hclose
    rw [hji]
    exact Function.update_self _ _ _
  constructor
  · intro hunheld events' b'' hrun
    refine not_usesHandle_of_gone hrun ⟨?_, ?_, ?_, ?_, ?_⟩
    · rw [hworker]
      by_contra hearly
      exact (hhandles.early (by omega)).2.2 i event hpc
    · have hnone : b.stoppedEvent = none := by
        by_contra hne
        exact (hhandles.published hne).2 i event hpc
      cases hclose
      exact hnone
    · rw [hworker]
      exact hunheld.worker
    · intro j hj
      exact hunheld.checkTime j (hback hj (by rintro ⟨⟩))
    · intro j hj
      exact hunheld.wait j (hback hj (by rintro ⟨⟩))
  · intro hnever
    constructor
    · intro code hset
      rw [← hworker] at hset
      exact hnever _ _ (.single (.worker (.setEvent hset))) _ List.mem_cons_self .setEvent
    · intro j hj
      have hj' := hother hj (by rintro ⟨⟩)
      have hwait : (b'.setCaller j (.wait event)).callers j = .wait event :=
        Function.update_self _ _ _
      have hrun := Run.cons (BridgeStep.caller (.timeLeft hj'))
        (.single (BridgeStep.caller (.wait hwait)))
      exact hnever _ _ hrun _ (List.mem_cons_of_mem _ List.mem_cons_self) (.wait j)
    · intro j hj
      have hj' := hother hj (by rintro ⟨⟩)
      exact hnever _ _ (.single (.caller (.wait hj'))) _ List.mem_cons_self (.wait j)

/-- A step that closes a handle only when nobody holds it. -/
def QuietStep (b : Bridge ι S H) (event : BridgeEvent ι S H) (b' : Bridge ι S H) : Prop :=
  BridgeStep b event b' ∧ ∀ i handle, event = .caller i (.closeHandle handle) → Unheld b handle

/-- A quiet run is a run. -/
theorem run_of_quiet {b b' : Bridge ι S H} {events : List (BridgeEvent ι S H)}
    (h : Run QuietStep b events b') : Run BridgeStep b events b' := by
  induction h with
  | nil b => exact .nil b
  | cons hstep _ ih => exact .cons hstep.1 ih

/-- In a quiet run no closed handle is used. -/
theorem safeHandles_of_quiet {events : List (BridgeEvent ι S H)} {b : Bridge ι S H}
    (h : Run QuietStep .prepared events b) : SafeHandles events := by
  rintro before use after event rfl huse hclosed
  obtain ⟨first, i, rest, rfl⟩ := mem_closedHandles hclosed
  rw [List.append_assoc, List.cons_append] at h
  obtain ⟨s₁, s₂, hbefore, ⟨hstep, hquiet⟩, hafter⟩ := h.split
  cases hstep with
  | caller hclose =>
      have hnever := (unheld_iff (run_of_quiet hbefore) hclose).mp (hquiet i event rfl)
      exact hnever _ _ (run_of_quiet hafter) use (by simp) huse

/-- **The handle of the event.** In every interleaving of the worker with any number of callers
it is closed at most once. It is not used behind the close in any run that closes it only when
nobody is between loading and using it; and a close at any other time can be followed by a
use. -/
theorem event_handle_safe {events : List (BridgeEvent ι S H)} {b : Bridge ι S H}
    (h : Run BridgeStep .prepared events b) :
    (closedHandles events).length ≤ 1 ∧
      (Run QuietStep .prepared events b → SafeHandles events) ∧
      ∀ i event b', CallerStep i b (.closeHandle event) b' →
        (Unheld b event ↔ ∀ events' b'', Run BridgeStep b' events' b'' →
          ∀ use ∈ events', ¬ UsesHandle event use) :=
  ⟨(handles_run h).closed, safeHandles_of_quiet, fun _ _ _ hclose => unheld_iff h hclose⟩

end Callers

/-- A run that closes the handle behind its last use. -/
theorem event_handle_safe_early : SafeHandles earlyShutdown := by
  have hcall : ∀ {b b' : Bridge Unit Unit Unit} {event : BridgeEvent Unit Unit Unit},
      BridgeStep b event b' → event.closed = none → QuietStep b event b' := by
    refine fun hstep hclosed => ⟨hstep, ?_⟩
    rintro i handle rfl
    cases hclosed
  have hrun : ∃ b, Run QuietStep .prepared earlyShutdown b := by
    refine ⟨_, .cons (hcall (.caller (.call rfl)) rfl) <|
      .cons (hcall (.caller (.storeStop rfl)) rfl) <|
      .cons (hcall (.worker (.createEvent () rfl)) rfl) <|
      .cons (hcall (.worker (.storeEvent rfl)) rfl) <|
      .cons (hcall (.worker (.checkStop rfl)) rfl) <|
      .cons (hcall (.worker (.storeFinished rfl)) rfl) <|
      .cons (hcall (.worker (.loadEvent rfl rfl)) rfl) <|
      .cons (hcall (.worker (.setEvent rfl)) rfl) <|
      .cons (hcall (.caller (.loadFinished rfl)) rfl) <|
      .cons (hcall (.caller (.exchange rfl rfl)) rfl) <|
      .cons ⟨.caller (.closeHandle rfl), ?_⟩ <|
      .cons (hcall (.caller (.returned rfl)) rfl) <| .nil _⟩
    rintro i handle -
    exact ⟨by rintro code ⟨⟩, by rintro ⟨⟩ ⟨⟩, by rintro ⟨⟩ ⟨⟩⟩
  obtain ⟨b, hrun⟩ := hrun
  exact (event_handle_safe (run_of_quiet hrun)).2.1 hrun

/-- A run in which the handle is closed between the load and the `SetEvent` of the worker. -/
def lateSignal : List (BridgeEvent Unit Unit Unit) :=
  [.caller () .call, .caller () .storeStop, .worker (.createEvent (some ())),
    .worker (.storeEvent ()), .worker (.checkStop true), .worker .storeFinished,
    .worker (.loadEvent (some ())), .caller () (.loadFinished true),
    .caller () (.exchange (some ())), .caller () (.closeHandle ()), .worker (.setEvent ())]

/-- **A closed handle is signaled.** -/
theorem not_safeHandles_lateSignal :
    (∃ b, Run BridgeStep .prepared lateSignal b) ∧ ¬ SafeHandles lateSignal := by
  constructor
  · exact ⟨_, .cons (.caller (.call rfl)) <| .cons (.caller (.storeStop rfl)) <|
      .cons (.worker (.createEvent () rfl)) <| .cons (.worker (.storeEvent rfl)) <|
      .cons (.worker (.checkStop rfl)) <| .cons (.worker (.storeFinished rfl)) <|
      .cons (.worker (.loadEvent rfl rfl)) <| .cons (.caller (.loadFinished rfl)) <|
      .cons (.caller (.exchange rfl rfl)) <| .cons (.caller (.closeHandle rfl)) <|
      .cons (.worker (.setEvent rfl)) <| .nil _⟩
  · intro h
    have hclosed : closedHandles (lateSignal.take 10) = [()] := rfl
    refine h (lateSignal.take 10) _ [] () rfl .setEvent ?_
    rw [hclosed]
    exact List.mem_cons_self

end LispHost
