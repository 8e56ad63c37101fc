import LispHost.LocalReplServer
import Mathlib.Data.List.Induction

/-!
# Loading, Ticking and Unloading the Adapter

The adapter installs its session, its function pointers and its server in `Load`, uses them in
every game tick, and takes them down in `Unload`. A load whose server does not start completes
all the same. The tick checks the session and the function pointers, but it is the server that
holds the pointer to the queue, and `Drain` does not check it.

What `wsm_eval_string` does to a session is left open, as are the answers of the system and of
the runtime library.

## Main definitions

* `Adapter`: the globals that a load, a tick or an unload uses.
* `Adapter.load`, `Adapter.dispatchRunningTick`, `Adapter.unload`: the entry points.
* `Adapter.run`: any number of calls of them.
* `Served`: no tick comes while a loaded adapter has no server.

## Main results

* `installed_step`: what the globals say about the calls since the last unload.
* `run_isSome_iff`: when no tick uses a null pointer.
-/

namespace LispHost

/-- `wsm_eval_string`: the text that it returns, or null, and the session behind it. -/
abbrev EvalString (S : Type) : Type := S → Bytes → Option Bytes × S

/-- The ABI version that the adapter was built for. -/
def kExpectedHostAbiVersion : UInt32 := 1

/-- The feature bits that it cannot do without. -/
def kRequiredHostFeatures : UInt64 := 0b111

/-- What the system and the runtime library answer to `Load`. An export that is missing is
`none` or `false`; `otherExports` are those that no tick uses. -/
structure LoadAnswers (S : Type) where
  module : Bool
  abiVersion : Option UInt32
  featureBits : Option UInt64
  sessionInit : Option (Option S)
  evalString : Option (EvalString S)
  freeString : Bool
  otherExports : Bool
  registerLog : Bool
  registerPlayerPresent : Bool
  registerClass : Bool
  dispatchSource : Option Bytes
  start : StartAnswers

variable {S R : Type}

/-- The checks of `Load`, and what it installs behind them. -/
def LoadAnswers.prepared (answers : LoadAnswers S) : Option (S × EvalString S × Bytes) := do
  unless answers.module do none
  let abiVersion ← answers.abiVersion
  let featureBits ← answers.featureBits
  unless abiVersion = kExpectedHostAbiVersion do none
  unless featureBits &&& kRequiredHostFeatures = kRequiredHostFeatures do none
  let session ← (← answers.sessionInit)
  let evalString ← answers.evalString
  unless answers.freeString && answers.otherExports do none
  unless answers.registerLog && answers.registerPlayerPresent && answers.registerClass do none
  let (result, session) := evalString session (utf8 "(quote ())")
  unless result = some (utf8 "()") do none
  let source ← answers.dispatchSource
  return (session, evalString, source)

/-- The load completes. -/
def LoadAnswers.Completes (answers : LoadAnswers S) : Prop := answers.prepared.isSome = true

/-- The globals of the adapter, and the server. -/
structure Adapter (S R : Type) where
  module : Bool
  session : Option S
  logger : Bool
  evalString : Option (EvalString S)
  freeString : Bool
  dispatchSource : Bytes
  lastDispatchResult : Bytes
  server : Server R

namespace Adapter

/-- The globals before the first load. -/
def new : Adapter S R where
  module := false
  session := none
  logger := false
  evalString := none
  freeString := false
  dispatchSource := []
  lastDispatchResult := []
  server := { impl := .new, requests := .empty }

/-- `Main` for `Load`. A load that fails leaves the dispatch source as it is here. In the code it
is empty behind a failed `LoadDispatchSource` that has read an empty file, as in `Plugin.load`; a
tick of the adapter that is still loaded then dispatches nothing, and uses the same pointers. -/
def load (adapter : Adapter S R) (answers : LoadAnswers S) : Adapter S R × Bool :=
  match answers.prepared with
  | none => ({ adapter with logger := true }, false)
  | some (session, evalString, dispatchSource) =>
      ({ adapter with
          module := true
          session := some session
          logger := true
          evalString := some evalString
          freeString := true
          dispatchSource
          server := (adapter.server.start answers.start).1 }, true)

/-- How a tick evaluates a request. -/
def evaluate (evalString : EvalString S) (source : Bytes) (session : S) : Bytes × S :=
  match evalString session source with
  | (none, session) => (utf8 "error: Lisp evaluation returned null", session)
  | (some text, session) => (text, session)

/-- The fixed dispatch, behind the requests. -/
def dispatch (adapter : Adapter S R) (evalString : EvalString S) (session : S) : Adapter S R :=
  if adapter.dispatchSource = [] then { adapter with session := some session }
  else
    match evalString session adapter.dispatchSource with
    | (none, session) => { adapter with session := some session }
    | (some result, session) =>
        { adapter with session := some session, lastDispatchResult := result }

/-- `DispatchRunningTick`, with the replies that it makes; `none` is the use of a null
pointer. -/
def dispatchRunningTick (adapter : Adapter S R) :
    Option (Adapter S R × List (Request R × Bytes) × Bool) :=
  match adapter.session, adapter.evalString with
  | some session, some evalString =>
      if adapter.freeString && adapter.logger then do
        let (server, replies, session) ← adapter.server.drain (evaluate evalString) session
        return (dispatch { adapter with server } evalString session, replies, false)
      else some (adapter, [], true)
  | _, _ => some (adapter, [], true)

/-- `Main` for `Unload`. -/
def unload (adapter : Adapter S R) : Adapter S R where
  module := false
  session := if adapter.session.isSome && adapter.module then none else adapter.session
  logger := false
  evalString := none
  freeString := false
  dispatchSource := []
  lastDispatchResult := []
  server := adapter.server.stop.1

end Adapter

/-- A call of the adapter, or a request that comes in. -/
inductive AdapterEvent (S R : Type) where
  | load (answers : LoadAnswers S)
  | tick
  | unload
  | request (source : Bytes) (reply : R)

/-- A request that the queue rejects leaves it as it is. -/
def Adapter.step (adapter : Adapter S R) : AdapterEvent S R → Option (Adapter S R)
  | .load answers => some (adapter.load answers).1
  | .tick => adapter.dispatchRunningTick.map Prod.fst
  | .unload => some adapter.unload
  | .request source reply =>
      match adapter.server.requests.push source (some reply) with
      | none => some adapter
      | some requests => some { adapter with server := { adapter.server with requests } }

/-- Any number of calls; `none` is the use of a null pointer. -/
def Adapter.run (adapter : Adapter S R) (events : List (AdapterEvent S R)) :
    Option (Adapter S R) :=
  events.foldlM Adapter.step adapter

/-! ### Calls since the last unload -/

/-- The calls since the last unload, after one more call. -/
def AdapterEvent.since (events : List (AdapterEvent S R)) :
    AdapterEvent S R → List (AdapterEvent S R)
  | unload => []
  | event => events ++ [event]

/-- The calls since the last unload. -/
def sinceUnload (events : List (AdapterEvent S R)) : List (AdapterEvent S R) :=
  events.foldl AdapterEvent.since []

/-- Some load with these answers. -/
def SomeLoad (P : LoadAnswers S → Prop) (events : List (AdapterEvent S R)) : Prop :=
  ∃ answers, AdapterEvent.load answers ∈ events ∧ P answers

/-- Some load has completed. -/
def Loaded (events : List (AdapterEvent S R)) : Prop := SomeLoad LoadAnswers.Completes events

/-- Some load has completed for which all calls of `Start` succeed. -/
def Started (events : List (AdapterEvent S R)) : Prop :=
  SomeLoad (fun answers => answers.Completes ∧ answers.start.Succeeds = true) events

/-- **Served.** Whenever a tick comes and a load has completed since the last unload, the server
has started in one such load. -/
def Served (events : List (AdapterEvent S R)) : Prop :=
  ∀ before after, events = before ++ .tick :: after →
    Loaded (sinceUnload before) → Started (sinceUnload before)

/-- The calls since the last unload, with one more call. -/
theorem sinceUnload_snoc (events : List (AdapterEvent S R)) (event : AdapterEvent S R) :
    sinceUnload (events ++ [event]) = event.since (sinceUnload events) :=
  List.foldl_append

/-- Without calls there is no load. -/
theorem someLoad_nil {P : LoadAnswers S → Prop} :
    ¬SomeLoad P ([] : List (AdapterEvent S R)) := by
  rintro ⟨answers, ⟨⟩, -⟩

/-- A load is among the calls so far, or it is the last one. -/
theorem someLoad_snoc {P : LoadAnswers S → Prop} {events : List (AdapterEvent S R)}
    {event : AdapterEvent S R} :
    SomeLoad P (events ++ [event]) ↔
      SomeLoad P events ∨ ∃ answers, event = .load answers ∧ P answers := by
  constructor
  · rintro ⟨answers, hmem, hanswers⟩
    rcases List.mem_append.mp hmem with hmem | hmem
    · exact .inl ⟨answers, hmem, hanswers⟩
    · exact .inr ⟨answers, (List.mem_singleton.mp hmem).symm, hanswers⟩
  · rintro (⟨answers, hmem, hanswers⟩ | ⟨answers, rfl, hanswers⟩)
    · exact ⟨answers, List.mem_append_left _ hmem, hanswers⟩
    · exact ⟨answers, List.mem_append_right _ List.mem_cons_self, hanswers⟩

/-- A call that is no load adds none. -/
theorem someLoad_snoc_of_ne {P : LoadAnswers S → Prop} {events : List (AdapterEvent S R)}
    {event : AdapterEvent S R} (h : ∀ answers, event ≠ .load answers) :
    SomeLoad P (events ++ [event]) ↔ SomeLoad P events := by
  rw [someLoad_snoc, or_iff_left]
  rintro ⟨answers, heq, -⟩
  exact h answers heq

/-! ### What the globals say -/

/-- The globals after some calls since the last unload. -/
structure Installed (events : List (AdapterEvent S R)) (adapter : Adapter S R) : Prop where
  session : adapter.session.isSome = true ↔ Loaded events
  queue : adapter.server.impl.queue = true ↔ Started events
  running : adapter.server.impl.running = adapter.server.impl.queue
  ready : adapter.session.isSome = true → adapter.module = true ∧
    adapter.evalString.isSome = true ∧ adapter.freeString = true ∧ adapter.logger = true

/-- A module that was just loaded has nothing installed. -/
theorem installed_new : Installed [] (Adapter.new : Adapter S R) where
  session := iff_of_false Bool.false_ne_true someLoad_nil
  queue := iff_of_false Bool.false_ne_true someLoad_nil
  running := rfl
  ready := by rintro ⟨⟩

namespace Installed

variable {events : List (AdapterEvent S R)} {adapter : Adapter S R}

/-- What a load installs. -/
theorem load (h : Installed events adapter) (answers : LoadAnswers S) :
    Installed (events ++ [.load answers]) (adapter.load answers).1 := by
  cases hprepared : answers.prepared with
  | none =>
      have hfails : ∀ answers', AdapterEvent.load answers = (.load answers' : AdapterEvent S R) →
          ¬answers'.Completes := by
        rintro answers' ⟨⟩ hcompletes
        rw [LoadAnswers.Completes, hprepared] at hcompletes
        cases hcompletes
      rw [Adapter.load, hprepared]
      refine ⟨?_, ?_, h.running, fun hsession => ?_⟩
      · rw [Loaded, someLoad_snoc, or_iff_left]
        · exact h.session
        · rintro ⟨answers', heq, hcompletes⟩
          exact hfails answers' heq hcompletes
      · rw [Started, someLoad_snoc, or_iff_left]
        · exact h.queue
        · rintro ⟨answers', heq, hcompletes, -⟩
          exact hfails answers' heq hcompletes
      · obtain ⟨hmodule, heval, hfree, -⟩ := h.ready hsession
        exact ⟨hmodule, heval, hfree, rfl⟩
  | some prepared =>
      obtain ⟨session, evalString, dispatchSource⟩ := prepared
      have hcompletes : answers.Completes := by
        rw [LoadAnswers.Completes, hprepared]
        rfl
      obtain ⟨hrunning, hqueue⟩ := Server.queue_start h.running answers.start
      rw [Adapter.load, hprepared]
      refine ⟨?_, ?_, hrunning, fun _ => ⟨rfl, rfl, rfl, rfl⟩⟩
      · rw [Loaded, someLoad_snoc]
        exact iff_of_true rfl (.inr ⟨answers, rfl, hcompletes⟩)
      · rw [Started, someLoad_snoc, hqueue, h.queue, Started]
        refine or_congr_right ⟨fun hsucceeds => ⟨answers, rfl, hcompletes, hsucceeds⟩, ?_⟩
        rintro ⟨answers', ⟨⟩, -, hsucceeds⟩
        exact hsucceeds

/-- A call that leaves the session, the pointers and the server as they are. -/
theorem congr (h : Installed events adapter) {event : AdapterEvent S R}
    (hevent : ∀ answers, event ≠ .load answers) {adapter' : Adapter S R}
    (hsession : adapter'.session.isSome = adapter.session.isSome)
    (hmodule : adapter'.module = adapter.module)
    (heval : adapter'.evalString = adapter.evalString)
    (hfree : adapter'.freeString = adapter.freeString)
    (hlogger : adapter'.logger = adapter.logger)
    (himpl : adapter'.server.impl = adapter.server.impl) :
    Installed (events ++ [event]) adapter' where
  session := by rw [hsession, Loaded, someLoad_snoc_of_ne hevent]; exact h.session
  queue := by rw [himpl, Started, someLoad_snoc_of_ne hevent]; exact h.queue
  running := by rw [himpl]; exact h.running
  ready := by rw [hsession, hmodule, heval, hfree, hlogger]; exact h.ready

/-- An unload leaves nothing installed. -/
theorem unload (h : Installed events adapter) : Installed [] adapter.unload := by
  have hsession : adapter.unload.session = none := by
    rw [Adapter.unload]
    cases hsession : adapter.session with
    | none => simp
    | some session =>
        obtain ⟨hmodule, -⟩ := h.ready (by rw [hsession]; rfl)
        simp [hmodule]
  have himpl : adapter.unload.server.impl = adapter.server.impl.stop := Server.impl_stop _
  refine ⟨?_, ?_, ?_, ?_⟩
  · rw [hsession]
    exact iff_of_false Bool.false_ne_true someLoad_nil
  · rw [himpl]
    exact iff_of_false Bool.false_ne_true someLoad_nil
  · rw [himpl]
    rfl
  · rw [hsession]
    rintro ⟨⟩

/-- A request changes nothing that is installed. -/
theorem request (h : Installed events adapter) (source : Bytes) (reply : R) {adapter' : Adapter S R}
    (hstep : adapter.step (.request source reply) = some adapter') :
    Installed (events ++ [.request source reply]) adapter' := by
  have hevent : ∀ answers, AdapterEvent.request source reply ≠
      (.load answers : AdapterEvent S R) := by
    rintro answers ⟨⟩
  rw [Adapter.step] at hstep
  cases hpush : adapter.server.requests.push source (some reply) with
  | none =>
      rw [hpush] at hstep
      cases hstep
      exact h.congr hevent rfl rfl rfl rfl rfl rfl
  | some requests =>
      rw [hpush] at hstep
      cases hstep
      exact h.congr hevent rfl rfl rfl rfl rfl rfl

end Installed

/-- The fixed dispatch leaves all but the session and the last result as it is. -/
theorem Adapter.dispatch_frame (adapter : Adapter S R) (evalString : EvalString S) (session : S) :
    (adapter.dispatch evalString session).session.isSome = true ∧
      (adapter.dispatch evalString session).module = adapter.module ∧
      (adapter.dispatch evalString session).evalString = adapter.evalString ∧
      (adapter.dispatch evalString session).freeString = adapter.freeString ∧
      (adapter.dispatch evalString session).logger = adapter.logger ∧
      (adapter.dispatch evalString session).server = adapter.server := by
  rw [dispatch]
  by_cases hempty : adapter.dispatchSource = []
  · rw [if_pos hempty]
    exact ⟨rfl, rfl, rfl, rfl, rfl, rfl⟩
  · rw [if_neg hempty]
    obtain ⟨result, session'⟩ := evalString session adapter.dispatchSource
    cases result <;> exact ⟨rfl, rfl, rfl, rfl, rfl, rfl⟩

/-- A tick of a loaded adapter drains the queue. -/
theorem Adapter.dispatchRunningTick_of_ready {adapter : Adapter S R} {session : S}
    {evalString : EvalString S} (hsession : adapter.session = some session)
    (heval : adapter.evalString = some evalString) (hfree : adapter.freeString = true)
    (hlogger : adapter.logger = true) :
    adapter.dispatchRunningTick =
      (adapter.server.drain (evaluate evalString) session).map fun drained =>
        (dispatch { adapter with server := drained.1 } evalString drained.2.2,
          drained.2.1, false) := by
  obtain ⟨module, _, _, _, _, source, last, server⟩ := adapter
  cases hsession
  cases heval
  cases hfree
  cases hlogger
  simp only [dispatchRunningTick]
  cases server.drain (evaluate evalString) session <;> rfl

/-- A tick without a session does nothing. -/
theorem Adapter.dispatchRunningTick_of_none {adapter : Adapter S R}
    (hsession : adapter.session = none) :
    adapter.dispatchRunningTick = some (adapter, [], true) := by
  obtain ⟨module, _, logger, evalString, free, source, last, server⟩ := adapter
  cases hsession
  cases evalString <;> rfl

/-- **When a tick uses a null pointer**: the adapter is loaded, and its server is not started. -/
theorem Installed.tick_eq_none_iff {events : List (AdapterEvent S R)} {adapter : Adapter S R}
    (h : Installed events adapter) :
    adapter.step .tick = none ↔ Loaded events ∧ ¬Started events := by
  rw [← h.session, ← h.queue, Adapter.step, Option.map_eq_none_iff]
  cases hsession : adapter.session with
  | none =>
      rw [Adapter.dispatchRunningTick_of_none hsession]
      simp
  | some session =>
      obtain ⟨-, heval, hfree, hlogger⟩ := h.ready (by rw [hsession]; rfl)
      obtain ⟨evalString, heval⟩ := Option.isSome_iff_exists.mp heval
      rw [Adapter.dispatchRunningTick_of_ready hsession heval hfree hlogger,
        Option.map_eq_none_iff, Server.drain_eq_none_iff, Bool.not_eq_true]
      exact (and_iff_right rfl).symm

/-- A tick changes nothing that is installed. -/
theorem Installed.tick {events : List (AdapterEvent S R)} {adapter adapter' : Adapter S R}
    (h : Installed events adapter) (hstep : adapter.step .tick = some adapter') :
    Installed (events ++ [.tick]) adapter' := by
  have hevent : ∀ answers, AdapterEvent.tick ≠ (.load answers : AdapterEvent S R) := by
    rintro answers ⟨⟩
  rw [Adapter.step] at hstep
  cases hsession : adapter.session with
  | none =>
      rw [Adapter.dispatchRunningTick_of_none hsession] at hstep
      cases hstep
      exact h.congr hevent rfl rfl rfl rfl rfl rfl
  | some session =>
      obtain ⟨-, heval, hfree, hlogger⟩ := h.ready (by rw [hsession]; rfl)
      obtain ⟨evalString, heval⟩ := Option.isSome_iff_exists.mp heval
      rw [Adapter.dispatchRunningTick_of_ready hsession heval hfree hlogger, Option.map_map,
        Option.map_eq_some_iff] at hstep
      obtain ⟨⟨server, replies, session'⟩, hdrain, rfl⟩ := hstep
      obtain ⟨hsome, hmodule, heval', hfree', hlogger', hserver⟩ :=
        Adapter.dispatch_frame { adapter with server } evalString session'
      refine h.congr hevent ?_ hmodule heval' hfree' hlogger' ?_
      · rw [hsession]
        exact hsome
      · exact (congrArg Server.impl hserver).trans (Server.impl_drain hdrain)

/-- **What the globals say** about the calls since the last unload, kept by every call. -/
theorem installed_step {events : List (AdapterEvent S R)} {adapter adapter' : Adapter S R}
    {event : AdapterEvent S R} (h : Installed events adapter)
    (hstep : adapter.step event = some adapter') : Installed (event.since events) adapter' := by
  cases event with
  | load answers =>
      cases hstep
      exact h.load answers
  | tick => exact h.tick hstep
  | unload =>
      cases hstep
      exact h.unload
  | request source reply => exact h.request source reply hstep

/-! ### Runs -/

/-- A run with one more call. -/
theorem Adapter.run_snoc (adapter : Adapter S R) (events : List (AdapterEvent S R))
    (event : AdapterEvent S R) :
    adapter.run (events ++ [event]) = (adapter.run events).bind fun adapter =>
      adapter.step event := by
  rw [run, List.foldlM_append]
  cases h : events.foldlM step adapter <;> simp [run, h]

/-- **What is installed depends on the calls since the last unload only.** -/
theorem installed_run {events : List (AdapterEvent S R)} {adapter : Adapter S R}
    (h : Adapter.new.run events = some adapter) : Installed (sinceUnload events) adapter := by
  induction events using List.reverseRecOn generalizing adapter with
  | nil =>
      cases h
      exact installed_new
  | append_singleton events event ih =>
      rw [Adapter.run_snoc, Option.bind_eq_some_iff] at h
      obtain ⟨adapter', hrun, hstep⟩ := h
      rw [sinceUnload_snoc]
      exact installed_step (ih hrun) hstep

/-- Without ticks everything is served. -/
theorem served_nil : Served ([] : List (AdapterEvent S R)) := by
  intro before after h
  cases before <;> cases h

/-- One more call is served if it is no tick, or the server has started. -/
theorem served_snoc {events : List (AdapterEvent S R)} {event : AdapterEvent S R} :
    Served (events ++ [event]) ↔ Served events ∧
      (event = .tick → Loaded (sinceUnload events) → Started (sinceUnload events)) := by
  constructor
  · intro h
    constructor
    · rintro before after rfl
      exact h before (after ++ [event]) (by simp)
    · rintro rfl
      exact h events [] rfl
  · rintro ⟨h, hlast⟩ before after heq
    rcases after.eq_nil_or_concat' with rfl | ⟨after', last, rfl⟩
    · obtain ⟨rfl, hevent⟩ := List.append_inj' heq rfl
      exact hlast (List.singleton_inj.mp hevent)
    · rw [← List.cons_append, ← List.append_assoc] at heq
      obtain ⟨rfl, -⟩ := List.append_inj' heq rfl
      exact h before after' rfl

/-- **When no tick uses a null pointer.** -/
theorem run_isSome_iff (events : List (AdapterEvent S R)) :
    ((Adapter.new : Adapter S R).run events).isSome = true ↔ Served events := by
  induction events using List.reverseRecOn with
  | nil => exact iff_of_true rfl served_nil
  | append_singleton events event ih =>
      rw [served_snoc, ← ih, Adapter.run_snoc]
      cases hrun : (Adapter.new : Adapter S R).run events with
      | none => simp
      | some adapter =>
          have htick := (installed_run hrun).tick_eq_none_iff
          rw [Option.bind_some, Option.isSome_some, and_iff_right rfl]
          cases event with
          | tick =>
              rw [Option.isSome_iff_ne_none, Ne, htick, not_and, not_not]
              exact ⟨fun h _ => h, fun h => h rfl⟩
          | request source reply =>
              refine iff_of_true ?_ (by rintro ⟨⟩)
              rw [Adapter.step]
              cases adapter.server.requests.push source (some reply) <;> rfl
          | _ => exact iff_of_true rfl (by rintro ⟨⟩)

/-- A load that completes although the port of the server is taken. -/
def portTaken : LoadAnswers Unit where
  module := true
  abiVersion := some 1
  featureBits := some 0b111
  sessionInit := some (some ())
  evalString := some fun session _ => (some (utf8 "()"), session)
  freeString := true
  otherExports := true
  registerLog := true
  registerPlayerPresent := true
  registerClass := true
  dispatchSource := some [40, 41]
  start := { wsaStartup := true, socket := true, bind := false, listen := true }

/-- The first tick behind such a load uses the null pointer. -/
theorem run_portTaken :
    ((Adapter.new : Adapter Unit Unit).run [.load portTaken, .tick]).isSome = false := by
  have hcompletes : portTaken.Completes := by
    simp [LoadAnswers.Completes, LoadAnswers.prepared, portTaken, kExpectedHostAbiVersion,
      kRequiredHostFeatures]
  have hloaded : Loaded [(.load portTaken : AdapterEvent Unit Unit)] :=
    ⟨portTaken, List.mem_singleton_self _, hcompletes⟩
  have hstarted : ¬Started [(.load portTaken : AdapterEvent Unit Unit)] := by
    rintro ⟨answers, hmem, -, hsucceeds⟩
    cases List.mem_singleton.mp hmem
    cases hsucceeds
  have htick := (installed_new.load portTaken).tick_eq_none_iff.mpr ⟨hloaded, hstarted⟩
  change ((Adapter.new : Adapter Unit Unit).run ([.load portTaken] ++ [.tick])).isSome = false
  rw [Adapter.run_snoc]
  exact congrArg Option.isSome htick

end LispHost
