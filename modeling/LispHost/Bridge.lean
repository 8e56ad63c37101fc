import LispHost.Lib.Transition
import Mathlib.Logic.Function.Basic

/-!
# The Bridge and Its Shutdown

The bridge runs the canonical interpreter on a thread of its own: `RunCanonicalRepl` publishes
an event, starts the host and the socket server, serves requests until a stop is requested, and
takes everything down again. Other threads request the stop and wait for its completion in
`ShutdownCanonicalRepl`. The two sides share three atomics, which `PrepareCanonicalRepl` sets
before the worker exists: `g_stopRequested`, `g_finished` and `g_stoppedEvent`.

Every access to an atomic and every call of the system or of the interpreter is one step. What
the system and the interpreter answer, and how long the callers wait, is left open. Waiting on a
handle that has been closed may end in any way.

## Main definitions

* `WorkerPC`, `CallerPC`, `Bridge`: the state.
* `WorkerStep`: `RunCanonicalRepl` with `CanonicalReplHost` and `SignalFinished`.
* `CallerStep`: `ShutdownCanonicalRepl`.
* `BridgeStep`: one step of one side.
-/

namespace LispHost

open Effects

/-- Where the worker is, by the operation that it does next. -/
inductive WorkerPC (H : Type) where
  | createEvent
  | noEvent
  | storeEvent (event : H)
  | checkStop
  | abiVersion
  | sessionNew
  | record
  | serverStart
  | checkLoop
  | drain
  | serverStop
  | serverJoin
  | hostStop (code : Nat)
  | storeFinished (code : Nat)
  | loadEvent (code : Nat)
  | setEvent (code : Nat) (event : H)
  | destroyServer (code : Nat)
  | destroyHost (code : Nat)
  | exited (code : Nat)

/-- Where a caller is: outside of `ShutdownCanonicalRepl`, or in front of an operation. -/
inductive CallerPC (H : Type) where
  | idle
  | storeStop
  | loadFinished
  | loadEvent
  | checkTime (event : Option H)
  | wait (event : H)
  | waiting (event : H)
  | exchange
  | close (event : H)
  | returning (result : Bool)

/-- The thread of the socket server. -/
inductive SocketWorker where
  | absent
  | running
  | joined
deriving DecidableEq, Repr

/-- The state of the bridge: the atomics, the event object, and where the worker and the
callers are. -/
structure Bridge (ι S H : Type) where
  stopRequested : Bool
  finished : Bool
  stoppedEvent : Option H
  signaled : Bool
  closed : Bool
  worker : WorkerPC H
  session : Option S
  socket : SocketWorker
  callers : ι → CallerPC H

/-- The state behind `PrepareCanonicalRepl`, when the worker is created. -/
def Bridge.prepared {ι S H : Type} : Bridge ι S H where
  stopRequested := false
  finished := false
  stoppedEvent := none
  signaled := false
  closed := false
  worker := .createEvent
  session := none
  socket := .absent
  callers := fun _ => .idle

/-- The operations of the worker, with what they return. -/
inductive WorkerEvent (S H : Type) where
  | createEvent (result : Option H)
  | storeEvent (event : H)
  | checkStop (seen : Bool)
  | abiVersion (accepted : Bool)
  | sessionNew (result : Option S)
  | record (written : Bool)
  | serverStart (started : Bool)
  | checkLoop (seen : Bool)
  | evaluate (session : Option S)
  | drained
  | serverStop
  | serverJoin
  | hostStop (session : Option S)
  | storeFinished
  | loadEvent (event : Option H)
  | setEvent (event : H)
  | destroyServer

/-- The operations of a caller, with what they return. -/
inductive CallerEvent (H : Type) where
  | call
  | storeStop
  | loadFinished (seen : Bool)
  | loadEvent (event : Option H)
  | timedOut
  | timeLeft
  | wait (event : H)
  | waited (signaled : Bool)
  | exchange (event : Option H)
  | closeHandle (event : H)
  | returned (result : Bool)

/-- An operation of the worker, or of one of the callers. -/
inductive BridgeEvent (ι S H : Type) where
  | worker (event : WorkerEvent S H)
  | caller (i : ι) (event : CallerEvent H)

variable {ι S H : Type}

/-- `RunCanonicalRepl`. The session of `CanonicalReplHost` is the bridge's `session`; `Stop`
frees it if there is one. The destructors of the server and the host run behind
`SignalFinished`; on the early exits they have nothing to take down. -/
inductive WorkerStep : Bridge ι S H → WorkerEvent S H → Bridge ι S H → Prop where
  | createEvent {b : Bridge ι S H} (event : H) : b.worker = .createEvent →
      WorkerStep b (.createEvent (some event)) { b with worker := .storeEvent event }
  | createEventFails {b : Bridge ι S H} : b.worker = .createEvent →
      WorkerStep b (.createEvent none) { b with worker := .noEvent }
  | finishWithoutEvent {b : Bridge ι S H} : b.worker = .noEvent →
      WorkerStep b .storeFinished { b with finished := true, worker := .exited 20 }
  | storeEvent {b : Bridge ι S H} {event : H} : b.worker = .storeEvent event →
      WorkerStep b (.storeEvent event)
        { b with stoppedEvent := some event, worker := .checkStop }
  | checkStop {b : Bridge ι S H} : b.worker = .checkStop →
      WorkerStep b (.checkStop b.stopRequested)
        { b with worker := if b.stopRequested then .storeFinished 0 else .abiVersion }
  | abiVersion {b : Bridge ι S H} (accepted : Bool) : b.worker = .abiVersion →
      WorkerStep b (.abiVersion accepted)
        { b with worker := if accepted then .sessionNew else .storeFinished 21 }
  | sessionNew {b : Bridge ι S H} (session : S) : b.worker = .sessionNew →
      WorkerStep b (.sessionNew (some session))
        { b with session := some session, worker := .record }
  | sessionNewFails {b : Bridge ι S H} : b.worker = .sessionNew →
      WorkerStep b (.sessionNew none) { b with session := none, worker := .storeFinished 21 }
  | record {b : Bridge ι S H} (written : Bool) : b.worker = .record →
      WorkerStep b (.record written)
        { b with worker := if written then .serverStart else .hostStop 23 }
  | serverStart {b : Bridge ι S H} : b.worker = .serverStart →
      WorkerStep b (.serverStart true) { b with socket := .running, worker := .checkLoop }
  | serverStartFails {b : Bridge ι S H} : b.worker = .serverStart →
      WorkerStep b (.serverStart false) { b with worker := .hostStop 22 }
  | checkLoop {b : Bridge ι S H} : b.worker = .checkLoop →
      WorkerStep b (.checkLoop b.stopRequested)
        { b with worker := if b.stopRequested then .serverStop else .drain }
  | evaluate {b : Bridge ι S H} : b.worker = .drain → WorkerStep b (.evaluate b.session) b
  | drained {b : Bridge ι S H} : b.worker = .drain →
      WorkerStep b .drained { b with worker := .checkLoop }
  | serverStop {b : Bridge ι S H} : b.worker = .serverStop →
      WorkerStep b .serverStop { b with worker := .serverJoin }
  | serverJoin {b : Bridge ι S H} : b.worker = .serverJoin →
      WorkerStep b .serverJoin { b with socket := .joined, worker := .hostStop 0 }
  | hostStop {b : Bridge ι S H} {code : Nat} : b.worker = .hostStop code →
      WorkerStep b (.hostStop b.session)
        { b with session := none, worker := .storeFinished code }
  | storeFinished {b : Bridge ι S H} {code : Nat} : b.worker = .storeFinished code →
      WorkerStep b .storeFinished { b with finished := true, worker := .loadEvent code }
  | loadNoEvent {b : Bridge ι S H} {code : Nat} : b.worker = .loadEvent code →
      b.stoppedEvent = none →
      WorkerStep b (.loadEvent none) { b with worker := .destroyServer code }
  | loadEvent {b : Bridge ι S H} {code : Nat} {event : H} : b.worker = .loadEvent code →
      b.stoppedEvent = some event →
      WorkerStep b (.loadEvent (some event)) { b with worker := .setEvent code event }
  | setEvent {b : Bridge ι S H} {code : Nat} {event : H} : b.worker = .setEvent code event →
      WorkerStep b (.setEvent event)
        { b with signaled := true, worker := .destroyServer code }
  | destroyServer {b : Bridge ι S H} {code : Nat} : b.worker = .destroyServer code →
      WorkerStep b .destroyServer
        { b with
          socket := if b.socket = .running then .joined else b.socket
          worker := .destroyHost code }
  | destroyHost {b : Bridge ι S H} {code : Nat} : b.worker = .destroyHost code →
      WorkerStep b (.hostStop b.session) { b with session := none, worker := .exited code }

variable [DecidableEq ι]

/-- The bridge with one caller at another place. -/
def Bridge.setCaller (b : Bridge ι S H) (i : ι) (pc : CallerPC H) : Bridge ι S H :=
  { b with callers := Function.update b.callers i pc }

/-- `ShutdownCanonicalRepl`, called by `i` any number of times. -/
inductive CallerStep (i : ι) : Bridge ι S H → CallerEvent H → Bridge ι S H → Prop where
  | call {b : Bridge ι S H} : b.callers i = .idle →
      CallerStep i b .call (b.setCaller i .storeStop)
  | storeStop {b : Bridge ι S H} : b.callers i = .storeStop →
      CallerStep i b .storeStop { b.setCaller i .loadFinished with stopRequested := true }
  | loadFinished {b : Bridge ι S H} : b.callers i = .loadFinished →
      CallerStep i b (.loadFinished b.finished)
        (b.setCaller i (if b.finished then .exchange else .loadEvent))
  | loadEvent {b : Bridge ι S H} : b.callers i = .loadEvent →
      CallerStep i b (.loadEvent b.stoppedEvent) (b.setCaller i (.checkTime b.stoppedEvent))
  | timedOut {b : Bridge ι S H} {event : Option H} : b.callers i = .checkTime event →
      CallerStep i b .timedOut (b.setCaller i (.returning false))
  | sleep {b : Bridge ι S H} : b.callers i = .checkTime none →
      CallerStep i b .timeLeft (b.setCaller i .loadFinished)
  | timeLeft {b : Bridge ι S H} {event : H} : b.callers i = .checkTime (some event) →
      CallerStep i b .timeLeft (b.setCaller i (.wait event))
  | wait {b : Bridge ι S H} {event : H} : b.callers i = .wait event →
      CallerStep i b (.wait event) (b.setCaller i (.waiting event))
  | waited {b : Bridge ι S H} {event : H} : b.callers i = .waiting event →
      b.signaled = true ∨ b.closed = true →
      CallerStep i b (.waited true) (b.setCaller i .exchange)
  | notWaited {b : Bridge ι S H} {event : H} : b.callers i = .waiting event →
      CallerStep i b (.waited false) (b.setCaller i (.returning false))
  | exchange {b : Bridge ι S H} {event : H} : b.callers i = .exchange →
      b.stoppedEvent = some event →
      CallerStep i b (.exchange (some event))
        { b.setCaller i (.close event) with stoppedEvent := none }
  | exchangeNone {b : Bridge ι S H} : b.callers i = .exchange → b.stoppedEvent = none →
      CallerStep i b (.exchange none) (b.setCaller i (.returning true))
  | closeHandle {b : Bridge ι S H} {event : H} : b.callers i = .close event →
      CallerStep i b (.closeHandle event)
        { b.setCaller i (.returning true) with closed := true }
  | returned {b : Bridge ι S H} {result : Bool} : b.callers i = .returning result →
      CallerStep i b (.returned result) (b.setCaller i .idle)

/-- One step of the worker or of a caller. -/
inductive BridgeStep : Bridge ι S H → BridgeEvent ι S H → Bridge ι S H → Prop where
  | worker {b b' : Bridge ι S H} {event : WorkerEvent S H} :
      WorkerStep b event b' → BridgeStep b (.worker event) b'
  | caller {b b' : Bridge ι S H} {i : ι} {event : CallerEvent H} :
      CallerStep i b event b' → BridgeStep b (.caller i event) b'

end LispHost
