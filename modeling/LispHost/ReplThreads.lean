import LispHost.Lib.Transition
import LispHost.LocalReplServer
import Mathlib.Logic.Function.Basic

/-!
# The Threads around the Queue

The socket worker pushes the requests of its client one at a time and waits for each reply. Other
producers push what they like. The owner of the server drains the queue, evaluating one request
after the other, and starts and stops the server. Every access to what the threads share is one
step: a critical section of the queue, a read or a write of `running`, a reply.

The reply of a request of the worker sets a promise that was made for it; setting a promise twice
throws. What the replies of other producers do is left open, as are the sources, the results of
the evaluation, and when a wait times out.

## Main definitions

* `Callback`, `WorkerState`, `OwnerState`, `Repl`: the state.
* `WorkerMove`: `ServeClient` and `Run`.
* `OwnerMove`: `Drain`, `Start` and `Stop`.
* `ReplStep`: one step of one thread.
-/

namespace LispHost

open Effects

/-- A reply callback: it sets a promise of the worker, or it is one of another producer. -/
inductive Callback (R : Type) where
  | promise (n : Nat)
  | other (reply : R)
deriving DecidableEq, Repr

/-- The promise that a callback sets. -/
def Callback.promise? {R : Type} : Callback R → Option Nat
  | promise n => some n
  | other _ => none

/-- Where the worker is, by what it does next; `looping` is the loop of `Run`. -/
inductive WorkerState where
  | absent
  | serving
  | waiting (promise : Nat)
  | polling (promise : Nat)
  | checking (promise : Nat)
  | getting (promise : Nat)
  | looping
  | finished
deriving DecidableEq, Repr

/-- Where the owner is: outside of the server, in `Drain`, in `Stop`, or thrown out of a
reply. -/
inductive OwnerState (R : Type) where
  | idle
  | pop
  | evaluate (request : Request (Callback R))
  | reply (request : Request (Callback R)) (result : Bytes)
  | halt
  | join
  | cancel
  | cancelling (requests : List (Request (Callback R)))
  | release
  | threw

/-- The state of the server, the queue and the threads. -/
structure Repl (R : Type) where
  impl : Impl
  requests : RequestQueue (Callback R)
  worker : WorkerState
  owner : OwnerState R
  promises : Nat → Option Bytes
  nextPromise : Nat

/-- A server that has never been started, and its queue. -/
def Repl.initial {R : Type} : Repl R where
  impl := .new
  requests := .empty
  worker := .absent
  owner := .idle
  promises := fun _ => none
  nextPromise := 0

/-- `"error: REPL session ended"`. -/
def sessionEnded : Bytes := "error: REPL session ended".toUTF8.toList

/-- Who pushes: the worker or somebody else. -/
inductive Producer where
  | worker
  | other
deriving DecidableEq, Repr

/-- What a step of one of the threads shows. -/
inductive ReplEvent (R : Type) where
  | accepted (producer : Producer) (request : Request (Callback R))
  | rejected (producer : Producer)
  | internal
  | sent (result : Bytes)
  | popped (request : Request (Callback R))
  | drained
  | evaluated (request : Request (Callback R)) (result : Bytes)
  | replied (request : Request (Callback R)) (result : Bytes)
  | swapped (requests : List (Request (Callback R)))
  | cancelled
  | started (succeeded : Bool)
  | stopped
  | threw

variable {R : Type}

/-- Calling a reply callback; `none` is an exception. -/
def Callback.invoke (promises : Nat → Option Bytes) (result : Bytes) :
    Callback R → Option (Nat → Option Bytes)
  | promise n =>
      match promises n with
      | none => some (Function.update promises n (some result))
      | some _ => none
  | other _ => some promises

/-- `ServeClient` on the requests of its clients, and `Run` around it. A client may leave, and
`accept` may fail, at any time. -/
inductive WorkerMove : Repl R → ReplEvent R → Repl R → Prop where
  | accepted {r : Repl R} {source : Bytes} {requests : RequestQueue (Callback R)} :
      r.worker = .serving →
      r.requests.push source (some (.promise r.nextPromise)) = some requests →
      WorkerMove r (.accepted .worker ⟨source, .promise r.nextPromise⟩)
        { r with
          requests
          worker := .waiting r.nextPromise
          nextPromise := r.nextPromise + 1 }
  | rejected {r : Repl R} {source : Bytes} : r.worker = .serving →
      r.requests.push source (some (.promise r.nextPromise)) = none →
      WorkerMove r (.rejected .worker) { r with nextPromise := r.nextPromise + 1 }
  | checkRunning {r : Repl R} {n : Nat} : r.worker = .waiting n →
      WorkerMove r .internal
        { r with worker := if r.impl.running then .polling n else .checking n }
  | timedOut {r : Repl R} {n : Nat} : r.worker = .polling n →
      WorkerMove r .internal { r with worker := .waiting n }
  | ready {r : Repl R} {n : Nat} {result : Bytes} : r.worker = .polling n →
      r.promises n = some result → WorkerMove r .internal { r with worker := .checking n }
  | checkStopped {r : Repl R} {n : Nat} : r.worker = .checking n →
      WorkerMove r .internal
        { r with worker := if r.impl.running then .getting n else .looping }
  | sent {r : Repl R} {n : Nat} {result : Bytes} : r.worker = .getting n →
      r.promises n = some result → WorkerMove r (.sent result) { r with worker := .serving }
  | clientLeft {r : Repl R} : r.worker = .serving →
      WorkerMove r .internal { r with worker := .looping }
  | acceptFailed {r : Repl R} : r.worker = .serving →
      WorkerMove r .internal { r with worker := .finished }
  | checkLoop {r : Repl R} : r.worker = .looping →
      WorkerMove r .internal
        { r with worker := if r.impl.running then .serving else .finished }

/-- Another producer, which may push anything at any time. -/
inductive ProducerMove : Repl R → ReplEvent R → Repl R → Prop where
  | accepted {r : Repl R} {source : Bytes} {reply : R} {requests : RequestQueue (Callback R)} :
      r.requests.push source (some (.other reply)) = some requests →
      ProducerMove r (.accepted .other ⟨source, .other reply⟩) { r with requests }
  | rejected {r : Repl R} {source : Bytes} {reply : Option R} :
      r.requests.push source (reply.map .other) = none →
      ProducerMove r (.rejected .other) r

/-- `Drain`, `Start` and `Stop`. Draining uses the pointer to the queue, so it needs one. -/
inductive OwnerMove : Repl R → ReplEvent R → Repl R → Prop where
  | drain {r : Repl R} : r.owner = .idle → r.impl.queue = true →
      OwnerMove r .internal { r with owner := .pop }
  | popped {r : Repl R} {request : Request (Callback R)} {requests : RequestQueue (Callback R)} :
      r.owner = .pop → r.requests.pop = some (request, requests) →
      OwnerMove r (.popped request) { r with requests, owner := .evaluate request }
  | drained {r : Repl R} : r.owner = .pop → r.requests.pop = none →
      OwnerMove r .drained { r with owner := .idle }
  | evaluated {r : Repl R} {request : Request (Callback R)} (result : Bytes) :
      r.owner = .evaluate request →
      OwnerMove r (.evaluated request result) { r with owner := .reply request result }
  | replied {r : Repl R} {request : Request (Callback R)} {result : Bytes}
      {promises : Nat → Option Bytes} : r.owner = .reply request result →
      request.reply.invoke r.promises result = some promises →
      OwnerMove r (.replied request result) { r with promises, owner := .pop }
  | replyThrew {r : Repl R} {request : Request (Callback R)} {result : Bytes} :
      r.owner = .reply request result → request.reply.invoke r.promises result = none →
      OwnerMove r .threw { r with owner := .threw }
  | startAlready {r : Repl R} {answers : StartAnswers} : r.owner = .idle →
      r.impl.start answers = .already → OwnerMove r (.started true) r
  | startFailed {r : Repl R} {answers : StartAnswers} : r.owner = .idle →
      r.impl.start answers = .failed → OwnerMove r (.started false) r
  | startStopped {r : Repl R} {answers : StartAnswers} {impl : Impl} : r.owner = .idle →
      r.impl.start answers = .stopped impl →
      OwnerMove r (.started false) { r with impl, owner := .halt }
  | started {r : Repl R} {answers : StartAnswers} {impl : Impl} : r.owner = .idle →
      r.impl.start answers = .started impl →
      OwnerMove r (.started true) { r with impl, worker := .looping }
  | stop {r : Repl R} : r.owner = .idle → OwnerMove r .internal { r with owner := .halt }
  | halt {r : Repl R} : r.owner = .halt →
      OwnerMove r .internal { r with impl := r.impl.halt, owner := .join }
  | join {r : Repl R} : r.owner = .join → r.worker = .absent ∨ r.worker = .finished →
      OwnerMove r .internal
        { r with impl := r.impl.join, worker := .absent, owner := .cancel }
  | swapped {r : Repl R} : r.owner = .cancel → r.impl.queue = true →
      OwnerMove r (.swapped r.requests.cancelAll.1)
        { r with requests := r.requests.cancelAll.2
                 owner := .cancelling r.requests.cancelAll.1 }
  | noQueue {r : Repl R} : r.owner = .cancel → r.impl.queue = false →
      OwnerMove r .internal { r with owner := .release }
  | cancelReplied {r : Repl R} {request : Request (Callback R)}
      {rest : List (Request (Callback R))} {promises : Nat → Option Bytes} :
      r.owner = .cancelling (request :: rest) →
      request.reply.invoke r.promises sessionEnded = some promises →
      OwnerMove r (.replied request sessionEnded) { r with promises, owner := .cancelling rest }
  | cancelThrew {r : Repl R} {request : Request (Callback R)}
      {rest : List (Request (Callback R))} : r.owner = .cancelling (request :: rest) →
      request.reply.invoke r.promises sessionEnded = none →
      OwnerMove r .threw { r with owner := .threw }
  | cancelled {r : Repl R} : r.owner = .cancelling [] →
      OwnerMove r .cancelled { r with owner := .release }
  | stopped {r : Repl R} : r.owner = .release →
      OwnerMove r .stopped { r with impl := r.impl.release, owner := .idle }

/-- One step of one thread. -/
inductive ReplStep (r : Repl R) (event : ReplEvent R) (r' : Repl R) : Prop where
  | worker : WorkerMove r event r' → ReplStep r event r'
  | producer : ProducerMove r event r' → ReplStep r event r'
  | owner : OwnerMove r event r' → ReplStep r event r'

end LispHost
