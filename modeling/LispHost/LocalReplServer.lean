import LispHost.LocalReplQueue

/-!
# The Local REPL Server

The owner of a `LocalReplServer` starts it on a queue, drains the queue from its own thread, and
stops it. `Start` stores the pointer to the queue behind its last check; where it fails, and in
`Stop`, the pointer is null. `Drain` uses it as it is.

There is one queue, so a pointer to it is a flag. The handles of the system and the worker thread
are flags as well. The evaluator that `Drain` calls has a state of its own, of type `S`.

## Main definitions

* `Impl`: what `LocalReplServer::Impl` holds.
* `Impl.start`, `Impl.stop`: the life of the server.
* `Server`, `Server.start`, `Server.stop`, `Server.drain`: the same with the queue.
-/

namespace LispHost

/-- What Winsock answers to `Start`. -/
structure StartAnswers where
  wsaStartup : Bool
  socket : Bool
  bind : Bool
  listen : Bool
deriving DecidableEq, Repr

/-- All calls succeed. -/
def StartAnswers.Succeeds (answers : StartAnswers) : Bool :=
  answers.wsaStartup && answers.socket && answers.bind && answers.listen

/-- `LocalReplServer::Impl`; `worker` says that the thread is joinable. -/
structure Impl where
  queue : Bool
  listener : Bool
  running : Bool
  worker : Bool
  winsockReady : Bool
deriving DecidableEq, Repr

namespace Impl

/-- The members before the first `Start`. -/
def new : Impl where
  queue := false
  listener := false
  running := false
  worker := false
  winsockReady := false

/-- `Stop` up to the `join`. -/
def halt (impl : Impl) : Impl := { impl with running := false, listener := false }

/-- The thread has ended. -/
def join (impl : Impl) : Impl := { impl with worker := false }

/-- `Stop` behind `CancelAll`. -/
def release (impl : Impl) : Impl := { impl with queue := false, winsockReady := false }

/-- All of `Stop` that touches these members. -/
def stop (impl : Impl) : Impl := impl.halt.join.release

/-- How `Start` goes: the server runs already, or it fails before it has anything to take down,
or it fails and stops what it has, or it succeeds. -/
inductive StartResult where
  | already
  | failed
  | stopped (impl : Impl)
  | started (impl : Impl)
deriving DecidableEq, Repr

/-- `Start` up to the answers of Winsock. -/
def start (impl : Impl) (answers : StartAnswers) : StartResult :=
  if impl.running then .already
  else if !answers.wsaStartup then .failed
  else if !answers.socket then .stopped { impl with winsockReady := true, listener := false }
  else if !answers.bind || !answers.listen then
    .stopped { impl with winsockReady := true, listener := true }
  else
    .started { queue := true, listener := true, running := true, worker := true,
               winsockReady := true }

/-- **How `Start` goes.** -/
theorem start_cases (impl : Impl) (answers : StartAnswers) :
    (impl.running = true ∧ impl.start answers = .already) ∨
      (impl.running = false ∧ answers.Succeeds = false ∧
        (impl.start answers = .failed ∨ ∃ listener,
          impl.start answers = .stopped { impl with winsockReady := true, listener })) ∨
      (impl.running = false ∧ answers.Succeeds = true ∧
        impl.start answers = .started ⟨true, true, true, true, true⟩) := by
  obtain ⟨wsaStartup, socket, bind, listen⟩ := answers
  cases hrunning : impl.running with
  | true => exact .inl ⟨rfl, by simp [start, hrunning]⟩
  | false =>
      cases wsaStartup with
      | false => exact .inr (.inl ⟨rfl, rfl, .inl (by simp [start, hrunning])⟩)
      | true =>
          cases socket with
          | false => exact .inr (.inl ⟨rfl, rfl, .inr ⟨_, by simp [start, hrunning]; rfl⟩⟩)
          | true =>
              cases bind <;> cases listen <;>
                simp [start, hrunning, StartAnswers.Succeeds]

/-- A start that succeeds sets everything. -/
theorem start_eq_started {impl impl' : Impl} {answers : StartAnswers}
    (h : impl.start answers = .started impl') :
    impl.running = false ∧ impl' = ⟨true, true, true, true, true⟩ := by
  obtain ⟨-, hstart⟩ | ⟨-, -, hstart | ⟨_, hstart⟩⟩ | ⟨hrunning, -, hstart⟩ :=
    impl.start_cases answers
  · cases h.symm.trans hstart
  · cases h.symm.trans hstart
  · cases h.symm.trans hstart
  · cases h.symm.trans hstart
    exact ⟨hrunning, rfl⟩

/-- A start that fails late has initialised Winsock, and maybe a socket. -/
theorem start_eq_stopped {impl impl' : Impl} {answers : StartAnswers}
    (h : impl.start answers = .stopped impl') :
    impl.running = false ∧ ∃ listener, impl' = { impl with winsockReady := true, listener } := by
  obtain ⟨-, hstart⟩ | ⟨hrunning, -, hstart | ⟨listener, hstart⟩⟩ | ⟨-, -, hstart⟩ :=
    impl.start_cases answers
  · cases h.symm.trans hstart
  · cases h.symm.trans hstart
  · cases h.symm.trans hstart
    exact ⟨hrunning, listener, rfl⟩
  · cases h.symm.trans hstart

end Impl

/-- A server and its queue. -/
structure Server (R : Type) where
  impl : Impl
  requests : RequestQueue R

namespace Server

variable {R S : Type}

/-- `Stop`, with the requests that it cancels. -/
def stop (server : Server R) : Server R × List (Request R) :=
  if server.impl.queue then
    ({ impl := server.impl.stop, requests := server.requests.cancelAll.2 },
      server.requests.cancelAll.1)
  else ({ server with impl := server.impl.stop }, [])

/-- `Start`, which calls `Stop` where it fails late. -/
def start (server : Server R) (answers : StartAnswers) : Server R × Bool :=
  match server.impl.start answers with
  | .already => (server, true)
  | .failed => (server, false)
  | .stopped impl => ((stop { server with impl }).1, false)
  | .started impl => ({ server with impl }, true)

/-- The loop of `Drain`: the replies that it makes, and the state of the evaluator. -/
def serve (evaluate : Bytes → S → Bytes × S) (requests : RequestQueue R) (session : S) :
    List (Request R × Bytes) × S :=
  match _h : requests.pop with
  | none => ([], session)
  | some (request, rest) =>
      let (result, session) := evaluate request.source session
      let (replies, session) := serve evaluate rest session
      ((request, result) :: replies, session)
termination_by requests.requests.length
decreasing_by
  rw [RequestQueue.pop_eq_some_iff.mp _h, List.length_cons]
  exact Nat.lt_succ_self _

/-- `Drain`; `none` is the use of a null pointer. -/
def drain (server : Server R) (evaluate : Bytes → S → Bytes × S) (session : S) :
    Option (Server R × List (Request R × Bytes) × S) :=
  if server.impl.queue then
    some ({ server with requests := .empty }, serve evaluate server.requests session)
  else none

/-- Stopping a server stops its members. -/
@[simp] theorem impl_stop (server : Server R) : server.stop.1.impl = server.impl.stop := by
  rw [stop]
  cases server.impl.queue <;> rfl

/-- **The pointer to the queue**, between the calls of the server, is set exactly while it runs;
a start sets it if it succeeds. -/
theorem queue_start {server : Server R} (h : server.impl.running = server.impl.queue)
    (answers : StartAnswers) :
    (server.start answers).1.impl.running = (server.start answers).1.impl.queue ∧
      ((server.start answers).1.impl.queue = true ↔
        server.impl.queue = true ∨ answers.Succeeds = true) := by
  obtain ⟨hrunning, hstart⟩ | ⟨hrunning, hfails, hstart | ⟨listener, hstart⟩⟩ |
      ⟨hrunning, hsucceeds, hstart⟩ := server.impl.start_cases answers
  · rw [start, hstart]
    exact ⟨h, by rw [← h, hrunning]; exact iff_of_true rfl (.inl rfl)⟩
  · rw [start, hstart]
    exact ⟨h, by rw [hfails, or_iff_left Bool.false_ne_true]⟩
  · rw [start, hstart]
    refine ⟨by rw [impl_stop]; rfl, ?_⟩
    rw [impl_stop, ← h, hrunning, hfails]
    exact iff_of_false Bool.false_ne_true (by rintro (⟨⟨⟩⟩ | ⟨⟨⟩⟩))
  · rw [start, hstart]
    exact ⟨rfl, iff_of_true rfl (.inr hsucceeds)⟩

/-- `Drain` uses a null pointer exactly if there is no queue. -/
theorem drain_eq_none_iff {server : Server R} {evaluate : Bytes → S → Bytes × S} {session : S} :
    server.drain evaluate session = none ↔ server.impl.queue = false := by
  rw [drain]
  cases server.impl.queue <;> simp

/-- Draining the queue leaves the members as they are. -/
theorem impl_drain {server server' : Server R} {evaluate : Bytes → S → Bytes × S}
    {session session' : S} {replies : List (Request R × Bytes)}
    (h : server.drain evaluate session = some (server', replies, session')) :
    server'.impl = server.impl := by
  rw [drain] at h
  cases hqueue : server.impl.queue with
  | false =>
      rw [hqueue] at h
      cases h
  | true =>
      rw [hqueue] at h
      exact (congrArg Server.impl (Prod.mk.inj (Option.some.inj h)).1).symm

end Server

end LispHost
