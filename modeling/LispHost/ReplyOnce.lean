import LispHost.ReplThreads
import Mathlib.Data.List.Nodup

/-!
# Every Request Is Answered Once

A request goes through three places in order: it is pending in the queue, it is in the hands of
the owner, and it is answered, with the result of its own evaluation or with the text of the
cancellation. Each place hands on what it takes in, first in, first out, so the answers are given
in the order of the requests, one for each. Behind a `Stop` no thread of the server is left that
pushes, and the queue has been emptied.

## Main definitions

* `ReplEvent.accepts`, `ReplEvent.removes`, `ReplEvent.answers`, `ReplEvent.replies`: what an
  event does to a request.
* `Unset`: promises that can still be set.
* `Lifetime`: where the threads are before, in and behind a lifetime of the server.
* `sinceSwap`: what other producers have pushed since the last cancellation.
* `ExactlyOnce`: the replies of a run.

## Main results

* `pending_step`, `removed_step`, `owed_step`: what a step hands on.
* `fresh_step`, `lifetime_step`: the invariants.
* `replies_exactly_once`: the replies of any run.
-/

namespace LispHost

open Effects

variable {R : Type}

/-! ### Events -/

namespace ReplEvent

/-- The request that an event puts into the queue. -/
def accepts : ReplEvent R → List (Request (Callback R))
  | accepted _ request => [request]
  | _ => []

/-- The requests that an event takes out of the queue. -/
def removes : ReplEvent R → List (Request (Callback R))
  | popped request => [request]
  | swapped requests => requests
  | _ => []

/-- The requests whose answer an event decides: the result of the evaluation, or the text of
the cancellation. -/
def answers : ReplEvent R → List (Request (Callback R) × Bytes)
  | evaluated request result => [(request, result)]
  | swapped requests => requests.map fun request => (request, sessionEnded)
  | _ => []

/-- The reply that an event makes. -/
def replies : ReplEvent R → List (Request (Callback R) × Bytes)
  | replied request result => [(request, result)]
  | _ => []

/-- `Drain` or `CancelAll` finishes. -/
inductive Finishes : ReplEvent R → Prop where
  | drained : Finishes drained
  | cancelled : Finishes cancelled

end ReplEvent

namespace OwnerState

/-- The request that the owner has popped and not evaluated. -/
def popped : OwnerState R → List (Request (Callback R))
  | evaluate request => [request]
  | _ => []

/-- The answers that the owner has not given yet. -/
def owed : OwnerState R → List (Request (Callback R) × Bytes)
  | reply request result => [(request, result)]
  | cancelling requests => requests.map fun request => (request, sessionEnded)
  | _ => []

/-- The requests in the hands of the owner. -/
def inHand (owner : OwnerState R) : List (Request (Callback R)) :=
  owner.popped ++ owner.owed.map Prod.fst

end OwnerState

/-! ### Flow -/

/-- **What a step does to the queue.** -/
theorem pending_step {r r' : Repl R} {event : ReplEvent R} (h : ReplStep r event r') :
    r.requests.requests ++ event.accepts = event.removes ++ r'.requests.requests := by
  rcases h with hmove | hmove | hmove
  · cases hmove with
    | accepted _ hpush =>
        obtain ⟨_, ⟨⟩, -, -, hrequests⟩ := RequestQueue.push_eq_some_iff.mp hpush
        exact hrequests.symm
    | _ => exact List.append_nil _
  · cases hmove with
    | accepted hpush =>
        obtain ⟨_, ⟨⟩, -, -, hrequests⟩ := RequestQueue.push_eq_some_iff.mp hpush
        exact hrequests.symm
    | rejected => exact List.append_nil _
  · cases hmove with
    | popped _ hpop =>
        rw [RequestQueue.pop_eq_some_iff.mp hpop]
        exact List.append_nil _
    | swapped => rfl
    | _ => exact List.append_nil _

/-- **What a step does to the requests that are popped.** -/
theorem removed_step {r r' : Repl R} {event : ReplEvent R} (h : ReplStep r event r') :
    r.owner.popped ++ event.removes = event.answers.map Prod.fst ++ r'.owner.popped := by
  rcases h with hmove | hmove | hmove
  · cases hmove <;> exact List.append_nil _
  · cases hmove <;> exact List.append_nil _
  · cases hmove with
    | swapped howner _ =>
        rw [howner]
        simp [OwnerState.popped, ReplEvent.removes, ReplEvent.answers, Function.comp_def]
    | startAlready howner _ | startFailed howner _ | startStopped howner _ | started howner _
    | drain howner _ | popped howner _ | drained howner _ | evaluated _ howner | replied howner _
    | replyThrew howner _ | stop howner | halt howner | join howner _ | noQueue howner _
    | cancelReplied howner _ | cancelThrew howner _ | cancelled howner | stopped howner =>
        simp [howner, OwnerState.popped, ReplEvent.removes, ReplEvent.answers]

/-- **What a step does to the answers that are owed**, if no reply throws. -/
theorem owed_step {r r' : Repl R} {event : ReplEvent R} (h : ReplStep r event r')
    (hthrew : r'.owner ≠ .threw) :
    r.owner.owed ++ event.answers = event.replies ++ r'.owner.owed := by
  rcases h with hmove | hmove | hmove
  · cases hmove <;> exact List.append_nil _
  · cases hmove <;> exact List.append_nil _
  · cases hmove with
    | replyThrew | cancelThrew => exact absurd rfl hthrew
    | startAlready howner _ | startFailed howner _ | startStopped howner _ | started howner _
    | drain howner _ | popped howner _ | drained howner _ | evaluated _ howner | replied howner _
    | stop howner | halt howner | join howner _ | swapped howner _ | noQueue howner _
    | cancelReplied howner _ | cancelled howner | stopped howner =>
        simp [howner, OwnerState.owed, ReplEvent.answers, ReplEvent.replies]

/-! ### Promises -/

/-- The promises with these numbers, and those not made yet, can still be set. -/
structure Unset (outstanding : List Nat) (promises : Nat → Option Bytes) (next : Nat) : Prop where
  nodup : outstanding.Nodup
  unset : ∀ n ∈ outstanding, promises n = none ∧ n < next
  future : ∀ n, next ≤ n → promises n = none

namespace Unset

variable {outstanding : List Nat} {promises : Nat → Option Bytes} {next : Nat}

/-- A promise that is made and dropped. -/
theorem skip (h : Unset outstanding promises next) : Unset outstanding promises (next + 1) where
  nodup := h.nodup
  unset n hn := ⟨(h.unset n hn).1, Nat.lt_succ_of_lt (h.unset n hn).2⟩
  future n hn := h.future n (Nat.le_of_succ_le hn)

/-- A promise that is made for a request. -/
theorem push (h : Unset outstanding promises next) :
    Unset (outstanding ++ [next]) promises (next + 1) where
  nodup := by
    have hfresh : next ∉ outstanding := fun hmem =>
      Nat.lt_irrefl _ (h.unset next hmem).2
    exact List.nodup_append.mpr ⟨h.nodup, List.nodup_singleton _, fun n hn m hm heq =>
      hfresh (List.mem_singleton.mp hm ▸ heq ▸ hn)⟩
  unset n hn := by
    rcases List.mem_append.mp hn with hn | hn
    · exact h.skip.unset n hn
    · obtain rfl := List.mem_singleton.mp hn
      exact ⟨h.future n (Nat.le_refl n), Nat.lt_succ_self n⟩
  future := h.skip.future

/-- **The first of the callbacks can be called.** -/
theorem invoke {reply : Callback R} {rest : List Nat}
    (h : Unset (reply.promise?.toList ++ rest) promises next) (result : Bytes) :
    ∃ promises', reply.invoke promises result = some promises' ∧ Unset rest promises' next := by
  cases reply with
  | other => exact ⟨promises, rfl, h⟩
  | promise n =>
      have hnodup := List.nodup_cons.mp h.nodup
      obtain ⟨hunset, hlt⟩ := h.unset n List.mem_cons_self
      refine ⟨Function.update promises n (some result), ?_, hnodup.2, ?_, ?_⟩
      · rw [Callback.invoke, hunset]
      · intro m hm
        have hne : m ≠ n := fun heq => hnodup.1 (heq ▸ hm)
        rw [Function.update_of_ne hne]
        exact h.unset m (List.mem_cons_of_mem _ hm)
      · intro m hm
        rw [Function.update_of_ne (by omega)]
        exact h.future m hm

end Unset

/-- The requests that are not answered yet, in order. -/
def Repl.unanswered (r : Repl R) : List (Request (Callback R)) :=
  r.owner.inHand ++ r.requests.requests

/-- The promises that some requests are to set. -/
def promisesOf (requests : List (Request (Callback R))) : List Nat :=
  requests.filterMap fun request => request.reply.promise?

/-- The promises of one request and those behind it. -/
theorem promisesOf_cons (request : Request (Callback R))
    (requests : List (Request (Callback R))) :
    promisesOf (request :: requests) = request.reply.promise?.toList ++ promisesOf requests := by
  rw [promisesOf, List.filterMap_cons]
  cases h : request.reply.promise? <;> rfl

/-- The promises of two sequences of requests. -/
theorem promisesOf_append (requests requests' : List (Request (Callback R))) :
    promisesOf (requests ++ requests') = promisesOf requests ++ promisesOf requests' :=
  List.filterMap_append

/-- Every request that is not answered yet can be answered. -/
structure Fresh (r : Repl R) : Prop where
  unset : Unset (promisesOf r.unanswered) r.promises r.nextPromise
  owner : r.owner ≠ .threw

/-- In the beginning there is nothing to answer. -/
theorem fresh_initial : Fresh (Repl.initial : Repl R) where
  unset := ⟨List.nodup_nil, by rintro n ⟨⟩, fun _ _ => rfl⟩
  owner := by rintro ⟨⟩

namespace Fresh

variable {r r' : Repl R}

/-- A step that hands a request on within the server. -/
theorem congr (h : Fresh r) (hunanswered : r'.unanswered = r.unanswered)
    (hpromises : r'.promises = r.promises) (hnext : r'.nextPromise = r.nextPromise)
    (howner : r'.owner ≠ .threw) : Fresh r' where
  unset := by
    rw [hunanswered, hpromises, hnext]
    exact h.unset
  owner := howner

/-- **No reply throws**, and behind a reply the other requests can still be answered. -/
theorem invoke (h : Fresh r) {request : Request (Callback R)}
    {rest : List (Request (Callback R))} (hunanswered : r.unanswered = request :: rest)
    (result : Bytes) :
    ∃ promises, request.reply.invoke r.promises result = some promises ∧
      Unset (promisesOf rest) promises r.nextPromise := by
  have hunset := h.unset
  rw [hunanswered, promisesOf_cons] at hunset
  exact hunset.invoke result

/-- A reply leaves the server as it should be. -/
theorem replied (h : Fresh r) {request : Request (Callback R)} {result : Bytes}
    {promises : Nat → Option Bytes} (hunanswered : r.unanswered = request :: r'.unanswered)
    (hinvoke : request.reply.invoke r.promises result = some promises)
    (hpromises : r'.promises = promises) (hnext : r'.nextPromise = r.nextPromise)
    (howner : r'.owner ≠ .threw) : Fresh r' where
  unset := by
    obtain ⟨promises', hinvoke', hunset⟩ := h.invoke hunanswered result
    obtain rfl := Option.some.inj (hinvoke.symm.trans hinvoke')
    rwa [hpromises, hnext]
  owner := howner

/-- The worker takes a new promise for each request. -/
theorem worker (h : Fresh r) {event : ReplEvent R} (hmove : WorkerMove r event r') :
    Fresh r' := by
  cases hmove with
  | accepted _ hpush =>
      obtain ⟨_, ⟨⟩, -, -, hrequests⟩ := RequestQueue.push_eq_some_iff.mp hpush
      refine ⟨?_, h.owner⟩
      rw [Repl.unanswered, hrequests, ← List.append_assoc, promisesOf_append]
      exact h.unset.push
  | rejected => exact ⟨h.unset.skip, h.owner⟩
  | _ => exact ⟨h.unset, h.owner⟩

/-- Other producers take none. -/
theorem producer (h : Fresh r) {event : ReplEvent R} (hmove : ProducerMove r event r') :
    Fresh r' := by
  cases hmove with
  | accepted hpush =>
      obtain ⟨_, ⟨⟩, -, -, hrequests⟩ := RequestQueue.push_eq_some_iff.mp hpush
      refine ⟨?_, h.owner⟩
      rw [Repl.unanswered, hrequests, ← List.append_assoc, promisesOf_append]
      exact (List.append_nil (promisesOf r.unanswered)).symm ▸ h.unset
  | rejected => exact h

/-- The owner sets the promises of what it has popped only. -/
theorem ownerMove (h : Fresh r) {event : ReplEvent R} (hmove : OwnerMove r event r') :
    Fresh r' := by
  cases hmove with
  | replied howner hinvoke | cancelReplied howner hinvoke =>
      refine h.replied ?_ hinvoke rfl rfl (by rintro ⟨⟩)
      simp [Repl.unanswered, OwnerState.inHand, howner, OwnerState.popped, OwnerState.owed]
  | @replyThrew request result howner hinvoke =>
      have hunanswered : r.unanswered = request :: r.requests.requests := by
        simp [Repl.unanswered, OwnerState.inHand, howner, OwnerState.popped, OwnerState.owed]
      obtain ⟨promises, hinvoke', -⟩ := h.invoke hunanswered result
      cases hinvoke.symm.trans hinvoke'
  | @cancelThrew request rest howner hinvoke =>
      have hunanswered : r.unanswered = request :: (rest ++ r.requests.requests) := by
        simp [Repl.unanswered, OwnerState.inHand, howner, OwnerState.popped, OwnerState.owed,
          Function.comp_def]
      obtain ⟨promises, hinvoke', -⟩ := h.invoke hunanswered sessionEnded
      cases hinvoke.symm.trans hinvoke'
  | popped howner hpop =>
      refine h.congr ?_ rfl rfl (by rintro ⟨⟩)
      simp [Repl.unanswered, OwnerState.inHand, howner, OwnerState.popped, OwnerState.owed,
        RequestQueue.pop_eq_some_iff.mp hpop]
  | startAlready howner _ | startFailed howner _ => exact h
  | started howner _ => exact ⟨h.unset, h.owner⟩
  | startStopped howner _ | drain howner _ | drained howner _ | evaluated _ howner | stop howner
  | halt howner | join howner _ | swapped howner _ | noQueue howner _ | cancelled howner
  | stopped howner =>
      refine h.congr ?_ rfl rfl (by rintro ⟨⟩)
      simp [Repl.unanswered, OwnerState.inHand, howner, OwnerState.popped, OwnerState.owed,
        Function.comp_def]

end Fresh

/-- **Promises.** In every step, all requests that are not answered yet can be answered. -/
theorem fresh_step {r r' : Repl R} {event : ReplEvent R} (h : Fresh r)
    (hstep : ReplStep r event r') : Fresh r' := by
  rcases hstep with hmove | hmove | hmove
  · exact h.worker hmove
  · exact h.producer hmove
  · exact h.ownerMove hmove

/-- No reply throws. -/
theorem ne_threw {r r' : Repl R} {event : ReplEvent R} (h : Fresh r)
    (hstep : ReplStep r event r') : event ≠ .threw := by
  rintro rfl
  have howner := (fresh_step h hstep).owner
  rcases hstep with hmove | hmove | hmove
  · cases hmove
  · cases hmove
  · cases hmove <;> exact howner rfl

/-! ### Lifetimes -/

/-- The owner is in `Drain`. -/
def OwnerState.Draining : OwnerState R → Prop
  | pop => True
  | evaluate _ => True
  | reply _ _ => True
  | _ => False

/-- The owner is in `Stop`, behind the `join`. -/
def OwnerState.Joined : OwnerState R → Prop
  | cancel => True
  | cancelling _ => True
  | release => True
  | _ => False

/-- **Lifetimes.** The worker is there only between a start that succeeds and the join of the
next stop, and the pointer to the queue is set for a little longer. -/
structure Lifetime (r : Repl R) : Prop where
  queue : r.impl.queue = false → r.worker = .absent ∧ r.impl.running = false
  draining : r.owner.Draining → r.impl.queue = true ∧ r.impl.running = true
  idle : r.owner = .idle → r.impl.running = false → r.impl.queue = false
  joining : r.owner = .join → r.impl.running = false
  joined : r.owner.Joined → r.worker = .absent ∧ r.impl.running = false

/-- In the beginning there is no worker. -/
theorem lifetime_initial : Lifetime (Repl.initial : Repl R) where
  queue _ := ⟨rfl, rfl⟩
  draining := by rintro ⟨⟩
  idle _ _ := rfl
  joining := by rintro ⟨⟩
  joined := by rintro ⟨⟩

/-- The worker moves only while it is there, and changes nothing that the owner holds. -/
theorem WorkerMove.frame {r r' : Repl R} {event : ReplEvent R} (h : WorkerMove r event r') :
    r.worker ≠ .absent ∧ r'.worker ≠ .absent ∧ r'.impl = r.impl ∧ r'.owner = r.owner := by
  cases h with
  | checkRunning hworker | checkStopped hworker | checkLoop hworker =>
      cases r.impl.running <;> simp [hworker]
  | accepted hworker _ | rejected hworker _ | timedOut hworker | ready hworker _
  | sent hworker _ | clientLeft hworker | acceptFailed hworker =>
      simp [hworker]

/-- A producer touches the queue only. -/
theorem ProducerMove.frame {r r' : Repl R} {event : ReplEvent R} (h : ProducerMove r event r') :
    r'.worker = r.worker ∧ r'.impl = r.impl ∧ r'.owner = r.owner := by
  cases h <;> exact ⟨rfl, rfl, rfl⟩

/-- The owner starts the worker and joins it. -/
theorem Lifetime.ownerMove {r r' : Repl R} {event : ReplEvent R} (h : Lifetime r)
    (hmove : OwnerMove r event r') : Lifetime r' := by
  obtain ⟨hqueue, hdraining, hidle, hjoining, hjoined⟩ := h
  cases hmove with
  | startStopped howner hstart =>
      obtain ⟨hrunning, _, rfl⟩ := Impl.start_eq_stopped hstart
      constructor <;> simp_all [OwnerState.Draining, OwnerState.Joined]
  | started howner hstart =>
      obtain ⟨hrunning, rfl⟩ := Impl.start_eq_started hstart
      constructor <;> simp_all [OwnerState.Draining, OwnerState.Joined]
  | _ =>
      constructor <;>
        simp_all [OwnerState.Draining, OwnerState.Joined, Impl.halt, Impl.join, Impl.release]

/-- **Lifetimes are kept** by every step. -/
theorem lifetime_step {r r' : Repl R} {event : ReplEvent R} (h : Lifetime r)
    (hstep : ReplStep r event r') : Lifetime r' := by
  rcases hstep with hmove | hmove | hmove
  · obtain ⟨hworker, -, himpl, howner⟩ := hmove.frame
    constructor
    · intro hqueue
      exact absurd (h.queue (himpl ▸ hqueue)).1 hworker
    · rw [himpl, howner]
      exact h.draining
    · rw [himpl, howner]
      exact h.idle
    · rw [himpl, howner]
      exact h.joining
    · intro hjoined
      exact absurd (h.joined (howner ▸ hjoined)).1 hworker
  · obtain ⟨hworker, himpl, howner⟩ := hmove.frame
    obtain ⟨hqueue, hdraining, hidle, hjoining, hjoined⟩ := h
    constructor <;> simpa only [himpl, howner, hworker]
  · exact h.ownerMove hmove

/-! ### Cancellation -/

/-- What other producers have pushed since the last cancellation, after one more event. -/
def ReplEvent.since (requests : List (Request (Callback R))) :
    ReplEvent R → List (Request (Callback R))
  | accepted .other request => requests ++ [request]
  | swapped _ => []
  | _ => requests

/-- What other producers have pushed since the last cancellation. -/
def sinceSwap (events : List (ReplEvent R)) : List (Request (Callback R)) :=
  events.foldl ReplEvent.since []

/-- The owner is in `Stop`, behind the critical section of `CancelAll`. -/
def OwnerState.Swapped : OwnerState R → Prop
  | cancelling _ => True
  | release => True
  | _ => False

/-- No lifetime is going on, or its requests are cancelled already. -/
def Repl.Cleared (r : Repl R) : Prop := r.impl.queue = false ∨ r.owner.Swapped

/-- Outside of a lifetime there is no worker. -/
theorem Lifetime.absent {r : Repl R} (h : Lifetime r) (hcleared : r.Cleared) :
    r.worker = .absent := by
  rcases hcleared with hqueue | hswapped
  · exact (h.queue hqueue).1
  · refine (h.joined ?_).1
    cases howner : r.owner <;> simp_all [OwnerState.Swapped, OwnerState.Joined]

/-- **Outside of the lifetimes** the queue holds what other producers push. -/
theorem cleared_step {r r' : Repl R} {event : ReplEvent R}
    {requests : List (Request (Callback R))} (hlifetime : Lifetime r)
    (hstep : ReplStep r event r') (h : r.Cleared → r.requests.requests = requests)
    (hcleared : r'.Cleared) : r'.requests.requests = event.since requests := by
  have hlifetime' := lifetime_step hlifetime hstep
  rcases hstep with hmove | hmove | hmove
  · exact absurd (hlifetime'.absent hcleared) hmove.frame.2.1
  · cases hmove with
    | accepted hpush =>
        obtain ⟨_, ⟨⟩, -, -, hrequests⟩ := RequestQueue.push_eq_some_iff.mp hpush
        rw [hrequests, h hcleared]
        rfl
    | rejected => exact h hcleared
  · cases hmove with
    | swapped => rfl
    | startStopped howner hstart =>
        obtain ⟨-, _, rfl⟩ := Impl.start_eq_stopped hstart
        rcases hcleared with hqueue | ⟨⟨⟩⟩
        exact h (.inl hqueue)
    | started howner hstart =>
        obtain ⟨-, rfl⟩ := Impl.start_eq_started hstart
        rcases hcleared with ⟨⟨⟩⟩ | hswapped
        rw [howner] at hswapped
        exact hswapped.elim
    | popped howner _ =>
        have hqueue : r.impl.queue = true := (hlifetime.draining (by rw [howner]; trivial)).1
        rcases hcleared with hnoQueue | ⟨⟨⟩⟩
        cases hqueue.symm.trans hnoQueue
    | startAlready | startFailed => exact h hcleared
    | drain howner _ | drained howner _ | evaluated _ howner | replied howner _
    | replyThrew howner _ | stop howner | halt howner | join howner _ | noQueue howner _
    | cancelReplied howner _ | cancelThrew howner _ | cancelled howner | stopped howner =>
        refine h ?_
        simp_all [Repl.Cleared, OwnerState.Swapped, Impl.halt, Impl.join]

/-! ### Runs -/

variable {r r' : Repl R} {events : List (ReplEvent R)}

/-- Every run keeps what is unanswered answerable. -/
theorem fresh_run (h : Run ReplStep .initial events r) : Fresh r :=
  h.invariant (fun _ _ _ hfresh hstep => fresh_step hfresh hstep) fresh_initial

/-- Every run has lifetimes. -/
theorem lifetime_run (h : Run ReplStep .initial events r) : Lifetime r :=
  h.invariant (fun _ _ _ hlifetime hstep => lifetime_step hlifetime hstep) lifetime_initial

/-- **First in, first out.** The requests leave the queue in the order in which they were
accepted. -/
theorem pending_run (h : Run ReplStep r events r') :
    r.requests.requests ++ events.flatMap ReplEvent.accepts =
      events.flatMap ReplEvent.removes ++ r'.requests.requests :=
  h.conserves (fun r => r.requests.requests) (I := fun _ => True)
    (fun _ _ _ _ hstep => ⟨trivial, pending_step hstep⟩) trivial

/-- **What is answered was taken out of the queue, in this order.** -/
theorem removed_run (h : Run ReplStep r events r') :
    r.owner.popped ++ events.flatMap ReplEvent.removes =
      (events.flatMap ReplEvent.answers).map Prod.fst ++ r'.owner.popped := by
  rw [List.map_flatMap]
  exact h.conserves (fun r => r.owner.popped) (I := fun _ => True)
    (fun _ _ _ _ hstep => ⟨trivial, removed_step hstep⟩) trivial

/-- The answers are given in the order in which they are decided. -/
theorem owed_run (h : Run ReplStep r events r') (hfresh : Fresh r) :
    r.owner.owed ++ events.flatMap ReplEvent.answers =
      events.flatMap ReplEvent.replies ++ r'.owner.owed :=
  h.conserves (fun r => r.owner.owed) (I := Fresh)
    (fun _ _ _ hfresh hstep =>
      ⟨fresh_step hfresh hstep, owed_step hstep (fresh_step hfresh hstep).owner⟩) hfresh

/-- Outside of a lifetime the queue has what came in since the last cancellation. -/
theorem sinceSwap_run (h : Run ReplStep .initial events r) :
    r.Cleared → r.requests.requests = sinceSwap events := by
  refine h.history_along (J := fun _ r => Lifetime r)
    (I := fun events r => r.Cleared → r.requests.requests = sinceSwap events) lifetime_run ?_
    fun _ => rfl
  intro events r event r' hlifetime hsince hstep hcleared
  rw [sinceSwap, List.foldl_append]
  exact cleared_step hlifetime hstep hsince hcleared

/-- A request of the worker has a promise of its own. -/
theorem accepts_promises {r r' : Repl R} {event : ReplEvent R} (h : ReplStep r event r') :
    (promisesOf event.accepts = [] ∧ r.nextPromise ≤ r'.nextPromise) ∨
      promisesOf event.accepts = [r.nextPromise] ∧ r'.nextPromise = r.nextPromise + 1 := by
  rcases h with hmove | hmove | hmove
  · cases hmove with
    | accepted => exact .inr ⟨rfl, rfl⟩
    | rejected => exact .inl ⟨rfl, Nat.le_succ _⟩
    | _ => exact .inl ⟨rfl, Nat.le_refl _⟩
  · cases hmove <;> exact .inl ⟨rfl, Nat.le_refl _⟩
  · cases hmove <;> exact .inl ⟨rfl, Nat.le_refl _⟩

/-- No two requests have one promise. -/
theorem nodup_promises (h : Run ReplStep .initial events r) :
    (promisesOf (events.flatMap ReplEvent.accepts)).Nodup := by
  have hhistory : (promisesOf (events.flatMap ReplEvent.accepts)).Nodup ∧
      ∀ n ∈ promisesOf (events.flatMap ReplEvent.accepts), n < r.nextPromise := by
    refine h.history (I := fun events r =>
      (promisesOf (events.flatMap ReplEvent.accepts)).Nodup ∧
        ∀ n ∈ promisesOf (events.flatMap ReplEvent.accepts), n < r.nextPromise) ?_
      ⟨List.nodup_nil, by rintro n ⟨⟩⟩
    rintro events r event r' ⟨hnodup, hlt⟩ hstep
    rw [List.flatMap_append, List.flatMap_singleton, promisesOf_append]
    rcases accepts_promises hstep with ⟨hnone, hnext⟩ | ⟨hone, hnext⟩
    · rw [hnone, List.append_nil]
      exact ⟨hnodup, fun n hn => Nat.lt_of_lt_of_le (hlt n hn) hnext⟩
    · rw [hone, hnext]
      refine ⟨List.nodup_append.mpr ⟨hnodup, List.nodup_singleton _, ?_⟩, ?_⟩
      · intro n hn m hm heq
        rw [List.mem_singleton.mp hm] at heq
        exact Nat.ne_of_lt (hlt n hn) heq
      · intro n hn
        rcases List.mem_append.mp hn with hn | hn
        · exact Nat.lt_succ_of_lt (hlt n hn)
        · rw [List.mem_singleton.mp hn]
          exact Nat.lt_succ_self _
  exact hhistory.1

/-- What a run does with its requests. -/
structure ExactlyOnce (events : List (ReplEvent R)) (r : Repl R) : Prop where
  /-- Accepted requests leave the queue in the order in which they were accepted. -/
  order : events.flatMap ReplEvent.accepts =
    events.flatMap ReplEvent.removes ++ r.requests.requests
  /-- The requests that have left the queue are evaluated or cancelled in that order. -/
  removed : (events.flatMap ReplEvent.answers).map Prod.fst <+: events.flatMap ReplEvent.removes
  /-- The replies are, in that order and one for each request, the result of its own evaluation
  or the text of the cancellation. -/
  answered : events.flatMap ReplEvent.replies <+: events.flatMap ReplEvent.answers
  /-- When `Drain` or `CancelAll` finishes, all requests that have left the queue are answered. -/
  finished : ∀ before event after, events = before ++ event :: after → event.Finishes →
    before.flatMap ReplEvent.replies = before.flatMap ReplEvent.answers ∧
      (before.flatMap ReplEvent.replies).map Prod.fst = before.flatMap ReplEvent.removes
  /-- No promise is set twice. -/
  promises : (promisesOf ((events.flatMap ReplEvent.replies).map Prod.fst)).Nodup ∧
    ReplEvent.threw ∉ events
  bounded : r.requests.requests.length ≤ kMaxPendingRequests
  /-- When `Stop` returns, and no other producer has pushed anything since the cancellation, the
  queue is empty, and the requests that leave it later have been accepted later. -/
  stopped : ∀ before after, events = before ++ .stopped :: after → sinceSwap before = [] →
    before.flatMap ReplEvent.accepts = before.flatMap ReplEvent.removes ∧
      after.flatMap ReplEvent.accepts =
        after.flatMap ReplEvent.removes ++ r.requests.requests ∧
      (after.flatMap ReplEvent.answers).map Prod.fst <+: after.flatMap ReplEvent.removes

/-- If nothing is popped, the answers are those of the first requests that were taken out. -/
theorem answered_of_popped (h : Run ReplStep r events r') (hpopped : r.owner.popped = []) :
    (events.flatMap ReplEvent.answers).map Prod.fst <+: events.flatMap ReplEvent.removes := by
  have hremoved := removed_run h
  rw [hpopped, List.nil_append] at hremoved
  exact ⟨_, hremoved.symm⟩

/-- When nothing is in the hands of the owner, all that was removed is answered. -/
theorem replies_of_inHand (h : Run ReplStep .initial events r) (hpopped : r.owner.popped = [])
    (howed : r.owner.owed = []) :
    events.flatMap ReplEvent.replies = events.flatMap ReplEvent.answers ∧
      (events.flatMap ReplEvent.replies).map Prod.fst = events.flatMap ReplEvent.removes := by
  have hanswers := owed_run h fresh_initial
  have hremoved := removed_run h
  rw [howed, List.append_nil] at hanswers
  rw [hpopped, List.append_nil] at hremoved
  exact ⟨hanswers.symm, by rw [← hanswers]; exact hremoved.symm⟩

/-- **Exactly once.** In every run of the worker, the other producers and the owner, over any
number of lifetimes, every request that is accepted is answered once. -/
theorem replies_exactly_once (h : Run ReplStep .initial events r) : ExactlyOnce events r where
  order := pending_run h
  removed := answered_of_popped h rfl
  answered := ⟨_, (owed_run h fresh_initial).symm⟩
  finished := by
    rintro before event after rfl hfinishes
    obtain ⟨r₁, r₂, hbefore, hstep, -⟩ := h.split
    have howner : r₁.owner.popped = [] ∧ r₁.owner.owed = [] := by
      rcases hstep with hmove | hmove | hmove
      · cases hfinishes <;> cases hmove
      · cases hfinishes <;> cases hmove
      · cases hfinishes with
        | drained =>
            cases hmove with
            | drained howner _ =>
                rw [howner]
                exact ⟨rfl, rfl⟩
        | cancelled =>
            cases hmove with
            | cancelled howner =>
                rw [howner]
                exact ⟨rfl, rfl⟩
    exact replies_of_inHand hbefore howner.1 howner.2
  promises := by
    have hreplied : (events.flatMap ReplEvent.replies).map Prod.fst <+:
        (events.flatMap ReplEvent.answers).map Prod.fst :=
      List.IsPrefix.map Prod.fst ⟨_, (owed_run h fresh_initial).symm⟩
    have haccepted := (hreplied.trans (answered_of_popped h rfl)).trans ⟨_, (pending_run h).symm⟩
    have hthrew : ∀ event ∈ events, event ≠ .threw := by
      intro event hevent
      obtain ⟨before, after, rfl⟩ := List.append_of_mem hevent
      obtain ⟨_, _, hbefore, hstep, -⟩ := h.split
      exact ne_threw (fresh_run hbefore) hstep
    exact ⟨(nodup_promises h).sublist (haccepted.sublist.filterMap _),
      fun hmem => hthrew _ hmem rfl⟩
  bounded := r.requests.bounded
  stopped := by
    rintro before after rfl hsince
    obtain ⟨r₁, r₂, hbefore, hstep, hafter⟩ := h.split
    have howner : r₁.owner = .release ∧ r₂.requests = r₁.requests ∧ r₂.owner = .idle := by
      rcases hstep with hmove | hmove | hmove
      · cases hmove
      · cases hmove
      · cases hmove with
        | stopped howner => exact ⟨howner, rfl, rfl⟩
    obtain ⟨hrelease, hrequests, hidle⟩ := howner
    have hempty : r₁.requests.requests = [] := by
      rw [sinceSwap_run hbefore (.inr (by rw [hrelease]; trivial)), hsince]
    have haccepted := pending_run hbefore
    have hlater := pending_run hafter
    rw [hempty, List.append_nil] at haccepted
    rw [hrequests, hempty, List.nil_append] at hlater
    exact ⟨haccepted, hlater, answered_of_popped hafter (by rw [hidle]; rfl)⟩

/-- Two lifetimes. In the first one a `Drain` answers a request, and `Stop` cancels two: one that
the worker waits for, and one of another producer. In the second one a `Drain` answers again. -/
def twoLifetimes : List (ReplEvent Unit) :=
  [.started true, .internal, .accepted .worker ⟨[53], .promise 0⟩,
    .internal, .popped ⟨[53], .promise 0⟩, .evaluated ⟨[53], .promise 0⟩ [54],
    .replied ⟨[53], .promise 0⟩ [54], .drained,
    .internal, .internal, .internal, .sent [54], .accepted .worker ⟨[55], .promise 1⟩,
    .accepted .other ⟨[56], .other ()⟩,
    .internal, .internal, .internal, .internal, .internal, .internal,
    .swapped [⟨[55], .promise 1⟩, ⟨[56], .other ()⟩],
    .replied ⟨[55], .promise 1⟩ sessionEnded, .replied ⟨[56], .other ()⟩ sessionEnded,
    .cancelled, .stopped,
    .started true, .internal, .accepted .worker ⟨[57], .promise 2⟩,
    .internal, .popped ⟨[57], .promise 2⟩, .evaluated ⟨[57], .promise 2⟩ [58],
    .replied ⟨[57], .promise 2⟩ [58], .drained]

/-- The two lifetimes of a server that is started again. -/
theorem replies_exactly_once_restart : ∃ r : Repl Unit, ExactlyOnce twoLifetimes r := by
  have hstart (impl : Impl) (hrunning : impl.running = false) :
      impl.start ⟨true, true, true, true⟩ = .started ⟨true, true, true, true, true⟩ := by
    rw [Impl.start, hrunning]
    rfl
  refine ⟨_, replies_exactly_once (.cons (.owner (.started rfl (hstart _ rfl)))
    -- a request that is answered
    (.cons (.worker (.checkLoop rfl)) (.cons (.worker (.accepted rfl rfl))
    (.cons (.owner (.drain rfl rfl)) (.cons (.owner (.popped rfl rfl))
    (.cons (.owner (.evaluated [54] rfl)) (.cons (.owner (.replied rfl rfl))
    (.cons (.owner (.drained rfl rfl)) (.cons (.worker (.checkRunning rfl))
    (.cons (.worker (.ready rfl rfl)) (.cons (.worker (.checkStopped rfl))
    (.cons (.worker (.sent rfl rfl))
    -- two that are pending when the server is stopped
    (.cons (.worker (.accepted rfl rfl)) (.cons (.producer (.accepted rfl))
    (.cons (.owner (.stop rfl)) (.cons (.owner (.halt rfl))
    (.cons (.worker (.checkRunning rfl)) (.cons (.worker (.checkStopped rfl))
    (.cons (.worker (.checkLoop rfl)) (.cons (.owner (.join rfl (.inr rfl)))
    (.cons (.owner (.swapped rfl rfl)) (.cons (.owner (.cancelReplied rfl rfl))
    (.cons (.owner (.cancelReplied rfl rfl)) (.cons (.owner (.cancelled rfl))
    (.cons (.owner (.stopped rfl))
    -- the second lifetime
    (.cons (.owner (.started rfl (hstart _ rfl))) (.cons (.worker (.checkLoop rfl))
    (.cons (.worker (.accepted rfl rfl)) (.cons (.owner (.drain rfl rfl))
    (.cons (.owner (.popped rfl rfl)) (.cons (.owner (.evaluated [58] rfl))
    (.cons (.owner (.replied rfl rfl))
    (.single (.owner (.drained rfl rfl)))))))))))))))))))))))))))))))))))⟩

end LispHost
