import Mathlib.Data.List.Basic

/-!
# The Request Queue

`RequestQueue` is the boundary between the threads that take requests in and the game thread
that evaluates them. Every operation is one critical section of its mutex. A request comes with
a reply callback, which is whatever type `R` names the callbacks.

## Main definitions

* `Request`, `RequestQueue`: a queue that is never longer than `kMaxPendingRequests`.
* `RequestQueue.push`, `RequestQueue.pop`, `RequestQueue.cancelAll`: the operations.

## Main results

* `RequestQueue.push_eq_some_iff`, `RequestQueue.pop_eq_some_iff`: when they succeed, and what
  they leave.
-/

namespace LispHost

/-- A `std::string`. -/
abbrev Bytes : Type := List UInt8

/-- The bytes of a text. -/
def utf8 (text : String) : Bytes := text.toUTF8.toList

/-- The size of the largest request. -/
def kMaxRequestBytes : Nat := 16 * 1024

/-- The number of requests that can wait. -/
def kMaxPendingRequests : Nat := 32

/-- A request, with what its callback is for. -/
structure Request (R : Type) where
  source : Bytes
  reply : R
deriving DecidableEq, Repr

/-- `RequestQueue`: the requests that wait, in order. -/
structure RequestQueue (R : Type) where
  requests : List (Request R)
  bounded : requests.length ≤ kMaxPendingRequests

namespace RequestQueue

variable {R : Type}

/-- The queue of a server that was just built. -/
def empty : RequestQueue R where
  requests := []
  bounded := Nat.zero_le _

/-- `Push`; `none` is `false`. A callback can be empty. -/
def push (queue : RequestQueue R) (source : Bytes) (reply : Option R) :
    Option (RequestQueue R) :=
  match reply with
  | none => none
  | some reply =>
      if kMaxRequestBytes < source.length then none
      else if h : queue.requests.length = kMaxPendingRequests then none
      else
        some
          { requests := queue.requests ++ [⟨source, reply⟩]
            bounded := by
              have hbounded := queue.bounded
              rw [List.length_append, List.length_singleton]
              omega }

/-- `Pop`: the oldest request. -/
def pop (queue : RequestQueue R) : Option (Request R × RequestQueue R) :=
  match queue with
  | ⟨[], _⟩ => none
  | ⟨request :: rest, hbounded⟩ =>
      some (request, ⟨rest, Nat.le_of_succ_le hbounded⟩)

/-- The critical section of `CancelAll`: the requests that it will reply to, and the queue. -/
def cancelAll (queue : RequestQueue R) : List (Request R) × RequestQueue R :=
  (queue.requests, empty)

variable {queue queue' : RequestQueue R}

/-- A queue is its requests. -/
theorem ext_requests (h : queue.requests = queue'.requests) : queue = queue' := by
  cases queue
  cases queue'
  cases h
  rfl

@[simp] theorem requests_empty : (empty : RequestQueue R).requests = [] := rfl

@[simp] theorem cancelAll_fst : queue.cancelAll.1 = queue.requests := rfl

@[simp] theorem cancelAll_snd : queue.cancelAll.2 = empty := rfl

/-- **When a push succeeds**, and what it adds. -/
theorem push_eq_some_iff {source : Bytes} {reply : Option R} :
    queue.push source reply = some queue' ↔
      ∃ callback, reply = some callback ∧ source.length ≤ kMaxRequestBytes ∧
        queue.requests.length < kMaxPendingRequests ∧
        queue'.requests = queue.requests ++ [⟨source, callback⟩] := by
  have hbounded := queue.bounded
  constructor
  · intro h
    cases reply with
    | none => cases h
    | some callback =>
        rw [push] at h
        by_cases hsize : kMaxRequestBytes < source.length
        · rw [if_pos hsize] at h
          cases h
        · by_cases hfull : queue.requests.length = kMaxPendingRequests
          · rw [if_neg hsize, dif_pos hfull] at h
            cases h
          · rw [if_neg hsize, dif_neg hfull] at h
            cases h
            exact ⟨callback, rfl, Nat.le_of_not_lt hsize, by omega, rfl⟩
  · rintro ⟨callback, rfl, hsize, hroom, hrequests⟩
    rw [push, if_neg (Nat.not_lt_of_le hsize), dif_neg (Nat.ne_of_lt hroom)]
    exact congrArg some (ext_requests hrequests.symm)

/-- A push with a callback fails if the source is too large or the queue full. -/
theorem push_eq_none_iff {source : Bytes} {callback : R} :
    queue.push source (some callback) = none ↔
      kMaxRequestBytes < source.length ∨ queue.requests.length = kMaxPendingRequests := by
  by_cases hsize : kMaxRequestBytes < source.length
  · simp [push, hsize]
  · by_cases hfull : queue.requests.length = kMaxPendingRequests <;> simp [push, hsize, hfull]

/-- **When there is something to pop**, and what is left. -/
theorem pop_eq_some_iff {request : Request R} :
    queue.pop = some (request, queue') ↔ queue.requests = request :: queue'.requests := by
  obtain ⟨requests, hbounded⟩ := queue
  cases requests with
  | nil =>
      constructor
      · rintro ⟨⟩
      · rintro ⟨⟩
  | cons first rest =>
      constructor
      · intro h
        obtain ⟨rfl, rfl⟩ := Prod.mk.inj (Option.some.inj h)
        rfl
      · intro h
        obtain ⟨rfl, hrest⟩ := List.cons.inj h
        exact congrArg some (congrArg (Prod.mk first) (ext_requests hrest))

end RequestQueue

end LispHost
