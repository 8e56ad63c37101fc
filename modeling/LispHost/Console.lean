import LispHost.Adapter
import LispHost.ServeStream

/-!
# What a Client of the REPL Reads

The socket worker serves its client while the game thread ticks and other producers push. A line
that the worker pushes is answered by some later tick, in between whatever else is evaluated
there: requests of other producers, and the fixed dispatch behind every drained queue. All of it
goes through one session.

The steps are those of `ServeClient`, with a push that is accepted and its reply as two steps,
and of `DispatchRunningTick`, one request at a time. The server runs and is not stopped. What
`wsm_eval_string` does to the session is left open.

## Main definitions

* `Console`, `ConsoleStep`: the worker, the game thread, the queue and the session.
* `history`: everything that was evaluated, in order.
* `EvaluationStep`: a session by itself.

## Main results

* `console_run`: the client is served, the history is a run of one session, and the replies of
  the client are its part of the history.
* `client_reads_session`: line by line, a client reads what the session answers.
-/

open Effects

namespace LispHost

/-- Who pushed a request. -/
inductive Sender where
  | client
  | other
deriving DecidableEq, Repr

/-- One call of `wsm_eval_string` in a tick. The fixed dispatch has no sender. -/
structure Evaluation where
  sender : Option Sender
  source : Bytes
  result : Option Bytes
deriving DecidableEq, Repr

/-- What the evaluator that `Drain` is given returns. -/
def Evaluation.reply (evaluation : Evaluation) : Bytes :=
  evaluation.result.getD (utf8 "error: Lisp evaluation returned null")

variable {S : Type}

/-- A session by itself: one text after the other. -/
def EvaluationStep (evalString : EvalString S) (s : S) (evaluation : Evaluation) (s' : S) : Prop :=
  evalString s evaluation.source = (evaluation.result, s')

/-- Where the worker is with the push of its client: none is on its way, it waits for the reply,
or the promise is set. -/
inductive Asking where
  | idle
  | waiting (source : Bytes)
  | ready (source reply : Bytes)
deriving DecidableEq, Repr

/-- Where the game thread is: outside of a tick, in `Drain`, or at a request in it. -/
inductive Ticking where
  | idle
  | draining
  | evaluating (request : Request Sender)
deriving DecidableEq, Repr

/-- A client with its worker, the queue, the game thread and the session. -/
structure Console (S : Type) where
  client : Client
  asking : Asking
  requests : RequestQueue Sender
  ticking : Ticking
  session : S

/-- A new connection, at a queue without requests. -/
def Console.new (session : S) : Console S where
  client := .loop (.done [])
  asking := .idle
  requests := .empty
  ticking := .idle
  session := session

/-- What a step shows: what `ServeClient` does, an evaluation, or nothing. -/
inductive ConsoleEvent where
  | net (event : ServeEvent)
  | evaluated (evaluation : Evaluation)
  | internal
deriving DecidableEq, Repr

/-- Behind the reply to a request. -/
def Asking.replied (asking : Asking) (evaluation : Evaluation) : Asking :=
  if evaluation.sender = some .client then .ready evaluation.source evaluation.reply else asking

/-- One step of the worker, of another producer, or of the game thread. `Serve` is the steps of
`ServeClient` that are considered. -/
inductive ConsoleStep (Serve : Client → ServeEvent → Client → Prop) (evalString : EvalString S)
    (dispatchSource : Bytes) : Console S → ConsoleEvent → Console S → Prop where
  | net {c : Console S} {event : ServeEvent} {client : Client} : c.asking = .idle →
      event.pushes = [] → Serve c.client event client →
      ConsoleStep Serve evalString dispatchSource c (.net event) { c with client }
  | rejected {c : Console S} {source : Bytes} {client : Client} : c.asking = .idle →
      c.requests.push source (some .client) = none →
      Serve c.client (.turn (.pushed source .rejected)) client →
      ConsoleStep Serve evalString dispatchSource c (.net (.turn (.pushed source .rejected)))
        { c with client }
  | pushed {c : Console S} {buffered : Bytes} {newline : Nat} {requests : RequestQueue Sender} :
      c.asking = .idle → c.client = .loop (.turn buffered newline) →
      stripReturn (buffered.take newline) ≠ [] →
      c.requests.push (stripReturn (buffered.take newline)) (some .client) = some requests →
      ConsoleStep Serve evalString dispatchSource c .internal
        { c with requests, asking := .waiting (stripReturn (buffered.take newline)) }
  | answered {c : Console S} {source reply : Bytes} {client : Client} :
      c.asking = .ready source reply →
      Serve c.client (.turn (.pushed source (.answered reply))) client →
      ConsoleStep Serve evalString dispatchSource c
        (.net (.turn (.pushed source (.answered reply)))) { c with client, asking := .idle }
  | other {c : Console S} {source : Bytes} {requests : RequestQueue Sender} :
      c.requests.push source (some .other) = some requests →
      ConsoleStep Serve evalString dispatchSource c .internal { c with requests }
  | tick {c : Console S} : c.ticking = .idle →
      ConsoleStep Serve evalString dispatchSource c .internal { c with ticking := .draining }
  | popped {c : Console S} {request : Request Sender} {requests : RequestQueue Sender} :
      c.ticking = .draining → c.requests.pop = some (request, requests) →
      ConsoleStep Serve evalString dispatchSource c .internal
        { c with requests, ticking := .evaluating request }
  | evaluated {c : Console S} {request : Request Sender} {result : Option Bytes} {session : S} :
      c.ticking = .evaluating request → evalString c.session request.source = (result, session) →
      ConsoleStep Serve evalString dispatchSource c
        (.evaluated ⟨some request.reply, request.source, result⟩)
        { c with
          asking := c.asking.replied ⟨some request.reply, request.source, result⟩
          ticking := .draining
          session }
  | dispatched {c : Console S} {result : Option Bytes} {session : S} : c.ticking = .draining →
      c.requests.pop = none → dispatchSource ≠ [] →
      evalString c.session dispatchSource = (result, session) →
      ConsoleStep Serve evalString dispatchSource c (.evaluated ⟨none, dispatchSource, result⟩)
        { c with ticking := .idle, session }
  | undispatched {c : Console S} : c.ticking = .draining → c.requests.pop = none →
      dispatchSource = [] →
      ConsoleStep Serve evalString dispatchSource c .internal { c with ticking := .idle }

/-! ### What a run shows -/

namespace ConsoleEvent

/-- What the event is for the client. -/
def clientEvent : ConsoleEvent → Option ServeEvent
  | net event => some event
  | _ => none

/-- The evaluation that the event is, if it is one. -/
def evaluation : ConsoleEvent → Option Evaluation
  | evaluated evaluation => some evaluation
  | _ => none

end ConsoleEvent

/-- What `ServeClient` did. -/
def clientEvents (events : List ConsoleEvent) : List ServeEvent :=
  events.filterMap ConsoleEvent.clientEvent

/-- Everything that was evaluated, in order. -/
def history (events : List ConsoleEvent) : List Evaluation :=
  events.filterMap ConsoleEvent.evaluation

/-- The sources of a sender with their replies. -/
def Evaluation.of (sender : Sender) (evaluation : Evaluation) : Option (Bytes × Bytes) :=
  if evaluation.sender = some sender then some (evaluation.source, evaluation.reply) else none

/-- The pushes that were answered, with their replies. -/
def answeredPush (push : Bytes × PushOutcome) : Option (Bytes × Bytes) :=
  match push.2 with
  | .answered reply => some (push.1, reply)
  | _ => none

/-- A reply that is not sent yet. -/
def Asking.unsent : Asking → List (Bytes × Bytes)
  | ready source reply => [(source, reply)]
  | _ => []

/-- A source that is not evaluated yet. -/
def Asking.unanswered : Asking → List Bytes
  | waiting source => [source]
  | _ => []

/-- The text of a request that the client has sent. -/
def Request.clientSource (request : Request Sender) : Option Bytes :=
  if request.reply = .client then some request.source else none

/-- The request that the game thread is at. -/
def Ticking.current : Ticking → List (Request Sender)
  | evaluating request => [request]
  | _ => []

/-- Where a run stands: the client is served, the history is a run of the session, the replies
of the client are its part of the history, and the request that it waits for is under way. -/
structure Console.Follows (Serve : Client → ServeEvent → Client → Prop)
    (evalString : EvalString S) (start : S) (events : List ConsoleEvent) (c : Console S) :
    Prop where
  serves : Run Serve (.loop (.done [])) (clientEvents events) c.client
  replays : Run (EvaluationStep evalString) start (history events) c.session
  replies : (LispHost.pushed (clientEvents events)).filterMap answeredPush ++ c.asking.unsent =
    (history events).filterMap (Evaluation.of .client)
  underWay : (c.ticking.current ++ c.requests.requests).filterMap Request.clientSource =
    c.asking.unanswered

/-! ### One step -/

/-- The events of the client, with one more event. -/
theorem clientEvents_snoc (events : List ConsoleEvent) (event : ConsoleEvent) :
    clientEvents (events ++ [event]) = clientEvents events ++ event.clientEvent.toList := by
  rw [clientEvents, List.filterMap_append, clientEvents]
  cases event <;> rfl

/-- The history with one more event. -/
theorem history_snoc (events : List ConsoleEvent) (event : ConsoleEvent) :
    history (events ++ [event]) = history events ++ event.evaluation.toList := by
  rw [history, List.filterMap_append, history]
  cases event <;> rfl

namespace Console.Follows

variable {Serve : Client → ServeEvent → Client → Prop} {evalString : EvalString S} {start : S}
  {events : List ConsoleEvent} {c : Console S}

/-- A new connection follows its empty history. -/
theorem new : Follows Serve evalString start [] (Console.new start) where
  serves := .nil _
  replays := .nil _
  replies := rfl
  underWay := rfl

/-- A step that shows nothing. -/
theorem internal {c' : Console S} (h : Follows Serve evalString start events c)
    (hclient : c'.client = c.client) (hsession : c'.session = c.session)
    (hunsent : c'.asking.unsent = c.asking.unsent)
    (hunderWay : (c'.ticking.current ++ c'.requests.requests).filterMap Request.clientSource =
      c'.asking.unanswered) :
    Follows Serve evalString start (events ++ [.internal]) c' := by
  have hserved : clientEvents (events ++ [.internal]) = clientEvents events := by
    rw [clientEvents_snoc]
    exact List.append_nil _
  have hhistory : history (events ++ [.internal]) = history events := by
    rw [history_snoc]
    exact List.append_nil _
  refine ⟨?_, ?_, ?_, hunderWay⟩
  · rw [hserved, hclient]
    exact h.serves
  · rw [hhistory, hsession]
    exact h.replays
  · rw [hserved, hhistory, hunsent]
    exact h.replies

/-- A step of `ServeClient`. -/
theorem net {event : ServeEvent} {client : Client} (asking : Asking)
    (h : Follows Serve evalString start events c) (hserve : Serve c.client event client)
    (hunsent : event.pushes.filterMap answeredPush ++ asking.unsent = c.asking.unsent)
    (hopen : asking.unanswered = c.asking.unanswered) :
    Follows Serve evalString start (events ++ [.net event]) { c with client, asking } := by
  have hserved : clientEvents (events ++ [.net event]) =
      clientEvents events ++ [event] := clientEvents_snoc _ _
  have hhistory : history (events ++ [.net event]) = history events := by
    rw [history_snoc]
    exact List.append_nil _
  refine ⟨?_, ?_, ?_, ?_⟩
  · rw [hserved]
    exact Run.append_iff.mpr ⟨_, h.serves, .single hserve⟩
  · rw [hhistory]
    exact h.replays
  · rw [hserved, hhistory, pushed_snoc, List.filterMap_append, List.append_assoc, hunsent]
    exact h.replies
  · exact h.underWay.trans hopen.symm

/-- An evaluation, which may be the one that the client waits for. -/
theorem evaluated {evaluation : Evaluation} {session : S} (asking : Asking) {ticking : Ticking}
    (h : Follows Serve evalString start events c)
    (heval : EvaluationStep evalString c.session evaluation session)
    (hunsent : asking.unsent =
      c.asking.unsent ++ (evaluation.of .client).toList)
    (hunderWay : (ticking.current ++ c.requests.requests).filterMap Request.clientSource =
      asking.unanswered) :
    Follows Serve evalString start (events ++ [.evaluated evaluation])
      { c with asking, ticking, session } := by
  have hserved : clientEvents (events ++ [.evaluated evaluation]) = clientEvents events := by
    rw [clientEvents_snoc]
    exact List.append_nil _
  have hhistory : history (events ++ [.evaluated evaluation]) =
      history events ++ [evaluation] := history_snoc _ _
  refine ⟨?_, ?_, ?_, hunderWay⟩
  · rw [hserved]
    exact h.serves
  · rw [hhistory]
    exact Run.append_iff.mpr ⟨_, h.replays, .single heval⟩
  · rw [hserved, hhistory, hunsent, ← List.append_assoc, h.replies, List.filterMap_append]
    refine congrArg _ ?_
    rw [List.filterMap_cons, List.filterMap_nil]
    cases evaluation.of .client <;> rfl

/-- A request is under way as long as the worker waits for it. -/
theorem waiting_of_evaluating {request : Request Sender}
    (h : Follows Serve evalString start events c) (hticking : c.ticking = .evaluating request)
    (hclient : request.reply = .client) :
    c.asking = .waiting request.source ∧
      c.requests.requests.filterMap Request.clientSource = [] := by
  have hunderWay := h.underWay
  have hsource : request.clientSource = some request.source := if_pos hclient
  rw [hticking, Ticking.current, List.singleton_append,
    List.filterMap_cons_some hsource] at hunderWay
  cases hasking : c.asking with
  | idle =>
      rw [hasking] at hunderWay
      cases hunderWay
  | ready source reply =>
      rw [hasking] at hunderWay
      cases hunderWay
  | waiting source =>
      rw [hasking] at hunderWay
      obtain ⟨rfl, hrest⟩ := List.cons.inj hunderWay
      exact ⟨rfl, hrest⟩

/-- **One step.** -/
theorem step {dispatchSource : Bytes} {event : ConsoleEvent} {c' : Console S}
    (h : Follows Serve evalString start events c)
    (hstep : ConsoleStep Serve evalString dispatchSource c event c') :
    Follows Serve evalString start (events ++ [event]) c' := by
  cases hstep with
  | net hasking hpushes hserve =>
      refine h.net c.asking hserve ?_ rfl
      rw [hpushes]
      rfl
  | rejected hasking hpush hserve => exact h.net c.asking hserve rfl rfl
  | pushed hasking hclient hsource hpush =>
      obtain ⟨-, ⟨⟩, -, -, hrequests⟩ := RequestQueue.push_eq_some_iff.mp hpush
      have hunderWay := h.underWay
      rw [hasking] at hunderWay
      refine h.internal rfl rfl (by rw [hasking]; rfl) ?_
      rw [hrequests, ← List.append_assoc, List.filterMap_append, hunderWay]
      rfl
  | answered hasking hserve =>
      refine h.net .idle hserve ?_ ?_
      · rw [hasking]
        rfl
      · rw [hasking]
        rfl
  | other hpush =>
      obtain ⟨-, ⟨⟩, -, -, hrequests⟩ := RequestQueue.push_eq_some_iff.mp hpush
      refine h.internal rfl rfl rfl ?_
      rw [hrequests, ← List.append_assoc, List.filterMap_append, h.underWay]
      exact List.append_nil _
  | tick hticking =>
      have hunderWay := h.underWay
      rw [hticking] at hunderWay
      exact h.internal rfl rfl rfl hunderWay
  | popped hticking hpop =>
      have hunderWay := h.underWay
      rw [hticking, RequestQueue.pop_eq_some_iff.mp hpop] at hunderWay
      exact h.internal rfl rfl rfl hunderWay
  | @evaluated request result session hticking heval =>
      have hunderWay := h.underWay
      rw [hticking] at hunderWay
      by_cases hclient : request.reply = .client
      · obtain ⟨hasking, hrest⟩ := h.waiting_of_evaluating hticking hclient
        refine h.evaluated _ heval ?_ ?_
        · rw [hasking, Asking.replied, if_pos (congrArg some hclient), Evaluation.of,
            if_pos (congrArg some hclient)]
          rfl
        · rw [Asking.replied, if_pos (congrArg some hclient)]
          exact hrest
      · have hother : some request.reply ≠ some Sender.client := fun heq =>
          hclient (Option.some.inj heq)
        refine h.evaluated _ heval ?_ ?_
        · rw [Asking.replied, if_neg hother, Evaluation.of, if_neg hother]
          exact (List.append_nil _).symm
        · have hnone : request.clientSource = none := if_neg hclient
          rw [Ticking.current, List.singleton_append, List.filterMap_cons_none hnone] at hunderWay
          rw [Asking.replied, if_neg hother]
          exact hunderWay
  | dispatched hticking hpop hsource heval =>
      have hunderWay := h.underWay
      rw [hticking] at hunderWay
      exact h.evaluated c.asking heval (List.append_nil _).symm hunderWay
  | undispatched hticking hpop hsource =>
      have hunderWay := h.underWay
      rw [hticking] at hunderWay
      exact h.internal rfl rfl rfl hunderWay

end Console.Follows

/-! ### Runs -/

/-- What a client reads, line by line: every line of its stream is pushed and gets one line back.
That is the answer that the session gives to it in a history of evaluations, in which the lines
keep their order, unless the queue rejects the line. -/
structure ReadsSession (evalString : EvalString S) (start : S) (events : List ConsoleEvent)
    (c : Console S) : Prop where
  served : LinesServed (clientEvents events) c.client
  replays : Run (EvaluationStep evalString) start (history events) c.session
  replies : (pushed (clientEvents events)).filterMap answeredPush ++ c.asking.unsent =
    (history events).filterMap (Evaluation.of .client)

/-- **Every run follows its history.** -/
theorem console_run {Serve : Client → ServeEvent → Client → Prop} {evalString : EvalString S}
    {start : S} {dispatchSource : Bytes} {events : List ConsoleEvent} {c : Console S}
    (hrun : Run (ConsoleStep Serve evalString dispatchSource) (Console.new start) events c) :
    c.Follows Serve evalString start events :=
  hrun.history (I := fun events c => c.Follows Serve evalString start events)
    (fun _ _ _ _ h hstep => h.step hstep) .new

/-- **Line by line, a client reads what the session answers**, however the stream is cut into
chunks, and whatever other producers push, the dispatch evaluates and the scheduler does in
between; as long as every step of `ServeClient` keeps to the lines. -/
theorem client_reads_session {evalString : EvalString S} {start : S} {dispatchSource : Bytes}
    {events : List ConsoleEvent} {c : Console S}
    (hrun : Run (ConsoleStep FramedStep evalString dispatchSource) (Console.new start) events c)
    (hanswered : ∀ event ∈ clientEvents events, ¬event.Stops) :
    ReadsSession evalString start events c := by
  have h := console_run hrun
  exact ⟨serves_lines h.serves hanswered, h.replays, h.replies⟩

/-- A session that counts its texts and returns them. -/
def countingEval : EvalString Nat := fun n source => (some source, n + 1)

/-- A line of two bytes in two chunks, between which another producer pushes a request; a tick
evaluates both. -/
theorem client_reads_session_chunks : ∃ c,
    ReadsSession countingEval 0
      [.net (.received [97]), .internal, .net (.received [99, 10]), .internal, .internal, .internal,
        .evaluated ⟨some .other, [98], some [98]⟩, .internal,
        .evaluated ⟨some .client, [97, 99], some [97, 99]⟩,
        .net (.turn (.pushed [97, 99] (.answered [97, 99])))] c := by
  let queue (requests : List (Request Sender)) (h : requests.length ≤ 32) : RequestQueue Sender :=
    ⟨requests, h⟩
  let first : Request Sender := ⟨[98], .other⟩
  let second : Request Sender := ⟨[97, 99], .client⟩
  let c₁ : Console Nat := { Console.new 0 with client := .loop (.done [97]) }
  let c₂ : Console Nat := { c₁ with requests := queue [first] (by decide) }
  let c₃ : Console Nat := { c₂ with client := .loop (.turn [97, 99, 10] 2) }
  let c₄ : Console Nat :=
    { c₃ with requests := queue [first, second] (by decide), asking := .waiting [97, 99] }
  let c₅ : Console Nat := { c₄ with ticking := .draining }
  let c₆ : Console Nat :=
    { c₅ with requests := queue [second] (by decide), ticking := .evaluating first }
  let c₇ : Console Nat := { c₆ with ticking := .draining, session := 1 }
  let c₈ : Console Nat := { c₇ with requests := .empty, ticking := .evaluating second }
  let c₉ : Console Nat :=
    { c₈ with asking := .ready [97, 99] [97, 99], ticking := .draining, session := 2 }
  have hreceived : FramedStep (.loop (.done [])) (.received [97]) (.loop (.done [97])) :=
    ⟨⟨.received [] (by decide) (by decide), trivial⟩, (by decide : ¬Exceeds [97])⟩
  have hreceived' : FramedStep (.loop (.done [97])) (.received [99, 10])
      (.loop (.turn [97, 99, 10] 2)) :=
    ⟨⟨.received [97] (by decide) (by decide), trivial⟩, (by decide : ¬Exceeds [97, 99, 10])⟩
  have hturn : FramedStep (.loop (.turn [97, 99, 10] 2))
      (.turn (.pushed [97, 99] (.answered [97, 99]))) (.loop (.done [])) :=
    ⟨⟨.turn (.turn [97, 99, 10] 2 (.answered [97, 99])) (TurnEvent.possible_iff.mpr (by decide)),
      by rintro ⟨⟩⟩, trivial⟩
  have hsource : stripReturn ([97, 99, 10].take 2) ≠ [] := by decide
  have hpush : c₁.requests.push [98] (some .other) = some c₂.requests := rfl
  have hpush' : c₃.requests.push [97, 99] (some .client) = some c₄.requests := rfl
  have h₁ : ConsoleStep FramedStep countingEval [] (Console.new 0) (.net (.received [97])) c₁ :=
    .net rfl rfl hreceived
  have h₂ : ConsoleStep FramedStep countingEval [] c₁ .internal c₂ := .other hpush
  have h₃ : ConsoleStep FramedStep countingEval [] c₂ (.net (.received [99, 10])) c₃ :=
    .net rfl rfl hreceived'
  have h₄ : ConsoleStep FramedStep countingEval [] c₃ .internal c₄ :=
    .pushed rfl rfl hsource hpush'
  have h₅ : ConsoleStep FramedStep countingEval [] c₄ .internal c₅ := .tick rfl
  have h₆ : ConsoleStep FramedStep countingEval [] c₅ .internal c₆ := .popped rfl rfl
  have h₇ : ConsoleStep FramedStep countingEval [] c₆
      (.evaluated ⟨some .other, [98], some [98]⟩) c₇ :=
    @ConsoleStep.evaluated Nat _ _ _ c₆ first _ _ rfl rfl
  have h₈ : ConsoleStep FramedStep countingEval [] c₇ .internal c₈ := .popped rfl rfl
  have h₉ : ConsoleStep FramedStep countingEval [] c₈
      (.evaluated ⟨some .client, [97, 99], some [97, 99]⟩) c₉ :=
    @ConsoleStep.evaluated Nat _ _ _ c₈ second _ _ rfl rfl
  have h₁₀ : ConsoleStep FramedStep countingEval [] c₉
      (.net (.turn (.pushed [97, 99] (.answered [97, 99]))))
      { c₉ with client := .loop (.done []), asking := .idle } := .answered rfl hturn
  refine ⟨_, client_reads_session (.cons h₁ (.cons h₂ (.cons h₃ (.cons h₄ (.cons h₅ (.cons h₆
    (.cons h₇ (.cons h₈ (.cons h₉ (.single h₁₀)))))))))) ?_⟩
  simp [clientEvents, ConsoleEvent.clientEvent, ServeEvent.Stops, or_imp, forall_and]

end LispHost
