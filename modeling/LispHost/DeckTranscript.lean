import LispHost.Console
import LispHost.NeuralDeck
import LispHost.ReplyOnce

/-!
# What the Transcript Shows

The deck and the socket worker push into one queue, and the game thread evaluates what they push in
one session. A form that the deck has submitted is recorded by its callback, when the game thread
replies: with what the session answered, or with the text of the cancellation if the server was
stopped first. In between, the player may type, submit and clear the transcript, the worker serves
its client, and the server may be stopped and started again.

The threads and their steps are those around the queue; here the results come from the session, and
the callbacks of the deck record them.

## Main definitions

* `DeckConsole`, `DeckStep`: the threads, the deck and the session.
* `deckCalls`, `submissions`, `deckAnswers`, `evaluations`: what a run shows.

## Main results

* `deckRun_run`: the deck, the threads and the session in a run.
* `deck_transcript`: the transcript of a run.
-/

namespace LispHost

open Effects

namespace NeuralDeck

variable {S T : Type}

/-- The threads around the queue, with the callbacks of the deck among the others; the deck; and
the session that the game thread evaluates in. -/
structure DeckConsole (S T : Type) where
  repl : Repl (Reply T)
  deck : State
  session : S

/-- An empty deck and an empty queue, before the first start. -/
protected def DeckConsole.new (session : S) : DeckConsole S T where
  repl := .initial
  deck := .new
  session := session

/-- The calls that the player makes on the deck. -/
def DeckCall.FromPlayer : DeckCall → Prop
  | .toggle | .close | .setInput _ | .clearTranscript => True
  | .takeInput _ | .record _ _ => False

/-- The callback that `Submit` makes for a source. -/
def callback (source : Bytes) : Callback (Reply T) := .other (.deck ⟨source⟩)

/-- The callback is one of the deck. -/
def isDeck : Callback (Reply T) → Bool
  | .other (.deck _) => true
  | _ => false

/-- The one that a callback answers. -/
def sender : Callback (Reply T) → Sender
  | .promise _ => .client
  | .other _ => .other

/-- A step that has nothing to do with the deck or the session. -/
def Elsewhere : ReplEvent (Reply T) → Prop
  | .evaluated _ _ => False
  | .accepted _ request => isDeck request.reply = false
  | .replied request _ => isDeck request.reply = false
  | _ => True

/-- What a step does: a call of the player, a submission that is queued or refused, a step of the
threads, an evaluation of a request, or the fixed dispatch. -/
inductive DeckEvent (T : Type) where
  | player (call : DeckCall)
  | submitted (source : Bytes)
  | refused (source : Bytes)
  | repl (event : ReplEvent (Reply T))
  | evaluated (request : Request (Callback (Reply T))) (result : Option Bytes)
  | dispatched (source : Bytes) (result : Option Bytes)

/-- An evaluation of a request, as the history has it. -/
def evaluation (request : Request (Callback (Reply T))) (result : Option Bytes) : Evaluation where
  sender := some (sender request.reply)
  source := request.source
  result := result

/-- One step of the player, of `Submit`, of a thread, or of the session. `Submit` takes the input
and pushes it in any case; what it returns is whether it was pushed. -/
inductive DeckStep (evalString : EvalString S) :
    DeckConsole S T → DeckEvent T → DeckConsole S T → Prop where
  | player {c : DeckConsole S T} {call : DeckCall} {deck : State} : call.FromPlayer →
      c.deck.step call deck → DeckStep evalString c (.player call) { c with deck }
  | submitted {c : DeckConsole S T} {source : Bytes} {deck : State}
      {requests : RequestQueue (Callback (Reply T))} : c.deck.takeInput = (source, deck) →
      source ≠ [] → c.repl.requests.push source (some (callback source)) = some requests →
      DeckStep evalString c (.submitted source)
        { c with deck, repl := { c.repl with requests } }
  | refused {c : DeckConsole S T} {source : Bytes} {deck : State} :
      c.deck.takeInput = (source, deck) →
      source = [] ∨ c.repl.requests.push source (some (callback source)) = none →
      DeckStep evalString c (.refused source) { c with deck }
  | elsewhere {c : DeckConsole S T} {event : ReplEvent (Reply T)} {repl : Repl (Reply T)} :
      Elsewhere event → ReplStep c.repl event repl →
      DeckStep evalString c (.repl event) { c with repl }
  | recorded {c : DeckConsole S T} {source result : Bytes} {reply : DeckReply}
      {repl : Repl (Reply T)} :
      ReplStep c.repl (.replied ⟨source, .other (.deck reply)⟩ result) repl →
      DeckStep evalString c (.repl (.replied ⟨source, .other (.deck reply)⟩ result))
        { c with repl, deck := reply.invoke c.deck result }
  | evaluated {c : DeckConsole S T} {request : Request (Callback (Reply T))}
      {result : Option Bytes} {session : S} {repl : Repl (Reply T)} :
      EvaluationStep evalString c.session (evaluation request result) session →
      ReplStep c.repl (.evaluated request (evaluation request result).reply) repl →
      DeckStep evalString c (.evaluated request result) { c with repl, session }
  | dispatched {c : DeckConsole S T} {source : Bytes} {result : Option Bytes} {session : S} :
      c.repl.owner = .idle → EvaluationStep evalString c.session ⟨none, source, result⟩ session →
      DeckStep evalString c (.dispatched source result) { c with session }

/-! ### What a run shows -/

namespace DeckEvent

/-- What the event is for the threads around the queue. -/
def replEvents : DeckEvent T → List (ReplEvent (Reply T))
  | submitted source => [.accepted .other ⟨source, callback source⟩]
  | repl event => [event]
  | evaluated request result => [.evaluated request (evaluation request result).reply]
  | _ => []

/-- What the event calls on the deck. -/
def deckCalls : DeckEvent T → List DeckCall
  | player call => [call]
  | submitted source | refused source => [.takeInput source]
  | repl (.replied ⟨_, .other (.deck reply)⟩ result) => [.record reply.source result]
  | _ => []

/-- The evaluation that the event is, if it is one. -/
def evaluations : DeckEvent T → List Evaluation
  | evaluated request result => [evaluation request result]
  | dispatched source result => [⟨none, source, result⟩]
  | _ => []

/-- The form that the event queues. -/
def submissions : DeckEvent T → List Bytes
  | submitted source => [source]
  | _ => []

end DeckEvent

/-- What the threads did. -/
def replEvents (events : List (DeckEvent T)) : List (ReplEvent (Reply T)) :=
  events.flatMap DeckEvent.replEvents

/-- What was called on the deck. -/
def deckCalls (events : List (DeckEvent T)) : List DeckCall := events.flatMap DeckEvent.deckCalls

/-- Everything that was evaluated, in order. -/
def evaluations (events : List (DeckEvent T)) : List Evaluation :=
  events.flatMap DeckEvent.evaluations

/-- The forms that were submitted, in order. -/
def submissions (events : List (DeckEvent T)) : List Bytes := events.flatMap DeckEvent.submissions

/-- The form of a request, if it is one of the deck. -/
def deckForm (request : Request (Callback (Reply T))) : Option Bytes :=
  if isDeck request.reply then some request.source else none

/-- An answer to a form of the deck. -/
def deckAnswer (answer : Request (Callback (Reply T)) × Bytes) : Option (Bytes × Bytes) :=
  (deckForm answer.1).map fun form => (form, answer.2)

/-- What was answered to the forms of the deck, in order: by the session, or by the
cancellation. -/
def deckAnswers (events : List (DeckEvent T)) : List (Bytes × Bytes) :=
  ((replEvents events).flatMap ReplEvent.answers).filterMap deckAnswer

/-- **The transcript of a run.** -/
structure Transcribed (evalString : EvalString S) (start : S) (events : List (DeckEvent T))
    (c : DeckConsole S T) : Prop where
  /-- What was evaluated is a run of the session. -/
  replays : Run (EvaluationStep evalString) start (evaluations events) c.session
  /-- The transcript and the history are the last of what was recorded and of what was taken. -/
  shows : Logged (· % 2 ^ 64) (deckCalls events) c.deck
  /-- The forms that were submitted are recorded in that order, or they are not answered yet. -/
  order : submissions events =
    (records (deckCalls events)).map Prod.fst ++ c.repl.unanswered.filterMap deckForm
  /-- A form is recorded with its own answer. -/
  answers : records (deckCalls events) <+: deckAnswers events
  /-- An answer is what the session answered to the form, unless the form was cancelled. -/
  evaluated : ∀ answer ∈ deckAnswers events, answer.2 = sessionEnded ∨
    ∃ evaluation ∈ evaluations events, evaluation.of .other = some answer

/-! ### One step -/

/-- The callback has the source of its own request. -/
def Own (request : Request (Callback (Reply T))) : Prop :=
  ∀ reply, request.reply = .other (.deck reply) → reply.source = request.source

section Steps

variable {evalString : EvalString S} {start : S} {events : List (DeckEvent T)}
  {event : DeckEvent T} {c c' : DeckConsole S T}

/-- What a step elsewhere has to do with the deck. -/
theorem Elsewhere.frame {event : ReplEvent (Reply T)} (h : Elsewhere event) :
    (∀ request ∈ event.accepts, isDeck request.reply = false) ∧
      event.replies.filterMap deckAnswer = [] ∧
      (∀ answer ∈ event.answers, answer.2 = sessionEnded) ∧
      (DeckEvent.repl event : DeckEvent T).deckCalls = [] := by
  cases event with
  | accepted producer request =>
      refine ⟨fun request' hmem => ?_, rfl, by rintro _ ⟨⟩, rfl⟩
      rw [List.mem_singleton.mp hmem]
      exact h
  | replied request result =>
      have hdeck : isDeck request.reply = false := h
      refine ⟨by rintro _ ⟨⟩, ?_, by rintro _ ⟨⟩, ?_⟩
      · simp [ReplEvent.replies, deckAnswer, deckForm, hdeck]
      · obtain ⟨source, _ | _ | _⟩ := request
        · rfl
        · cases hdeck
        · rfl
  | evaluated => exact h.elim
  | swapped requests =>
      refine ⟨by rintro _ ⟨⟩, rfl, fun answer hmem => ?_, rfl⟩
      obtain ⟨request, -, rfl⟩ := List.mem_map.mp hmem
      rfl
  | _ => exact ⟨by rintro _ ⟨⟩, rfl, by rintro _ ⟨⟩, rfl⟩

/-- What a step does to the threads, to the session and to the deck. -/
structure StepShows (evalString : EvalString S) (c : DeckConsole S T) (event : DeckEvent T)
    (c' : DeckConsole S T) : Prop where
  threads : Run ReplStep c.repl event.replEvents c'.repl
  session : Run (EvaluationStep evalString) c.session event.evaluations c'.session
  deck : Run State.step c.deck event.deckCalls c'.deck
  submitted : (event.replEvents.flatMap ReplEvent.accepts).filterMap deckForm = event.submissions
  own : ∀ request ∈ event.replEvents.flatMap ReplEvent.accepts, Own request
  recorded : (∀ request ∈ (event.replEvents.flatMap ReplEvent.replies).map Prod.fst, Own request) →
    records event.deckCalls = (event.replEvents.flatMap ReplEvent.replies).filterMap deckAnswer
  answered : ∀ answer ∈ event.replEvents.flatMap ReplEvent.answers, answer.2 = sessionEnded ∨
    ∃ evaluation ∈ event.evaluations, evaluation.sender = some (sender answer.1.reply) ∧
      evaluation.source = answer.1.source ∧ evaluation.reply = answer.2

/-- **One step.** -/
theorem DeckStep.shows (h : DeckStep evalString c event c') :
    StepShows evalString c event c' := by
  cases h with
  | @player call deck hplayer hcall =>
      refine ⟨.nil _, .nil _, .single hcall, rfl, by rintro _ ⟨⟩, fun _ => ?_,
        by rintro _ ⟨⟩⟩
      cases call <;> first | rfl | exact hplayer.elim
  | submitted htaken hsource hpush =>
      refine ⟨.single (.producer (.accepted hpush)), .nil _, .single htaken.symm, rfl, ?_,
        fun _ => rfl, by rintro _ ⟨⟩⟩
      intro request hmem reply hreply
      obtain rfl := List.mem_singleton.mp hmem
      cases hreply
      rfl
  | refused htaken =>
      exact ⟨.nil _, .nil _, .single htaken.symm, rfl, by rintro _ ⟨⟩, fun _ => rfl, by rintro _ ⟨⟩⟩
  | @elsewhere event repl helsewhere hstep =>
      obtain ⟨haccepts, hreplies, hanswers, hcalls⟩ := helsewhere.frame
      have hflat : (DeckEvent.repl event : DeckEvent T).replEvents.flatMap ReplEvent.accepts =
          event.accepts := List.flatMap_singleton _ _
      have hflat' : (DeckEvent.repl event : DeckEvent T).replEvents.flatMap ReplEvent.replies =
          event.replies := List.flatMap_singleton _ _
      have hflat'' : (DeckEvent.repl event : DeckEvent T).replEvents.flatMap ReplEvent.answers =
          event.answers := List.flatMap_singleton _ _
      refine ⟨.single hstep, .nil _, ?_, ?_, ?_, fun _ => ?_, fun answer hmem => ?_⟩
      · rw [hcalls]
        exact .nil _
      · rw [hflat]
        refine List.filterMap_eq_nil_iff.mpr fun request hmem => ?_
        exact if_neg (by simp [haccepts request hmem])
      · rw [hflat]
        intro request hmem reply hreply
        have hdeck := haccepts request hmem
        rw [hreply] at hdeck
        cases hdeck
      · rw [hcalls, hflat', hreplies]
        rfl
      · rw [hflat''] at hmem
        exact .inl (hanswers answer hmem)
  | @recorded source result reply repl hstep =>
      refine ⟨.single hstep, .nil _, .single rfl, rfl, by rintro _ ⟨⟩, fun hown => ?_,
        by rintro _ ⟨⟩⟩
      have hsource : reply.source = source :=
        hown ⟨source, .other (.deck reply)⟩ (List.mem_singleton.mpr rfl) reply rfl
      change [(reply.source, result)] = [(source, result)]
      rw [hsource]
  | evaluated heval hstep =>
      refine ⟨.single hstep, .single heval, .nil _, rfl, by rintro _ ⟨⟩, fun _ => rfl, ?_⟩
      intro answer hmem
      obtain rfl := List.mem_singleton.mp hmem
      exact .inr ⟨_, List.mem_singleton.mpr rfl, rfl, rfl, rfl⟩
  | dispatched howner heval =>
      exact ⟨.nil _, .single heval, .nil _, rfl, by rintro _ ⟨⟩, fun _ => rfl, by rintro _ ⟨⟩⟩

end Steps

/-! ### Runs -/

/-- Every request that was accepted is answered, or it is not answered yet. -/
theorem accepts_run {R : Type} {events : List (ReplEvent R)} {r : Repl R}
    (h : Run ReplStep .initial events r) :
    events.flatMap ReplEvent.accepts =
      (events.flatMap ReplEvent.replies).map Prod.fst ++ r.unanswered := by
  have hpending : events.flatMap ReplEvent.accepts =
      events.flatMap ReplEvent.removes ++ r.requests.requests := pending_run h
  have hremoved : events.flatMap ReplEvent.removes =
      (events.flatMap ReplEvent.answers).map Prod.fst ++ r.owner.popped := removed_run h
  have howed : events.flatMap ReplEvent.answers =
      events.flatMap ReplEvent.replies ++ r.owner.owed := owed_run h fresh_initial
  have hinHand : r.owner.owed.map Prod.fst ++ r.owner.popped = r.owner.inHand := by
    rw [OwnerState.inHand]
    cases r.owner <;> simp [OwnerState.popped, OwnerState.owed]
  rw [hpending, hremoved, howed, List.map_append, Repl.unanswered, ← hinHand]
  simp only [List.append_assoc]

section Runs

variable {evalString : EvalString S} {start : S} {events : List (DeckEvent T)}
  {c : DeckConsole S T}

/-- The threads in a run. -/
theorem threads_run (h : Run (DeckStep evalString) (.new start) events c) :
    Run ReplStep .initial (replEvents events) c.repl :=
  h.flatMap DeckConsole.repl _ fun _ _ _ hstep => hstep.shows.threads

/-- Every event of a run comes from a step that shows it. -/
theorem labels_run (h : Run (DeckStep evalString) (.new start) events c) :
    ∀ event ∈ events, ∃ c₁ c₂, StepShows evalString c₁ event c₂ :=
  h.labels (I := fun _ => True) (fun _ _ _ _ hstep => ⟨trivial, _, _, hstep.shows⟩) trivial

/-- What the deck has pushed is what it has submitted. -/
theorem submissions_run (h : Run (DeckStep evalString) (.new start) events c) :
    ((replEvents events).flatMap ReplEvent.accepts).filterMap deckForm = submissions events := by
  rw [replEvents, List.flatMap_assoc, List.filterMap_flatMap]
  refine List.flatMap_congr fun event hmem => ?_
  obtain ⟨_, _, hshows⟩ := labels_run h event hmem
  exact hshows.submitted

/-- Every request of the deck carries the callback of its own source. -/
theorem own_run (h : Run (DeckStep evalString) (.new start) events c) :
    ∀ request ∈ (replEvents events).flatMap ReplEvent.accepts, Own request := by
  rw [replEvents, List.flatMap_assoc]
  intro request hmem
  obtain ⟨event, hevent, hrequest⟩ := List.mem_flatMap.mp hmem
  obtain ⟨_, _, hshows⟩ := labels_run h event hevent
  exact hshows.own request hrequest

/-- What the deck has recorded is what was answered to its forms. -/
theorem records_run (h : Run (DeckStep evalString) (.new start) events c) :
    records (deckCalls events) =
      ((replEvents events).flatMap ReplEvent.replies).filterMap deckAnswer := by
  have hown : ∀ request ∈ ((replEvents events).flatMap ReplEvent.replies).map Prod.fst,
      Own request := by
    intro request hmem
    refine own_run h request ?_
    rw [accepts_run (threads_run h)]
    exact List.mem_append_left _ hmem
  rw [replEvents, List.flatMap_assoc] at hown ⊢
  rw [deckCalls, records, List.filterMap_flatMap, List.filterMap_flatMap]
  refine List.flatMap_congr fun event hmem => ?_
  obtain ⟨_, _, hshows⟩ := labels_run h event hmem
  refine hshows.recorded fun request hrequest => hown request ?_
  rw [List.map_flatMap]
  exact List.mem_flatMap.mpr ⟨event, hmem, hrequest⟩

/-- A form that is answered is evaluated, or it is cancelled. -/
theorem evaluated_run (h : Run (DeckStep evalString) (.new start) events c)
    {answer : Bytes × Bytes} (hmem : answer ∈ deckAnswers events) :
    answer.2 = sessionEnded ∨
      ∃ evaluation ∈ evaluations events, evaluation.of .other = some answer := by
  rw [deckAnswers, replEvents, List.flatMap_assoc] at hmem
  obtain ⟨⟨request, result⟩, hanswered, hanswer⟩ := List.mem_filterMap.mp hmem
  obtain ⟨event, hevent, hdecided⟩ := List.mem_flatMap.mp hanswered
  obtain ⟨form, hform, rfl⟩ := Option.map_eq_some_iff.mp hanswer
  obtain ⟨hdeck, hsome⟩ := Option.ite_none_right_eq_some.mp hform
  obtain rfl := Option.some.inj hsome
  obtain ⟨_, _, hshows⟩ := labels_run h event hevent
  obtain hended | ⟨evaluation, hevaluation, hsender, hsource, hreply⟩ :=
    hshows.answered (request, result) hdecided
  · exact .inl hended
  · refine .inr ⟨evaluation, List.mem_flatMap.mpr ⟨event, hevent, hevaluation⟩, ?_⟩
    have hother : sender request.reply = .other := by
      cases hreplied : request.reply with
      | other => rfl
      | promise n =>
          rw [hreplied] at hdeck
          cases hdeck
    rw [Evaluation.of, if_pos (hsender.trans (congrArg some hother)), hsource, hreply]

/-- **The transcript is the log of what was submitted.** In every run of the player, the socket
worker, the game thread and the owner of the server, over any number of lifetimes of the server:
the forms that `Submit` has pushed are recorded in that order, each once and with its own answer,
or they are not answered yet; an answer is what the one session has answered to the form, or the
text of the cancellation; and what the player sees is the last of what was recorded since the
transcript was cleared, numbered from the first record on. -/
theorem deck_transcript (h : Run (DeckStep evalString) (.new start) events c) :
    Transcribed evalString start events c where
  replays := h.flatMap DeckConsole.session _ fun _ _ _ hstep => hstep.shows.session
  shows := by
    have hdeck : Run State.step State.new (deckCalls events) c.deck :=
      h.flatMap DeckConsole.deck _ fun _ _ _ hstep => hstep.shows.deck
    exact (Kept.of_run hdeck).logged
  order := by
    rw [← submissions_run h, accepts_run (threads_run h), List.filterMap_append, records_run h]
    refine congrArg (· ++ _) ?_
    rw [List.filterMap_map, List.map_filterMap]
    refine List.filterMap_congr fun answer _ => ?_
    simp only [Function.comp_apply, deckAnswer, Option.map_map]
    exact Option.map_id'.symm
  answers := by
    have howed : (replEvents events).flatMap ReplEvent.answers =
        (replEvents events).flatMap ReplEvent.replies ++ c.repl.owner.owed :=
      owed_run (threads_run h) fresh_initial
    rw [records_run h, deckAnswers, howed, List.filterMap_append]
    exact List.prefix_append _ _
  evaluated := fun _ hmem => evaluated_run h hmem

end Runs

/-- A form that is evaluated and recorded, a transcript that is cleared, and a form that `Stop`
cancels. -/
def cancelledForm : List (DeckEvent Empty) :=
  [.repl (.started true), .player (.setInput [53]), .submitted [53], .repl .internal,
    .repl (.popped ⟨[53], callback [53]⟩), .evaluated ⟨[53], callback [53]⟩ (some [56]),
    .repl (.replied ⟨[53], callback [53]⟩ [56]), .repl .drained,
    .player .clearTranscript, .player (.setInput [54]), .submitted [54],
    .repl .internal, .repl .internal, .repl .internal, .repl .internal,
    .repl (.swapped [⟨[54], callback [54]⟩]),
    .repl (.replied ⟨[54], callback [54]⟩ sessionEnded), .repl .cancelled, .repl .stopped]

/-- What the transcript has in the end: the form that `Stop` cancelled. -/
theorem deck_transcript_cancelled : ∃ c : DeckConsole Unit Empty,
    Transcribed (fun session _ => (some [56], session)) () cancelledForm c := by
  have hstart : (Repl.initial : Repl (Reply Empty)).impl.start ⟨true, true, true, true⟩ =
      .started ⟨true, true, true, true, true⟩ := rfl
  exact ⟨_, deck_transcript (.cons (.elsewhere trivial (.owner (.started rfl hstart)))
    (.cons (.player trivial rfl) (.cons (.submitted rfl (List.cons_ne_nil 53 []) rfl)
    (.cons (.elsewhere trivial (.owner (.drain rfl rfl)))
    (.cons (.elsewhere trivial (.owner (.popped rfl rfl)))
    (.cons (.evaluated rfl (.owner (.evaluated _ rfl)))
    (.cons (.recorded (.owner (.replied rfl rfl)))
    (.cons (.elsewhere trivial (.owner (.drained rfl rfl)))
    (.cons (.player trivial rfl) (.cons (.player trivial rfl)
    (.cons (.submitted rfl (List.cons_ne_nil 54 []) rfl)
    -- the server is stopped
    (.cons (.elsewhere trivial (.owner (.stop rfl)))
    (.cons (.elsewhere trivial (.owner (.halt rfl)))
    (.cons (.elsewhere trivial (.worker (.checkLoop rfl)))
    (.cons (.elsewhere trivial (.owner (.join rfl (.inr rfl))))
    (.cons (.elsewhere trivial (.owner (.swapped rfl rfl)))
    (.cons (.recorded (.owner (.cancelReplied rfl rfl)))
    (.cons (.elsewhere trivial (.owner (.cancelled rfl)))
    (.single (.elsewhere trivial (.owner (.stopped rfl))))))))))))))))))))))⟩

end NeuralDeck

end LispHost
