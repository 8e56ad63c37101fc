import LispHost.ServeClient

/-!
# The Stream of a Client

`ServeClient` from its first `recv` to its return. In front of the inner loop it appends the
chunk that it has received to its buffer, and it gives a client up whose buffer has become too
long without a newline. How the stream is cut into chunks is left open, and so is which pushes
the queue rejects for being full.

## Main definitions

* `Client`, `ServeEvent`, `ServeStep`: the outer loop around the turns.
* `stream`, `pushed`, `sent`: what a run receives, pushes and sends.
* `Undisturbed`, `WithinLimit`: the steps that keep to the lines of the stream.

## Main results

* `framed_run`: what has been pushed, and what the buffer holds.
* `serves_lines`: the pushes are the lines that are not blank, however the stream is cut.
* `rejections_keep_lines`: a rejected line does not touch the lines behind it.
-/

namespace LispHost

open Effects

/-! ### The outer loop -/

/-- The size of `chunk`. -/
def chunkSize : Nat := 1024

/-- The reply to a line that is too long. -/
def requestTooLarge : Bytes := utf8 "error: REPL request exceeds 16384 bytes"

/-- The reply to a line that the queue does not take. -/
def requestRejected : Bytes := utf8 "error: REPL request rejected (size or queue capacity)"

/-- Between two steps: in the inner loop, in front of `recv` (`done`), behind a `return`; or in
front of the error for a buffer that is too long. -/
inductive Client where
  | loop (scan : Scan)
  | oversize
deriving DecidableEq, Repr

/-- A buffer that is too long without a newline. -/
def Exceeds (buffered : Bytes) : Prop :=
  kMaxRequestBytes < buffered.length ∧ findNewline buffered = none

instance (buffered : Bytes) : Decidable (Exceeds buffered) := inferInstanceAs (Decidable (_ ∧ _))

/-- Behind the `append`. -/
def afterReceive (buffered : Bytes) : Client :=
  if Exceeds buffered then .oversize else .loop (scan buffered)

/-- What a step does. `hungUp` is every error of `recv` but the timeout, and the end of the
stream; `stopped` is the end of the outer loop. -/
inductive ServeEvent where
  | timedOut
  | hungUp
  | stopped
  | received (chunk : Bytes)
  | oversize
  | turn (event : TurnEvent)
deriving DecidableEq, Repr

/-- A push is rejected exactly if the queue at that moment rejects it. -/
def TurnEvent.Possible : TurnEvent → Prop
  | .blank => True
  | .pushed source outcome =>
      ∃ queue : RequestQueue Unit, outcome = .rejected ↔ queue.push source (some ()) = none

/-- The queue may reject any push, and it rejects those that are too long. -/
theorem TurnEvent.possible_iff {source : Bytes} {outcome : PushOutcome} :
    (TurnEvent.pushed source outcome).Possible ↔
      (kMaxRequestBytes < source.length → outcome = .rejected) := by
  constructor
  · rintro ⟨queue, hqueue⟩ hlong
    refine hqueue.mpr (Option.eq_none_iff_forall_ne_some.mpr fun queue' hpush => ?_)
    obtain ⟨-, -, hsize, -⟩ := RequestQueue.push_eq_some_iff.mp hpush
    exact Nat.not_lt_of_le hsize hlong
  · intro hlong
    by_cases houtcome : outcome = .rejected
    · let full : RequestQueue Unit :=
        { requests := List.replicate kMaxPendingRequests ⟨[], ()⟩
          bounded := Nat.le_of_eq List.length_replicate }
      refine ⟨full, iff_of_true houtcome ?_⟩
      refine Option.eq_none_iff_forall_ne_some.mpr fun queue' hpush => ?_
      obtain ⟨-, -, -, hroom, -⟩ := RequestQueue.push_eq_some_iff.mp hpush
      exact absurd hroom (by decide)
    · refine ⟨.empty, iff_of_false houtcome fun hnone => ?_⟩
      have hpush : RequestQueue.empty.push source (some ()) =
          some ⟨[⟨source, ()⟩], Nat.le_add_left 1 31⟩ := by
        refine RequestQueue.push_eq_some_iff.mpr ⟨(), rfl, ?_, by decide, rfl⟩
        exact Nat.le_of_not_lt fun hlt => houtcome (hlong hlt)
      rw [hnone] at hpush
      cases hpush

/-- The steps of `ServeClient`. -/
inductive ServeStep : Client → ServeEvent → Client → Prop where
  | timedOut (buffered : Bytes) :
      ServeStep (.loop (.done buffered)) .timedOut (.loop (.done buffered))
  | hungUp (buffered : Bytes) : ServeStep (.loop (.done buffered)) .hungUp (.loop .returned)
  | stopped (buffered : Bytes) : ServeStep (.loop (.done buffered)) .stopped (.loop .returned)
  | received (buffered : Bytes) {chunk : Bytes} : chunk ≠ [] → chunk.length ≤ chunkSize →
      ServeStep (.loop (.done buffered)) (.received chunk) (afterReceive (buffered ++ chunk))
  | oversize : ServeStep .oversize .oversize (.loop .returned)
  | turn {s s' : Scan} {event : TurnEvent} : TurnStep s event s' → event.Possible →
      ServeStep (.loop s) (.turn event) (.loop s')

/-! ### What a run does -/

/-- The lines that a push sends, in the end. -/
def PushOutcome.reply : PushOutcome → List Bytes
  | rejected => [requestRejected]
  | answered reply => [reply]
  | stopped => []

namespace ServeEvent

/-- The bytes that an event receives. -/
def bytes : ServeEvent → Bytes
  | received chunk => chunk
  | _ => []

/-- The push that an event makes, with its end. -/
def pushes : ServeEvent → List (Bytes × PushOutcome)
  | turn (.pushed source outcome) => [(source, outcome)]
  | _ => []

/-- The texts that go to `SendLine`. -/
def sends : ServeEvent → List Bytes
  | oversize => [requestTooLarge]
  | turn (.pushed _ outcome) => outcome.reply
  | _ => []

/-- The event is a turn of the inner loop. -/
def isTurn : ServeEvent → Bool
  | turn _ => true
  | _ => false

/-- The step finds that the server has been stopped. -/
def Stops : ServeEvent → Prop
  | stopped => True
  | turn (.pushed _ .stopped) => True
  | _ => False

end ServeEvent

/-- The bytes received. -/
def stream (events : List ServeEvent) : Bytes := events.flatMap ServeEvent.bytes

/-- The pushes, and how they end. -/
def pushed (events : List ServeEvent) : List (Bytes × PushOutcome) :=
  events.flatMap ServeEvent.pushes

/-- The sources pushed. -/
def sources (events : List ServeEvent) : List Bytes := (pushed events).map Prod.fst

/-- What the pushes send. -/
def replied (events : List ServeEvent) : List Bytes :=
  (pushed events).flatMap fun push => push.2.reply

/-- The lines sent. -/
def sent (events : List ServeEvent) : List Bytes := events.flatMap ServeEvent.sends

/-- The turns of the inner loop. -/
def turns (events : List ServeEvent) : Nat := events.countP ServeEvent.isTurn

section Snoc

variable (events : List ServeEvent) (event : ServeEvent)

/-- The stream with one more event. -/
@[simp] theorem stream_snoc : stream (events ++ [event]) = stream events ++ event.bytes := by
  rw [stream, List.flatMap_append, List.flatMap_singleton, stream]

/-- The pushes with one more event. -/
@[simp] theorem pushed_snoc : pushed (events ++ [event]) = pushed events ++ event.pushes := by
  rw [pushed, List.flatMap_append, List.flatMap_singleton, pushed]

/-- The sources with one more event. -/
@[simp] theorem sources_snoc :
    sources (events ++ [event]) = sources events ++ event.pushes.map Prod.fst := by
  rw [sources, pushed_snoc, List.map_append, sources]

/-- The replies with one more event. -/
@[simp] theorem replied_snoc : replied (events ++ [event]) =
    replied events ++ event.pushes.flatMap fun push => push.2.reply := by
  rw [replied, pushed_snoc, List.flatMap_append, replied]

/-- The lines sent, with one more event. -/
@[simp] theorem sent_snoc : sent (events ++ [event]) = sent events ++ event.sends := by
  rw [sent, List.flatMap_append, List.flatMap_singleton, sent]

/-- The turns with one more event. -/
@[simp] theorem turns_snoc :
    turns (events ++ [event]) = turns events + if event.isTurn then 1 else 0 := by
  rw [turns, List.countP_append, List.countP_singleton, turns]

/-- A step that sends what its push sends. -/
theorem sent_snoc_eq {events : List ServeEvent} {event : ServeEvent}
    (h : sent events = replied events)
    (hevent : event.sends = event.pushes.flatMap fun push => push.2.reply) :
    sent (events ++ [event]) = replied (events ++ [event]) := by
  rw [sent_snoc, replied_snoc, h, hevent]

end Snoc

/-! ### Lines of a stream -/

/-- What is behind the last newline. -/
def unfinished : Bytes → Bytes
  | [] => []
  | c :: rest => if findNewline (c :: rest) = none then c :: rest else unfinished rest

/-- The requests in some lines. -/
def requestLines (ls : List Bytes) : List Bytes := (ls.map stripReturn).filter (· ≠ [])

/-- The requests of two sequences of lines. -/
theorem requestLines_append (ls others : List Bytes) :
    requestLines (ls ++ others) = requestLines ls ++ requestLines others := by
  rw [requestLines, List.map_append, List.filter_append, requestLines, requestLines]

/-- Lines that are not blank are all requests. -/
theorem requestLines_of_ne_nil {ls : List Bytes} (h : ∀ line ∈ ls, stripReturn line ≠ []) :
    requestLines ls = ls.map stripReturn := by
  rw [requestLines, List.filter_eq_self]
  rintro _ hmem
  obtain ⟨line, hline, rfl⟩ := List.mem_map.mp hmem
  exact decide_eq_true (h line hline)

/-- More bytes do not move the first newline. -/
theorem findNewline_append {buffered : Bytes} {newline : Nat}
    (h : findNewline buffered = some newline) (tail : Bytes) :
    findNewline (buffered ++ tail) = some newline := by
  rw [findNewline, List.findIdx?_append, ← findNewline, h]
  rfl

/-- A newline that comes with a chunk is behind what was there before. -/
theorem le_of_findNewline_append {buffered chunk : Bytes} {newline : Nat}
    (hnone : findNewline buffered = none)
    (h : findNewline (buffered ++ chunk) = some newline) : buffered.length ≤ newline := by
  rw [findNewline, List.findIdx?_append, ← findNewline, hnone, Option.none_or,
    Option.map_eq_some_iff] at h
  obtain ⟨k, -, rfl⟩ := h
  exact Nat.le_add_left _ _

/-- The first newline is in the buffer. -/
theorem findNewline_lt {buffered : Bytes} {newline : Nat}
    (h : findNewline buffered = some newline) : newline < buffered.length :=
  (List.findIdx?_eq_some_iff_getElem.mp h).1

/-- A buffer without a newline is all unfinished. -/
theorem unfinished_of_findNewline_none {buffered : Bytes} (h : findNewline buffered = none) :
    unfinished buffered = buffered := by
  cases buffered with
  | nil => rfl
  | cons c rest => rw [unfinished, if_pos h]

/-- What is behind a newline decides about the rest. -/
theorem unfinished_of_findNewline {buffered : Bytes} {newline : Nat}
    (h : findNewline buffered = some newline) :
    unfinished buffered = unfinished (buffered.drop (newline + 1)) := by
  induction buffered generalizing newline with
  | nil => cases h
  | cons c rest ih =>
      have hne : findNewline (c :: rest) ≠ none := by
        rw [h]
        exact Option.some_ne_none _
      rw [unfinished, if_neg hne]
      rw [findNewline_cons] at h
      by_cases hc : c = lineFeed
      · rw [if_pos hc] at h
        cases h
        rfl
      · rw [if_neg hc, Option.map_eq_some_iff] at h
        obtain ⟨k, hk, rfl⟩ := h
        exact ih hk

/-- Some first lines of a stream are taken, the rest is left, whatever comes behind it. -/
structure Behind (bytes : Bytes) (taken : List Bytes) (rest : Bytes) : Prop where
  lines_eq : ∀ tail, lines (bytes ++ tail) = taken ++ lines (rest ++ tail)
  unfinished_eq : ∀ tail, unfinished (bytes ++ tail) = unfinished (rest ++ tail)

namespace Behind

/-- Behind nothing there is nothing. -/
theorem nil : Behind [] [] [] where
  lines_eq _ := rfl
  unfinished_eq _ := rfl

variable {bytes rest : Bytes} {taken : List Bytes}

/-- More bytes come behind the rest. -/
theorem append (h : Behind bytes taken rest) (chunk : Bytes) :
    Behind (bytes ++ chunk) taken (rest ++ chunk) where
  lines_eq tail := by rw [List.append_assoc, h.lines_eq, List.append_assoc]
  unfinished_eq tail := by rw [List.append_assoc, h.unfinished_eq, List.append_assoc]

/-- The first line of the rest is taken. -/
theorem line (h : Behind bytes taken rest) {newline : Nat}
    (hfind : findNewline rest = some newline) :
    Behind bytes (taken ++ [rest.take newline]) (rest.drop (newline + 1)) := by
  have hlt := findNewline_lt hfind
  constructor
  · intro tail
    calc lines (bytes ++ tail)
        = taken ++ lines (rest ++ tail) := h.lines_eq tail
      _ = taken ++ (rest.take newline :: lines (rest.drop (newline + 1) ++ tail)) := by
        rw [lines_of_findNewline (findNewline_append hfind tail),
          List.take_append_of_le_length (Nat.le_of_lt hlt),
          List.drop_append_of_le_length hlt]
      _ = taken ++ [rest.take newline] ++ lines (rest.drop (newline + 1) ++ tail) :=
        List.append_cons _ _ _
  · intro tail
    rw [h.unfinished_eq, unfinished_of_findNewline (findNewline_append hfind tail),
      List.drop_append_of_le_length hlt]

/-- The lines of the stream are those taken and those of the rest. -/
theorem lines_stream (h : Behind bytes taken rest) : lines bytes = taken ++ lines rest := by
  have hlines := h.lines_eq []
  rwa [List.append_nil, List.append_nil] at hlines

/-- The unfinished line is in the rest. -/
theorem unfinished_stream (h : Behind bytes taken rest) : unfinished bytes = unfinished rest := by
  have hunfinished := h.unfinished_eq []
  rwa [List.append_nil, List.append_nil] at hunfinished

end Behind

/-! ### Steps that keep to the lines -/

/-- The turn goes on without looking the newline up. -/
def TurnEvent.GoesOn : TurnEvent → Prop
  | .blank => True
  | .pushed _ outcome => outcome = .rejected

/-- Where a turn goes on without looking the newline up, the buffer holds another complete line
behind the one that the turn takes, and it is exactly as long. -/
def Undisturbed : Client → ServeEvent → Prop
  | .loop (.turn buffered newline), .turn event =>
      event.GoesOn → findNewline (buffered.drop (newline + 1)) = some newline
  | _, _ => True

/-- A chunk does not leave a buffer that is too long without a newline. -/
def WithinLimit : Client → ServeEvent → Prop
  | .loop (.done buffered), .received chunk => ¬Exceeds (buffered ++ chunk)
  | _, _ => True

/-- The steps of `ServeClient` that are undisturbed. -/
def UndisturbedStep (client : Client) (event : ServeEvent) (client' : Client) : Prop :=
  ServeStep client event client' ∧ Undisturbed client event

/-- Of these, the ones within the limit. -/
def FramedStep (client : Client) (event : ServeEvent) (client' : Client) : Prop :=
  UndisturbedStep client event client' ∧ WithinLimit client event

/-- Where the loop stands, what the buffer holds and what has been sent, when `rest` is left of
the stream. -/
inductive Holds (events : List ServeEvent) (rest : Bytes) : Client → Prop where
  | done : findNewline rest = none → rest.length ≤ kMaxRequestBytes →
      sent events = replied events → Holds events rest (.loop (.done rest))
  | turn {newline : Nat} : findNewline rest = some newline →
      rest.length ≤ newline + chunkSize → sent events = replied events →
      Holds events rest (.loop (.turn rest newline))
  | oversize : Exceeds rest → sent events = replied events → Holds events rest .oversize
  | overflowed : Exceeds rest → sent events = replied events ++ [requestTooLarge] →
      Holds events rest (.loop .returned)
  | closed : findNewline rest = none → sent events = replied events →
      Holds events rest (.loop .returned)
  | abandoned {source : Bytes} : .turn (.pushed source .stopped) ∈ events →
      sent events = replied events → Holds events rest (.loop .returned)

/-- **The invariant**: the lines taken have been pushed, and the rest of the stream is held. -/
structure Framed (events : List ServeEvent) (client : Client) (taken : List Bytes)
    (rest : Bytes) : Prop where
  behind : Behind (stream events) taken rest
  sources : sources events = requestLines taken
  turns : turns events = taken.length
  holds : Holds events rest client

/-- A new connection has received nothing. -/
theorem framed_nil : Framed [] (.loop (.done [])) [] [] where
  behind := .nil
  sources := rfl
  turns := rfl
  holds := .done rfl (Nat.zero_le _) rfl

/-- The loop with its index looked up, when at most a chunk is left. -/
theorem Holds.scan {events : List ServeEvent} {rest : Bytes} (hlength : rest.length ≤ chunkSize)
    (hsent : sent events = replied events) : Holds events rest (.loop (scan rest)) := by
  cases hfind : findNewline rest with
  | none =>
      rw [scan_of_none hfind]
      exact .done hfind (Nat.le_trans hlength (by decide)) hsent
  | some newline =>
      rw [scan_of_some hfind]
      exact .turn hfind (Nat.le_trans hlength (Nat.le_add_left _ _)) hsent

/-- A step in front of `recv` that receives nothing. -/
theorem framed_idle {events : List ServeEvent} {client client' : Client} {taken : List Bytes}
    {rest : Bytes} (h : Framed events client taken rest) {event : ServeEvent}
    (hbytes : event.bytes = []) (hpushes : event.pushes = []) (hturn : event.isTurn = false)
    (hholds : Holds (events ++ [event]) rest client') :
    Framed (events ++ [event]) client' taken rest where
  behind := by
    rw [stream_snoc, hbytes, List.append_nil]
    exact h.behind
  sources := by
    rw [sources_snoc, hpushes, h.sources]
    exact List.append_nil _
  turns := by
    rw [turns_snoc, hturn, h.turns]
    rfl
  holds := hholds

/-- Behind a `recv`. -/
theorem Holds.received {events : List ServeEvent} {buffered chunk : Bytes}
    (hnone : findNewline buffered = none) (hlength : chunk.length ≤ chunkSize)
    (hsent : sent events = replied events) :
    Holds events (buffered ++ chunk) (afterReceive (buffered ++ chunk)) := by
  rw [afterReceive]
  by_cases hexceeds : Exceeds (buffered ++ chunk)
  · rw [if_pos hexceeds]
    exact .oversize hexceeds hsent
  rw [if_neg hexceeds]
  cases hfind : findNewline (buffered ++ chunk) with
  | none =>
      rw [scan_of_none hfind]
      exact .done hfind (Nat.le_of_not_lt fun hlt => hexceeds ⟨hlt, hfind⟩) hsent
  | some newline =>
      have hbehind := le_of_findNewline_append hnone hfind
      have hle : (buffered ++ chunk).length ≤ newline + chunkSize := by
        rw [List.length_append]
        omega
      rw [scan_of_some hfind]
      exact .turn hfind hle hsent

/-- A turn takes the first line. -/
theorem framed_turn {events : List ServeEvent} {buffered : Bytes} {newline : Nat} {s' : Scan}
    {event : TurnEvent} {taken : List Bytes}
    (h : Framed events (.loop (.turn buffered newline)) taken buffered)
    (hfind : findNewline buffered = some newline)
    (hlength : buffered.length ≤ newline + chunkSize) (hsent : sent events = replied events)
    (hstep : TurnStep (.turn buffered newline) event s')
    (hnext : event.GoesOn → findNewline (buffered.drop (newline + 1)) = some newline) :
    Framed (events ++ [.turn event]) (.loop s') (taken ++ [buffered.take newline])
      (buffered.drop (newline + 1)) := by
  have hbehind := h.behind.line hfind
  have hrest : (buffered.drop (newline + 1)).length ≤ chunkSize := by
    rw [List.length_drop]
    omega
  have hturns : turns (events ++ [.turn event]) = (taken ++ [buffered.take newline]).length := by
    rw [turns_snoc, h.turns, List.length_append]
    rfl
  rw [← List.append_nil (stream events)] at hbehind
  rcases turnStep_iff.mp hstep with ⟨hempty, rfl, rfl⟩ | ⟨hne, outcome, rfl, rfl⟩
  · refine ⟨by rwa [stream_snoc], ?_, hturns, ?_⟩
    · have hline : requestLines [buffered.take newline] = [] := by
        rw [requestLines, List.map_singleton, hempty]
        rfl
      rw [sources_snoc, requestLines_append, h.sources, hline]
      rfl
    · exact .turn (hnext trivial) (Nat.le_trans hrest (Nat.le_add_left _ _))
        (sent_snoc_eq hsent rfl)
  · set source := stripReturn (buffered.take newline) with hsource
    have hsent' : sent (events ++ [.turn (.pushed source outcome)]) =
        replied (events ++ [.turn (.pushed source outcome)]) :=
      sent_snoc_eq hsent (List.flatMap_singleton _ _).symm
    refine ⟨by rwa [stream_snoc], ?_, hturns, ?_⟩
    · have hline : requestLines [buffered.take newline] = [source] :=
        requestLines_of_ne_nil (by simpa using hne)
      rw [sources_snoc, requestLines_append, h.sources, hline]
      rfl
    · cases outcome with
      | rejected => exact .turn (hnext rfl) (Nat.le_trans hrest (Nat.le_add_left _ _)) hsent'
      | answered reply => exact .scan hrest hsent'
      | stopped => exact .abandoned (List.mem_append_right _ List.mem_cons_self) hsent'

/-- **What one step keeps.** -/
theorem framed_step {events : List ServeEvent} {client client' : Client} {taken : List Bytes}
    {rest : Bytes} {event : ServeEvent} (h : Framed events client taken rest)
    (hstep : UndisturbedStep client event client') :
    ∃ taken' rest', Framed (events ++ [event]) client' taken' rest' := by
  obtain ⟨hstep, hnext⟩ := hstep
  cases hstep with
  | timedOut buffered =>
      cases h.holds with
      | done hnone hlength hsent =>
          exact ⟨taken, _, framed_idle h rfl rfl rfl
            (.done hnone hlength (sent_snoc_eq hsent rfl))⟩
  | hungUp buffered | stopped buffered =>
      cases h.holds with
      | done hnone hlength hsent =>
          exact ⟨taken, _, framed_idle h rfl rfl rfl (.closed hnone (sent_snoc_eq hsent rfl))⟩
  | received buffered hchunk hlength =>
      cases h.holds with
      | done hnone _ hsent =>
          refine ⟨taken, _, ?_, ?_, ?_, .received hnone hlength (sent_snoc_eq hsent rfl)⟩
          · rw [stream_snoc]
            exact h.behind.append _
          · rw [sources_snoc, h.sources]
            exact List.append_nil _
          · rw [turns_snoc, h.turns]
            rfl
  | oversize =>
      cases h.holds with
      | oversize hexceeds hsent =>
          refine ⟨taken, rest, framed_idle h rfl rfl rfl (.overflowed hexceeds ?_)⟩
          rw [sent_snoc, replied_snoc, hsent]
          exact congrArg (· ++ _) (List.append_nil _).symm
  | turn hturn hpossible =>
      cases h.holds with
      | turn hfind hlength hsent =>
          exact ⟨_, _, framed_turn h hfind hlength hsent hturn hnext⟩
      | done | overflowed | closed | abandoned => cases hturn

/-- **What every run keeps.** -/
theorem framed_run {events : List ServeEvent} {client : Client}
    (hrun : Run UndisturbedStep (.loop (.done [])) events client) :
    ∃ taken rest, Framed events client taken rest := by
  refine hrun.history (I := fun events client => ∃ taken rest, Framed events client taken rest)
    ?_ ⟨[], [], framed_nil⟩
  rintro past client event client' ⟨taken, rest, h⟩ hstep
  exact framed_step h hstep

/-! ### Framing -/

/-- The stream has been served line by line. -/
structure LinesServed (events : List ServeEvent) (client : Client) : Prop where
  pushed_in_order : sources events <+: requestLines (lines (stream events))
  pushed_all : (∀ buffered newline, client ≠ .loop (.turn buffered newline)) →
    sources events = requestLines (lines (stream events))
  replied_once : List.Forall₂ (fun push line => push.2.reply = [line]) (pushed events) (sent events)
  in_time : turns events ≤ (stream events).count lineFeed

/-- There are at most as many turns as newlines. -/
theorem Framed.turns_le {events : List ServeEvent} {client : Client} {taken : List Bytes}
    {rest : Bytes} (h : Framed events client taken rest) :
    LispHost.turns events ≤ (stream events).count lineFeed := by
  rw [h.turns, ← length_lines, h.behind.lines_stream, List.length_append]
  exact Nat.le_add_right _ _

/-- The requests of the stream were pushed, up to those of the rest. -/
theorem Framed.requestLines_stream {events : List ServeEvent} {client : Client}
    {taken : List Bytes} {rest : Bytes} (h : Framed events client taken rest) :
    requestLines (lines (stream events)) =
      LispHost.sources events ++ requestLines (lines rest) := by
  rw [h.behind.lines_stream, requestLines_append, h.sources]

/-- Within the limit, no error for a buffer that is too long is sent. -/
theorem no_oversize {events : List ServeEvent} {client : Client}
    (hrun : Run FramedStep (.loop (.done [])) events client) :
    ∀ event ∈ events, event ≠ .oversize := by
  refine hrun.labels (I := fun client => client ≠ .oversize) ?_ (by rintro ⟨⟩)
  rintro client event client' hclient ⟨⟨hstep, -⟩, hlimit⟩
  cases hstep with
  | oversize => exact absurd rfl hclient
  | received buffered =>
      rw [afterReceive, if_neg hlimit]
      exact ⟨by rintro ⟨⟩, by rintro ⟨⟩⟩
  | timedOut | hungUp | stopped | turn => exact ⟨by rintro ⟨⟩, by rintro ⟨⟩⟩

/-- Without that error, and with no stop, every push sends one line. -/
theorem replied_once {events : List ServeEvent} (hoversize : ∀ event ∈ events, event ≠ .oversize)
    (hanswered : ∀ event ∈ events, ¬event.Stops) :
    List.Forall₂ (fun push line => push.2.reply = [line]) (pushed events) (sent events) := by
  induction events with
  | nil => exact .nil
  | cons event events ih =>
      obtain ⟨hevent, hoversize⟩ := List.forall_mem_cons.mp hoversize
      obtain ⟨hstops, hanswered⟩ := List.forall_mem_cons.mp hanswered
      have hothers := ih hoversize hanswered
      rw [pushed, sent, List.flatMap_cons, List.flatMap_cons]
      cases event with
      | timedOut | hungUp | stopped | received chunk => exact hothers
      | oversize => exact absurd rfl hevent
      | turn event =>
          cases event with
          | blank => exact hothers
          | pushed source outcome =>
              cases outcome with
              | rejected | answered reply => exact .cons rfl hothers
              | stopped => exact absurd trivial hstops

/-- **Framing.** However the stream is cut into chunks: as long as the server is not stopped and
every step keeps to the lines, the pushes are the lines of the stream that are not blank, each
gets one reply, and the inner loop ends. -/
theorem serves_lines {events : List ServeEvent} {client : Client}
    (hrun : Run FramedStep (.loop (.done [])) events client)
    (hanswered : ∀ event ∈ events, ¬event.Stops) : LinesServed events client := by
  have hundisturbed : Run UndisturbedStep (.loop (.done [])) events client := by
    have hmap : Run UndisturbedStep _ (events.map id) client := hrun.map id id
      (I := fun _ => True) (fun _ _ _ _ _ => trivial) (fun _ _ _ _ hstep => hstep.1) trivial
    rwa [List.map_id] at hmap
  obtain ⟨taken, rest, h⟩ := framed_run hundisturbed
  refine ⟨?_, ?_, replied_once (no_oversize hrun) hanswered, h.turns_le⟩
  · rw [h.requestLines_stream]
    exact List.prefix_append _ _
  · intro hclient
    have hnone : findNewline rest = none := by
      cases h.holds with
      | done hnone | closed hnone => exact hnone
      | oversize hexceeds | overflowed hexceeds => exact hexceeds.2
      | turn => exact absurd rfl (hclient _ _)
      | abandoned hmem => exact absurd trivial (hanswered _ hmem)
    rw [h.requestLines_stream, lines_of_findNewline_none hnone]
    exact (List.append_nil _).symm

/-- Two lines in two chunks. The second line begins in the first chunk and ends in the second. -/
theorem serves_lines_chunks :
    LinesServed [.received [97, 10, 98], .turn (.pushed [97] (.answered [49])), .received [99, 10],
      .turn (.pushed [98, 99] (.answered [50]))] (.loop (.done [])) := by
  have hfirst : FramedStep (.loop (.done [])) (.received [97, 10, 98])
      (.loop (.turn [97, 10, 98] 1)) :=
    ⟨⟨.received [] (by decide) (by decide), trivial⟩, (by decide : ¬Exceeds [97, 10, 98])⟩
  have hturn : FramedStep (.loop (.turn [97, 10, 98] 1)) (.turn (.pushed [97] (.answered [49])))
      (.loop (.done [98])) :=
    ⟨⟨.turn (.turn [97, 10, 98] 1 (.answered [49])) (TurnEvent.possible_iff.mpr (by decide)),
      by rintro ⟨⟩⟩, trivial⟩
  have hsecond : FramedStep (.loop (.done [98])) (.received [99, 10])
      (.loop (.turn [98, 99, 10] 2)) :=
    ⟨⟨.received [98] (by decide) (by decide), trivial⟩, (by decide : ¬Exceeds [98, 99, 10])⟩
  have hturn' : FramedStep (.loop (.turn [98, 99, 10] 2))
      (.turn (.pushed [98, 99] (.answered [50]))) (.loop (.done [])) :=
    ⟨⟨.turn (.turn [98, 99, 10] 2 (.answered [50])) (TurnEvent.possible_iff.mpr (by decide)),
      by rintro ⟨⟩⟩, trivial⟩
  refine serves_lines (.cons hfirst (.cons hturn (.cons hsecond (.single hturn')))) ?_
  simp [ServeEvent.Stops]

/-- **A blank line cuts the next one**: in front of `ab`, with both in one chunk, the first byte
of it is pushed alone. -/
theorem not_serves_lines_blank :
    ¬ ∀ events client, Run ServeStep (.loop (.done [])) events client →
      (∀ event ∈ events, ¬event.Stops) →
      (∀ line ∈ lines (stream events), (stripReturn line).length ≤ kMaxRequestBytes) →
      LinesServed events client := by
  intro hclaim
  have hreceived : ServeStep (.loop (.done [])) (.received [13, 10, 97, 98, 10])
      (.loop (.turn [13, 10, 97, 98, 10] 1)) := .received [] (by decide) (by decide)
  have hblank : ServeStep (.loop (.turn [13, 10, 97, 98, 10] 1)) (.turn .blank)
      (.loop (.turn [97, 98, 10] 1)) := .turn (.blank rfl) trivial
  have hturn : ServeStep (.loop (.turn [97, 98, 10] 1)) (.turn (.pushed [97] (.answered [])))
      (.loop (.turn [10] 0)) :=
    .turn (.turn [97, 98, 10] 1 (.answered [])) (TurnEvent.possible_iff.mpr (by decide))
  have hserved := hclaim _ _ (.cons hreceived (.cons hblank (.single hturn)))
    (by simp [ServeEvent.Stops]) (by decide)
  exact absurd hserved.pushed_in_order (by decide)

/-! ### Rejections -/

/-- Every line of the stream is pushed as it is, and one that is too long is not evaluated and
gets one error: from its push, or in front of the end of the connection. -/
structure LinesKept (events : List ServeEvent) (client : Client) : Prop where
  pushed_whole : sources events <+: (lines (stream events)).map stripReturn
  pushed_all : ∀ buffered, client = .loop (.done buffered) →
    sources events = (lines (stream events)).map stripReturn ∧
      buffered = unfinished (stream events) ∧ buffered.length ≤ kMaxRequestBytes
  rejected_long : ∀ push ∈ pushed events, kMaxRequestBytes < push.1.length → push.2 = .rejected
  one_error : sent events = replied events ∨
    client = .loop .returned ∧ sources events = (lines (stream events)).map stripReturn ∧
      kMaxRequestBytes < (unfinished (stream events)).length ∧
        sent events = replied events ++ [requestTooLarge]
  in_time : turns events ≤ (stream events).count lineFeed

/-- The queue rejects what is too long. -/
theorem rejected_long {events : List ServeEvent} {client : Client}
    (hrun : Run UndisturbedStep (.loop (.done [])) events client) :
    ∀ push ∈ pushed events, kMaxRequestBytes < push.1.length → push.2 = .rejected := by
  have hevents : ∀ event ∈ events, ∀ push ∈ event.pushes, kMaxRequestBytes < push.1.length →
      push.2 = .rejected := by
    refine hrun.labels (I := fun _ => True) ?_ trivial
    rintro client event client' - ⟨hstep, -⟩
    refine ⟨trivial, ?_⟩
    cases hstep with
    | timedOut | hungUp | stopped | received | oversize => rintro _ ⟨⟩
    | @turn s s' event hturn hpossible =>
        cases event with
        | blank => rintro _ ⟨⟩
        | pushed source outcome =>
            intro push hpush
            obtain rfl := List.mem_singleton.mp hpush
            exact TurnEvent.possible_iff.mp hpossible
  intro push hpush
  obtain ⟨event, hevent, hpush⟩ := List.mem_flatMap.mp hpush
  exact hevents event hevent push hpush

/-- **Rejections.** On a stream without blank lines, in a run whose rejected pushes keep to the
lines, every line is pushed as it was sent, and what is too long gets one error. -/
theorem rejections_keep_lines {events : List ServeEvent} {client : Client}
    (hrun : Run UndisturbedStep (.loop (.done [])) events client)
    (hblank : ∀ line ∈ lines (stream events), stripReturn line ≠ []) :
    LinesKept events client := by
  obtain ⟨taken, rest, h⟩ := framed_run hrun
  have hall : findNewline rest = none →
      sources events = (lines (stream events)).map stripReturn := by
    intro hnone
    rw [← requestLines_of_ne_nil hblank, h.requestLines_stream, lines_of_findNewline_none hnone]
    exact (List.append_nil _).symm
  refine ⟨?_, ?_, rejected_long hrun, ?_, h.turns_le⟩
  · rw [← requestLines_of_ne_nil hblank, h.requestLines_stream]
    exact List.prefix_append _ _
  · rintro buffered rfl
    cases h.holds with
    | done hnone hlength hsent =>
        refine ⟨hall hnone, ?_, hlength⟩
        rw [h.behind.unfinished_stream, unfinished_of_findNewline_none hnone]
  · cases h.holds with
    | done _ _ hsent | turn _ _ hsent | oversize _ hsent | closed _ hsent
    | abandoned _ hsent => exact .inl hsent
    | overflowed hexceeds hsent =>
        refine .inr ⟨rfl, hall hexceeds.2, ?_, hsent⟩
        rw [h.behind.unfinished_stream, unfinished_of_findNewline_none hexceeds.2]
        exact hexceeds.1

/-- Two lines of one byte, of which the first is rejected. -/
theorem rejections_keep_lines_pair :
    LinesKept [.received [97, 10, 98, 10], .turn (.pushed [97] .rejected),
      .turn (.pushed [98] (.answered []))] (.loop (.done [])) := by
  have hreceived : UndisturbedStep (.loop (.done [])) (.received [97, 10, 98, 10])
      (.loop (.turn [97, 10, 98, 10] 1)) := ⟨.received [] (by decide) (by decide), trivial⟩
  have hrejected : UndisturbedStep (.loop (.turn [97, 10, 98, 10] 1))
      (.turn (.pushed [97] .rejected)) (.loop (.turn [98, 10] 1)) :=
    ⟨.turn (.turn [97, 10, 98, 10] 1 .rejected) (TurnEvent.possible_iff.mpr (by decide)),
      fun _ => rfl⟩
  have hanswered : UndisturbedStep (.loop (.turn [98, 10] 1))
      (.turn (.pushed [98] (.answered []))) (.loop (.done [])) :=
    ⟨.turn (.turn [98, 10] 1 (.answered [])) (TurnEvent.possible_iff.mpr (by decide)),
      by rintro ⟨⟩⟩
  exact rejections_keep_lines (.cons hreceived (.cons hrejected (.single hanswered))) (by decide)

/-- **A rejected request cuts the next one**: behind `a`, the first byte of `bcd` is pushed
alone. -/
theorem not_rejections_keep_lines :
    ¬ ∀ events client, Run ServeStep (.loop (.done [])) events client →
      (∀ line ∈ lines (stream events), stripReturn line ≠ []) → LinesKept events client := by
  intro hclaim
  have hreceived : ServeStep (.loop (.done [])) (.received [97, 10, 98, 99, 100, 10])
      (.loop (.turn [97, 10, 98, 99, 100, 10] 1)) := .received [] (by decide) (by decide)
  have hrejected : ServeStep (.loop (.turn [97, 10, 98, 99, 100, 10] 1))
      (.turn (.pushed [97] .rejected)) (.loop (.turn [98, 99, 100, 10] 1)) :=
    .turn (.turn [97, 10, 98, 99, 100, 10] 1 .rejected) (TurnEvent.possible_iff.mpr (by decide))
  have hanswered : ServeStep (.loop (.turn [98, 99, 100, 10] 1))
      (.turn (.pushed [98] (.answered []))) (.loop (.turn [100, 10] 1)) :=
    .turn (.turn [98, 99, 100, 10] 1 (.answered [])) (TurnEvent.possible_iff.mpr (by decide))
  have hkept := hclaim _ _ (.cons hreceived (.cons hrejected (.single hanswered))) (by decide)
  exact absurd hkept.pushed_whole (by decide)

end LispHost
