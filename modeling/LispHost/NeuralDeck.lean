import LispHost.Lib.Transition
import LispHost.Lib.Window
import LispHost.LocalReplQueue
import LispHost.Word

/-!
# The NeuralDeck

`neuraldeck::State` is the UI state of the in-game console: whether it is open, the input line,
the inputs that were taken and the transcript of what was evaluated. Both logs are bounded, and
both are windows on a log that was never cut. `ReplBridge::Submit` takes the input and pushes it
into the request queue with a callback that records the result.

## Main definitions

* `NeuralDeck.State`: the state, with the bounds on its logs.
* `NeuralDeck.DeckCall`, `NeuralDeck.State.step`: the calls on it.
* `NeuralDeck.Logged`: the logs as windows on everything that a run took and recorded.
* `NeuralDeck.submit`: what `ReplBridge::Submit` returns and leaves.

## Main results

* `NeuralDeck.logged_of_run`: both logs of a run, whatever was called.
* `NeuralDeck.submitKeeps_iff`: which forms a submission does not lose.
-/

namespace LispHost

open Effects

namespace NeuralDeck

/-- How many inputs the deck remembers. -/
def kMaxHistoryEntries : Nat := 128

/-- How many records it keeps. -/
def kMaxTranscriptEntries : Nat := 512

/-- `sequence` is a `std::size_t`. -/
structure TranscriptEntry where
  sequence : Word
  source : Bytes
  result : Bytes
deriving DecidableEq, Repr

/-- `neuraldeck::State`. The fields carry the bounds of both logs. -/
structure State where
  isOpen : Bool
  input : Bytes
  history : List Bytes
  transcript : List TranscriptEntry
  nextSequence : Word
  history_le : history.length ≤ kMaxHistoryEntries
  transcript_le : transcript.length ≤ kMaxTranscriptEntries

namespace State

/-- A new deck. The first record has the number 1. -/
protected def new : State where
  isOpen := false
  input := []
  history := []
  transcript := []
  nextSequence := 1
  history_le := Nat.zero_le _
  transcript_le := Nat.zero_le _

/-- `Toggle`. -/
def toggle (deck : State) : State := { deck with isOpen := !deck.isOpen }

/-- `Close`. -/
def close (deck : State) : State := { deck with isOpen := false }

/-- `SetInput`. -/
def setInput (deck : State) (source : Bytes) : State := { deck with input := source }

/-- Only the last entry that is kept is compared. -/
def remember (deck : State) (source : Bytes) : State :=
  if deck.history.getLast? = some source then deck
  else
    { deck with
      history := pushWindow kMaxHistoryEntries deck.history source
      history_le := length_pushWindow_le (by decide) deck.history_le }

/-- `TakeInput`: the input goes into the history, unless it is empty. -/
def takeInput (deck : State) : Bytes × State :=
  (deck.input,
    if deck.input = [] then deck.setInput [] else (deck.setInput []).remember deck.input)

/-- `Record`. -/
def record (deck : State) (source result : Bytes) : State :=
  { deck with
    transcript :=
      pushWindow kMaxTranscriptEntries deck.transcript ⟨deck.nextSequence, source, result⟩
    nextSequence := deck.nextSequence + 1
    transcript_le := length_pushWindow_le (by decide) deck.transcript_le }

/-- `ClearTranscript`: the numbers go on where they were. -/
def clearTranscript (deck : State) : State :=
  { deck with transcript := [], transcript_le := Nat.zero_le _ }

variable (deck : State) (source : Bytes)

/-- A record comes last, and the oldest one goes if there is no place. -/
theorem transcript_record (result : Bytes) : (deck.record source result).transcript =
    pushWindow kMaxTranscriptEntries deck.transcript ⟨deck.nextSequence, source, result⟩ :=
  rfl

/-- A record takes a number. -/
theorem nextSequence_record (result : Bytes) :
    (deck.record source result).nextSequence = deck.nextSequence + 1 :=
  rfl

/-- What was the last input already is not remembered again. -/
theorem remember_of_getLast? (h : deck.history.getLast? = some source) :
    deck.remember source = deck :=
  if_pos h

/-- Another input comes last, and the oldest one goes if there is no place. -/
theorem history_remember (h : deck.history.getLast? ≠ some source) :
    (deck.remember source).history = pushWindow kMaxHistoryEntries deck.history source := by
  rw [remember, if_neg h]

/-- Remembering does not touch the input line. -/
@[simp] theorem input_remember : (deck.remember source).input = deck.input := by
  by_cases h : deck.history.getLast? = some source <;> simp [remember, h]

/-- Nor the transcript. -/
@[simp] theorem transcript_remember : (deck.remember source).transcript = deck.transcript := by
  by_cases h : deck.history.getLast? = some source <;> simp [remember, h]

/-- Nor the numbers. -/
@[simp] theorem nextSequence_remember :
    (deck.remember source).nextSequence = deck.nextSequence := by
  by_cases h : deck.history.getLast? = some source <;> simp [remember, h]

/-- Taking the input leaves an empty input line and the transcript as it was. -/
theorem takeInput_spec : deck.takeInput.2.input = [] ∧
    deck.takeInput.2.transcript = deck.transcript ∧
    deck.takeInput.2.nextSequence = deck.nextSequence := by
  by_cases h : deck.input = [] <;> simp [takeInput, setInput, h]

end State

/-! ### Runs of a deck -/

/-- A call on a deck; `takeInput` comes with what it returned. -/
inductive DeckCall where
  | toggle
  | close
  | setInput (source : Bytes)
  | takeInput (source : Bytes)
  | record (source result : Bytes)
  | clearTranscript
deriving DecidableEq, Repr

/-- A call takes the deck to another state; what `takeInput` returned has to agree. -/
def State.step (deck : State) : DeckCall → State → Prop
  | .toggle, deck' => deck' = deck.toggle
  | .close, deck' => deck' = deck.close
  | .setInput source, deck' => deck' = deck.setInput source
  | .takeInput source, deck' => (source, deck') = deck.takeInput
  | .record source result, deck' => deck' = deck.record source result
  | .clearTranscript, deck' => deck' = deck.clearTranscript

namespace DeckCall

/-- The input that a call takes, if it is not empty. -/
def taken : DeckCall → Option Bytes
  | .takeInput [] => none
  | .takeInput (c :: source) => some (c :: source)
  | _ => none

/-- The source and the result that a call records. -/
def recorded : DeckCall → Option (Bytes × Bytes)
  | .record source result => some (source, result)
  | _ => none

end DeckCall

/-- All inputs that were taken, without consecutive duplicates. -/
def inputLog (calls : List DeckCall) : List Bytes :=
  (calls.filterMap DeckCall.taken).destutter (· ≠ ·)

/-- All records ever made. -/
def records (calls : List DeckCall) : List (Bytes × Bytes) := calls.filterMap DeckCall.recorded

/-- The records since the last time that the transcript was cleared. -/
def recordsSinceClear (calls : List DeckCall) : List (Bytes × Bytes) :=
  records (calls.rtakeWhile (· ≠ .clearTranscript))

/-- What a reader of the transcript sees of an entry. -/
def TranscriptEntry.view (entry : TranscriptEntry) : Nat × Bytes × Bytes :=
  (entry.sequence.toNat, entry.source, entry.result)

/-- All records ever made, the `k`-th one under the number `number k`. -/
def numbered (number : Nat → Nat) (calls : List DeckCall) : List (Nat × Bytes × Bytes) :=
  (records calls).mapIdx fun k record => (number (k + 1), record)

/-- The logs of a deck after some calls: the last inputs that were taken, and the last records
since the transcript was cleared. -/
def Logged (number : Nat → Nat) (calls : List DeckCall) (deck : State) : Prop :=
  deck.history = (inputLog calls).rtake kMaxHistoryEntries ∧
    deck.transcript.map TranscriptEntry.view =
      (numbered number calls).rtake (min kMaxTranscriptEntries (recordsSinceClear calls).length)

section Logs

variable {calls : List DeckCall} {call : DeckCall} {deck deck' : State}

/-- A filter of a list with one more element. -/
theorem filterMap_concat {α β : Type} (f : α → Option β) (l : List α) (a : α) :
    (l ++ [a]).filterMap f = l.filterMap f ++ (f a).toList := by
  rw [List.filterMap_append]
  cases h : f a <;> simp [h]

/-- The records with one more call. -/
theorem records_concat (calls : List DeckCall) (call : DeckCall) :
    records (calls ++ [call]) = records calls ++ call.recorded.toList :=
  filterMap_concat _ _ _

/-- A call that takes no input leaves the inputs as they are. -/
theorem inputLog_concat_of_none (h : call.taken = none) :
    inputLog (calls ++ [call]) = inputLog calls := by
  rw [inputLog, filterMap_concat, h, Option.toList_none, List.append_nil]
  rfl

/-- An input that is taken is logged if it is another one than the last. -/
theorem inputLog_concat {source : Bytes} (h : call.taken = some source) :
    inputLog (calls ++ [call]) =
      inputLog calls ++ if (inputLog calls).getLast? = some source then [] else [source] := by
  rw [inputLog, filterMap_concat, h, Option.toList_some, destutter_ne_concat, inputLog,
    getLast?_destutter_ne]

/-- Behind a clear there are no records. -/
theorem recordsSinceClear_clear (calls : List DeckCall) :
    recordsSinceClear (calls ++ [.clearTranscript]) = [] := by
  rw [recordsSinceClear, List.rtakeWhile_concat_neg _ _ _ (by simp)]
  rfl

/-- Any other call adds what it records. -/
theorem recordsSinceClear_concat (h : call ≠ .clearTranscript) :
    recordsSinceClear (calls ++ [call]) = recordsSinceClear calls ++ call.recorded.toList := by
  rw [recordsSinceClear, List.rtakeWhile_concat_pos _ _ _ (by simpa using h), records_concat]
  rfl

/-- The entry that the record behind `k` others makes. -/
def entryAt (k : Nat) (record : Bytes × Bytes) : TranscriptEntry :=
  ⟨BitVec.ofNat 64 (k + 1), record.1, record.2⟩

/-- The transcript that was never cut. -/
def entries (calls : List DeckCall) : List TranscriptEntry := (records calls).mapIdx entryAt

/-- A call that records nothing leaves the entries as they are. -/
theorem entries_concat_of_none (h : call.recorded = none) :
    entries (calls ++ [call]) = entries calls := by
  rw [entries, records_concat, h, Option.toList_none, List.append_nil]
  rfl

/-- A record makes the next entry. -/
theorem entries_concat {record : Bytes × Bytes} (h : call.recorded = some record) :
    entries (calls ++ [call]) = entries calls ++ [entryAt (records calls).length record] := by
  rw [entries, records_concat, h, Option.toList_some, List.mapIdx_concat]
  rfl

/-- The state of a deck after some calls. -/
structure Kept (calls : List DeckCall) (deck : State) : Prop where
  history : deck.history = (inputLog calls).rtake kMaxHistoryEntries
  transcript : deck.transcript =
    (entries calls).rtake (min kMaxTranscriptEntries (recordsSinceClear calls).length)
  nextSequence : deck.nextSequence = BitVec.ofNat 64 ((records calls).length + 1)

namespace Kept

/-- A call that neither takes nor records anything leaves the logs as they are. -/
theorem of_eq (h : Kept calls deck) (htaken : call.taken = none) (hrecorded : call.recorded = none)
    (hclear : call ≠ .clearTranscript) (hhistory : deck'.history = deck.history)
    (htranscript : deck'.transcript = deck.transcript)
    (hnext : deck'.nextSequence = deck.nextSequence) : Kept (calls ++ [call]) deck' where
  history := by rw [hhistory, h.history, inputLog_concat_of_none htaken]
  transcript := by
    rw [htranscript, h.transcript, entries_concat_of_none hrecorded,
      recordsSinceClear_concat hclear, hrecorded, Option.toList_none, List.append_nil]
  nextSequence := by
    rw [hnext, h.nextSequence, records_concat, hrecorded, Option.toList_none, List.append_nil]

/-- Editing the input line touches no log. -/
theorem setInput (h : Kept calls deck) (source : Bytes) : Kept calls (deck.setInput source) :=
  ⟨h.history, h.transcript, h.nextSequence⟩

/-- The back of the history is the back of the log, so comparing with it drops exactly the
consecutive duplicates. -/
theorem remember (h : Kept calls deck) {source : Bytes} (htaken : call.taken = some source)
    (hrecorded : call.recorded = none) (hclear : call ≠ .clearTranscript) :
    Kept (calls ++ [call]) (deck.remember source) where
  history := by
    have hback : deck.history.getLast? = (inputLog calls).getLast? := by
      rw [h.history, getLast?_rtake (by decide)]
    rw [inputLog_concat htaken]
    by_cases hlast : (inputLog calls).getLast? = some source
    · rw [if_pos hlast, State.remember_of_getLast? _ _ (hback.trans hlast), List.append_nil,
        h.history]
    · rw [if_neg hlast, State.history_remember _ _ (hback ▸ hlast), h.history,
        pushWindow_rtake (by decide)]
  transcript := by
    rw [State.transcript_remember, h.transcript, entries_concat_of_none hrecorded,
      recordsSinceClear_concat hclear, hrecorded, Option.toList_none, List.append_nil]
  nextSequence := by
    rw [State.nextSequence_remember, h.nextSequence, records_concat, hrecorded,
      Option.toList_none, List.append_nil]

/-- The window since the last clear grows by one, and never past what was recorded. -/
theorem record (h : Kept calls deck) (source result : Bytes) :
    Kept (calls ++ [.record source result]) (deck.record source result) where
  history := by
    rw [inputLog_concat_of_none rfl]
    exact h.history
  transcript := by
    have hentry : (⟨deck.nextSequence, source, result⟩ : TranscriptEntry) =
        entryAt (records calls).length (source, result) := by
      rw [h.nextSequence]
      rfl
    have hcleared : (recordsSinceClear (calls ++ [.record source result])).length =
        (recordsSinceClear calls).length + 1 := by
      rw [recordsSinceClear_concat (by simp)]
      exact List.length_append
    rw [State.transcript_record, h.transcript, hentry, ← rtake_rtake, pushWindow_rtake (by decide),
      hcleared, ← rtake_rtake, entries_concat rfl, List.rtake_concat_succ]
  nextSequence := by
    rw [State.nextSequence_record, h.nextSequence, records_concat, List.length_append,
      BitVec.ofNat_add (_ + _)]
    rfl

/-- A clear empties the transcript and nothing else. -/
theorem clearTranscript (h : Kept calls deck) :
    Kept (calls ++ [.clearTranscript]) deck.clearTranscript where
  history := by
    rw [inputLog_concat_of_none rfl]
    exact h.history
  transcript := by
    rw [recordsSinceClear_clear, List.length_nil, Nat.min_zero, List.rtake_zero]
    rfl
  nextSequence := by
    rw [records_concat]
    exact h.nextSequence.trans (by simp [DeckCall.recorded])

/-- What every call preserves. -/
theorem step (h : Kept calls deck) (hstep : deck.step call deck') :
    Kept (calls ++ [call]) deck' := by
  cases call with
  | toggle =>
      cases hstep
      exact h.of_eq rfl rfl (by simp) rfl rfl rfl
  | close =>
      cases hstep
      exact h.of_eq rfl rfl (by simp) rfl rfl rfl
  | setInput source =>
      cases hstep
      exact h.of_eq rfl rfl (by simp) rfl rfl rfl
  | takeInput source =>
      obtain ⟨rfl, rfl⟩ := Prod.mk.inj hstep
      cases hinput : deck.input with
      | nil =>
          rw [if_pos rfl]
          exact h.of_eq rfl rfl (by simp) rfl rfl rfl
      | cons c source =>
          rw [if_neg (List.cons_ne_nil c source)]
          exact (h.setInput []).remember rfl rfl (by simp)
  | record source result =>
      cases hstep
      exact h.record source result
  | clearTranscript =>
      cases hstep
      exact h.clearTranscript

/-- **The logs of a deck after any calls.** -/
theorem of_run (h : Run State.step State.new calls deck) : Kept calls deck :=
  h.history (fun _ _ _ _ hkept hstep => hkept.step hstep) ⟨rfl, rfl, rfl⟩

end Kept

/-- An entry is seen under its number, as far as 64 bits go. -/
theorem view_entryAt (k : Nat) (record : Bytes × Bytes) :
    (entryAt k record).view = ((k + 1) % 2 ^ 64, record) := by
  rw [entryAt, TranscriptEntry.view, BitVec.toNat_ofNat]

/-- All entries as a reader sees them. -/
theorem map_view_entries (calls : List DeckCall) :
    (entries calls).map TranscriptEntry.view = numbered (· % 2 ^ 64) calls := by
  refine List.ext_getElem? fun k => ?_
  rw [List.getElem?_map, entries, numbered, List.getElem?_mapIdx, List.getElem?_mapIdx,
    Option.map_map]
  exact congrArg (Option.map · (records calls)[k]?) (funext (view_entryAt k))

/-- The last elements of a list are mapped like the list. -/
theorem map_rtake {α β : Type} (f : α → β) (l : List α) (n : Nat) :
    (l.rtake n).map f = (l.map f).rtake n := by
  rw [List.rtake, List.rtake, List.map_drop, List.length_map]

/-- A reader sees the logs of the deck. -/
theorem Kept.logged (h : Kept calls deck) : Logged (· % 2 ^ 64) calls deck :=
  ⟨h.history, by rw [h.transcript, map_rtake, map_view_entries]⟩

/-- Numbers below `2 ^ 64` are not wrapped. -/
theorem numbered_mod (h : (records calls).length < 2 ^ 64) :
    numbered (· % 2 ^ 64) calls = numbered id calls := by
  refine List.ext_getElem? fun k => ?_
  rw [numbered, numbered, List.getElem?_mapIdx, List.getElem?_mapIdx]
  cases hk : (records calls)[k]? with
  | none => rfl
  | some record =>
      obtain ⟨hlt, -⟩ := List.getElem?_eq_some_iff.mp hk
      simp only [Option.map_some, id_eq, Nat.mod_eq_of_lt (Nat.lt_of_le_of_lt hlt h)]

/-- **The logs of a deck.** After any calls the history is the last of all inputs taken, and the
transcript is the last of the records since it was cleared; the `k`-th record ever made has the
number `k`, as a `std::size_t` holds it. -/
theorem logged_of_run (h : Run State.step State.new calls deck) :
    Logged (· % 2 ^ 64) calls deck ∧
      ((records calls).length < 2 ^ 64 → Logged id calls deck) := by
  have hlogged := (Kept.of_run h).logged
  refine ⟨hlogged, fun hfew => ⟨hlogged.1, ?_⟩⟩
  rw [hlogged.2, numbered_mod hfew]

/-- Calls that can be made on any deck can be made any number of times. -/
theorem exists_run_replicate (block : List DeckCall)
    (h : ∀ deck, ∃ deck', Run State.step deck block deck') (n : Nat) (deck : State) :
    ∃ deck', Run State.step deck (List.replicate n block).flatten deck' := by
  induction n generalizing deck with
  | zero => exact ⟨deck, .nil deck⟩
  | succ n ih =>
      obtain ⟨deck₁, hblock⟩ := h deck
      obtain ⟨deck₂, hrest⟩ := ih deck₁
      rw [List.replicate_succ, List.flatten_cons]
      exact ⟨deck₂, Run.append_iff.mpr ⟨deck₁, hblock, hrest⟩⟩

/-- A record, a clear, 513 records, and two inputs in turn, 65 times: more than both logs keep. -/
def overflowing : List DeckCall :=
  .record [51] [52] :: .clearTranscript :: ((List.replicate 513 [.record [53] [54]]).flatten ++
    (List.replicate 65 [.setInput [49], .takeInput [49], .setInput [50], .takeInput [50]]).flatten)

/-- Both logs have lost their oldest entries. -/
theorem logged_of_run_overflowing : ∃ deck, Logged id overflowing deck ∧
    kMaxHistoryEntries < (inputLog overflowing).length ∧
    kMaxTranscriptEntries < (recordsSinceClear overflowing).length := by
  obtain ⟨deck₁, hrecords⟩ := exists_run_replicate [.record [53] [54]]
    (fun _ => ⟨_, .single rfl⟩) 513 (State.new.record [51] [52]).clearTranscript
  obtain ⟨deck₂, hinputs⟩ := exists_run_replicate
    [.setInput [49], .takeInput [49], .setInput [50], .takeInput [50]]
    (fun _ => ⟨_, .cons rfl (.cons rfl (.cons rfl (.single rfl)))⟩) 65 deck₁
  have hrun : Run State.step State.new overflowing deck₂ :=
    .cons rfl (.cons rfl (Run.append_iff.mpr ⟨deck₁, hrecords, hinputs⟩))
  refine ⟨deck₂, (logged_of_run hrun).2 ?_, ?_, ?_⟩ <;> decide +kernel

/-- A record gets the next number. -/
theorem numbered_concat (number : Nat → Nat) {record : Bytes × Bytes}
    (h : call.recorded = some record) : numbered number (calls ++ [call]) =
      numbered number calls ++ [(number ((records calls).length + 1), record)] := by
  rw [numbered, records_concat, h, Option.toList_some, List.mapIdx_concat]
  rfl

/-- A deck can make any number of records. -/
theorem run_replicate_record (n : Nat) :
    ∃ deck, Run State.step State.new (List.replicate n (.record [] [])) deck := by
  have h := exists_run_replicate [.record [] []] (fun _ => ⟨_, .single rfl⟩) n State.new
  rwa [List.flatten_replicate_singleton] at h

/-- Each of these calls is a record. -/
theorem length_records_replicate (n : Nat) :
    (records (List.replicate n (.record [] []))).length = n := by
  rw [records, List.filterMap_replicate_of_some (f := DeckCall.recorded) rfl, List.length_replicate]

/-- The last number in the transcript behind `n` records and one more. -/
theorem Logged.getLast?_replicate {number : Nat → Nat} {n : Nat}
    (h : Logged number (List.replicate (n + 1) (.record [] [])) deck) :
    (deck.transcript.map TranscriptEntry.view).getLast? = some (number (n + 1), [], []) := by
  have hsince : 0 < (recordsSinceClear (List.replicate n (.record [] []) ++
      [.record [] []])).length := by
    rw [recordsSinceClear_concat (by simp), List.length_append]
    exact Nat.succ_pos _
  rw [h.2, List.replicate_succ', getLast?_rtake (Nat.lt_min.mpr ⟨by decide, hsince⟩),
    numbered_concat _ rfl, List.getLast?_concat, length_records_replicate]

/-- The record behind `2 ^ 64 - 1` others does not have the number `2 ^ 64`. -/
theorem not_logged_wrapped : ¬ ∀ (calls : List DeckCall) (deck : State),
    Run State.step State.new calls deck → Logged id calls deck := by
  intro hall
  obtain ⟨deck, hrun⟩ := run_replicate_record (2 ^ 64 - 1 + 1)
  have hclaimed := (hall _ _ hrun).getLast?_replicate
  rw [(Kept.of_run hrun).logged.getLast?_replicate] at hclaimed
  exact absurd (congrArg Prod.fst (Option.some.inj hclaimed)) (by decide)

end Logs

/-! ### Submitting a form -/

/-- The callback of a submission, with the source that it captured. It gives that source away,
and is invoked once: whoever replies to a request has popped it. -/
structure DeckReply where
  source : Bytes
deriving DecidableEq, Repr

/-- The callback records its source with the result. -/
def DeckReply.invoke (reply : DeckReply) (deck : State) (result : Bytes) : State :=
  deck.record reply.source result

/-- A callback in the request queue: the deck's, or another client's. -/
inductive Reply (S : Type) where
  | deck (reply : DeckReply)
  | other (reply : S)
deriving DecidableEq, Repr

section Submit

variable {S : Type} {deck : State} {queue queue' : RequestQueue (Reply S)}

/-- What `ReplBridge::Submit` returns, and the deck and the queue that it leaves. -/
def submit (deck : State) (queue : RequestQueue (Reply S)) :
    Bool × State × RequestQueue (Reply S) :=
  let taken := deck.takeInput
  if taken.1 = [] then (false, taken.2, queue)
  else
    match queue.push taken.1 (some (.deck ⟨taken.1⟩)) with
    | some queue' => (true, taken.2, queue')
    | none => (false, taken.2, queue)

/-- One record was made between two states of a deck. -/
def Recorded (deck deck' : State) (source result : Bytes) : Prop :=
  deck'.nextSequence = deck.nextSequence + 1 ∧
    deck'.transcript =
      pushWindow kMaxTranscriptEntries deck.transcript ⟨deck.nextSequence, source, result⟩

/-- A submission does not lose the form: it is queued with a callback that records it with its
result, or it is still the input, or an error is recorded for it. -/
def SubmitKeeps (deck : State) (queue : RequestQueue (Reply S)) : Prop :=
  ((submit deck queue).1 = true ∧
    ∃ reply : DeckReply,
      (submit deck queue).2.2.requests = queue.requests ++ [⟨deck.input, .deck reply⟩] ∧
      ∀ later result, Recorded later (reply.invoke later result) deck.input result) ∨
  ((submit deck queue).1 = false ∧
    ((submit deck queue).2.1.input = deck.input ∨
      ∃ error, Recorded deck (submit deck queue).2.1 deck.input error))

/-- A form that the queue takes is submitted. -/
theorem submit_of_push_eq_some (hinput : deck.input ≠ [])
    (hpush : queue.push deck.input (some (.deck ⟨deck.input⟩)) = some queue') :
    submit deck queue = (true, deck.takeInput.2, queue') := by
  have htaken : deck.takeInput.1 = deck.input := rfl
  simp only [submit, htaken, if_neg hinput, hpush]

/-- A form that it does not take is gone from the input line. -/
theorem submit_of_push_eq_none (hinput : deck.input ≠ [])
    (hpush : queue.push deck.input (some (.deck ⟨deck.input⟩)) = none) :
    submit deck queue = (false, deck.takeInput.2, queue) := by
  have htaken : deck.takeInput.1 = deck.input := rfl
  simp only [submit, htaken, if_neg hinput, hpush]

/-- A form that the queue takes is kept. -/
theorem submitKeeps_of_push (hinput : deck.input ≠ [])
    (hpush : queue.push deck.input (some (.deck ⟨deck.input⟩)) = some queue') :
    SubmitKeeps deck queue := by
  rw [SubmitKeeps, submit_of_push_eq_some hinput hpush]
  obtain ⟨callback, hcallback, -, -, hrequests⟩ := RequestQueue.push_eq_some_iff.mp hpush
  cases hcallback
  exact .inl ⟨rfl, ⟨deck.input⟩, hrequests, fun later result => ⟨rfl, rfl⟩⟩

/-- When the push fails, the input line is empty and nothing is recorded. -/
theorem not_submitKeeps_of_push (hinput : deck.input ≠ [])
    (hpush : queue.push deck.input (some (.deck ⟨deck.input⟩)) = none) :
    ¬ SubmitKeeps deck queue := by
  obtain ⟨hempty, -, hnext⟩ := deck.takeInput_spec
  rw [SubmitKeeps, submit_of_push_eq_none hinput hpush]
  rintro (⟨hfalse, -⟩ | ⟨-, hkept | ⟨error, hnumber, -⟩⟩)
  · exact Bool.false_ne_true hfalse
  · exact hinput (hkept.symm.trans hempty)
  · rw [hnext] at hnumber
    exact absurd hnumber (by simp)

/-- **Which forms a submission does not lose**: those that fit, while there is room. -/
theorem submitKeeps_iff (hinput : deck.input ≠ []) :
    SubmitKeeps deck queue ↔
      deck.input.length ≤ kMaxRequestBytes ∧ queue.requests.length < kMaxPendingRequests := by
  cases hpush : queue.push deck.input (some (.deck ⟨deck.input⟩)) with
  | none =>
      refine iff_of_false (not_submitKeeps_of_push hinput hpush) ?_
      rintro ⟨hsize, hroom⟩
      rcases RequestQueue.push_eq_none_iff.mp hpush with hlarge | hfull
      · exact Nat.not_lt_of_le hsize hlarge
      · exact hroom.ne hfull
  | some queue' =>
      obtain ⟨-, -, hsize, hroom, -⟩ := RequestQueue.push_eq_some_iff.mp hpush
      exact iff_of_true (submitKeeps_of_push hinput hpush) ⟨hsize, hroom⟩

/-- A form of one byte, and an empty queue. -/
theorem submitKeeps_iff_small :
    SubmitKeeps (S := Unit) (State.new.setInput [49]) RequestQueue.empty ↔
      [49].length ≤ kMaxRequestBytes ∧ 0 < kMaxPendingRequests :=
  submitKeeps_iff (List.cons_ne_nil 49 [])

/-- A queue with no room. -/
def fullQueue : RequestQueue (Reply Unit) where
  requests := List.replicate kMaxPendingRequests ⟨[], .other ()⟩
  bounded := List.length_replicate.le

/-- A form that is too large is lost, and so is any form when the queue is full. -/
theorem not_submitKeeps_large_or_full :
    ¬ SubmitKeeps (S := Unit) (State.new.setInput (List.replicate (16 * 1024 + 1) 49))
        RequestQueue.empty ∧
      ¬ SubmitKeeps (State.new.setInput [49]) fullQueue := by
  refine ⟨not_submitKeeps_of_push ?_ (RequestQueue.push_eq_none_iff.mpr (.inl ?_)),
    not_submitKeeps_of_push ?_ (RequestQueue.push_eq_none_iff.mpr (.inr ?_))⟩
  · exact List.cons_ne_nil 49 _
  · rw [State.setInput, List.length_replicate]
    exact Nat.lt_succ_self _
  · exact List.cons_ne_nil 49 _
  · exact List.length_replicate

end Submit

end NeuralDeck

end LispHost
