import LispHost.Lib.Transition
import LispHost.LocalReplQueue
import Mathlib.Data.List.Basic

/-!
# Requests out of a Receive Buffer

`ServeClient` takes the requests of a client out of the bytes it has received: its inner loop
cuts off the line in front of the next newline, pushes it to the queue, waits for the reply and
sends it. The index of the newline is looked up before the loop and again behind a reply. A turn
that goes on early, for an empty line or a rejected request, keeps the old index, and from there
on the loop cuts the rest of the buffer at the wrong places.

## Main definitions

* `Scan`, `turn`, `TurnStep`: the inner loop, one turn at a time.
* `lines`: the complete lines of a buffer.
* `NoSkip`: no turn goes on early.
* `InTime`: the loop ends within as many turns as there are newlines.

## Main results

* `length_le_of_noSkip`: turns that do not go on early take one line each.
* `exists_run_of_skip`: behind a turn that goes on early, the loop may never end.
* `inTime_iff`: when the loop ends in time.
-/

namespace LispHost

open Effects

/-! ### The loop -/

/-- The byte that ends a line. -/
def lineFeed : UInt8 := 10

/-- The byte in front of it that a client may send. -/
def carriageReturn : UInt8 := 13

/-- `buffered.find('\n')`; `none` is `npos`. -/
def findNewline (buffered : Bytes) : Option Nat := buffered.findIdx? (· == lineFeed)

/-- A line without one `'\r'` at its end. -/
def stripReturn (source : Bytes) : Bytes :=
  if source.getLast? = some carriageReturn then source.dropLast else source

/-- How pushing a request ends: the queue rejects it, or it is answered, or the server stops
before it is. -/
inductive PushOutcome where
  | rejected
  | answered (reply : Bytes)
  | stopped
deriving DecidableEq, Repr

/-- The inner loop between two turns: at an index that is not `npos`, behind its end, or
behind the `return` in it. -/
inductive Scan where
  | turn (buffered : Bytes) (newline : Nat)
  | done (buffered : Bytes)
  | returned
deriving DecidableEq, Repr

/-- The loop with its index looked up. -/
def scan (buffered : Bytes) : Scan :=
  match findNewline buffered with
  | some newline => .turn buffered newline
  | none => .done buffered

/-- What a turn does: it skips an empty line, or it pushes a request. -/
inductive TurnEvent where
  | blank
  | pushed (source : Bytes) (outcome : PushOutcome)
deriving DecidableEq, Repr

/-- How the loop goes on behind a push: only a reply looks the index up again. -/
def afterPush (rest : Bytes) (newline : Nat) : PushOutcome → Scan
  | .rejected => .turn rest newline
  | .answered _ => scan rest
  | .stopped => .returned

/-- One turn, if a request that it pushes ends as given. -/
def turn (buffered : Bytes) (newline : Nat) (outcome : PushOutcome) : TurnEvent × Scan :=
  let source := stripReturn (buffered.take newline)
  let rest := buffered.drop (newline + 1)
  if source = [] then (.blank, .turn rest newline)
  else (.pushed source outcome, afterPush rest newline outcome)

/-- The turns of the loop. -/
inductive TurnStep : Scan → TurnEvent → Scan → Prop where
  | turn (buffered : Bytes) (newline : Nat) (outcome : PushOutcome) :
      TurnStep (.turn buffered newline) (turn buffered newline outcome).1
        (turn buffered newline outcome).2

/-- The complete lines of a buffer, without their newlines. -/
def lines : Bytes → List Bytes
  | [] => []
  | c :: rest =>
      if c = lineFeed then [] :: lines rest
      else
        match lines rest with
        | [] => []
        | line :: others => (c :: line) :: others

/-! ### Lines -/

/-- The first newline of a buffer, byte by byte. -/
theorem findNewline_cons (c : UInt8) (rest : Bytes) :
    findNewline (c :: rest) =
      if c = lineFeed then some 0 else (findNewline rest).map (· + 1) := by
  rw [findNewline, List.findIdx?_cons]
  by_cases hc : c = lineFeed
  · rw [if_pos hc, if_pos (beq_iff_eq.mpr hc)]
  · rw [if_neg hc, if_neg (fun h => hc (beq_iff_eq.mp h))]
    rfl

/-- A newline ends a line. -/
theorem lines_lineFeed (rest : Bytes) : lines (lineFeed :: rest) = [] :: lines rest := by
  rw [lines, if_pos rfl]

/-- A first character that is no newline belongs to the first line. -/
theorem lines_cons {c : UInt8} (hc : c ≠ lineFeed) {rest line : Bytes} {others : List Bytes}
    (h : lines rest = line :: others) : lines (c :: rest) = (c :: line) :: others := by
  rw [lines, if_neg hc, h]

/-- A byte in front of a line without an end ends no line. -/
theorem lines_cons_nil {c : UInt8} (hc : c ≠ lineFeed) {rest : Bytes} (h : lines rest = []) :
    lines (c :: rest) = [] := by
  rw [lines, if_neg hc, h]

/-- There are as many complete lines as newlines. -/
theorem length_lines (buffered : Bytes) : (lines buffered).length = buffered.count lineFeed := by
  induction buffered with
  | nil => rfl
  | cons c rest ih =>
      by_cases hc : c = lineFeed
      · subst hc
        rw [lines_lineFeed, List.length_cons, List.count_cons_self, ih]
      · rw [List.count_cons_of_ne (fun h => hc h), ← ih]
        cases hrest : lines rest with
        | nil => rw [lines_cons_nil hc hrest]
        | cons line others => rw [lines_cons hc hrest, List.length_cons, List.length_cons]

/-- A buffer without a newline has no complete line. -/
theorem lines_of_findNewline_none {buffered : Bytes} (h : findNewline buffered = none) :
    lines buffered = [] := by
  induction buffered with
  | nil => rfl
  | cons c rest ih =>
      rw [findNewline_cons] at h
      by_cases hc : c = lineFeed
      · rw [if_pos hc] at h
        cases h
      · rw [if_neg hc, Option.map_eq_none_iff] at h
        exact lines_cons_nil hc (ih h)

/-- **The first line** is what is in front of the first newline. -/
theorem lines_of_findNewline {buffered : Bytes} {newline : Nat}
    (h : findNewline buffered = some newline) :
    lines buffered = buffered.take newline :: lines (buffered.drop (newline + 1)) := by
  induction buffered generalizing newline with
  | nil => cases h
  | cons c rest ih =>
      rw [findNewline_cons] at h
      by_cases hc : c = lineFeed
      · rw [if_pos hc] at h
        cases h
        subst hc
        exact lines_lineFeed rest
      · rw [if_neg hc, Option.map_eq_some_iff] at h
        obtain ⟨k, hk, rfl⟩ := h
        exact lines_cons hc (ih hk)

/-! ### Turns -/

/-- The pushes of some turns end as the stream `outcomes` says. -/
def Follows : (Nat → PushOutcome) → List TurnEvent → Prop
  | _, [] => True
  | outcomes, .blank :: events => Follows outcomes events
  | outcomes, .pushed _ outcome :: events =>
      outcome = outcomes 0 ∧ Follows (fun i => outcomes (i + 1)) events

/-- A buffer with a newline has a turn. -/
theorem scan_of_some {buffered : Bytes} {newline : Nat} (h : findNewline buffered = some newline) :
    scan buffered = .turn buffered newline := by
  rw [scan, h]

/-- A buffer without one has none. -/
theorem scan_of_none {buffered : Bytes} (h : findNewline buffered = none) :
    scan buffered = .done buffered := by
  rw [scan, h]

/-- An empty line is skipped, and the index is kept. -/
theorem TurnStep.blank {buffered : Bytes} {newline : Nat}
    (h : stripReturn (buffered.take newline) = []) :
    TurnStep (.turn buffered newline) .blank (.turn (buffered.drop (newline + 1)) newline) := by
  have hturn := TurnStep.turn buffered newline .rejected
  rwa [LispHost.turn, if_pos h] at hturn

/-- Any other line is pushed. -/
theorem TurnStep.pushed {buffered : Bytes} {newline : Nat}
    (h : stripReturn (buffered.take newline) ≠ []) (outcome : PushOutcome) :
    TurnStep (.turn buffered newline)
      (.pushed (stripReturn (buffered.take newline)) outcome)
      (afterPush (buffered.drop (newline + 1)) newline outcome) := by
  have hturn := TurnStep.turn buffered newline outcome
  rwa [LispHost.turn, if_neg h] at hturn

/-- **What a turn can do.** -/
theorem turnStep_iff {buffered : Bytes} {newline : Nat} {event : TurnEvent} {s : Scan} :
    TurnStep (.turn buffered newline) event s ↔
      (stripReturn (buffered.take newline) = [] ∧ event = .blank ∧
          s = .turn (buffered.drop (newline + 1)) newline) ∨
        stripReturn (buffered.take newline) ≠ [] ∧ ∃ outcome,
          event = .pushed (stripReturn (buffered.take newline)) outcome ∧
            s = afterPush (buffered.drop (newline + 1)) newline outcome := by
  constructor
  · rintro ⟨-, -, outcome⟩
    by_cases hempty : stripReturn (buffered.take newline) = []
    · rw [turn, if_pos hempty]
      exact .inl ⟨hempty, rfl, rfl⟩
    · rw [turn, if_neg hempty]
      exact .inr ⟨hempty, outcome, rfl, rfl⟩
  · rintro (⟨hempty, rfl, rfl⟩ | ⟨hne, outcome, rfl, rfl⟩)
    · exact .blank hempty
    · exact .pushed hne outcome

/-! ### The loop in time -/

/-- No turn goes on early: up to the first `stopped`, every line has a request in it, and no
request is rejected. -/
def NoSkip : List Bytes → (Nat → PushOutcome) → Prop
  | [], _ => True
  | line :: others, outcomes =>
      stripReturn line ≠ [] ∧ outcomes 0 ≠ .rejected ∧
        ((∃ reply, outcomes 0 = .answered reply) → NoSkip others fun i => outcomes (i + 1))

/-- The streams agree on the pushes that are made up to the first turn that goes on early. -/
def AgreeUntilSkip : List Bytes → (Nat → PushOutcome) → (Nat → PushOutcome) → Prop
  | [], _, _ => True
  | line :: others, outcomes, outcomes' =>
      stripReturn line ≠ [] → outcomes' 0 = outcomes 0 ∧
        ((∃ reply, outcomes 0 = .answered reply) →
          AgreeUntilSkip others (fun i => outcomes (i + 1)) fun i => outcomes' (i + 1))

/-- The loop ends within as many turns as the buffer has newlines. -/
def InTime (buffered : Bytes) (outcomes : Nat → PushOutcome) : Prop :=
  ∀ events s, Run TurnStep (scan buffered) events s → Follows outcomes events →
    events.length ≤ buffered.count lineFeed

/-- The first line of a buffer, and what is behind its newline. -/
theorem exists_of_lines_cons {buffered line : Bytes} {others : List Bytes}
    (h : lines buffered = line :: others) :
    ∃ newline, findNewline buffered = some newline ∧ line = buffered.take newline ∧
      others = lines (buffered.drop (newline + 1)) := by
  cases hfind : findNewline buffered with
  | none =>
      rw [lines_of_findNewline_none hfind] at h
      cases h
  | some newline =>
      rw [lines_of_findNewline hfind] at h
      obtain ⟨rfl, rfl⟩ := List.cons.inj h
      exact ⟨newline, rfl, rfl, rfl⟩

/-- The loop makes no turn behind its end. -/
theorem events_eq_nil_of_done {buffered : Bytes} (h : lines buffered = [])
    {events : List TurnEvent} {s : Scan} (hrun : Run TurnStep (scan buffered) events s) :
    events = [] := by
  have hdone : scan buffered = .done buffered := by
    cases hfind : findNewline buffered with
    | none => exact scan_of_none hfind
    | some newline =>
        rw [lines_of_findNewline hfind] at h
        cases h
  rw [hdone] at hrun
  cases hrun with
  | nil => rfl
  | cons hstep _ => cases hstep

/-- **Turns that do not go on early** take one line each. -/
theorem length_le_of_noSkip {buffered : Bytes} {outcomes outcomes' : Nat → PushOutcome}
    (h : NoSkip (lines buffered) outcomes)
    (hagree : AgreeUntilSkip (lines buffered) outcomes outcomes')
    {events : List TurnEvent} {s : Scan} (hrun : Run TurnStep (scan buffered) events s)
    (hfollows : Follows outcomes' events) : events.length ≤ (lines buffered).length := by
  generalize hlines : lines buffered = ls at h hagree ⊢
  induction ls generalizing buffered outcomes outcomes' events with
  | nil =>
      rw [events_eq_nil_of_done hlines hrun]
      exact Nat.le_refl 0
  | cons line others ih =>
      obtain ⟨newline, hfind, rfl, rfl⟩ := exists_of_lines_cons hlines
      obtain ⟨hrequest, hrejected, hothers⟩ := h
      obtain ⟨hsame, hsames⟩ := hagree hrequest
      rw [scan_of_some hfind] at hrun
      cases hrun with
      | nil => exact Nat.zero_le _
      | cons hstep hrest =>
          rcases turnStep_iff.mp hstep with ⟨hempty, -, -⟩ | ⟨-, outcome, rfl, rfl⟩
          · exact absurd hempty hrequest
          obtain ⟨rfl, hfollows⟩ := hfollows
          rw [hsame] at hrest
          cases houtcome : outcomes 0 with
          | rejected => exact absurd houtcome hrejected
          | answered reply =>
              rw [houtcome, afterPush] at hrest
              have hlength := ih hrest hfollows rfl (hothers ⟨reply, houtcome⟩)
                (hsames ⟨reply, houtcome⟩)
              exact Nat.succ_le_succ hlength
          | stopped =>
              rw [houtcome, afterPush] at hrest
              cases hrest with
              | nil => exact Nat.succ_le_succ (Nat.zero_le _)
              | cons hstep _ => cases hstep

/-- **Behind a turn that goes on early**, the loop may go on for any number of turns. -/
theorem exists_run_of_rejected (buffered : Bytes) (newline k : Nat) :
    ∃ events s, events.length = k ∧ Run TurnStep (.turn buffered newline) events s ∧
      Follows (fun _ => .rejected) events := by
  induction k generalizing buffered with
  | zero => exact ⟨[], _, rfl, .nil _, trivial⟩
  | succ k ih =>
      obtain ⟨events, s, hlength, hrun, hfollows⟩ := ih (buffered.drop (newline + 1))
      by_cases hempty : stripReturn (buffered.take newline) = []
      · exact ⟨.blank :: events, s, congrArg Nat.succ hlength, .cons (.blank hempty) hrun, hfollows⟩
      · exact ⟨_ :: events, s, congrArg Nat.succ hlength, .cons (.pushed hempty .rejected) hrun,
          rfl, hfollows⟩

/-- Where a turn goes on early, the pushes behind it can be such that the loop never ends. -/
theorem exists_run_of_skip {buffered : Bytes} {outcomes : Nat → PushOutcome}
    (h : ¬ NoSkip (lines buffered) outcomes) :
    ∃ outcomes', AgreeUntilSkip (lines buffered) outcomes outcomes' ∧
      ∀ k, ∃ events s, events.length = k ∧ Run TurnStep (scan buffered) events s ∧
        Follows outcomes' events := by
  generalize hlines : lines buffered = ls at h ⊢
  induction ls generalizing buffered outcomes with
  | nil => exact absurd trivial h
  | cons line others ih =>
      obtain ⟨newline, hfind, rfl, rfl⟩ := exists_of_lines_cons hlines
      rw [scan_of_some hfind]
      by_cases hrequest : stripReturn (buffered.take newline) = []
      · refine ⟨fun _ => .rejected, fun hne => absurd hrequest hne, fun k => ?_⟩
        exact exists_run_of_rejected buffered newline k
      cases houtcome : outcomes 0 with
      | rejected =>
          refine ⟨fun _ => .rejected, fun _ => ⟨houtcome.symm, ?_⟩, fun k => ?_⟩
          · rintro ⟨reply, hreply⟩
            cases houtcome.symm.trans hreply
          · exact exists_run_of_rejected buffered newline k
      | stopped =>
          refine absurd ⟨hrequest, ?_, ?_⟩ h
          · rw [houtcome]
            rintro ⟨⟩
          · rintro ⟨reply, hreply⟩
            cases houtcome.symm.trans hreply
      | answered reply =>
          have hothers : ¬ NoSkip (lines (buffered.drop (newline + 1))) fun i =>
              outcomes (i + 1) := by
            refine fun hothers => h ⟨hrequest, ?_, fun _ => hothers⟩
            rw [houtcome]
            rintro ⟨⟩
          obtain ⟨outcomes', hagree, hruns⟩ := ih rfl hothers
          let first : Nat → PushOutcome := fun i => i.casesOn (outcomes 0) outcomes'
          refine ⟨first, fun _ => ⟨rfl, fun _ => hagree⟩, fun k => ?_⟩
          cases k with
          | zero => exact ⟨[], _, rfl, .nil _, trivial⟩
          | succ k =>
              obtain ⟨events, s, hlength, hrun, hfollows⟩ := hruns k
              refine ⟨_ :: events, s, congrArg Nat.succ hlength,
                .cons (.pushed hrequest (.answered reply)) hrun, houtcome.symm, hfollows⟩

/-- **When the loop ends in time.** Given what is in the buffer and how the pushes end up to
the first turn that goes on early, the loop ends within as many turns as there are newlines,
however later pushes end, exactly if no turn goes on early. -/
theorem inTime_iff (buffered : Bytes) (outcomes : Nat → PushOutcome) :
    (∀ outcomes', AgreeUntilSkip (lines buffered) outcomes outcomes' →
        InTime buffered outcomes') ↔
      NoSkip (lines buffered) outcomes := by
  constructor
  · intro htime
    by_contra hskip
    obtain ⟨outcomes', hagree, hruns⟩ := exists_run_of_skip hskip
    obtain ⟨events, s, hlength, hrun, hfollows⟩ := hruns (buffered.count lineFeed + 1)
    have hle := htime outcomes' hagree events s hrun hfollows
    omega
  · intro h outcomes' hagree events s hrun hfollows
    rw [← length_lines]
    exact length_le_of_noSkip h hagree hrun hfollows

/-- **A blank line ends the loop's progress**: on a lone newline it makes any number of turns. -/
theorem not_inTime_blank : ¬ InTime [lineFeed] fun _ => .answered [] := by
  intro h
  have hblank : TurnStep (.turn [lineFeed] 0) .blank (.turn [] 0) := .blank rfl
  have hagain : TurnStep (.turn [] 0) .blank (.turn [] 0) := .blank rfl
  have hle := h [.blank, .blank] (.turn [] 0) (.cons hblank (.single hagain)) trivial
  exact absurd hle (by decide)

end LispHost
