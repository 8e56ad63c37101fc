import LispHost.Dispatch
import LispHost.Lib.Window
import LispHost.ReaderKeeps

/-!
# The Log of the Dispatcher

`DispatchRunningTick` evaluates the requests that have come in, and then the dispatcher; what the
dispatcher answers is logged if it differs from the last answer. So the log is the history of the
answers without repetitions. Every answer is about one observation, which was made in its frame,
whatever the requests have evaluated and observed in between.

## Main definitions

* `Steady`: what no call changes of what the host can reach, and what only grows.
* `Frames`, `FrameStep`: the frames of the game.
* `AnswersTo`, `DispatchLog`: the answers of a run, and its log.

## Main results

* `steady_wsmEvalString`: every call is steady.
* `dispatcher_replies`: one call on the script, behind any evaluations and observations.
* `dispatch_log`: the log of a run.
-/

namespace LispHost

open Effects

variable {I : Type} {P : Platform} {S : Surfaces}

/-! ### What no call changes -/

/-- What no call changes of what the host can reach, and what only grows. -/
structure Steady (first world : HostWorld (PlayerHost I)) : Prop where
  pointers : world.host.pointers = first.host.pointers
  typeName : world.host.typeName = first.host.typeName
  answers : world.host.answers = first.host.answers
  boxed : first.boxed.values.length ≤ world.boxed.values.length
  retains : first.host.handles.retains ≤ world.host.handles.retains
  calls : first.host.calls <+: world.host.calls
  bindings : first.bindings.NonCons → world.bindings.NonCons

namespace Steady

variable {first world : HostWorld (PlayerHost I)}

/-- A world is steady. -/
theorem refl (world : HostWorld (PlayerHost I)) : Steady world world :=
  ⟨rfl, rfl, rfl, le_rfl, le_rfl, List.prefix_refl _, id⟩

/-- Steady steps compose. -/
theorem trans {world' : HostWorld (PlayerHost I)} (h : Steady first world)
    (h' : Steady world world') : Steady first world' where
  pointers := h'.pointers.trans h.pointers
  typeName := h'.typeName.trans h.typeName
  answers := h'.answers.trans h.answers
  boxed := h.boxed.trans h'.boxed
  retains := h.retains.trans h'.retains
  calls := h.calls.trans h'.calls
  bindings := h'.bindings ∘ h.bindings

/-- Boxing more values is a steady step. -/
theorem grow (h : Steady first world) {boxed : BoxedTable}
    (hle : world.boxed.values.length ≤ boxed.values.length) :
    Steady first { world with boxed } :=
  ⟨h.pointers, h.typeName, h.answers, h.boxed.trans hle, h.retains, h.calls, h.bindings⟩

/-- What is logged does not matter. -/
theorem logged (h : Steady first world) (runtime : RuntimeState) (log : List AdapterLog) :
    Steady first { world with host := { world.host with runtime, log } } :=
  ⟨h.pointers, h.typeName, h.answers, h.boxed, h.retains, h.calls, h.bindings⟩

end Steady

/-- Acting on a player is a steady step. -/
theorem steady_actOnPlayer [DecidableEq I] (answers : PlayerAnswers I)
    (world : HostWorld (PlayerHost I)) : Steady world (actOnPlayer P S answers world).2 := by
  obtain ⟨hretains, hcalls⟩ := actOnPlayer_frame (P := P) (S := S) answers world
  have hboxed := (actOnPlayer_extends (P := P) (S := S) answers world).1
  have hconfig : (actOnPlayer P S answers world).2.host.pointers = world.host.pointers ∧
      (actOnPlayer P S answers world).2.host.typeName = world.host.typeName ∧
      (actOnPlayer P S answers world).2.host.answers = world.host.answers := by
    obtain ⟨hact, -⟩ | ⟨hact, -⟩ | ⟨hact, -⟩ := actOnPlayer_cases (P := P) (S := S) answers world
    · rw [hact]
      exact ⟨rfl, rfl, rfl⟩
    · obtain hbind | hbind := bindNil_cases (S := S) answers world
      · rw [hact, hbind]
        exact ⟨rfl, rfl, rfl⟩
      · rw [hact, hbind]
        exact ⟨rfl, rfl, rfl⟩
    · obtain ⟨_, _, _, -, -, -, hbind⟩ | ⟨_, _, -, -, hbind⟩ | hbind :=
        bindNew_cases (P := P) (S := S) answers world
      all_goals
        rw [hact, hbind]
        exact ⟨rfl, rfl, rfl⟩
  exact ⟨hconfig.1, hconfig.2.1, hconfig.2.2, hboxed.length_le, hretains,
    hcalls ▸ List.prefix_refl _, (actOnPlayer_words answers world).2⟩

/-- So is the primitive around it. -/
theorem steady_playerPresentPrimitive [DecidableEq I] (answers : PlayerAnswers I) (argc : Nat)
    (out : Bool) (world : HostWorld (PlayerHost I)) :
    Steady world (playerPresentPrimitive P S answers argc out world).2 := by
  have hact := steady_actOnPlayer (P := P) (S := S) answers world
  obtain ⟨code, -, heq⟩ | ⟨result, world', hacted, heq⟩ | ⟨world', hacted, heq⟩ :=
    playerPresentPrimitive_cases (P := P) (S := S) answers argc out world
  · rw [heq]
    exact .refl world
  · rw [hacted] at hact
    rw [heq]
    exact hact
  · rw [hacted] at hact
    obtain ⟨runtime, log, hreport⟩ :=
      reportPresence_eq (answers.executed && answers.handle.isSome) world'
    rw [heq, hreport]
    exact hact.logged runtime log

/-- So is an observation, which adds its record. -/
theorem steady_observePlayer [DecidableEq I] (argc : Nat) (out : Bool)
    (world : HostWorld (PlayerHost I)) : Steady world (observePlayer P S argc out world).2 := by
  have h := steady_playerPresentPrimitive (P := P) (S := S)
    (world.host.answers world.host.calls.length) argc out world
  refine ⟨h.pointers, h.typeName, h.answers, h.boxed, h.retains, ?_, h.bindings⟩
  rw [calls_observePlayer]
  exact List.prefix_append _ _

/-- **Every call of a primitive is steady.** -/
theorem worldInvariant_steady [DecidableEq I] (first : HostWorld (PlayerHost I)) :
    WorldInvariant (Steady first) (adapterPrimitives P S) where
  grow h hle := h.grow hle.length_le
  clear h := h.grow (List.length_map _).ge
  call {name primitive} hname args world h := by
    rw [adapterPrimitives] at hname
    split_ifs at hname
    all_goals obtain rfl := Option.some.inj hname
    · obtain ⟨boxed, hle, hframe⟩ := classPrimitive_frame (P := P) args world
      change Steady first (classPrimitive P args world).2
      rw [hframe]
      exact h.grow hle.length_le
    · exact h.trans (steady_observePlayer args.length true world)
    · obtain ⟨runtime, log, hframe⟩ := logPrimitive_frame args.length true world
      change Steady first (logPrimitive args.length true world).2
      rw [hframe]
      exact h.logged runtime log

/-- **Every call is steady**, and the primitives stay registered. -/
theorem steady_wsmEvalString [DecidableEq I] {m : Machine (PlayerHost I)}
    (hprimitives : m.session.primitives = adapterPrimitives P S) (source : SourceArg) :
    (wsmEvalString P source m).2.session.primitives = adapterPrimitives P S ∧
      Steady m.world (wsmEvalString P source m).2.world := by
  have hinvariant : WorldInvariant (Steady m.world) m.session.primitives :=
    hprimitives ▸ worldInvariant_steady m.world
  obtain ⟨hsame, hsteady⟩ := hinvariant.wsmEvalString (P := P) (.refl m.world) source
  exact ⟨hsame.trans hprimitives, hsteady⟩

/-! ### One call, behind anything -/

/-- A run is steady, and it has the same primitives to the end. -/
theorem steady_playerRun [DecidableEq I] (events : List PlayerEvent) {m : Machine (PlayerHost I)}
    (hprimitives : m.session.primitives = adapterPrimitives P S) :
    (playerRun P S events m).session.primitives = adapterPrimitives P S ∧
      Steady m.world (playerRun P S events m).world :=
  (worldInvariant_steady m.world).playerRun
    (fun argc out world h => h.trans (steady_observePlayer argc out world)) events hprimitives
    (.refl m.world)

/-- A call that meets no failure answers with the presence and the class. -/
theorem DispatcherCall.eq_frameReply {m m' : Machine (PlayerHost I)} {call : PlayerCall I}
    {text : String} (h : DispatcherCall m m' call text) (hpointers : m.host.pointers.Set)
    (hsucceeds : call.answers.Succeeds) : text = toCString (frameReply m.host call.answers) := by
  obtain ⟨names, reply, hreply, rfl, hdispatched⟩ := h
  rw [hreply.eq_frameReply (hdispatched.succeeds hpointers hsucceeds)]

/-- **What the dispatcher answers.** Behind any observations and evaluations, as long as tokens and
room last, a call on the script makes one observation, calls the primitives that the outcome of the
observation asks for, and answers about the player that was observed in it; while the library does
not fail, the answer is read off that player alone. -/
theorem dispatcher_replies [DecidableEq I] (hP : P.Spells) (pointers : AdapterPointers)
    (typeName : I → Option (Option String)) (answers : Nat → PlayerAnswers I)
    (events : List PlayerEvent) {m : Machine (PlayerHost I)}
    (hm : m = playerRun P .ofScripts events (playerInitial P .ofScripts pointers typeName answers))
    (hfits : m.host.handles.Fits) (hroom : m.reader.Room dispatcherTokens.length) :
    ∃ call text m', wsmEvalString P (.text dispatcherSource) m = (.ok text, m') ∧
      DispatcherCall m m' call text ∧ call.answers = answers m.host.calls.length ∧
      (pointers.Set → call.answers.Succeeds →
        text = toCString (frameReply m.host call.answers)) := by
  have hinitial : (playerInitial P .ofScripts pointers typeName answers).session.primitives =
      adapterPrimitives P .ofScripts := rfl
  obtain ⟨hprimitives, hsteady⟩ := steady_playerRun (P := P) events hinitial
  have hkept := playerKept_run (P := P) (S := .ofScripts) hinitial
    (fun _ => coherent_initial pointers typeName answers) events
  rw [← hm] at hprimitives hsteady hkept
  obtain ⟨call, text, m', hrun, hcall⟩ := dispatcher_call hP hprimitives (hkept hfits)
    (hsteady.bindings (by rintro name word ⟨⟩)) hfits hroom
  obtain ⟨names, reply, -, -, hdispatched⟩ := id hcall
  refine ⟨call, text, m', hrun, hcall, ?_, fun hset hsucceeds => ?_⟩
  · exact hdispatched.answers.trans (congrFun hsteady.answers _)
  · refine hcall.eq_frameReply ?_ hsucceeds
    rwa [show m.host.pointers = pointers from hsteady.pointers]

/-- A session in front of the first frame, with a player. -/
def atHome : Machine (PlayerHost Unit) :=
  playerInitial .standard .ofScripts ⟨true, true, true, true, true, true⟩
    (fun _ => some (some "PlayerPuppet")) fun _ => ⟨true, some (), .succeeds, true⟩

/-- The first frame. -/
theorem dispatcher_replies_atHome :
    ∃ m', wsmEvalString .standard (.text dispatcherSource) atHome =
      (.ok "\"PlayerPuppet\"", m') := by
  obtain ⟨call, text, m', hrun, -, hanswers, htext⟩ :=
    dispatcher_replies Platform.standard_spells ⟨true, true, true, true, true, true⟩
      (fun _ : Unit => some (some "PlayerPuppet")) (fun _ => ⟨true, some (), .succeeds, true⟩) []
      (m := atHome) rfl (show 0 < 2 ^ 64 - 1 by decide) (by constructor <;> decide)
  obtain rfl := htext rfl (by rw [hanswers]; exact ⟨rfl, rfl⟩)
  rw [hanswers] at hrun
  exact ⟨m', hrun⟩

/-! ### The tables only grow -/

/-- Reading keeps the symbols. -/
theorem symbols_readOne (text : String) (s : ReaderState) :
    s.symbols.nameToId.length ≤ (readOne P text s).2.symbols.nameToId.length := by
  have hinv : ∀ tokens, ReaderInv P tokens
      (fun (_ : Fixed) s' => s.symbols.nameToId.length ≤ s'.symbols.nameToId.length)
      (fun _ _ => True) (fun _ _ => True) (fun _ => True) := by
    intro tokens
    exact
      { form_mono := fun _ h => h
        list_mono := fun _ h => h
        form_of_list := fun h => h
        nil := fun _ => trivial
        fixnum := fun _ _ => trivial
        intern := fun i name _ => by
          rintro j - s' hs
          rw [internSymbol]
          cases hintern : s'.symbols.intern name with
          | none => exact ⟨j, le_rfl, hs, fun _ _ => trivial, fun _ _ => trivial⟩
          | some result =>
              have hle := (SymbolTable.intern_spec hintern).1.length_le
              exact ⟨j, le_rfl, hs.trans hle, fun _ _ => trivial, fun _ _ => trivial⟩
        string := fun i text _ j _ s' hs =>
          ⟨j, le_rfl, hs, fun _ _ => trivial, fun _ _ => trivial⟩
        cons := fun i head tail _ _ => by
          rintro j - s' hs
          rw [wsmCons]
          cases s'.arena.cons P head tail with
          | none => exact ⟨j, le_rfl, hs, fun _ _ => trivial, fun _ _ => trivial⟩
          | some result => exact ⟨j, le_rfl, hs, fun _ _ => trivial, fun _ _ => trivial⟩
        eof := trivial
        closeParen := trivial
        capacity := fun _ => trivial
        trailing := fun _ => trivial }
  obtain ⟨-, -, hs, -⟩ := (ReaderInv.readOne (fun _ _ => trivial) (fun tokens _ => hinv tokens)
    Fixed.world).spec (le_refl s.symbols.nameToId.length)
  exact hs

/-- A call keeps the symbols of its session. -/
theorem symbols_wsmEvalString {σ : Type} (source : SourceArg) (m : Machine σ) :
    m.session.symbols.nameToId.length ≤
      (wsmEvalString P source m).2.session.symbols.nameToId.length := by
  cases source with
  | null | notUtf8 => exact le_rfl
  | text text =>
      rw [wsmEvalString_text_snd]
      have hread := symbols_readOne (P := P) text m.start.reader
      have hends := CallEnds.of_evalStr (P := P) text m
      generalize evalStr P text m = result at hends
      cases hends with
      | readError hform | evalError hform | evalStops hform | printed hform =>
          rw [hform] at hread
          exact hread
      | readStops => exact hread

/-! ### Frames -/

/-- The session, and what the adapter keeps of the answers of the dispatcher: the last one, and the
lines that were logged. -/
structure Frames (I : Type) where
  machine : Machine (PlayerHost I)
  lastDispatchResult : String
  log : List String

/-- The end of `DispatchRunningTick`. -/
def Frames.report (frames : Frames I) (result : String) (machine : Machine (PlayerHost I)) :
    Frames I :=
  if frames.lastDispatchResult ≠ result then ⟨machine, result, frames.log ++ [result]⟩
  else { frames with machine }

/-- A request that a frame evaluates, or its call on the dispatcher, with what it returned. -/
inductive FrameEvent where
  | request (source : SourceArg)
  | dispatch (result : String)
deriving DecidableEq, Repr

/-- The text of a call on the dispatcher. -/
def FrameEvent.result : FrameEvent → Option String
  | dispatch result => some result
  | request _ => none

/-- What the dispatcher has returned. -/
def results (events : List FrameEvent) : List String := events.filterMap FrameEvent.result

/-- One call of a frame; a call that does not return ends the run. -/
inductive FrameStep (P : Platform) : Frames I → FrameEvent → Frames I → Prop
  | request {frames : Frames I} {source : SourceArg} {text : String}
      {machine : Machine (PlayerHost I)}
      (hrun : wsmEvalString P source frames.machine = (.ok text, machine)) :
      FrameStep P frames (.request source) { frames with machine }
  | dispatch {frames : Frames I} {result : String} {machine : Machine (PlayerHost I)}
      (hrun : wsmEvalString P (.text dispatcherSource) frames.machine = (.ok result, machine)) :
      FrameStep P frames (.dispatch result) (frames.report result machine)

/-- Tokens and room have lasted. -/
def Frames.Lasts (frames : Frames I) : Prop :=
  frames.machine.host.handles.Fits ∧ frames.machine.reader.Room dispatcherTokens.length

/-- The text is what the dispatcher answers to the observation. -/
def AnswersTo (host : PlayerHost I) (call : PlayerCall I) (text : String) : Prop :=
  (∃ names reply, DispatcherReply host call names reply ∧ text = toCString reply) ∧
    (host.pointers.Set → call.answers.Succeeds → text = toCString (frameReply host call.answers))

/-- **The answers and the log of a run.** Every answer is about an observation of its own, in the
order in which they were made; the log has the answers without repetitions. -/
structure DispatchLog (events : List FrameEvent) (frames : Frames I) : Prop where
  log : frames.log = (results events).destutter (· ≠ ·)
  answers : ∃ observed, observed.Sublist frames.machine.host.calls ∧
    List.Forall₂ (AnswersTo frames.machine.host) observed (results events)

/-- Reporting a result is no step of the machine. -/
@[simp] theorem machine_report (frames : Frames I) (result : String)
    (machine : Machine (PlayerHost I)) : (frames.report result machine).machine = machine := by
  rw [Frames.report]
  split_ifs <;> rfl

/-- A request is no result. -/
theorem results_request (events : List FrameEvent) (source : SourceArg) :
    results (events ++ [.request source]) = results events := by
  rw [results, List.filterMap_append]
  exact List.append_nil _

/-- The result of a call comes last. -/
theorem results_dispatch (events : List FrameEvent) (result : String) :
    results (events ++ [.dispatch result]) = results events ++ [result] :=
  List.filterMap_append

/-! ### What holds of an answer -/

/-- The class of a handle depends on the pointers and the names of the types only. -/
theorem classAnswer_congr {host host' : PlayerHost I} (hpointers : host'.pointers = host.pointers)
    (htypeName : host'.typeName = host.typeName) (handle : I) :
    classAnswer host' handle = classAnswer host handle := by
  rw [classAnswer, classAnswer, hpointers, htypeName]

/-- What is answered depends on what the engine says about classes, and on nothing else. -/
theorem AnswersTo.congr {host host' : PlayerHost I} {call : PlayerCall I} {text : String}
    (h : AnswersTo host call text) (hpointers : host'.pointers = host.pointers)
    (htypeName : host'.typeName = host.typeName) : AnswersTo host' call text := by
  have hclass := classAnswer_congr hpointers htypeName
  obtain ⟨⟨names, reply, hreply, htext⟩, hframe⟩ := h
  refine ⟨⟨names, reply, ?_, htext⟩, fun hset hsucceeds => ?_⟩
  · cases hreply with
    | failed hcode => exact .failed hcode
    | absent hplayer hresult => exact .absent hplayer hresult
    | noClass hplayer hresult hanswer =>
        exact .noClass hplayer hresult ((hclass _).trans hanswer)
    | present hplayer hresult hanswer =>
        exact .present hplayer hresult ((hclass _).trans hanswer)
  · rw [hframe (hpointers ▸ hset) hsucceeds, frameReply, frameReply]
    simp only [hclass]

/-- A text that is not empty gives a C string that is not empty. -/
theorem toCString_ne_empty {text : String} (h : text ≠ "") : toCString text ≠ "" := by
  rw [toCString]
  split_ifs
  · decide
  · exact h

/-- The text of an error is not empty. -/
theorem isErrorText_ne_empty {text : String} (h : IsErrorText text) : text ≠ "" := by
  rintro rfl
  obtain ⟨rest, hrest⟩ := h
  cases hrest

/-- No answer is empty. -/
theorem AnswersTo.ne_empty {host : PlayerHost I} {call : PlayerCall I} {text : String}
    (h : AnswersTo host call text) : text ≠ "" := by
  obtain ⟨⟨names, reply, hreply, rfl⟩, -⟩ := h
  refine toCString_ne_empty ?_
  cases hreply with
  | absent => decide
  | failed | noClass => exact isErrorText_ne_empty (isErrorText_evalErrorText _)
  | present =>
      intro hempty
      exact absurd (String.append_eq_empty_iff.mp hempty).2 (by decide)

/-- A call answers to its observation. -/
theorem DispatcherCall.answersTo {m m' : Machine (PlayerHost I)} {call : PlayerCall I}
    {text : String} (h : DispatcherCall m m' call text) : AnswersTo m.host call text := by
  refine ⟨?_, h.eq_frameReply⟩
  obtain ⟨names, reply, hreply, htext, -⟩ := h
  exact ⟨names, reply, hreply, htext⟩

/-! ### Runs -/

variable {frames frames' : Frames I} {events : List FrameEvent} {event : FrameEvent}

/-- The call of a step, on the machine in front of it. -/
theorem FrameStep.call (h : FrameStep P frames event frames') :
    ∃ source, frames'.machine = (wsmEvalString P source frames.machine).2 := by
  cases h with
  | request hrun => exact ⟨_, (congrArg Prod.snd hrun).symm⟩
  | dispatch hrun =>
      rw [machine_report]
      exact ⟨_, (congrArg Prod.snd hrun).symm⟩

/-- The result that was reported is the last one. -/
theorem lastDispatchResult_report (frames : Frames I) (result : String)
    (machine : Machine (PlayerHost I)) :
    (frames.report result machine).lastDispatchResult = result := by
  rw [Frames.report]
  split_ifs with hsame
  · rfl
  · exact of_not_not hsame

/-- A result is logged if it is another one than the last. -/
theorem log_report (frames : Frames I) (result : String) (machine : Machine (PlayerHost I)) :
    (frames.report result machine).log =
      frames.log ++ if frames.lastDispatchResult = result then [] else [result] := by
  by_cases hsame : frames.lastDispatchResult = result
  · rw [Frames.report, if_neg (not_not.mpr hsame), if_pos hsame]
    exact (List.append_nil _).symm
  · rw [Frames.report, if_pos hsame, if_neg hsame]

/-- The last answer, as the adapter keeps it, is compared with the next one. -/
theorem getD_eq_iff {last? : Option String} {result : String} (h : result ≠ "") :
    last?.getD "" = result ↔ last? = some result := by
  cases last? with
  | none => exact iff_of_false h.symm (by rintro ⟨⟩)
  | some last => exact Option.some_inj.symm

/-- The observations that were answered are there in every later state. -/
theorem DispatchLog.steady (h : DispatchLog events frames)
    (hsteady : Steady frames.machine.world frames'.machine.world) :
    ∃ observed, observed.Sublist frames'.machine.host.calls ∧
      observed.Sublist frames.machine.host.calls ∧
      List.Forall₂ (AnswersTo frames'.machine.host) observed (results events) := by
  obtain ⟨observed, hsublist, hanswers⟩ := h.answers
  exact ⟨observed, hsublist.trans hsteady.calls.sublist, hsublist,
    hanswers.imp fun _ _ htext => htext.congr hsteady.pointers hsteady.typeName⟩

/-- What holds of a run as long as the process lives. -/
structure FramesKept [DecidableEq I] (P : Platform) (events : List FrameEvent)
    (frames : Frames I) : Prop where
  primitives : frames.machine.session.primitives = adapterPrimitives P .ofScripts
  bindings : frames.machine.session.bindings.NonCons
  player : PlayerKept P .ofScripts frames.machine.world
  last : frames.lastDispatchResult = (results events).getLast?.getD ""
  logged : frames.Lasts → DispatchLog events frames

/-- A request changes no answer and logs nothing. -/
theorem dispatchLog_request (h : DispatchLog events frames)
    (hsteady : Steady frames.machine.world frames'.machine.world) (hlog : frames'.log = frames.log)
    (source : SourceArg) : DispatchLog (events ++ [.request source]) frames' where
  log := by rw [hlog, results_request, h.log]
  answers := by
    obtain ⟨observed, hsublist, -, hanswers⟩ := h.steady hsteady
    rw [results_request]
    exact ⟨observed, hsublist, hanswers⟩

/-- A call on the dispatcher adds its answer, which is about an observation of its own. -/
theorem dispatchLog_dispatch (h : DispatchLog events frames)
    (hlast : frames.lastDispatchResult = (results events).getLast?.getD "")
    {machine : Machine (PlayerHost I)} {call : PlayerCall I} {result : String}
    (hcall : DispatcherCall frames.machine machine call result)
    (hsteady : Steady frames.machine.world machine.world) :
    DispatchLog (events ++ [.dispatch result]) (frames.report result machine) where
  log := by
    rw [log_report, results_dispatch, destutter_ne_concat, h.log, hlast]
    simp only [getD_eq_iff hcall.answersTo.ne_empty]
  answers := by
    rw [machine_report, results_dispatch]
    have hsteady' : Steady frames.machine.world (frames.report result machine).machine.world := by
      rwa [machine_report]
    obtain ⟨observed, -, hsublist, hanswers⟩ := h.steady hsteady'
    rw [machine_report] at hanswers
    obtain ⟨names, reply, -, -, hdispatched⟩ := id hcall
    refine ⟨observed ++ [call], ?_, List.rel_append hanswers (.cons ?_ .nil)⟩
    · rw [show machine.host.calls = _ from hdispatched.calls]
      exact hsublist.append (List.Sublist.refl _)
    · exact hcall.answersTo.congr hsteady.pointers hsteady.typeName

variable [DecidableEq I]

/-- What has lasted until behind a step has lasted until in front of it. -/
theorem FrameStep.lasts (h : FrameStep P frames event frames')
    (hprimitives : frames.machine.session.primitives = adapterPrimitives P .ofScripts)
    (hlasts : frames'.Lasts) : frames.Lasts := by
  obtain ⟨source, hmachine⟩ := h.call
  have hsteady := (steady_wsmEvalString hprimitives source).2
  have hsymbols := symbols_wsmEvalString (P := P) source frames.machine
  rw [Frames.Lasts, hmachine] at hlasts
  obtain ⟨hfits, hsymbols', hboxed'⟩ := hlasts
  refine ⟨hsteady.retains.trans_lt hfits, ?_, ?_⟩
  · exact (Nat.add_le_add_right hsymbols _).trans_lt hsymbols'
  · exact (Nat.add_le_add_right hsteady.boxed _).trans_lt hboxed'

/-- **One step of a frame.** -/
theorem framesKept_step (hP : P.Spells) (h : FramesKept P events frames)
    (hstep : FrameStep P frames event frames') : FramesKept P (events ++ [event]) frames' := by
  have hlasts := hstep.lasts h.primitives
  obtain ⟨source, hmachine⟩ := hstep.call
  obtain ⟨hprimitives, hsteady⟩ := steady_wsmEvalString h.primitives source
  have hplayer := (playerKept_step (S := .ofScripts) h.primitives h.player (.eval source)).2
  rw [← hmachine] at hprimitives hsteady
  change PlayerKept P .ofScripts (wsmEvalString P source frames.machine).2.world at hplayer
  rw [← hmachine] at hplayer
  refine ⟨hprimitives, hsteady.bindings h.bindings, hplayer, ?_, fun hlasts' => ?_⟩
  · cases hstep with
    | request =>
        rw [results_request]
        exact h.last
    | dispatch =>
        rw [lastDispatchResult_report, results_dispatch, List.getLast?_concat]
        rfl
  · have hlasted := hlasts hlasts'
    cases hstep with
    | request => exact dispatchLog_request (h.logged hlasted) hsteady rfl _
    | dispatch hrun =>
        rw [machine_report] at hsteady
        obtain ⟨call, text, machine, hcalled, hcall⟩ := dispatcher_call hP h.primitives
          (h.player hlasted.1) h.bindings hlasted.1 hlasted.2
        obtain ⟨htext, rfl⟩ := Prod.mk.inj (hrun.symm.trans hcalled)
        obtain rfl := Outcome.ok.inj htext
        exact dispatchLog_dispatch (h.logged hlasted) h.last hcall hsteady

/-- **The log of the dispatcher.** In every run of frames, with any requests in between, and as
long as tokens and room last: every answer is about an observation of its own, in order, and the
log is the list of the answers without repetitions. -/
theorem dispatch_log (hP : P.Spells) (pointers : AdapterPointers)
    (typeName : I → Option (Option String)) (answers : Nat → PlayerAnswers I)
    (h : Run (FrameStep P)
      ⟨playerInitial P .ofScripts pointers typeName answers, "", []⟩ events frames)
    (hlasts : frames.Lasts) : DispatchLog events frames := by
  have hkept : FramesKept P events frames := by
    refine h.history (I := FramesKept P)
      (fun _ _ _ _ hkept hstep => framesKept_step hP hkept hstep) ?_
    exact
      { primitives := rfl
        bindings := by rintro name word ⟨⟩
        player := fun _ => coherent_initial pointers typeName answers
        last := rfl
        logged := fun _ => ⟨rfl, [], List.nil_sublist _, .nil⟩ }
  exact hkept.logged hlasts

/-- A session in front of the first frame, whose player is gone from the third observation on. -/
def leaving : Machine (PlayerHost Unit) :=
  playerInitial .standard .ofScripts ⟨true, true, true, true, true, true⟩
    (fun _ => some (some "PlayerPuppet"))
    fun n => ⟨true, if n < 2 then some () else none, .succeeds, true⟩

/-- The session behind a call on the dispatcher. -/
def behindDispatch (m : Machine (PlayerHost Unit)) : Machine (PlayerHost Unit) :=
  (wsmEvalString .standard (.text dispatcherSource) m).2

/-- A call on the dispatcher that returns a text. -/
theorem run_behindDispatch (m : Machine (PlayerHost Unit)) (text : String)
    (h : (wsmEvalString .standard (.text dispatcherSource) m).1 = .ok text) :
    wsmEvalString .standard (.text dispatcherSource) m = (.ok text, behindDispatch m) := by
  rw [behindDispatch, ← h]

/-- A request that is no text, and three frames. The second one repeats its answer, and the third
one does not find the player. -/
theorem dispatch_log_leaving :
    ∃ frames : Frames Unit, frames.log = ["\"PlayerPuppet\"", "()"] ∧
      DispatchLog [.request .null, .dispatch "\"PlayerPuppet\"", .dispatch "\"PlayerPuppet\"",
        .dispatch "()"] frames := by
  have hfirst := run_behindDispatch leaving "\"PlayerPuppet\"" (by decide +kernel)
  have hsecond := run_behindDispatch (behindDispatch leaving) "\"PlayerPuppet\""
    (by decide +kernel)
  have hthird := run_behindDispatch (behindDispatch (behindDispatch leaving)) "()"
    (by decide +kernel)
  have hfits : (behindDispatch (behindDispatch (behindDispatch leaving))).host.handles.retains <
      2 ^ 64 - 1 := by decide +kernel
  have hroom : (behindDispatch (behindDispatch (behindDispatch leaving))).reader.Room
      dispatcherTokens.length := by constructor <;> decide +kernel
  generalize behindDispatch leaving = m₁ at *
  generalize behindDispatch m₁ = m₂ at *
  generalize behindDispatch m₂ = m₃ at *
  refine ⟨⟨m₃, "()", ["\"PlayerPuppet\"", "()"]⟩, rfl, ?_⟩
  exact dispatch_log Platform.standard_spells ⟨true, true, true, true, true, true⟩
    (fun _ : Unit => some (some "PlayerPuppet"))
    (fun n => ⟨true, if n < 2 then some () else none, .succeeds, true⟩)
    (.cons (.request rfl) (.cons (.dispatch hfirst) (.cons (.dispatch hsecond)
      (.cons (.dispatch hthird) (.nil _))))) ⟨hfits, hroom⟩

end LispHost
