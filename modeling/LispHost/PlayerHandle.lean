import LispHost.Eval
import Mathlib.Logic.Function.Basic

/-!
# The Primitives of the Adapter

The adapter registers three primitives. `LogPrimitive` logs, `ClassPrimitive` names the class of
the player that a game handle stands for, and `PlayerPresentPrimitive` observes the player: when
the player has changed, it keeps the new instance in the handle table under a fresh token, wraps
the token into a game handle and binds that to the player's name.

Instances of the engine have a type `I`. What the engine answers to an observation, and whether
the runtime library fails, is read off a list of answers without end, one for each observation.
A call of the library that ends the process leaves no state; the world in front of the call stands
for it.

## Main definitions

* `GameHandleTable`, `PlayerAction.decide`: the parts.
* `PlayerHost`: the globals that the primitives use, with a record of the observations.
* `playerPresentPrimitive`, `classPrimitive`, `logPrimitive`: the primitives.
* `adapterPrimitives`: the primitives as they are registered.
-/

namespace LispHost

open Effects

/-! ### The handle table -/

/-- `GameHandleTable`. `retains` counts the tokens that were taken; the code has only
`m_nextToken`, which is one more and wraps around. -/
structure GameHandleTable (I : Type) where
  handles : Word → Option I
  nextToken : Word
  retains : Nat
  nextToken_eq : nextToken = BitVec.ofNat 64 (retains + 1)

namespace GameHandleTable

variable {I : Type}

/-- The table of a module that was just loaded. -/
protected def new : GameHandleTable I where
  handles := fun _ => none
  nextToken := 1
  retains := 0
  nextToken_eq := rfl

/-- `m_nextToken++`. -/
def advance (table : GameHandleTable I) : GameHandleTable I where
  handles := table.handles
  nextToken := table.nextToken + 1
  retains := table.retains + 1
  nextToken_eq := by
    rw [table.nextToken_eq, BitVec.ofNat_add (table.retains + 1)]
    rfl

/-- `emplace` does not replace an entry. -/
def retain (table : GameHandleTable I) : Option I → Word × GameHandleTable I
  | none => (0, table)
  | some handle =>
      if table.nextToken = 0 then (0, table.advance)
      else
        (table.nextToken,
          { table.advance with
            handles := Function.update table.handles table.nextToken
              (some ((table.handles table.nextToken).getD handle)) })

/-- `Resolve`: the token 0 stands for nothing. -/
def resolve (table : GameHandleTable I) (token : Word) : Option I :=
  if token = 0 then none else table.handles token

/-- `Release`: a token that is not in the table is ignored. -/
def release (table : GameHandleTable I) (token : Word) : GameHandleTable I :=
  { table with handles := Function.update table.handles token none }

end GameHandleTable

/-! ### The state of the adapter -/

/-- `player_handle_epoch::Action`. -/
inductive PlayerAction where
  | keep
  | bindNew
  | bindNil
  | preserve
deriving DecidableEq, Repr

/-- `player_handle_epoch::Decide`. -/
def PlayerAction.decide {I : Type} [DecidableEq I] (lookupExecuted : Bool)
    (observed retained : Option I) : PlayerAction :=
  if !lookupExecuted then preserve
  else
    match observed with
    | none => if retained = none then keep else bindNil
    | some _ => if observed = retained then keep else bindNew

/-- Which of the pointers are not null. -/
structure AdapterPointers where
  logger : Bool
  session : Bool
  bind : Bool
  wrapGameHandle : Bool
  unwrapGameHandle : Bool
  wrapTransientString : Bool
deriving DecidableEq, Repr

/-- A failing `wsm_wrap_game_handle` may have stored the token before it fails. -/
inductive WrapAnswer where
  | succeeds
  | fails (stored : Bool)
deriving DecidableEq, Repr

/-- What one observation is answered: by `GetPlayer`, and by the runtime library if it is
called. -/
structure PlayerAnswers (I : Type) where
  executed : Bool
  handle : Option I
  wrap : WrapAnswer
  bind : Bool

/-- `RuntimeState`; a presence that was never reported is `none`. -/
structure RuntimeState where
  capabilityLogged : Bool
  playerPresence : Option Bool
deriving DecidableEq, Repr

/-- `ShouldLogCapability`: only the first caller is told to log. -/
def RuntimeState.shouldLogCapability (state : RuntimeState) : Bool × RuntimeState :=
  if state.capabilityLogged then (false, state)
  else (true, { state with capabilityLogged := true })

/-- `PlayerPresenceChanged`: the first presence counts as a change. -/
def RuntimeState.playerPresenceChanged (state : RuntimeState) (present : Bool) :
    Bool × RuntimeState :=
  if state.playerPresence = some present then (false, state)
  else (true, { state with playerPresence := some present })

/-- The lines that the primitives log. -/
inductive AdapterLog where
  | capability
  | released
  | bound (token : Word)
  | presence (present : Bool)
deriving DecidableEq, Repr

/-- How a primitive ends: with a non-zero code, or with a word and code zero, or with the end of
the process. -/
inductive PrimitiveResult where
  | failed (code : Nat)
  | returned (out : Word)
  | exited
deriving DecidableEq, Repr

/-- What an observation can change: the table, the token, the binding of the player, and the
instance that the binding stands for. -/
structure PlayerView (I : Type) where
  handles : Word → Option I
  playerToken : Word
  binding : Option Word
  instance? : Option I

/-- The record of one observation. -/
structure PlayerCall (I : Type) where
  answers : PlayerAnswers I
  result : PrimitiveResult
  before : PlayerView I
  after : PlayerView I

/-- The globals that the primitives use. `typeName` is what the engine says about an instance:
it has no type, or a type without a name, or a name. -/
structure PlayerHost (I : Type) where
  pointers : AdapterPointers
  handles : GameHandleTable I
  playerToken : Word
  runtime : RuntimeState
  log : List AdapterLog
  typeName : I → Option (Option String)
  answers : Nat → PlayerAnswers I
  calls : List (PlayerCall I)

/-- The surface names, which the build generates. -/
structure Surfaces where
  log : String
  playerPresent : String
  class_ : String
  player : String
deriving DecidableEq, Repr

variable {I : Type} (P : Platform) (S : Surfaces)

/-! ### The primitives -/

/-- `LogPrimitive`: it logs the capability once and returns nil. -/
def logPrimitive (argc : Nat) (out : Bool) (world : HostWorld (PlayerHost I)) :
    PrimitiveResult × HostWorld (PlayerHost I) :=
  if !out then (.failed 1, world)
  else if argc ≠ 0 then (.failed 2, world)
  else if !world.host.pointers.logger then (.failed 3, world)
  else
    let (changed, runtime) := world.host.runtime.shouldLogCapability
    let log := if changed then world.host.log ++ [.capability] else world.host.log
    (.returned wordNil, { world with host := { world.host with runtime, log } })

/-- `BindNil`, or the code with which the primitive returns. -/
def bindNil (answers : PlayerAnswers I) (world : HostWorld (PlayerHost I)) :
    Option PrimitiveResult × HostWorld (PlayerHost I) :=
  if !world.host.pointers.session || !world.host.pointers.bind || !answers.bind then
    (some (.failed 4), world)
  else
    (none,
      { world with
        bindings := world.bindings.bind S.player wordNil
        host :=
          { world.host with
            handles := world.host.handles.release world.host.playerToken
            playerToken := 0
            log := world.host.log ++ [.released] } })

/-- `wsm_wrap_game_handle`: a word, or a failure, or the end of the process. -/
def wrapGameHandle (answer : WrapAnswer) (token : Word) (table : BoxedTable) :
    Outcome Exit Empty (Option Word) × BoxedTable :=
  match answer, BoxedTable.addGameHandle (ε := Empty) P token table with
  | .fails false, _ => (.ok none, table)
  | .fails true, (_, table) => (.ok none, table)
  | .succeeds, (.ok word, table) => (.ok (some word), table)
  | .succeeds, (.panic, table) => (.ok none, table)
  | .succeeds, (.abort reason, table) => (.abort reason, table)
  | .succeeds, (.timeout, table) => (.timeout, table)

/-- `BindNew`, or the code with which the primitive returns. -/
def bindNew (answers : PlayerAnswers I) (world : HostWorld (PlayerHost I)) :
    Option PrimitiveResult × HostWorld (PlayerHost I) :=
  if !world.host.pointers.session || !world.host.pointers.wrapGameHandle ||
      !world.host.pointers.bind then
    (some (.failed 5), world)
  else
    let (nextToken, handles) := world.host.handles.retain answers.handle
    if nextToken = 0 then (some (.failed 6), { world with host := { world.host with handles } })
    else
      let released : PlayerHost I := { world.host with handles := handles.release nextToken }
      match wrapGameHandle P answers.wrap nextToken world.boxed with
      | (.ok none, boxed) => (some (.failed 7), { world with boxed, host := released })
      | (.ok (some playerWord), boxed) =>
          if !answers.bind then (some (.failed 8), { world with boxed, host := released })
          else
            (none,
              { boxed
                bindings := world.bindings.bind S.player playerWord
                host :=
                  { world.host with
                    handles := handles.release world.host.playerToken
                    playerToken := nextToken
                    log := world.host.log ++ [.bound nextToken] } })
      | _ => (some .exited, world)

/-- The end of an observation. -/
def reportPresence (present : Bool) (world : HostWorld (PlayerHost I)) :
    PrimitiveResult × HostWorld (PlayerHost I) :=
  let (changed, runtime) := world.host.runtime.playerPresenceChanged present
  let log := if changed then world.host.log ++ [.presence present] else world.host.log
  (.returned (if present then symTWord else wordNil),
    { world with host := { world.host with runtime, log } })

/-- What an observation does about its answer. -/
def actOnPlayer [DecidableEq I] (answers : PlayerAnswers I) (world : HostWorld (PlayerHost I)) :
    Option PrimitiveResult × HostWorld (PlayerHost I) :=
  match PlayerAction.decide answers.executed answers.handle
      (world.host.handles.resolve world.host.playerToken) with
  | .bindNil => bindNil S answers world
  | .bindNew => bindNew P S answers world
  | .keep => (none, world)
  | .preserve => (none, world)

/-- `PlayerPresentPrimitive`: it acts on what `GetPlayer` finds and reports the presence. -/
def playerPresentPrimitive [DecidableEq I] (answers : PlayerAnswers I) (argc : Nat)
    (out : Bool) (world : HostWorld (PlayerHost I)) : PrimitiveResult × HostWorld (PlayerHost I) :=
  if !out then (.failed 1, world)
  else if argc ≠ 0 then (.failed 2, world)
  else if !world.host.pointers.logger then (.failed 3, world)
  else
    match actOnPlayer P S answers world with
    | (some result, world) => (result, world)
    | (none, world) => reportPresence (answers.executed && answers.handle.isSome) world

/-- The name of the class of the player that a word stands for, or the code of the failure. -/
def playerClassName (argument : Word) (world : HostWorld (PlayerHost I)) : Except Nat String :=
  if !world.host.pointers.session || !world.host.pointers.unwrapGameHandle ||
      !world.host.pointers.wrapTransientString then
    .error 3
  else
    match world.boxed.getGameHandle P argument with
    | none => .error 4
    | some token =>
        match world.host.handles.resolve token with
        | none => .error 5
        | some handle =>
            match world.host.typeName handle with
            | none => .error 6
            | some none => .error 7
            | some (some className) => .ok className

/-- `wsm_wrap_transient_string` on the name of the class. -/
def wrapClassName (world : HostWorld (PlayerHost I)) :
    Except Nat String → PrimitiveResult × HostWorld (PlayerHost I)
  | .error code => (.failed code, world)
  | .ok className =>
      match BoxedTable.addString (ε := Empty) P className world.boxed with
      | (.ok word, boxed) => (.returned word, { world with boxed })
      | (.panic, boxed) => (.failed 8, { world with boxed })
      | _ => (.exited, world)

/-- `ClassPrimitive`: the name of the class of its one argument. -/
def classPrimitive (args : List Word) (world : HostWorld (PlayerHost I)) :
    PrimitiveResult × HostWorld (PlayerHost I) :=
  match args with
  | [argument] => wrapClassName P world (playerClassName P argument world)
  | _ => (.failed 2, world)

/-! ### Registration -/

/-- What the registered closure makes of the end of a primitive. -/
def PrimitiveResult.host : PrimitiveResult → HostResult
  | failed code => .failed ("host primitive reported error code " ++ toString code)
  | returned out => .ok out
  | exited => .exited

/-- The instance that a word stands for. -/
def resolveWord (world : HostWorld (PlayerHost I)) (word : Word) : Option I :=
  (world.boxed.getGameHandle P word).bind world.host.handles.resolve

/-- What an observer sees of a world. -/
def playerView (world : HostWorld (PlayerHost I)) : PlayerView I where
  handles := world.host.handles.handles
  playerToken := world.host.playerToken
  binding := world.bindings.value S.player
  instance? := (world.bindings.value S.player).bind (resolveWord P world)

/-- The next observation, with its record. -/
def observePlayer [DecidableEq I] (argc : Nat) (out : Bool) (world : HostWorld (PlayerHost I)) :
    PrimitiveResult × HostWorld (PlayerHost I) :=
  let answers := world.host.answers world.host.calls.length
  let (result, world') := playerPresentPrimitive P S answers argc out world
  let call : PlayerCall I := ⟨answers, result, playerView P S world, playerView P S world'⟩
  (result, { world' with host := { world'.host with calls := world'.host.calls ++ [call] } })

/-! ### What the library guarantees -/

/-- The boxed table has grown, and bindings were added. -/
def Extends (world world' : HostWorld (PlayerHost I)) : Prop :=
  world.boxed ≤ world'.boxed ∧ world.bindings <:+ world'.bindings

/-- A world extends itself. -/
theorem Extends.refl (world : HostWorld (PlayerHost I)) : Extends world world :=
  ⟨BoxedTable.le_refl _, List.suffix_refl _⟩

/-- Extensions compose. -/
theorem Extends.trans {a b c : HostWorld (PlayerHost I)} (h : Extends a b) (h' : Extends b c) :
    Extends a c :=
  ⟨BoxedTable.le_trans h.1 h'.1, h.2.trans h'.2⟩

variable {P S}

/-- Boxing a value only adds to the table. -/
theorem add_le {ε : Type} (value : BoxedValue) (lifetime : BoxedLifetime) (table : BoxedTable) :
    table ≤ (BoxedTable.add (ε := ε) P value lifetime table).2 := by
  obtain hfull | ⟨word, hroom, -, hadd⟩ :=
    BoxedTable.add_eq (ε := ε) (P := P) value lifetime table
  · rw [hfull]
  · rw [hadd]
    exact BoxedTable.le_push _ _ hroom

/-- **How a wrap goes.** It gives out the word of a new entry; or it fails, with or without an
entry; or it ends the process. -/
theorem wrapGameHandle_cases (answer : WrapAnswer) (token : Word) (table : BoxedTable) :
    (∃ word hroom, P.encodeBoxed (table.values.length + 1) = some word ∧
        wrapGameHandle P answer token table =
          (.ok (some word), table.push ⟨.gameHandle token, .persistent⟩ hroom)) ∨
      (∃ boxed, table ≤ boxed ∧ wrapGameHandle P answer token table = (.ok none, boxed)) ∨
      wrapGameHandle P answer token table = (.abort .allocation, table) := by
  have hle : table ≤ (BoxedTable.addGameHandle (ε := Empty) P token table).2 := add_le _ _ _
  cases answer with
  | fails stored =>
      cases stored with
      | false => exact .inr (.inl ⟨table, BoxedTable.le_refl table, rfl⟩)
      | true => exact .inr (.inl ⟨_, hle, rfl⟩)
  | succeeds =>
      obtain hfull | ⟨word, hroom, hword, hadd⟩ :=
        BoxedTable.add_eq (ε := Empty) (P := P) (.gameHandle token) .persistent table
      · exact .inr (.inr (by simp only [wrapGameHandle, BoxedTable.addGameHandle, hfull]))
      · exact .inl ⟨word, hroom, hword,
          by simp only [wrapGameHandle, BoxedTable.addGameHandle, hadd]⟩

/-- **How `BindNil` goes.** -/
theorem bindNil_cases (answers : PlayerAnswers I) (world : HostWorld (PlayerHost I)) :
    bindNil S answers world = (some (.failed 4), world) ∨
      bindNil S answers world = (none,
        { world with
          bindings := world.bindings.bind S.player wordNil
          host :=
            { world.host with
              handles := world.host.handles.release world.host.playerToken
              playerToken := 0
              log := world.host.log ++ [.released] } }) := by
  rw [bindNil]
  cases !world.host.pointers.session || !world.host.pointers.bind || !answers.bind
  · exact .inr rfl
  · exact .inl rfl

/-- The tables that a failing `BindNew` leaves. -/
def FailedRetain (handles : GameHandleTable I) (handle : Option I)
    (handles' : GameHandleTable I) : Prop :=
  handles' = handles ∨
    ((handles.retain handle).1 = 0 ∧ handles' = (handles.retain handle).2) ∨
    (handles.retain handle).1 ≠ 0 ∧
      handles' = (handles.retain handle).2.release (handles.retain handle).1

/-- **How `BindNew` goes.** It fails, or it binds a new handle, or the process ends. -/
theorem bindNew_cases (answers : PlayerAnswers I) (world : HostWorld (PlayerHost I)) :
    (∃ code boxed handles, code ≠ 0 ∧ world.boxed ≤ boxed ∧
        FailedRetain world.host.handles answers.handle handles ∧
        bindNew P S answers world =
          (some (.failed code), { world with boxed, host := { world.host with handles } })) ∨
      (∃ word hroom, P.encodeBoxed (world.boxed.values.length + 1) = some word ∧
        (world.host.handles.retain answers.handle).1 ≠ 0 ∧
        bindNew P S answers world =
          (none,
            { boxed := world.boxed.push
                ⟨.gameHandle (world.host.handles.retain answers.handle).1, .persistent⟩ hroom
              bindings := world.bindings.bind S.player word
              host :=
                { world.host with
                  handles := (world.host.handles.retain answers.handle).2.release
                    world.host.playerToken
                  playerToken := (world.host.handles.retain answers.handle).1
                  log := world.host.log ++
                    [.bound (world.host.handles.retain answers.handle).1] } })) ∨
      bindNew P S answers world = (some .exited, world) := by
  rw [bindNew]
  cases !world.host.pointers.session || !world.host.pointers.wrapGameHandle ||
    !world.host.pointers.bind
  · rw [if_neg Bool.false_ne_true]
    generalize hretain : world.host.handles.retain answers.handle = retained
    obtain ⟨nextToken, handles⟩ := retained
    by_cases hzero : nextToken = 0
    · refine .inl ⟨6, world.boxed, handles, by decide, BoxedTable.le_refl _, ?_, if_pos hzero⟩
      exact .inr (.inl (by rw [hretain]; exact ⟨hzero, rfl⟩))
    have hreleased : FailedRetain world.host.handles answers.handle (handles.release nextToken) :=
      .inr (.inr (by rw [hretain]; exact ⟨hzero, rfl⟩))
    obtain ⟨word, hroom, hword, hwrap⟩ | ⟨boxed, hle, hwrap⟩ | hwrap :=
      wrapGameHandle_cases (P := P) answers.wrap nextToken world.boxed
    · cases hbind : answers.bind with
      | false =>
          refine .inl ⟨8, world.boxed.push ⟨.gameHandle nextToken, .persistent⟩ hroom, _, by decide,
            BoxedTable.le_push world.boxed _ hroom, hreleased, ?_⟩
          simp only [if_neg hzero, hwrap, Bool.not_false, if_true]
      | true =>
          refine .inr (.inl ⟨word, hroom, hword, hzero, ?_⟩)
          simp only [if_neg hzero, hwrap, Bool.not_true, Bool.false_eq_true, if_false]
    · refine .inl ⟨7, boxed, _, by decide, hle, hreleased, ?_⟩
      simp only [if_neg hzero, hwrap]
    · refine .inr (.inr ?_)
      simp only [if_neg hzero, hwrap]
  · exact .inl ⟨5, world.boxed, world.host.handles, by decide, BoxedTable.le_refl _, .inl rfl,
      rfl⟩

/-- **What an observation does about its answer.** It does nothing if there is no answer or the
player is the one that it knows; it binds nil if the player is gone; or it binds a new one. -/
theorem actOnPlayer_cases [DecidableEq I] (answers : PlayerAnswers I)
    (world : HostWorld (PlayerHost I)) :
    (actOnPlayer P S answers world = (none, world) ∧ (answers.executed = false ∨
        answers.handle = world.host.handles.resolve world.host.playerToken)) ∨
      (actOnPlayer P S answers world = bindNil S answers world ∧ answers.handle = none) ∨
      (actOnPlayer P S answers world = bindNew P S answers world ∧ answers.executed = true ∧
        ∃ handle, answers.handle = some handle) := by
  rw [actOnPlayer, PlayerAction.decide.eq_def]
  cases hexecuted : answers.executed with
  | false => exact .inl ⟨rfl, .inl rfl⟩
  | true =>
      generalize world.host.handles.resolve world.host.playerToken = retained
      cases hhandle : answers.handle with
      | none =>
          by_cases hretained : retained = none
          · subst hretained
            exact .inl ⟨rfl, .inr rfl⟩
          · refine .inr (.inl ⟨?_, rfl⟩)
            simp only [Bool.not_true, Bool.false_eq_true, if_false, if_neg hretained]
      | some handle =>
          by_cases hretained : some handle = retained
          · subst hretained
            refine .inl ⟨?_, .inr rfl⟩
            simp only [Bool.not_true, Bool.false_eq_true, if_false, if_true]
          · refine .inr (.inr ⟨?_, rfl, handle, rfl⟩)
            simp only [Bool.not_true, Bool.false_eq_true, if_false, if_neg hretained]

/-- Reporting a presence touches only the runtime state and the log. -/
theorem reportPresence_eq (present : Bool) (world : HostWorld (PlayerHost I)) :
    ∃ runtime log, reportPresence present world =
      (.returned (if present then symTWord else wordNil),
        { world with host := { world.host with runtime, log } }) :=
  ⟨_, _, rfl⟩

/-- Acting on a player removes no boxed value and no binding. -/
theorem actOnPlayer_extends [DecidableEq I] (answers : PlayerAnswers I)
    (world : HostWorld (PlayerHost I)) : Extends world (actOnPlayer P S answers world).2 := by
  obtain ⟨hact, -⟩ | ⟨hact, -⟩ | ⟨hact, -⟩ := actOnPlayer_cases (P := P) (S := S) answers world
  · rw [hact]
    exact Extends.refl world
  · rw [hact]
    obtain hbind | hbind := bindNil_cases (S := S) answers world
    · rw [hbind]
      exact Extends.refl world
    · rw [hbind]
      exact ⟨BoxedTable.le_refl _, List.suffix_cons _ _⟩
  · rw [hact]
    obtain ⟨_, boxed, handles, -, hle, -, hbind⟩ | ⟨word, hroom, -, -, hbind⟩ | hbind :=
      bindNew_cases (P := P) (S := S) answers world
    · rw [hbind]
      exact ⟨hle, List.suffix_refl _⟩
    · rw [hbind]
      exact ⟨BoxedTable.le_push _ _ hroom, List.suffix_cons _ _⟩
    · rw [hbind]
      exact Extends.refl world

/-- **How an observation goes.** It fails before it looks at the player; or it ends with what it
does about the answer; or it reports the presence. -/
theorem playerPresentPrimitive_cases [DecidableEq I] (answers : PlayerAnswers I) (argc : Nat)
    (out : Bool) (world : HostWorld (PlayerHost I)) :
    (∃ code, code ≠ 0 ∧
        playerPresentPrimitive P S answers argc out world = (.failed code, world)) ∨
      (∃ result world', actOnPlayer P S answers world = (some result, world') ∧
        playerPresentPrimitive P S answers argc out world = (result, world')) ∨
      ∃ world', actOnPlayer P S answers world = (none, world') ∧
        playerPresentPrimitive P S answers argc out world =
          reportPresence (answers.executed && answers.handle.isSome) world' := by
  rw [playerPresentPrimitive]
  cases out with
  | false => exact .inl ⟨1, by decide, rfl⟩
  | true =>
      by_cases hargc : argc ≠ 0
      · exact .inl ⟨2, by decide, if_pos hargc⟩
      cases world.host.pointers.logger with
      | false => exact .inl ⟨3, by decide, by rw [if_neg hargc]; rfl⟩
      | true =>
          rcases hact : actOnPlayer P S answers world with ⟨result, world'⟩
          cases result with
          | some result => exact .inr (.inl ⟨result, world', rfl, by rw [if_neg hargc]; rfl⟩)
          | none => exact .inr (.inr ⟨world', rfl, by rw [if_neg hargc]; rfl⟩)

/-- Neither does the primitive around it. -/
theorem playerPresentPrimitive_extends [DecidableEq I] (answers : PlayerAnswers I) (argc : Nat)
    (out : Bool) (world : HostWorld (PlayerHost I)) :
    Extends world (playerPresentPrimitive P S answers argc out world).2 := by
  have hact := actOnPlayer_extends (P := P) (S := S) answers world
  obtain ⟨code, -, heq⟩ | ⟨result, world', hacted, heq⟩ | ⟨world', hacted, heq⟩ :=
    playerPresentPrimitive_cases (P := P) (S := S) answers argc out world
  · rw [heq]
    exact Extends.refl world
  · rw [hacted] at hact
    rw [heq]
    exact hact
  · rw [hacted] at hact
    obtain ⟨runtime, log, hreport⟩ :=
      reportPresence_eq (answers.executed && answers.handle.isSome) world'
    rw [heq, hreport]
    exact hact

/-- Nor does an observation, which only adds its record. -/
theorem observePlayer_extends [DecidableEq I] (argc : Nat) (out : Bool)
    (world : HostWorld (PlayerHost I)) : Extends world (observePlayer P S argc out world).2 :=
  playerPresentPrimitive_extends _ argc out world

/-- Logging changes nothing but what is logged. -/
theorem logPrimitive_frame (argc : Nat) (out : Bool) (world : HostWorld (PlayerHost I)) :
    ∃ runtime log,
      (logPrimitive argc out world).2 =
        { world with host := { world.host with runtime, log } } := by
  have hunchanged : ∃ runtime log,
      world = { world with host := { world.host with runtime, log } } := ⟨_, _, rfl⟩
  rw [logPrimitive]
  cases out with
  | false => exact hunchanged
  | true =>
      by_cases hargc : argc ≠ 0
      · rw [if_pos hargc]
        exact hunchanged
      · rw [if_neg hargc]
        cases world.host.pointers.logger with
        | false => exact hunchanged
        | true => exact ⟨_, _, rfl⟩

/-- The capability primitive leaves both alone. -/
theorem logPrimitive_extends (argc : Nat) (out : Bool) (world : HostWorld (PlayerHost I)) :
    Extends world (logPrimitive argc out world).2 := by
  obtain ⟨runtime, log, hframe⟩ := logPrimitive_frame argc out world
  rw [hframe]
  exact Extends.refl world

/-- Naming the class of a player changes nothing but the boxed table. -/
theorem classPrimitive_frame (args : List Word) (world : HostWorld (PlayerHost I)) :
    ∃ boxed, world.boxed ≤ boxed ∧ (classPrimitive P args world).2 = { world with boxed } := by
  have hunchanged : ∃ boxed, world.boxed ≤ boxed ∧ world = { world with boxed } :=
    ⟨world.boxed, BoxedTable.le_refl _, rfl⟩
  have hwrap : ∀ className, ∃ boxed, world.boxed ≤ boxed ∧
      (wrapClassName P world className).2 = { world with boxed } := by
    rintro (code | className)
    · exact hunchanged
    · obtain hfull | ⟨word, hroom, -, hadd⟩ :=
        BoxedTable.add_eq (ε := Empty) (P := P) (.str className) .transient world.boxed
      · simpa only [wrapClassName, BoxedTable.addString, hfull] using hunchanged
      · refine ⟨_, BoxedTable.le_push world.boxed ⟨.str className, .transient⟩ hroom, ?_⟩
        simp only [wrapClassName, BoxedTable.addString, hadd]
  rcases args with _ | ⟨argument, _ | ⟨_, _⟩⟩
  · exact hunchanged
  · exact hwrap _
  · exact hunchanged

/-- The class primitive boxes at most a string. -/
theorem classPrimitive_extends (args : List Word) (world : HostWorld (PlayerHost I)) :
    Extends world (classPrimitive P args world).2 := by
  obtain ⟨boxed, hle, hframe⟩ := classPrimitive_frame (P := P) args world
  rw [hframe]
  exact ⟨hle, List.suffix_refl _⟩

/-! ### Registration -/

/-- The primitives as they are registered. -/
def adapterPrimitives [DecidableEq I] (P : Platform) (S : Surfaces) :
    Primitives (PlayerHost I) := fun name =>
  if name = S.class_ then
    some
      { call := fun args world =>
          ((classPrimitive P args world).1.host, (classPrimitive P args world).2)
        boxed_le := fun args world => (classPrimitive_extends args world).1
        bindings_suffix := fun args world => (classPrimitive_extends args world).2 }
  else if name = S.playerPresent then
    some
      { call := fun args world =>
          ((observePlayer P S args.length true world).1.host,
            (observePlayer P S args.length true world).2)
        boxed_le := fun args world => (observePlayer_extends args.length true world).1
        bindings_suffix := fun args world => (observePlayer_extends args.length true world).2 }
  else if name = S.log then
    some
      { call := fun args world =>
          ((logPrimitive args.length true world).1.host, (logPrimitive args.length true world).2)
        boxed_le := fun args world => (logPrimitive_extends args.length true world).1
        bindings_suffix := fun args world => (logPrimitive_extends args.length true world).2 }
  else none

end LispHost
