import LispHost.Lib.Window
import LispHost.PlayerEpochs
import Mathlib.Data.List.ReduceOption

/-!
# The Log of the Adapter

The adapter logs when it binds a new player and when it releases one, when the presence of the
player has changed, and once that the host capability works. A reader of the log can tell from it
what the observations have found: the presences are the ones that were reported, without
repetitions; the epochs are the changes of the player; and every epoch has a token that was never
used before.

## Main definitions

* `PlayerCall.reported`, `PlayerCall.found`: what an observation tells.
* `PlayerLogged`: what the log says.

## Main results

* `acts_of_actOnPlayer`: what an observation logs about its answer.
* `logKept_observe`: every observation keeps the invariant.
* `player_log`: the log of any run.
-/

namespace LispHost

open Effects

variable {I : Type}

/-! ### Lines -/

namespace AdapterLog

/-- The presence that a line reports. -/
def presence? : AdapterLog → Option Bool
  | presence present => some present
  | _ => none

/-- The token that the player has from here on, or none. -/
def epoch? : AdapterLog → Option (Option Word)
  | released => some none
  | bound token => some (some token)
  | _ => none

/-- The line that is logged when an epoch starts. -/
def ofEpoch : Option Word → AdapterLog
  | none => released
  | some token => bound token

end AdapterLog

/-- The presences that were logged. -/
def presences (log : List AdapterLog) : List Bool := log.filterMap AdapterLog.presence?

/-- The epochs that were logged. -/
def epochs (log : List AdapterLog) : List (Option Word) := log.filterMap AdapterLog.epoch?

/-- The player that was looked up. -/
def PlayerAnswers.found (answers : PlayerAnswers I) : Option (Option I) :=
  if answers.executed then some answers.handle else none

namespace PlayerCall

/-- The presence that an observation reports. -/
def reported (call : PlayerCall I) : Option Bool :=
  match call.result with
  | .returned _ => some (call.answers.executed && call.answers.handle.isSome)
  | _ => none

/-- The player that an observation finds. -/
def found (call : PlayerCall I) : Option (Option I) :=
  match call.result with
  | .returned _ => call.answers.found
  | _ => none

end PlayerCall

/-- The presences that the observations of a host have reported. -/
def PlayerHost.reported (host : PlayerHost I) : List Bool :=
  host.calls.filterMap PlayerCall.reported

/-- The players that they have found. -/
def PlayerHost.found (host : PlayerHost I) : List (Option I) :=
  host.calls.filterMap PlayerCall.found

/-- The instance that the adapter retains. -/
def PlayerHost.retained (host : PlayerHost I) : Option I := host.handles.resolve host.playerToken

/-- The token, if there is one. -/
def PlayerHost.epoch (host : PlayerHost I) : Option Word :=
  if host.playerToken = 0 then none else some host.playerToken

/-- **What the log says.** -/
structure PlayerLogged [DecidableEq I] (host : PlayerHost I) : Prop where
  /-- The presences are what was reported, without repetitions. -/
  reported : presences host.log = host.reported.destutter (· ≠ ·)
  /-- The epochs are the changes of the player that was found. -/
  changes : (epochs host.log).map Option.isSome = (changesFrom none host.found).map Option.isSome
  /-- The tokens grow. -/
  tokens : (epochs host.log).reduceOption.Pairwise (·.toNat < ·.toNat)
  /-- The last epoch is the token that the adapter has. -/
  current : (epochs host.log).getLast?.getD none = host.epoch
  /-- The capability is logged at most once. -/
  capability : host.log.count .capability ≤ 1

section Lines

variable (log log' : List AdapterLog) (epoch : List (Option Word))

/-- The presences of two logs. -/
theorem presences_append : presences (log ++ log') = presences log ++ presences log' :=
  List.filterMap_append

/-- The epochs of two logs. -/
theorem epochs_append : epochs (log ++ log') = epochs log ++ epochs log' :=
  List.filterMap_append

/-- The lines about epochs report no presence. -/
@[simp] theorem presences_ofEpoch : presences (epoch.map .ofEpoch) = [] := by
  refine List.filterMap_eq_nil_iff.mpr fun line hmem => ?_
  obtain ⟨token?, -, rfl⟩ := List.mem_map.mp hmem
  cases token? <;> rfl

/-- The lines about epochs are those of the epochs. -/
@[simp] theorem epochs_ofEpoch : epochs (epoch.map .ofEpoch) = epoch := by
  rw [epochs, List.filterMap_map]
  refine (List.filterMap_congr fun token? _ => ?_).trans List.filterMap_some
  cases token? <;> rfl

/-- The lines about epochs do not report the capability. -/
@[simp] theorem count_ofEpoch : (epoch.map AdapterLog.ofEpoch).count .capability = 0 := by
  refine List.count_eq_zero.mpr fun hmem => ?_
  obtain ⟨token?, -, hline⟩ := List.mem_map.mp hmem
  cases token? <;> cases hline

end Lines

/-! ### What an observation does about its answer -/

/-- What an observation that succeeds does about its answer: it starts an epoch if it has found
another player than the one that is retained. -/
structure Acts [DecidableEq I] (answers : PlayerAnswers I) (host host' : PlayerHost I)
    (epoch : List (Option Word)) : Prop where
  log : host'.log = host.log ++ epoch.map .ofEpoch
  calls : host'.calls = host.calls
  runtime : host'.runtime = host.runtime
  changes : epoch.map Option.isSome =
    (answers.found.toList.filter (· ≠ host.retained)).map Option.isSome
  retained : host'.retained = answers.found.getD host.retained
  current : epoch.getLast?.getD host.epoch = host'.epoch
  fresh : epoch.reduceOption.Pairwise (·.toNat < ·.toNat)
  tokens : ∀ token ∈ epoch.reduceOption,
    host.handles.retains < token.toNat ∧ token.toNat ≤ host'.handles.retains
  retains : host.handles.retains ≤ host'.handles.retains

variable {P : Platform} {S : Surfaces} {world world' : HostWorld (PlayerHost I)}

/-- What is done about an answer: nothing if it is the player that is retained. -/
theorem PlayerAction.decide_cases [DecidableEq I] (answers : PlayerAnswers I)
    (retained : Option I) :
    (PlayerAction.decide answers.executed answers.handle retained = .bindNil ∧
        answers.found = some none ∧ retained ≠ none) ∨
      (PlayerAction.decide answers.executed answers.handle retained = .bindNew ∧
        ∃ handle, answers.handle = some handle ∧ answers.found = some (some handle) ∧
          retained ≠ some handle) ∨
      ((PlayerAction.decide answers.executed answers.handle retained = .keep ∨
          PlayerAction.decide answers.executed answers.handle retained = .preserve) ∧
        ∀ handle? ∈ answers.found, handle? = retained) := by
  rw [PlayerAction.decide.eq_def, PlayerAnswers.found]
  cases answers.executed with
  | false => exact .inr (.inr ⟨.inr rfl, by rintro _ ⟨⟩⟩)
  | true =>
      cases answers.handle with
      | none =>
          by_cases hretained : retained = none
          · subst hretained
            exact .inr (.inr ⟨.inl rfl, by rintro _ ⟨⟩; rfl⟩)
          · exact .inl ⟨by simp [hretained], rfl, hretained⟩
      | some handle =>
          by_cases hretained : some handle = retained
          · subst hretained
            exact .inr (.inr ⟨.inl (by simp), by rintro _ ⟨⟩; rfl⟩)
          · exact .inr (.inl ⟨by simp [hretained], handle, rfl, rfl, fun h => hretained h.symm⟩)

/-- The retained instance depends on the handles of the table only. -/
theorem PlayerHost.retained_of_handles {host : PlayerHost I} {handles : GameHandleTable I}
    (h : handles.handles = host.handles.handles) :
    ({ host with handles } : PlayerHost I).retained = host.retained := by
  change handles.resolve host.playerToken = host.handles.resolve host.playerToken
  rw [GameHandleTable.resolve, GameHandleTable.resolve, h]

/-- The player is the one that is retained. -/
theorem Acts.same [DecidableEq I] {answers : PlayerAnswers I} {host : PlayerHost I}
    (h : ∀ handle? ∈ answers.found, handle? = host.retained) : Acts answers host host [] where
  log := (List.append_nil _).symm
  calls := rfl
  runtime := rfl
  changes := by
    have hnone : answers.found.toList.filter (· ≠ host.retained) = [] :=
      List.filter_eq_nil_iff.mpr fun handle? hmem => by
        simpa using h handle? (Option.mem_toList.mp hmem)
    rw [hnone]
    rfl
  retained := by
    cases hfound : answers.found with
    | none => rfl
    | some handle? => exact (h handle? hfound).symm
  current := rfl
  fresh := .nil
  tokens := by rintro token ⟨⟩
  retains := Nat.le_refl _

/-- The player is gone. -/
theorem Acts.gone [DecidableEq I] {answers : PlayerAnswers I} {host : PlayerHost I}
    (hfound : answers.found = some none) (hretained : host.retained ≠ none) :
    Acts answers host
      { host with
        handles := host.handles.release host.playerToken
        playerToken := 0
        log := host.log ++ [.released] } [none] where
  log := rfl
  calls := rfl
  runtime := rfl
  changes := by simp [hfound, hretained.symm]
  retained := by
    rw [hfound]
    rfl
  current := rfl
  fresh := .nil
  tokens := by rintro token ⟨⟩
  retains := Nat.le_refl _

/-- The player is a new one. -/
theorem Acts.bound [DecidableEq I] (hcoherent : Coherent P S world)
    (hfits : world.host.handles.Fits) {answers : PlayerAnswers I} {handle : I}
    (hfound : answers.found = some (some handle)) (hretained : world.host.retained ≠ some handle)
    {word : Word} (hroom : world.boxed.values.length + 1 < addressSpace)
    (hword : P.encodeBoxed (world.boxed.values.length + 1) = some word) :
    Acts answers world.host
      { world.host with
        handles := (world.host.handles.retain (some handle)).2.release world.host.playerToken
        playerToken := (world.host.handles.retain (some handle)).1
        log := world.host.log ++ [.bound (world.host.handles.retain (some handle)).1] }
      [some (world.host.handles.retain (some handle)).1] := by
  have hretain := GameHandleTable.retain_some hfits (hcoherent.free hfits) handle
  have htoken : (world.host.handles.retain (some handle)).1.toNat =
      world.host.handles.retains + 1 := by
    rw [hretain]
    exact GameHandleTable.toNat_nextToken hfits
  have hne : (world.host.handles.retain (some handle)).1 ≠ 0 := by
    rw [hretain]
    exact GameHandleTable.nextToken_ne_zero hfits
  exact
    { log := rfl
      calls := rfl
      runtime := rfl
      changes := by simp [hfound, hretained.symm]
      retained := by
        rw [hfound]
        exact (hcoherent.bind hfits hroom hword rfl rfl).2
      current := (if_neg hne).symm
      fresh := List.pairwise_singleton _ _
      tokens := by
        intro token hmem
        obtain rfl := List.mem_singleton.mp hmem
        refine ⟨by omega, ?_⟩
        rw [htoken, hretain]
        exact Nat.le_refl _
      retains := world.host.handles.retains_retain _ }

/-- **An observation that does something about its answer.** -/
theorem acts_of_actOnPlayer [DecidableEq I] (hcoherent : Coherent P S world)
    (hfits : world.host.handles.Fits) (answers : PlayerAnswers I)
    (h : actOnPlayer P S answers world = (none, world')) :
    ∃ epoch, Acts answers world.host world'.host epoch := by
  rw [actOnPlayer] at h
  obtain ⟨haction, hfound, hretained⟩ | ⟨haction, handle, hhandle, hfound, hretained⟩ |
      ⟨haction, hsame⟩ := PlayerAction.decide_cases answers world.host.retained
  · rw [PlayerHost.retained] at haction
    rw [haction] at h
    obtain hbind | hbind := bindNil_cases (S := S) answers world
    · cases hbind.symm.trans h
    · obtain rfl := (Prod.mk.inj (hbind.symm.trans h)).2
      exact ⟨_, .gone hfound hretained⟩
  · rw [PlayerHost.retained] at haction
    rw [haction] at h
    obtain ⟨_, _, _, -, -, -, hbind⟩ | ⟨word, hroom, hword, -, hbind⟩ | hbind :=
      bindNew_cases (P := P) (S := S) answers world
    · cases hbind.symm.trans h
    · rw [hhandle] at hbind
      obtain rfl := (Prod.mk.inj (hbind.symm.trans h)).2
      exact ⟨_, .bound hcoherent hfits hfound hretained hroom hword⟩
    · cases hbind.symm.trans h
  · have hworld : world' = world := by
      rw [PlayerHost.retained] at haction
      obtain haction | haction := haction
      all_goals
        rw [haction] at h
        exact (Prod.mk.inj h).2.symm
    rw [hworld]
    exact ⟨[], .same hsame⟩

/-- An observation that fails leaves what is logged and what is retained alone. -/
theorem fails_of_actOnPlayer [DecidableEq I] (hcoherent : Coherent P S world)
    (hfits : world.host.handles.Fits) (answers : PlayerAnswers I) {result : PrimitiveResult}
    (h : actOnPlayer P S answers world = (some result, world')) :
    (∀ out, result ≠ .returned out) ∧ ∃ handles : GameHandleTable I,
      world'.host = { world.host with handles } ∧
        handles.handles = world.host.handles.handles ∧
        world.host.handles.retains ≤ handles.retains := by
  obtain ⟨hact, -⟩ | ⟨hact, -⟩ | ⟨hact, -⟩ := actOnPlayer_cases (P := P) (S := S) answers world
  · cases hact.symm.trans h
  · obtain hbind | hbind := bindNil_cases (S := S) answers world
    · cases hbind.symm.trans (hact.symm.trans h)
      exact ⟨by rintro out ⟨⟩, _, rfl, rfl, Nat.le_refl _⟩
    · cases hbind.symm.trans (hact.symm.trans h)
  · obtain ⟨code, boxed, handles, -, -, hfailed, hbind⟩ | ⟨_, _, -, -, hbind⟩ | hbind :=
      bindNew_cases (P := P) (S := S) answers world
    · cases hbind.symm.trans (hact.symm.trans h)
      exact ⟨by rintro out ⟨⟩, handles, rfl, hfailed.handles hfits (hcoherent.free hfits),
        hfailed.retains⟩
    · cases hbind.symm.trans (hact.symm.trans h)
    · cases hbind.symm.trans (hact.symm.trans h)
      exact ⟨by rintro out ⟨⟩, _, rfl, rfl, Nat.le_refl _⟩

/-! ### What the log says -/

/-- The presences with one more observation. -/
theorem PlayerHost.reported_concat (host : PlayerHost I) (call : PlayerCall I) :
    ({ host with calls := host.calls ++ [call] } : PlayerHost I).reported =
      host.reported ++ call.reported.toList := by
  rw [reported, List.filterMap_append]
  cases h : call.reported <;> simp [h, reported]

/-- The players with one more observation. -/
theorem PlayerHost.found_concat (host : PlayerHost I) (call : PlayerCall I) :
    ({ host with calls := host.calls ++ [call] } : PlayerHost I).found =
      host.found ++ call.found.toList := by
  rw [found, List.filterMap_append]
  cases h : call.found <;> simp [h, found]

/-- What the log says, and what the adapter keeps of it. -/
structure LogInv [DecidableEq I] (host : PlayerHost I) : Prop extends PlayerLogged host where
  presence : host.runtime.playerPresence = host.reported.getLast?
  retained : host.found.getLast?.getD none = host.retained
  taken : ∀ token ∈ (epochs host.log).reduceOption, token.toNat ≤ host.handles.retains
  logged : host.runtime.capabilityLogged = false → host.log.count .capability = 0

namespace LogInv

variable [DecidableEq I] {answers : PlayerAnswers I} {host host' : PlayerHost I}
  {call : PlayerCall I}

/-- An observation that fails. -/
theorem fail (h : LogInv host) {handles : GameHandleTable I}
    (hhandles : handles.handles = host.handles.handles)
    (hretains : host.handles.retains ≤ handles.retains)
    (hcall : ∀ out, call.result ≠ .returned out) :
    LogInv { host with handles, calls := host.calls ++ [call] } := by
  have hnone : call.reported = none ∧ call.found = none := by
    rw [PlayerCall.reported, PlayerCall.found]
    cases hresult : call.result with
    | returned out => exact absurd hresult (hcall out)
    | failed | exited => exact ⟨rfl, rfl⟩
  have hreported : ({ host with handles, calls := host.calls ++ [call] } : PlayerHost I).reported =
      host.reported := by
    refine (PlayerHost.reported_concat { host with handles } call).trans ?_
    rw [hnone.1]
    exact List.append_nil _
  have hfound : ({ host with handles, calls := host.calls ++ [call] } : PlayerHost I).found =
      host.found := by
    refine (PlayerHost.found_concat { host with handles } call).trans ?_
    rw [hnone.2]
    exact List.append_nil _
  have hretained := PlayerHost.retained_of_handles hhandles
  exact
    { reported := by
        rw [hreported]
        exact h.reported
      changes := by
        rw [hfound]
        exact h.changes
      tokens := h.tokens
      current := h.current
      capability := h.capability
      presence := by
        rw [hreported]
        exact h.presence
      retained := by
        rw [hfound]
        exact h.retained.trans hretained.symm
      taken := fun token hmem => (h.taken token hmem).trans hretains
      logged := h.logged }

/-- An observation that reports. -/
theorem report (h : LogInv host) {epoch : List (Option Word)} (hacts : Acts answers host host' epoch)
    (hanswers : call.answers = answers) {out : Word} (hresult : call.result = .returned out)
    {present : Bool} (hpresent : present = (answers.executed && answers.handle.isSome))
    {runtime : RuntimeState} (hpresence : runtime.playerPresence = some present)
    (hcapability : runtime.capabilityLogged = host.runtime.capabilityLogged) :
    LogInv
      { host' with
        runtime
        log := host'.log ++
          if host.runtime.playerPresence = some present then [] else [.presence present]
        calls := host'.calls ++ [call] } := by
  generalize hlines : (if host.runtime.playerPresence = some present then []
    else [AdapterLog.presence present]) = lines
  have hlog : presences lines = (if host.reported.getLast? = some present then []
      else [present]) ∧ epochs lines = [] ∧ lines.count .capability = 0 := by
    rw [← hlines, h.presence]
    split_ifs <;> exact ⟨rfl, rfl, rfl⟩
  have hcall : call.reported = some present ∧ call.found = answers.found := by
    rw [PlayerCall.reported, PlayerCall.found, hresult, hanswers, hpresent]
    exact ⟨rfl, rfl⟩
  generalize hfinal : ({ host' with
    runtime
    log := host'.log ++ lines
    calls := host'.calls ++ [call] } : PlayerHost I) = final
  have hreported : final.reported = host.reported ++ [present] := by
    rw [← hfinal, hacts.calls]
    refine (PlayerHost.reported_concat { host' with runtime, log := host'.log ++ lines, calls := host.calls }
      call).trans ?_
    rw [hcall.1]
    rfl
  have hfound : final.found = host.found ++ answers.found.toList := by
    rw [← hfinal, hacts.calls]
    refine (PlayerHost.found_concat { host' with runtime, log := host'.log ++ lines, calls := host.calls }
      call).trans ?_
    rw [hcall.2]
    rfl
  have hpresences : LispHost.presences final.log = LispHost.presences host.log ++
      (if host.reported.getLast? = some present then [] else [present]) := by
    rw [← hfinal, hacts.log, presences_append, presences_append, presences_ofEpoch,
      List.append_nil, hlog.1]
  have hepochs : LispHost.epochs final.log = LispHost.epochs host.log ++ epoch := by
    rw [← hfinal, hacts.log, epochs_append, epochs_append, epochs_ofEpoch, hlog.2.1,
      List.append_nil]
  have hcount : final.log.count .capability = host.log.count .capability := by
    rw [← hfinal, hacts.log, List.count_append, List.count_append, count_ofEpoch, hlog.2.2]
    rfl
  have hretained : final.retained = host'.retained ∧ final.epoch = host'.epoch ∧
      final.handles = host'.handles ∧ final.runtime = runtime := by
    rw [← hfinal]
    exact ⟨rfl, rfl, rfl, rfl⟩
  exact
    { reported := by rw [hpresences, hreported, destutter_ne_concat, h.reported]
      changes := by
        rw [hepochs, hfound, List.map_append, h.changes, hacts.changes]
        cases hsome : answers.found with
        | none => simp
        | some handle? =>
            rw [Option.toList_some, changesFrom_concat, h.retained, List.map_append]
            by_cases hsame : host.retained = handle?
            · simp [hsame]
            · simp [hsame, Ne.symm hsame]
      tokens := by
        rw [hepochs, List.reduceOption_append, List.pairwise_append]
        refine ⟨h.tokens, hacts.fresh, fun token hmem token' hmem' => ?_⟩
        exact (h.taken token hmem).trans_lt (hacts.tokens token' hmem').1
      current := by
        rw [hepochs, List.getLast?_append, hretained.2.1, ← hacts.current, ← h.current]
        cases epoch.getLast? <;> rfl
      capability := hcount ▸ h.capability
      presence := by
        rw [hretained.2.2.2, hpresence, hreported, List.getLast?_concat]
      retained := by
        rw [hretained.1, hacts.retained, ← h.retained, hfound]
        cases answers.found with
        | none => simp
        | some handle? => simp
      taken := by
        rw [hepochs, List.reduceOption_append, hretained.2.2.1]
        intro token hmem
        obtain hmem | hmem := List.mem_append.mp hmem
        · exact (h.taken token hmem).trans hacts.retains
        · exact (hacts.tokens token hmem).2
      logged := by
        rw [hretained.2.2.2, hcapability, hcount]
        exact h.logged }

/-- The host capability. -/
theorem logCapability (h : LogInv host) :
    LogInv
      { host with
        runtime := host.runtime.shouldLogCapability.2
        log := if host.runtime.shouldLogCapability.1 then host.log ++ [.capability]
          else host.log } := by
  rw [RuntimeState.shouldLogCapability]
  cases hlogged : host.runtime.capabilityLogged with
  | true => exact h
  | false =>
      have hnone := h.logged hlogged
      have hpresences : presences (host.log ++ [.capability]) = presences host.log := by
        rw [presences_append]
        exact List.append_nil _
      have hepochs : epochs (host.log ++ [.capability]) = epochs host.log := by
        rw [epochs_append]
        exact List.append_nil _
      exact
        { reported := hpresences.trans h.reported
          changes := by
            change (epochs (host.log ++ [.capability])).map _ = _
            rw [hepochs]
            exact h.changes
          tokens := by
            change (epochs (host.log ++ [.capability])).reduceOption.Pairwise _
            rw [hepochs]
            exact h.tokens
          current := by
            change (epochs (host.log ++ [.capability])).getLast?.getD none = _
            rw [hepochs]
            exact h.current
          capability := by
            change (host.log ++ [AdapterLog.capability]).count AdapterLog.capability ≤ 1
            rw [List.count_append, hnone]
            exact Nat.le_refl 1
          presence := h.presence
          retained := h.retained
          taken := by
            change ∀ token ∈ (epochs (host.log ++ [.capability])).reduceOption, _
            rw [hepochs]
            exact h.taken
          logged := by rintro ⟨⟩ }

end LogInv

/-! ### All calls -/

/-- A presence is logged if it is another one than the last that was reported. -/
theorem reportPresence_spec (present : Bool) (world : HostWorld (PlayerHost I)) :
    ∃ runtime : RuntimeState, reportPresence present world =
        (.returned (if present then symTWord else wordNil),
          { world with
            host :=
              { world.host with
                runtime
                log := world.host.log ++
                  if world.host.runtime.playerPresence = some present then []
                  else [.presence present] } }) ∧
      runtime.playerPresence = some present ∧
      runtime.capabilityLogged = world.host.runtime.capabilityLogged := by
  rw [reportPresence, RuntimeState.playerPresenceChanged]
  by_cases hsame : world.host.runtime.playerPresence = some present
  · exact ⟨world.host.runtime, by simp [hsame], hsame, rfl⟩
  · exact ⟨{ world.host.runtime with playerPresence := some present }, by simp [hsame], rfl, rfl⟩

/-- The stores agree and the log says what was found, as long as tokens last. -/
def LogKept [DecidableEq I] (P : Platform) (S : Surfaces) (world : HostWorld (PlayerHost I)) :
    Prop :=
  world.host.handles.Fits → PlayerInv P S world ∧ LogInv world.host

/-- **Every observation keeps the invariant.** -/
theorem logKept_observe [DecidableEq I] (h : LogKept P S world) (argc : Nat) (out : Bool) :
    LogKept P S (observePlayer P S argc out world).2 := by
  intro hfits'
  have hfits : world.host.handles.Fits :=
    Nat.lt_of_le_of_lt (retains_observePlayer argc out world) hfits'
  obtain ⟨hplayer, hlog⟩ := h hfits
  refine ⟨playerInv_observe hplayer hfits argc out, ?_⟩
  rw [observePlayer]
  generalize world.host.answers world.host.calls.length = answers
  obtain ⟨code, -, heq⟩ | ⟨result, world', hacted, heq⟩ | ⟨world', hacted, heq⟩ :=
    playerPresentPrimitive_cases (P := P) (S := S) answers argc out world
  · rw [heq]
    exact hlog.fail rfl (Nat.le_refl _) (by rintro out ⟨⟩)
  · rw [heq]
    obtain ⟨hresult, handles, hhost, hhandles, hretains⟩ :=
      fails_of_actOnPlayer hplayer.coherent hfits answers hacted
    change LogInv { world'.host with calls := world'.host.calls ++ _ }
    rw [hhost]
    exact hlog.fail hhandles hretains hresult
  · obtain ⟨epoch, hacts⟩ := acts_of_actOnPlayer hplayer.coherent hfits answers hacted
    obtain ⟨runtime, hreport, hpresence, hcapability⟩ :=
      reportPresence_spec (answers.executed && answers.handle.isSome) world'
    rw [heq, hreport, hacts.runtime]
    exact hlog.report hacts rfl rfl rfl hpresence (hcapability.trans (congrArg _ hacts.runtime))

/-- The capability primitive keeps the invariant. -/
theorem logKept_log [DecidableEq I] (h : LogKept P S world) (argc : Nat) (out : Bool) :
    LogKept P S (logPrimitive argc out world).2 := by
  obtain ⟨runtime, log, hframe⟩ := logPrimitive_frame argc out world
  intro hfits
  have hplayer : PlayerInv P S (logPrimitive argc out world).2 ∧
      world.host.handles.Fits := by
    rw [hframe] at hfits ⊢
    exact ⟨⟨(h hfits).1.coherent.congr rfl rfl, (h hfits).1.calls⟩, hfits⟩
  refine ⟨hplayer.1, ?_⟩
  have hlog := (h hplayer.2).2
  rw [logPrimitive]
  split_ifs
  · exact hlog
  · exact hlog
  · exact hlog
  · exact hlog.logCapability

/-- **The invariant holds wherever the primitives are called**, also inside an evaluation. -/
theorem worldInvariant_log [DecidableEq I] :
    WorldInvariant (LogKept (I := I) P S) (adapterPrimitives P S) where
  grow h hle hfits := ⟨⟨(h hfits).1.coherent.grow hle, (h hfits).1.calls⟩, (h hfits).2⟩
  clear h hfits := ⟨⟨(h hfits).1.coherent.clear, (h hfits).1.calls⟩, (h hfits).2⟩
  call {name primitive} hname args world h := by
    rw [adapterPrimitives] at hname
    split_ifs at hname
    all_goals obtain rfl := Option.some.inj hname
    · obtain ⟨boxed, hle, hframe⟩ := classPrimitive_frame (P := P) args world
      change LogKept P S (classPrimitive P args world).2
      rw [hframe]
      exact fun hfits => ⟨⟨(h hfits).1.coherent.grow hle, (h hfits).1.calls⟩, (h hfits).2⟩
    · exact logKept_observe h args.length true
    · exact logKept_log h args.length true

/-! ### Runs -/

/-- **The log of the adapter.** After any observations and evaluations, as long as fewer than
`2 ^ 64 - 1` tokens have been taken, the log says what the observations have found. -/
theorem player_log [DecidableEq I] (P : Platform) (S : Surfaces) (pointers : AdapterPointers)
    (typeName : I → Option (Option String)) (answers : Nat → PlayerAnswers I)
    (events : List PlayerEvent)
    (hretains : (playerRun P S events
      (playerInitial P S pointers typeName answers)).host.handles.retains < 2 ^ 64 - 1) :
    PlayerLogged (playerRun P S events (playerInitial P S pointers typeName answers)).host := by
  have hinitial : LogKept P S (playerInitial P S pointers typeName answers).world := fun _ =>
    ⟨coherent_initial pointers typeName answers,
      { reported := rfl
        changes := rfl
        tokens := .nil
        current := rfl
        capability := Nat.zero_le 1
        presence := rfl
        retained := rfl
        taken := by rintro token ⟨⟩
        logged := fun _ => rfl }⟩
  obtain ⟨-, hkept⟩ := worldInvariant_log.playerRun
    (fun argc out _ h => logKept_observe h argc out) events rfl hinitial
  exact (hkept hretains).2.toPlayerLogged

/-- A player that comes, stays, and goes. -/
theorem player_log_gone :
    PlayerLogged
      (playerRun .standard ⟨"log", "present?", "class", "player"⟩
        [.observe 0 true, .observe 0 true, .observe 0 true]
        (playerInitial .standard ⟨"log", "present?", "class", "player"⟩
          ⟨true, true, true, true, true, true⟩ (fun _ : Unit => some (some "Player"))
          fun n => ⟨true, if n < 2 then some () else none, .succeeds, true⟩)).host :=
  player_log .standard _ _ _ _ _ (by decide)

end LispHost
