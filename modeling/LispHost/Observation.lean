import LispHost.CallBound
import LispHost.PlayerEpochs

/-!
# One Call of a Primitive

What one call of `PlayerPresentPrimitive` and of `ClassPrimitive` does while the stores agree and
the tables have room. An observation ends with a code, or with `()`, or with `t`; in the last case
the player's name stands for the instance that has just been observed, and `ClassPrimitive` on it
names the class of that instance. Nothing else that the primitives read has changed.

## Main definitions

* `Observation`: what one observation does.
* `PlayerAnswers.Succeeds`, `AdapterPointers.Set`: the library does not fail.
* `classAnswer`: how `ClassPrimitive` ends on an instance.

## Main results

* `observePlayer_spec`: every observation is one.
* `result_observePlayer`: what it reports while the library does not fail.
* `classPrimitive_spec`: what the class of the player is.
-/

namespace LispHost

open Effects

variable {I : Type}

/-- No pointer is null. -/
def AdapterPointers.Set (pointers : AdapterPointers) : Prop :=
  pointers = ⟨true, true, true, true, true, true⟩

/-- The library does not fail. -/
def PlayerAnswers.Succeeds (answers : PlayerAnswers I) : Prop :=
  answers.wrap = .succeeds ∧ answers.bind = true

/-- The player that an observation has found, if it was executed. -/
def PlayerAnswers.player (answers : PlayerAnswers I) : Option I :=
  if answers.executed then answers.handle else none

/-- A player is found by a look-up that ran and returned a handle. -/
theorem PlayerAnswers.player_eq_some {answers : PlayerAnswers I} {handle : I} :
    answers.player = some handle ↔ answers.executed = true ∧ answers.handle = some handle :=
  Option.ite_none_right_eq_some

variable {P : Platform} {S : Surfaces} {world : HostWorld (PlayerHost I)}

/-! ### What a primitive leaves alone -/

/-- What the primitives read and never write, and how many values they box. -/
structure Footprint (world world' : HostWorld (PlayerHost I)) : Prop where
  pointers : world'.host.pointers = world.host.pointers
  typeName : world'.host.typeName = world.host.typeName
  boxed : world'.boxed.values.length ≤ world.boxed.values.length + 1

/-- Doing nothing leaves no footprint. -/
theorem Footprint.refl (world : HostWorld (PlayerHost I)) : Footprint world world :=
  ⟨rfl, rfl, Nat.le_succ _⟩

/-- A push makes the table longer by one. -/
theorem length_push (table : BoxedTable) (entry : BoxedEntry)
    (hroom : table.values.length + 1 < addressSpace) :
    (table.push entry hroom).values.length = table.values.length + 1 :=
  List.length_append

/-- A wrap boxes at most one value, and does not end the process while there is room. -/
theorem wrapGameHandle_spec (answer : WrapAnswer) (token : Word) {table : BoxedTable}
    (hroom : table.values.length + 1 < addressSpace) :
    ∃ word? boxed, wrapGameHandle P answer token table = (.ok word?, boxed) ∧
      boxed.values.length ≤ table.values.length + 1 ∧
      (answer = .succeeds → ∃ word, word? = some word) := by
  obtain ⟨word, -, hadd⟩ :=
    BoxedTable.add_eq_ok (ε := Empty) (P := P) (.gameHandle token) .persistent hroom
  have hlength := (length_push table ⟨.gameHandle token, .persistent⟩ hroom).le
  cases answer with
  | fails stored =>
      cases stored with
      | false => exact ⟨none, table, rfl, Nat.le_succ _, by rintro ⟨⟩⟩
      | true =>
          refine ⟨none, _, ?_, hlength, by rintro ⟨⟩⟩
          simp only [wrapGameHandle, BoxedTable.addGameHandle, hadd]
  | succeeds =>
      refine ⟨some word, _, ?_, hlength, fun _ => ⟨word, rfl⟩⟩
      simp only [wrapGameHandle, BoxedTable.addGameHandle, hadd]

/-- **What `BindNew` does while there is room.** It fails with a code or binds the player; it binds
the player if the library does not fail and tokens last. -/
theorem bindNew_spec (answers : PlayerAnswers I)
    (hroom : world.boxed.values.length + 1 < addressSpace) :
    ∃ result world', bindNew P S answers world = (result, world') ∧ Footprint world world' ∧
      result ≠ some .exited ∧
      (world.host.pointers.Set → answers.Succeeds →
        (world.host.handles.retain answers.handle).1 ≠ 0 → result = none) := by
  rw [bindNew]
  by_cases hpointers : (!world.host.pointers.session || !world.host.pointers.wrapGameHandle ||
      !world.host.pointers.bind) = true
  · rw [if_pos hpointers]
    refine ⟨_, _, rfl, .refl world, by rintro ⟨⟩, fun hset => ?_⟩
    rw [hset] at hpointers
    cases hpointers
  rw [if_neg hpointers]
  generalize hretain : world.host.handles.retain answers.handle = retained
  obtain ⟨nextToken, handles⟩ := retained
  by_cases hzero : nextToken = 0
  · refine ⟨_, _, if_pos hzero, ⟨rfl, rfl, Nat.le_succ _⟩, by rintro ⟨⟩, ?_⟩
    exact fun _ _ hne => absurd hzero hne
  obtain ⟨word?, boxed, hwrap, hlength, hword⟩ :=
    wrapGameHandle_spec (P := P) answers.wrap nextToken hroom
  simp only [if_neg hzero, hwrap]
  cases word? with
  | none =>
      refine ⟨_, _, rfl, ⟨rfl, rfl, hlength⟩, by rintro ⟨⟩, fun _ hsucceeds => ?_⟩
      obtain ⟨word, hsome⟩ := hword hsucceeds.1
      cases hsome
  | some word =>
      cases hbind : answers.bind with
      | false =>
          refine ⟨_, _, rfl, ⟨rfl, rfl, hlength⟩, by rintro ⟨⟩, fun _ hsucceeds => ?_⟩
          cases hbind.symm.trans hsucceeds.2
      | true => exact ⟨_, _, rfl, ⟨rfl, rfl, hlength⟩, by rintro ⟨⟩, fun _ _ _ => rfl⟩

/-- `BindNil` leaves a small footprint, and it goes through if the library answers well. -/
theorem bindNil_spec (answers : PlayerAnswers I) :
    ∃ result world', bindNil S answers world = (result, world') ∧ Footprint world world' ∧
      result ≠ some .exited ∧ (world.host.pointers.Set → answers.Succeeds → result = none) := by
  rw [bindNil]
  by_cases hfails : (!world.host.pointers.session || !world.host.pointers.bind ||
      !answers.bind) = true
  · rw [if_pos hfails]
    refine ⟨_, _, rfl, .refl world, by rintro ⟨⟩, fun hset hsucceeds => ?_⟩
    rw [hset, hsucceeds.2] at hfails
    cases hfails
  · rw [if_neg hfails]
    exact ⟨_, _, rfl, ⟨rfl, rfl, Nat.le_succ _⟩, by rintro ⟨⟩, fun _ _ => rfl⟩

/-- **What an observation does about its answer while there is room.** -/
theorem actOnPlayer_spec [DecidableEq I] (answers : PlayerAnswers I)
    (hroom : world.boxed.values.length + 1 < addressSpace) :
    ∃ result world', actOnPlayer P S answers world = (result, world') ∧
      Footprint world world' ∧ result ≠ some .exited ∧
      (world.host.pointers.Set → answers.Succeeds → world.host.handles.Fits →
        result = none) := by
  obtain ⟨hact, -⟩ | ⟨hact, -⟩ | ⟨hact, -, handle, hhandle⟩ :=
    actOnPlayer_cases (P := P) (S := S) answers world
  · exact ⟨none, world, hact, .refl world, by rintro ⟨⟩, fun _ _ _ => rfl⟩
  · obtain ⟨result, world', hbind, hsame, hexited, hnone⟩ := bindNil_spec (S := S) answers
    exact ⟨result, world', hact.trans hbind, hsame, hexited, fun hset hsucceeds _ =>
      hnone hset hsucceeds⟩
  · obtain ⟨result, world', hbind, hsame, hexited, hnone⟩ :=
      bindNew_spec (P := P) (S := S) answers hroom
    refine ⟨result, world', hact.trans hbind, hsame, hexited, fun hset hsucceeds hfits => ?_⟩
    refine hnone hset hsucceeds ?_
    rw [hhandle, GameHandleTable.retain, if_neg (GameHandleTable.nextToken_ne_zero hfits)]
    exact GameHandleTable.nextToken_ne_zero hfits

/-! ### One observation -/

/-- **What one observation does**, and its record. It ends with a code, or it reports the player
that it has found; then the player's name stands for that player. -/
structure Observation (P : Platform) (S : Surfaces) (world world' : HostWorld (PlayerHost I))
    (call : PlayerCall I) : Prop extends Footprint world world' where
  calls : world'.host.calls = world.host.calls ++ [call]
  answers : call.answers = world.host.answers world.host.calls.length
  inv : PlayerInv P S world'
  result : (∃ code, call.result = .failed code) ∨
    (call.answers.player = none ∧ call.result = .returned wordNil) ∨
    ∃ handle, call.answers.player = some handle ∧ call.result = .returned symTWord ∧
      (world'.bindings.value S.player).bind (resolveWord P world') = some handle
  succeeds : world.host.pointers.Set → call.answers.Succeeds → ∀ code, call.result ≠ .failed code

/-- The presence that is reported is that of a player. -/
theorem isSome_player (answers : PlayerAnswers I) :
    (answers.executed && answers.handle.isSome) = answers.player.isSome := by
  rw [PlayerAnswers.player]
  cases answers.executed <;> rfl

section Ends

variable [DecidableEq I] {answers : PlayerAnswers I} {world' : HostWorld (PlayerHost I)}

/-- Without a logger the primitive returns 3 and does nothing. -/
theorem playerPresentPrimitive_of_logger (h : world.host.pointers.logger = false) :
    playerPresentPrimitive P S answers 0 true world = (.failed 3, world) := by
  simp only [playerPresentPrimitive, h, Bool.not_true, Bool.false_eq_true, if_false, ne_eq,
    not_true_eq_false, Bool.not_false, if_true]

/-- A failing action is what the primitive returns. -/
theorem playerPresentPrimitive_of_some (h : world.host.pointers.logger = true)
    {result : PrimitiveResult} (hact : actOnPlayer P S answers world = (some result, world')) :
    playerPresentPrimitive P S answers 0 true world = (result, world') := by
  simp only [playerPresentPrimitive, h, hact, Bool.not_true, Bool.false_eq_true, if_false, ne_eq,
    not_true_eq_false]

/-- After an action that went through, the primitive reports the presence. -/
theorem playerPresentPrimitive_of_none (h : world.host.pointers.logger = true)
    (hact : actOnPlayer P S answers world = (none, world')) :
    playerPresentPrimitive P S answers 0 true world =
      reportPresence answers.player.isSome world' := by
  simp only [playerPresentPrimitive, h, hact, Bool.not_true, Bool.false_eq_true, if_false, ne_eq,
    not_true_eq_false, isSome_player]

end Ends

/-- **How an observation ends** while the stores agree and the tables have room: with a code, or
with a report of the player that it has found. -/
theorem playerPresentPrimitive_spec [DecidableEq I] (h : Coherent P S world)
    (hfits : world.host.handles.Fits) (hroom : world.boxed.values.length + 1 < addressSpace)
    (answers : PlayerAnswers I) :
    ∃ result world', playerPresentPrimitive P S answers 0 true world = (result, world') ∧
      Footprint world world' ∧
      ((∃ code, result = .failed code) ∨
        (answers.player = none ∧ result = .returned wordNil) ∨
        ∃ handle, answers.player = some handle ∧ result = .returned symTWord ∧
          (world'.bindings.value S.player).bind (resolveWord P world') = some handle) ∧
      (world.host.pointers.Set → answers.Succeeds → ∀ code, result ≠ .failed code) := by
  cases hlogger : world.host.pointers.logger with
  | false =>
      refine ⟨_, _, playerPresentPrimitive_of_logger hlogger, .refl world, .inl ⟨3, rfl⟩, ?_⟩
      intro hset
      rw [hset] at hlogger
      cases hlogger
  | true =>
      obtain ⟨result?, world', hact, hsame, hexited, hnone⟩ :=
        actOnPlayer_spec (P := P) (S := S) answers hroom
      obtain ⟨result, world₁, hact₁, hnot, -⟩ | ⟨world₁, hact₁, hcoherent, hfound⟩ :=
        coherent_act h hfits answers
      · obtain ⟨rfl, rfl⟩ := Prod.mk.inj (hact.symm.trans hact₁)
        refine ⟨_, _, playerPresentPrimitive_of_some hlogger hact, hsame, .inl ?_, ?_⟩
        · cases result with
          | failed code => exact ⟨code, rfl⟩
          | returned out => exact absurd rfl (hnot out)
          | exited => exact absurd rfl hexited
        · intro hset hsucceeds
          cases hnone hset hsucceeds hfits
      · obtain ⟨rfl, rfl⟩ := Prod.mk.inj (hact.symm.trans hact₁)
        obtain ⟨runtime, log, hreport⟩ := reportPresence_eq answers.player.isSome world'
        have hrun := playerPresentPrimitive_of_none hlogger hact
        rw [hreport] at hrun
        refine ⟨_, _, hrun, ⟨hsame.pointers, hsame.typeName, hsame.boxed⟩, .inr ?_,
          by rintro - - code ⟨⟩⟩
        cases hplayer : answers.player with
        | none => exact .inl ⟨rfl, rfl⟩
        | some handle =>
            obtain ⟨hexecuted, hhandle⟩ := PlayerAnswers.player_eq_some.mp hplayer
            refine .inr ⟨handle, rfl, rfl, ?_⟩
            exact (hcoherent.instance_eq).trans (hfound hexecuted handle hhandle)

/-- **Every observation is one**, while the stores agree and the tables have room. -/
theorem observePlayer_spec [DecidableEq I] (h : PlayerInv P S world)
    (hfits : world.host.handles.Fits) (hroom : world.boxed.values.length + 1 < addressSpace) :
    ∃ call world', observePlayer P S 0 true world = (call.result, world') ∧
      Observation P S world world' call := by
  have hcalls := calls_observePlayer (P := P) (S := S) 0 true world
  have hinv := playerInv_observe h hfits 0 true
  obtain ⟨result, world', hrun, hsame, hresult, hsucceeds⟩ :=
    playerPresentPrimitive_spec h.coherent hfits hroom (world.host.answers world.host.calls.length)
  refine ⟨⟨world.host.answers world.host.calls.length, result, playerView P S world,
    playerView P S world'⟩, (observePlayer P S 0 true world).2, ?_, ?_⟩
  · rw [observePlayer, hrun]
  · rw [hrun] at hcalls
    refine ⟨⟨?_, ?_, ?_⟩, hcalls, rfl, hinv, ?_, hsucceeds⟩
    all_goals rw [observePlayer, hrun]
    · exact hsame.pointers
    · exact hsame.typeName
    · exact hsame.boxed
    · exact hresult

/-! ### The class of the player -/

/-- The name of the class of an instance, or the code of the failure. -/
def classAnswer (host : PlayerHost I) (handle : I) : Except Nat String :=
  if !host.pointers.session || !host.pointers.unwrapGameHandle ||
      !host.pointers.wrapTransientString then
    .error 3
  else
    match host.typeName handle with
    | none => .error 6
    | some none => .error 7
    | some (some className) => .ok className

/-- What leaves a footprint only does not change the class of a handle. -/
theorem Footprint.classAnswer_eq {world' : HostWorld (PlayerHost I)}
    (h : Footprint world world') (handle : I) :
    classAnswer world'.host handle = classAnswer world.host handle := by
  rw [classAnswer, classAnswer, h.pointers, h.typeName]

/-- A word that stands for an instance is asked for that instance's class. -/
theorem playerClassName_eq {word : Word} {handle : I}
    (h : resolveWord P world word = some handle) :
    playerClassName P word world = classAnswer world.host handle := by
  obtain ⟨token, htoken, hresolve⟩ := Option.bind_eq_some_iff.mp h
  rw [playerClassName, classAnswer]
  simp only [htoken]
  generalize world.host.handles.resolve token = handle? at hresolve ⊢
  subst hresolve
  rfl

/-- **What the class of the player is.** `ClassPrimitive` changes nothing but the boxed table, where
its answer is a new string. -/
theorem classPrimitive_spec {word : Word} {handle : I}
    (h : resolveWord P world word = some handle)
    (hroom : world.boxed.values.length + 1 < addressSpace) :
    (∃ code, classAnswer world.host handle = .error code ∧
        classPrimitive P [word] world = (.failed code, world)) ∨
      ∃ className out boxed, classAnswer world.host handle = .ok className ∧
        classPrimitive P [word] world = (.returned out, { world with boxed }) ∧
        boxed.entry P out = some ⟨.str className, .transient⟩ := by
  rw [classPrimitive, playerClassName_eq h]
  cases hanswer : classAnswer world.host handle with
  | error code => exact .inl ⟨code, rfl, rfl⟩
  | ok className =>
      obtain ⟨out, hword, hadd⟩ :=
        BoxedTable.add_eq_ok (ε := Empty) (P := P) (.str className) .transient hroom
      refine .inr ⟨className, out, _, rfl, ?_, BoxedTable.entry_push hword hroom⟩
      simp only [wrapClassName, BoxedTable.addString, hadd]

/-! ### No pairs -/

/-- A binding to a word that is no pair adds no pair. -/
theorem Bindings.NonCons.bind {bindings : Bindings} (h : bindings.NonCons) {word : Word}
    (hword : tagOf word ≠ tagCons) (name : String) : (bindings.bind name word).NonCons := by
  intro name' value hvalue
  by_cases heq : name' = name
  · subst heq
    rw [Coherent.value_bind] at hvalue
    exact Option.some.inj hvalue ▸ hword
  · refine h name' value ?_
    rwa [Bindings.value, Bindings.bind, List.lookup_cons, beq_false_of_ne heq] at hvalue

/-- An observation writes no word before its report, and binds no pair. -/
theorem actOnPlayer_words [DecidableEq I] (answers : PlayerAnswers I)
    (world : HostWorld (PlayerHost I)) :
    (∀ out, (actOnPlayer P S answers world).1 ≠ some (.returned out)) ∧
      (world.bindings.NonCons → (actOnPlayer P S answers world).2.bindings.NonCons) := by
  obtain ⟨hact, -⟩ | ⟨hact, -⟩ | ⟨hact, -⟩ := actOnPlayer_cases (P := P) (S := S) answers world
  · rw [hact]
    exact ⟨by rintro out ⟨⟩, id⟩
  · rw [hact]
    obtain hbind | hbind := bindNil_cases (S := S) answers world
    · rw [hbind]
      exact ⟨by rintro out ⟨⟩, id⟩
    · rw [hbind]
      exact ⟨by rintro out ⟨⟩, fun h => h.bind (by decide) S.player⟩
  · rw [hact]
    obtain ⟨_, _, _, -, -, -, hbind⟩ | ⟨word, _, hword, -, hbind⟩ | hbind :=
      bindNew_cases (P := P) (S := S) answers world
    · rw [hbind]
      exact ⟨by rintro out ⟨⟩, id⟩
    · rw [hbind]
      refine ⟨by rintro out ⟨⟩, fun h => h.bind ?_ S.player⟩
      rw [P.tagOf_encodeBoxed _ _ hword]
      decide
    · rw [hbind]
      exact ⟨by rintro out ⟨⟩, id⟩

/-- The primitive neither returns nor binds a pair. -/
theorem playerPresentPrimitive_words [DecidableEq I] (answers : PlayerAnswers I) (argc : Nat)
    (out : Bool) (world : HostWorld (PlayerHost I)) :
    (∀ word, (playerPresentPrimitive P S answers argc out world).1 = .returned word →
        tagOf word ≠ tagCons) ∧
      (world.bindings.NonCons →
        (playerPresentPrimitive P S answers argc out world).2.bindings.NonCons) := by
  obtain ⟨hnot, hbindings⟩ := actOnPlayer_words (P := P) (S := S) answers world
  obtain ⟨code, -, heq⟩ | ⟨result, world', hacted, heq⟩ | ⟨world', hacted, heq⟩ :=
    playerPresentPrimitive_cases (P := P) (S := S) answers argc out world
  · rw [heq]
    exact ⟨by rintro word ⟨⟩, id⟩
  · rw [hacted] at hnot hbindings
    rw [heq]
    exact ⟨fun word hword => absurd (congrArg some hword) (hnot word), hbindings⟩
  · rw [hacted] at hbindings
    obtain ⟨runtime, log, hreport⟩ :=
      reportPresence_eq (answers.executed && answers.handle.isSome) world'
    rw [heq, hreport]
    refine ⟨fun word hword => ?_, hbindings⟩
    rw [← PrimitiveResult.returned.inj hword]
    cases answers.executed && answers.handle.isSome <;> decide

/-- The class primitive returns no pair. -/
theorem classPrimitive_words (args : List Word) (world : HostWorld (PlayerHost I)) {word : Word}
    (h : (classPrimitive P args world).1 = .returned word) : tagOf word ≠ tagCons := by
  rcases args with _ | ⟨argument, _ | ⟨_, _⟩⟩
  · cases h
  · rw [classPrimitive] at h
    cases hname : playerClassName P argument world with
    | error code =>
        rw [hname] at h
        cases h
    | ok className =>
        rw [hname] at h
        obtain hfull | ⟨out, hroom, hword, hadd⟩ :=
          BoxedTable.add_eq (ε := Empty) (P := P) (.str className) .transient world.boxed
        · simp only [wrapClassName, BoxedTable.addString, hfull, reduceCtorEq] at h
        · simp only [wrapClassName, BoxedTable.addString, hadd] at h
          rw [← PrimitiveResult.returned.inj h, P.tagOf_encodeBoxed _ _ hword]
          decide
  · cases h

/-- The capability primitive returns no pair. -/
theorem logPrimitive_words (argc : Nat) (out : Bool) (world : HostWorld (PlayerHost I))
    {word : Word} (h : (logPrimitive argc out world).1 = .returned word) :
    tagOf word ≠ tagCons := by
  rw [logPrimitive] at h
  split_ifs at h
  cases h
  decide

/-- The word that a primitive hands to the evaluator. -/
theorem PrimitiveResult.host_eq_ok {result : PrimitiveResult} {word : Word}
    (h : result.host = .ok word) : result = .returned word := by
  cases result with
  | returned out => exact congrArg returned (HostResult.ok.inj h)
  | failed | exited => cases h

/-- **The adapter hands out no pairs**, and binds none. -/
theorem adapterPrimitives_nonCons [DecidableEq I] (P : Platform) (S : Surfaces) :
    (adapterPrimitives (I := I) P S).NonCons := by
  constructor
  · intro name primitive hname args world word hword
    rw [adapterPrimitives] at hname
    split_ifs at hname
    all_goals
      obtain rfl := Option.some.inj hname
      have hresult := PrimitiveResult.host_eq_ok hword
    · exact classPrimitive_words args world hresult
    · exact (playerPresentPrimitive_words _ args.length true world).1 word hresult
    · exact logPrimitive_words args.length true world hresult
  · intro name primitive hname args world hworld
    rw [adapterPrimitives] at hname
    split_ifs at hname
    all_goals obtain rfl := Option.some.inj hname
    · obtain ⟨boxed, -, hframe⟩ := classPrimitive_frame (P := P) args world
      change (classPrimitive P args world).2.bindings.NonCons
      rw [hframe]
      exact hworld
    · exact (playerPresentPrimitive_words _ args.length true world).2 hworld
    · obtain ⟨runtime, log, hframe⟩ := logPrimitive_frame args.length true world
      change (logPrimitive args.length true world).2.bindings.NonCons
      rw [hframe]
      exact hworld

end LispHost
