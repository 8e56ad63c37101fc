import LispHost.Calls
import LispHost.PlayerHandle

/-!
# Epochs of the Player

What the session says about the player is spread over three stores: the table of the adapter has
the instance under a token, the adapter has the token, and the session has a binding to a word that
unwraps to the token. They agree at all times. An observation that fails leaves them alone; one
that finds a new player replaces all three, and since tokens are not used twice, a word from an
earlier epoch stands for nothing any more.

An evaluation calls the primitives, so every observation is recorded where it is made, and the
record is part of the invariant.

## Main definitions

* `Coherent`: the three stores agree.
* `PlayerCall.Good`: what holds of one observation.
* `playerRun`: observations and calls of `wsm_eval_string`, in any order.
* `PlayerLifecycle`: the lifecycle of the player's handle.

## Main results

* `Coherent.fail`, `Coherent.release`, `Coherent.bind`: what an observation does to the stores.
* `playerInv_observe`: every observation keeps the invariant.
* `player_lifecycle`: the lifecycle, in any run.
-/

namespace LispHost

open Effects

variable {I : Type}

/-! ### Tokens -/

namespace GameHandleTable

variable {table : GameHandleTable I}

/-- Not all tokens are used up. -/
def Fits (table : GameHandleTable I) : Prop := table.retains < 2 ^ 64 - 1

/-- A counter that fits is the number of tokens taken, plus one. -/
theorem toNat_nextToken (h : table.Fits) : table.nextToken.toNat = table.retains + 1 := by
  rw [table.nextToken_eq, BitVec.toNat_ofNat, Nat.mod_eq_of_lt]
  rw [Fits] at h
  omega

/-- So it never hands out the token 0. -/
theorem nextToken_ne_zero (h : table.Fits) : table.nextToken ≠ 0 := by
  intro hzero
  have htoken := toNat_nextToken h
  rw [hzero] at htoken
  cases htoken

/-- **Taking a token** that is not in use. -/
theorem retain_some (h : table.Fits) (hfree : table.handles table.nextToken = none) (handle : I) :
    table.retain (some handle) =
      (table.nextToken,
        { table.advance with
          handles := Function.update table.handles table.nextToken (some handle) }) := by
  rw [retain, if_neg (nextToken_ne_zero h), hfree]
  rfl

@[simp] theorem handles_release (table : GameHandleTable I) (token : Word) :
    (table.release token).handles = Function.update table.handles token none := rfl

/-- A retain gives no token back. -/
theorem retains_retain (table : GameHandleTable I) (handle : Option I) :
    table.retains ≤ (table.retain handle).2.retains := by
  cases handle with
  | none => exact Nat.le_refl _
  | some handle =>
      by_cases hzero : table.nextToken = 0
      · rw [retain, if_pos hzero]
        exact Nat.le_succ _
      · rw [retain, if_neg hzero]
        exact Nat.le_succ _

end GameHandleTable

/-- Neither does a retain that `BindNew` undoes. -/
theorem FailedRetain.retains {handles handles' : GameHandleTable I} {handle : Option I}
    (h : FailedRetain handles handle handles') : handles.retains ≤ handles'.retains := by
  rcases h with rfl | ⟨-, rfl⟩ | ⟨-, rfl⟩
  · exact Nat.le_refl _
  · exact handles.retains_retain handle
  · exact handles.retains_retain handle

/-- A failing `BindNew` takes out again what it has put into the table. -/
theorem FailedRetain.handles {handles handles' : GameHandleTable I} {handle : Option I}
    (h : FailedRetain handles handle handles') (hfits : handles.Fits)
    (hfree : handles.handles handles.nextToken = none) : handles'.handles = handles.handles := by
  cases handle with
  | none =>
      rcases h with rfl | ⟨-, rfl⟩ | ⟨hne, -⟩
      · rfl
      · rfl
      · exact absurd rfl hne
  | some handle =>
      rw [FailedRetain, GameHandleTable.retain_some hfits hfree] at h
      rcases h with rfl | ⟨hzero, -⟩ | ⟨-, rfl⟩
      · rfl
      · exact absurd hzero (GameHandleTable.nextToken_ne_zero hfits)
      · rw [GameHandleTable.release, Function.update_idem]
        exact Function.update_eq_self_iff.mpr hfree.symm

/-! ### The stores agree -/

/-- **The three stores agree.** The table has exactly the entry of the token; the player's name is
bound to the handle of the token, or to nothing; and every word that was ever bound to it is a
handle with a token of its own. -/
structure Coherent (P : Platform) (S : Surfaces) (world : HostWorld (PlayerHost I)) : Prop where
  table : ∀ token, (world.host.handles.handles token).isSome = true ↔
    token = world.host.playerToken ∧ token ≠ 0
  token : world.host.playerToken.toNat ≤ world.host.handles.retains
  absent : world.host.playerToken = 0 →
    world.bindings.value S.player = none ∨ world.bindings.value S.player = some wordNil
  present : world.host.playerToken ≠ 0 → ∃ word, world.bindings.value S.player = some word ∧
    world.boxed.entry P word = some ⟨.gameHandle world.host.playerToken, .persistent⟩
  bound : ∀ word, (S.player, word) ∈ world.bindings → word = wordNil ∨ ∃ token,
    world.boxed.entry P word = some ⟨.gameHandle token, .persistent⟩ ∧ token ≠ 0 ∧
      token.toNat ≤ world.host.handles.retains ∧
      (token = world.host.playerToken → world.bindings.value S.player = some word)

/-- Nil is not a handle. -/
theorem getGameHandle_wordNil {P : Platform} (table : BoxedTable) :
    table.getGameHandle P wordNil = none := by
  have hnever : table.NeverHandle P wordNil :=
    BoxedTable.neverHandle_of_tagOf_ne (by decide : tagOf wordNil ≠ tagBoxed)
  exact hnever table (BoxedTable.Evolves.refl table)

namespace Coherent

variable {P : Platform} {S : Surfaces} {world : HostWorld (PlayerHost I)}

/-- The next token is not in use. -/
theorem free (h : Coherent P S world) (hfits : world.host.handles.Fits) :
    world.host.handles.handles world.host.handles.nextToken = none := by
  rw [← Option.not_isSome_iff_eq_none, h.table]
  rintro ⟨heq, -⟩
  have hle := h.token
  rw [← heq, GameHandleTable.toNat_nextToken hfits] at hle
  omega

/-- The instance that the player's name stands for is the one in the table. -/
theorem instance_eq (h : Coherent P S world) :
    (world.bindings.value S.player).bind (resolveWord P world) =
      world.host.handles.resolve world.host.playerToken := by
  by_cases hzero : world.host.playerToken = 0
  · rw [GameHandleTable.resolve, if_pos hzero]
    rcases h.absent hzero with hvalue | hvalue
    · rw [hvalue]
      rfl
    · rw [hvalue, Option.bind_some, resolveWord, getGameHandle_wordNil]
      rfl
  · obtain ⟨word, hvalue, hentry⟩ := h.present hzero
    have hhandle := BoxedTable.getGameHandle_eq_some_iff.mpr ⟨_, hentry⟩
    rw [hvalue, Option.bind_some, resolveWord, hhandle]
    rfl

/-- The stores still agree when more values are boxed. -/
theorem grow (h : Coherent P S world) {boxed : BoxedTable} (hle : world.boxed ≤ boxed) :
    Coherent P S { world with boxed } where
  table := h.table
  token := h.token
  absent := h.absent
  present hne := by
    obtain ⟨word, hvalue, hentry⟩ := h.present hne
    exact ⟨word, hvalue, BoxedTable.entry_mono hle hentry⟩
  bound word hmem := by
    rcases h.bound word hmem with hnil | ⟨token, hentry, hrest⟩
    · exact .inl hnil
    · exact .inr ⟨token, BoxedTable.entry_mono hle hentry, hrest⟩

/-- They still agree when the transient values are cleared. -/
theorem clear (h : Coherent P S world) :
    Coherent P S { world with boxed := world.boxed.clearTransient } where
  table := h.table
  token := h.token
  absent := h.absent
  present hne := by
    obtain ⟨word, hvalue, hentry⟩ := h.present hne
    refine ⟨word, hvalue, ?_⟩
    rw [BoxedTable.entry_clearTransient, hentry]
    rfl
  bound word hmem := by
    rcases h.bound word hmem with hnil | ⟨token, hentry, hrest⟩
    · exact .inl hnil
    · refine .inr ⟨token, ?_, hrest⟩
      rw [BoxedTable.entry_clearTransient, hentry]
      rfl

/-- Globals that are no part of the stores. -/
theorem congr (h : Coherent P S world) {host : PlayerHost I}
    (hhandles : host.handles = world.host.handles)
    (htoken : host.playerToken = world.host.playerToken) :
    Coherent P S { world with host } := by
  obtain ⟨htable, htokens, habsent, hpresent, hbound⟩ := h
  rw [← hhandles] at htable htokens hbound
  rw [← htoken] at htable htokens habsent hpresent hbound
  exact ⟨htable, htokens, habsent, hpresent, hbound⟩

/-- A failing `BindNew` leaves the stores as they are. -/
theorem fail (h : Coherent P S world) {boxed : BoxedTable} (hle : world.boxed ≤ boxed)
    {handles : GameHandleTable I} (hhandles : handles.handles = world.host.handles.handles)
    (hretains : world.host.handles.retains ≤ handles.retains) :
    Coherent P S { world with boxed, host := { world.host with handles } } where
  table token := by
    rw [hhandles]
    exact h.table token
  token := Nat.le_trans h.token hretains
  absent := h.absent
  present := (h.grow hle).present
  bound word hmem := by
    rcases (h.grow hle).bound word hmem with hnil | ⟨token, hentry, hne, htoken, hcurrent⟩
    · exact .inl hnil
    · exact .inr ⟨token, hentry, hne, Nat.le_trans htoken hretains, hcurrent⟩

/-- A name that was just bound has its new value. -/
theorem value_bind (bindings : Bindings) (name : String) (word : Word) :
    (bindings.bind name word).value name = some word :=
  List.lookup_cons_self

/-- Forgetting the player. -/
theorem release (h : Coherent P S world) {host : PlayerHost I}
    (hhandles : host.handles = world.host.handles.release world.host.playerToken)
    (htoken : host.playerToken = 0) :
    Coherent P S { world with bindings := world.bindings.bind S.player wordNil, host } where
  table token := by
    rw [hhandles, htoken]
    refine iff_of_false ?_ fun h => h.2 h.1
    by_cases heq : token = world.host.playerToken
    · rw [heq, GameHandleTable.handles_release, Function.update_self]
      exact Bool.false_ne_true
    · rw [GameHandleTable.handles_release, Function.update_of_ne heq, h.table]
      exact fun hcurrent => heq hcurrent.1
  token := by
    rw [htoken]
    exact Nat.zero_le _
  absent _ := .inr (value_bind _ _ _)
  present hne := absurd htoken hne
  bound word hmem := by
    rcases List.mem_cons.mp hmem with heq | hmem
    · exact .inl (Prod.mk.inj heq).2
    · rcases h.bound word hmem with hnil | ⟨token, hentry, hne, hle, -⟩
      · exact .inl hnil
      · refine .inr ⟨token, hentry, hne, ?_, fun heq => absurd (heq.trans htoken) hne⟩
        rw [hhandles]
        exact hle

/-- **A new epoch.** Its token is fresh, so the words of earlier epochs stand for nothing. -/
theorem bind (h : Coherent P S world) (hfits : world.host.handles.Fits) {handle : I} {word : Word}
    (hroom : world.boxed.values.length + 1 < addressSpace)
    (hword : P.encodeBoxed (world.boxed.values.length + 1) = some word) {host : PlayerHost I}
    (hhandles : host.handles = (world.host.handles.retain (some handle)).2.release
      world.host.playerToken)
    (htoken : host.playerToken = (world.host.handles.retain (some handle)).1) :
    Coherent P S
      { boxed := world.boxed.push
          ⟨.gameHandle (world.host.handles.retain (some handle)).1, .persistent⟩ hroom
        bindings := world.bindings.bind S.player word
        host } ∧
      host.handles.resolve host.playerToken = some handle := by
  have hfree := h.free hfits
  have hlt := h.token
  have hnext := GameHandleTable.toNat_nextToken hfits
  have hzero := GameHandleTable.nextToken_ne_zero hfits
  rw [GameHandleTable.retain_some hfits hfree] at hhandles htoken ⊢
  have hold : world.host.handles.nextToken ≠ world.host.playerToken := by
    intro heq
    rw [← heq, hnext] at hlt
    omega
  have hretains : host.handles.retains = world.host.handles.retains + 1 := by
    rw [hhandles]
    rfl
  have hupdate : host.handles.handles = Function.update (Function.update
      world.host.handles.handles world.host.handles.nextToken (some handle))
        world.host.playerToken none := by
    rw [hhandles]
    rfl
  have hentries : ∀ token, host.handles.handles token =
      if token = world.host.handles.nextToken then some handle else none := by
    intro token
    rw [hupdate]
    by_cases hcurrent : token = world.host.playerToken
    · rw [hcurrent, Function.update_self, if_neg hold.symm]
    rw [Function.update_of_ne hcurrent]
    by_cases hnew : token = world.host.handles.nextToken
    · rw [hnew, Function.update_self, if_pos rfl]
    · rw [Function.update_of_ne hnew, if_neg hnew, ← Option.not_isSome_iff_eq_none, h.table]
      exact fun hcurrent' => hcurrent hcurrent'.1
  have hvalue := value_bind world.bindings S.player word
  refine ⟨⟨?_, ?_, ?_, ?_, ?_⟩, ?_⟩
  · intro token
    rw [hentries, htoken]
    by_cases hnew : token = world.host.handles.nextToken
    · rw [if_pos hnew]
      exact iff_of_true rfl ⟨hnew, hnew ▸ hzero⟩
    · rw [if_neg hnew]
      exact iff_of_false Bool.false_ne_true fun hcurrent => hnew hcurrent.1
  · rw [htoken, hretains, hnext]
  · intro habsent
    exact absurd (htoken.symm.trans habsent) hzero
  · intro _
    exact ⟨word, hvalue, by rw [htoken]; exact BoxedTable.entry_push hword hroom⟩
  · intro word' hmem
    rcases List.mem_cons.mp hmem with heq | hmem
    · obtain rfl := (Prod.mk.inj heq).2
      refine .inr ⟨_, BoxedTable.entry_push hword hroom, hzero, ?_, fun _ => hvalue⟩
      rw [hretains, hnext]
    · rcases h.bound word' hmem with hnil | ⟨token, hentry, hne, hle, -⟩
      · exact .inl hnil
      · refine .inr ⟨token, ?_, hne, ?_, ?_⟩
        · exact BoxedTable.entry_mono (BoxedTable.le_push _ _ hroom) hentry
        · rw [hretains]
          exact Nat.le_succ_of_le hle
        · intro heq
          rw [htoken] at heq
          rw [heq, hnext] at hle
          omega
  · rw [GameHandleTable.resolve, htoken, if_neg hzero, hentries, if_pos rfl]

end Coherent

/-! ### One observation -/

/-- What holds of one observation: one that fails changes nothing, and one that reports the player
leaves its name standing for the instance that it has just observed. -/
structure PlayerCall.Good (call : PlayerCall I) : Prop where
  failed : ∀ code, call.result = .failed code → call.after = call.before
  observed : call.result = .returned symTWord → call.answers.executed = true ∧
    ∃ handle, call.answers.handle = some handle ∧ call.after.instance? = some handle

variable {P : Platform} {S : Surfaces} {world : HostWorld (PlayerHost I)}

/-- A failing `BindNew` changes nothing that can be seen of the player. -/
theorem playerView_fail (h : Coherent P S world) {boxed : BoxedTable} (hle : world.boxed ≤ boxed)
    {handles : GameHandleTable I} (hhandles : handles.handles = world.host.handles.handles)
    (hretains : world.host.handles.retains ≤ handles.retains) :
    playerView P S { world with boxed, host := { world.host with handles } } =
      playerView P S world := by
  have hinstance := (h.fail hle hhandles hretains).instance_eq
  have hresolve : handles.resolve world.host.playerToken =
      world.host.handles.resolve world.host.playerToken := by
    rw [GameHandleTable.resolve, GameHandleTable.resolve, hhandles]
  rw [playerView, playerView, hinstance, h.instance_eq, hresolve, hhandles]

/-- **What an observation does**, up to its report: it ends with a failure or with the process and
leaves everything as it is; or the stores agree behind it, and if it has found a player, that is
the instance in the table. -/
theorem coherent_act [DecidableEq I] (h : Coherent P S world) (hfits : world.host.handles.Fits)
    (answers : PlayerAnswers I) :
    (∃ result world', actOnPlayer P S answers world = (some result, world') ∧
        (∀ out, result ≠ .returned out) ∧ Coherent P S world' ∧
        playerView P S world' = playerView P S world) ∨
      ∃ world', actOnPlayer P S answers world = (none, world') ∧ Coherent P S world' ∧
        (answers.executed = true → ∀ handle, answers.handle = some handle →
          world'.host.handles.resolve world'.host.playerToken = some handle) := by
  obtain ⟨hact, hsame⟩ | ⟨hact, hnone⟩ | ⟨hact, -, handle, hhandle⟩ :=
    actOnPlayer_cases (P := P) (S := S) answers world
  · refine .inr ⟨world, hact, h, fun hexecuted handle hhandle => ?_⟩
    rcases hsame with hnot | hsame
    · cases hnot.symm.trans hexecuted
    · exact hsame.symm.trans hhandle
  · rw [hact]
    obtain hbind | hbind := bindNil_cases (S := S) answers world
    · exact .inl ⟨_, _, hbind, by rintro out ⟨⟩, h, rfl⟩
    · refine .inr ⟨_, hbind, h.release rfl rfl, fun _ handle hhandle => ?_⟩
      cases hnone.symm.trans hhandle
  · rw [hact]
    obtain ⟨code, boxed, handles, -, hle, hfailed, hbind⟩ | ⟨word, hroom, hword, -, hbind⟩ |
        hbind := bindNew_cases (P := P) (S := S) answers world
    · have hhandles := hfailed.handles hfits (h.free hfits)
      exact .inl ⟨_, _, hbind, by rintro out ⟨⟩, h.fail hle hhandles hfailed.retains,
        playerView_fail h hle hhandles hfailed.retains⟩
    · rw [hhandle] at hbind
      refine .inr ⟨_, hbind, (h.bind hfits hroom hword rfl rfl).1, fun _ handle' hhandle' => ?_⟩
      obtain rfl := Option.some.inj (hhandle.symm.trans hhandle')
      exact (h.bind hfits hroom hword rfl rfl).2
    · exact .inl ⟨_, _, hbind, by rintro out ⟨⟩, h, rfl⟩

/-- Tokens are only taken, and the record is left alone. -/
theorem actOnPlayer_frame [DecidableEq I] (answers : PlayerAnswers I)
    (world : HostWorld (PlayerHost I)) :
    world.host.handles.retains ≤ (actOnPlayer P S answers world).2.host.handles.retains ∧
      (actOnPlayer P S answers world).2.host.calls = world.host.calls := by
  obtain ⟨hact, -⟩ | ⟨hact, -⟩ | ⟨hact, -⟩ := actOnPlayer_cases (P := P) (S := S) answers world
  · rw [hact]
    exact ⟨Nat.le_refl _, rfl⟩
  · rw [hact]
    obtain hbind | hbind := bindNil_cases (S := S) answers world
    · rw [hbind]
      exact ⟨Nat.le_refl _, rfl⟩
    · rw [hbind]
      exact ⟨Nat.le_refl _, rfl⟩
  · rw [hact]
    obtain ⟨_, boxed, handles, -, -, hfailed, hbind⟩ | ⟨word, hroom, -, -, hbind⟩ | hbind :=
      bindNew_cases (P := P) (S := S) answers world
    · rw [hbind]
      exact ⟨hfailed.retains, rfl⟩
    · rw [hbind]
      exact ⟨world.host.handles.retains_retain answers.handle, rfl⟩
    · rw [hbind]
      exact ⟨Nat.le_refl _, rfl⟩

/-- The primitive gives no token back, and it does not write the record of the observations. -/
theorem playerPresentPrimitive_frame [DecidableEq I] (answers : PlayerAnswers I) (argc : Nat)
    (out : Bool) (world : HostWorld (PlayerHost I)) :
    world.host.handles.retains ≤
        (playerPresentPrimitive P S answers argc out world).2.host.handles.retains ∧
      (playerPresentPrimitive P S answers argc out world).2.host.calls = world.host.calls := by
  have hframe := actOnPlayer_frame (P := P) (S := S) answers world
  obtain ⟨code, -, heq⟩ | ⟨result, world', hacted, heq⟩ | ⟨world', hacted, heq⟩ :=
    playerPresentPrimitive_cases (P := P) (S := S) answers argc out world
  · rw [heq]
    exact ⟨Nat.le_refl _, rfl⟩
  · rw [hacted] at hframe
    rw [heq]
    exact hframe
  · rw [hacted] at hframe
    obtain ⟨runtime, log, hreport⟩ :=
      reportPresence_eq (answers.executed && answers.handle.isSome) world'
    rw [heq, hreport]
    exact hframe

/-- **What an observation does.** The stores agree behind it, and its record is good. -/
theorem coherent_observe [DecidableEq I] (h : Coherent P S world)
    (hfits : world.host.handles.Fits) (answers : PlayerAnswers I) (argc : Nat) (out : Bool) :
    Coherent P S (playerPresentPrimitive P S answers argc out world).2 ∧
      PlayerCall.Good
        { answers
          result := (playerPresentPrimitive P S answers argc out world).1
          before := playerView P S world
          after := playerView P S (playerPresentPrimitive P S answers argc out world).2 } := by
  obtain ⟨code, -, heq⟩ | ⟨result, world', hacted, heq⟩ | ⟨world', hacted, heq⟩ :=
    playerPresentPrimitive_cases (P := P) (S := S) answers argc out world
  · rw [heq]
    exact ⟨h, fun _ _ => rfl, by rintro ⟨⟩⟩
  · obtain ⟨result', world'', hacted', hnot, hcoherent, hview⟩ | ⟨world'', hacted', -⟩ :=
      coherent_act h hfits answers
    · cases hacted.symm.trans hacted'
      rw [heq]
      exact ⟨hcoherent, fun _ _ => hview, fun hreturned => absurd hreturned (hnot _)⟩
    · cases hacted.symm.trans hacted'
  · obtain ⟨result', world'', hacted', -⟩ | ⟨world'', hacted', hcoherent, hobserved⟩ :=
      coherent_act h hfits answers
    · cases hacted.symm.trans hacted'
    cases hacted.symm.trans hacted'
    obtain ⟨runtime, log, hreport⟩ :=
      reportPresence_eq (answers.executed && answers.handle.isSome) world'
    have hcoherent' : Coherent P S { world' with host := { world'.host with runtime, log } } :=
      hcoherent.congr rfl rfl
    rw [heq, hreport]
    refine ⟨hcoherent', by rintro code ⟨⟩, fun hreturned => ?_⟩
    cases hpresent : answers.executed && answers.handle.isSome with
    | false =>
        rw [hpresent] at hreturned
        have hwords : wordNil = symTWord := PrimitiveResult.returned.inj hreturned
        exact absurd hwords (by decide)
    | true =>
        obtain ⟨hexecuted, hsome⟩ := Bool.and_eq_true_iff.mp hpresent
        obtain ⟨handle, hhandle⟩ := Option.isSome_iff_exists.mp hsome
        refine ⟨hexecuted, handle, hhandle, ?_⟩
        exact hcoherent'.instance_eq.trans (hobserved hexecuted handle hhandle)

/-! ### All observations -/

/-- The stores agree, and the record of every observation is good. -/
structure PlayerInv (P : Platform) (S : Surfaces) (world : HostWorld (PlayerHost I)) : Prop where
  coherent : Coherent P S world
  calls : ∀ call ∈ world.host.calls, call.Good

/-- Every observation is recorded. -/
theorem calls_observePlayer [DecidableEq I] (argc : Nat) (out : Bool)
    (world : HostWorld (PlayerHost I)) :
    (observePlayer P S argc out world).2.host.calls = world.host.calls ++
      [{ answers := world.host.answers world.host.calls.length
         result := (playerPresentPrimitive P S (world.host.answers world.host.calls.length) argc
           out world).1
         before := playerView P S world
         after := playerView P S (playerPresentPrimitive P S
           (world.host.answers world.host.calls.length) argc out world).2 }] :=
  congrArg (· ++ _) (playerPresentPrimitive_frame _ argc out world).2

/-- **Every observation keeps the invariant.** -/
theorem playerInv_observe [DecidableEq I] (h : PlayerInv P S world)
    (hfits : world.host.handles.Fits) (argc : Nat) (out : Bool) :
    PlayerInv P S (observePlayer P S argc out world).2 := by
  obtain ⟨hcoherent, hgood⟩ := coherent_observe h.coherent hfits
    (world.host.answers world.host.calls.length) argc out
  refine ⟨hcoherent.congr rfl rfl, fun call hmem => ?_⟩
  rw [calls_observePlayer] at hmem
  rcases List.mem_append.mp hmem with hmem | hmem
  · exact h.calls call hmem
  · rw [List.mem_singleton.mp hmem]
    exact hgood

/-- An observation gives no token back. -/
theorem retains_observePlayer [DecidableEq I] (argc : Nat) (out : Bool)
    (world : HostWorld (PlayerHost I)) :
    world.host.handles.retains ≤ (observePlayer P S argc out world).2.host.handles.retains :=
  (playerPresentPrimitive_frame _ argc out world).1

/-- The invariant, as long as tokens last. -/
def PlayerKept (P : Platform) (S : Surfaces) (world : HostWorld (PlayerHost I)) : Prop :=
  world.host.handles.Fits → PlayerInv P S world

/-- An observation keeps the invariant of a run, up to the end of the counter. -/
theorem playerKept_observe [DecidableEq I] (h : PlayerKept P S world) (argc : Nat) (out : Bool) :
    PlayerKept P S (observePlayer P S argc out world).2 := by
  intro hfits
  have hfits' : world.host.handles.Fits :=
    Nat.lt_of_le_of_lt (retains_observePlayer argc out world) hfits
  exact playerInv_observe (h hfits') hfits' argc out

/-! ### Runs -/

/-- **The invariant holds wherever the primitives are called**, also inside an evaluation. -/
theorem worldInvariant_player [DecidableEq I] :
    WorldInvariant (PlayerKept (I := I) P S) (adapterPrimitives P S) where
  grow h hle hfits := ⟨(h hfits).coherent.grow hle, (h hfits).calls⟩
  clear h hfits := ⟨(h hfits).coherent.clear, (h hfits).calls⟩
  call {name primitive} hname args world h := by
    rw [adapterPrimitives] at hname
    by_cases hclass : name = S.class_
    · rw [if_pos hclass] at hname
      obtain rfl := Option.some.inj hname
      obtain ⟨boxed, hle, hframe⟩ := classPrimitive_frame (P := P) args world
      change PlayerKept P S (classPrimitive P args world).2
      rw [hframe]
      exact fun hfits => ⟨(h hfits).coherent.grow hle, (h hfits).calls⟩
    rw [if_neg hclass] at hname
    by_cases hpresent : name = S.playerPresent
    · rw [if_pos hpresent] at hname
      obtain rfl := Option.some.inj hname
      exact playerKept_observe h args.length true
    rw [if_neg hpresent] at hname
    by_cases hlog : name = S.log
    · rw [if_pos hlog] at hname
      obtain rfl := Option.some.inj hname
      obtain ⟨runtime, log, hframe⟩ := logPrimitive_frame args.length true world
      change PlayerKept P S (logPrimitive args.length true world).2
      rw [hframe]
      exact fun hfits => ⟨(h hfits).coherent.congr rfl rfl, (h hfits).calls⟩
    · rw [if_neg hlog] at hname
      cases hname

/-- The adapter behind its load, before the first observation. -/
def playerInitial [DecidableEq I] (P : Platform) (S : Surfaces) (pointers : AdapterPointers)
    (typeName : I → Option (Option String)) (answers : Nat → PlayerAnswers I) :
    Machine (PlayerHost I) :=
  Machine.init (Session.init (adapterPrimitives P S) [])
    { pointers
      handles := .new
      playerToken := 0
      runtime := { capabilityLogged := false, playerPresence := none }
      log := []
      typeName
      answers
      calls := [] }

/-- An observation, or a call of `wsm_eval_string`. -/
inductive PlayerEvent where
  | observe (argc : Nat) (out : Bool)
  | eval (source : SourceArg)
deriving DecidableEq, Repr

/-- One event: an observation, or a request to the evaluator. -/
def playerStep [DecidableEq I] (P : Platform) (S : Surfaces) (m : Machine (PlayerHost I)) :
    PlayerEvent → Machine (PlayerHost I)
  | .observe argc out =>
      let world := (observePlayer P S argc out m.world).2
      { m with
        session := { m.session with boxed := world.boxed, bindings := world.bindings }
        host := world.host }
  | .eval source => (wsmEvalString P source m).2

/-- Any number of observations and calls, in any order. -/
def playerRun [DecidableEq I] (P : Platform) (S : Surfaces) (events : List PlayerEvent)
    (m : Machine (PlayerHost I)) : Machine (PlayerHost I) :=
  events.foldl (playerStep P S) m

/-- **The lifecycle of the player's handle.** -/
structure PlayerLifecycle (P : Platform) (S : Surfaces) (m : Machine (PlayerHost I)) : Prop where
  /-- The table holds exactly the entry of the token. -/
  table : ∀ token, (m.host.handles.handles token).isSome = true ↔
    token = m.host.playerToken ∧ token ≠ 0
  /-- Without a token, the player is unbound or nil. -/
  absent : m.host.playerToken = 0 →
    m.session.bindings.value S.player = none ∨ m.session.bindings.value S.player = some wordNil
  /-- With a token, the player is bound to a handle that unwraps to it. -/
  present : m.host.playerToken ≠ 0 → ∃ word, m.session.bindings.value S.player = some word ∧
    m.session.boxed.getGameHandle P word = some m.host.playerToken
  /-- An observation that fails changes neither the table nor the token nor the binding. -/
  failed : ∀ call ∈ m.host.calls, ∀ code, call.result = .failed code → call.after = call.before
  /-- Behind an observation that writes `t`, the player is the instance just observed. -/
  observed : ∀ call ∈ m.host.calls, call.result = .returned symTWord →
    call.answers.executed = true ∧ ∃ handle, call.answers.handle = some handle ∧
      call.after.instance? = some handle
  /-- A word that was bound to the player before stands for nothing. -/
  stale : ∀ word, (S.player, word) ∈ m.session.bindings →
    m.session.bindings.value S.player ≠ some word → resolveWord P m.world word = none

/-- The invariant says all that the lifecycle promises. -/
theorem PlayerInv.lifecycle {m : Machine (PlayerHost I)} (h : PlayerInv P S m.world) :
    PlayerLifecycle P S m where
  table := h.coherent.table
  absent := h.coherent.absent
  present hne := by
    obtain ⟨word, hvalue, hentry⟩ := h.coherent.present hne
    exact ⟨word, hvalue, BoxedTable.getGameHandle_eq_some_iff.mpr ⟨_, hentry⟩⟩
  failed call hmem := (h.calls call hmem).failed
  observed call hmem := (h.calls call hmem).observed
  stale word hmem hstale := by
    rcases h.coherent.bound word hmem with rfl | ⟨token, hentry, hne, -, hcurrent⟩
    · rw [resolveWord, getGameHandle_wordNil]
      rfl
    · have hhandle := BoxedTable.getGameHandle_eq_some_iff.mpr ⟨_, hentry⟩
      rw [resolveWord, hhandle, Option.bind_some, GameHandleTable.resolve, if_neg hne,
        ← Option.not_isSome_iff_eq_none, h.coherent.table]
      exact fun htoken => hstale (hcurrent htoken.1)

/-- A module that was just loaded has the invariant. -/
theorem coherent_initial [DecidableEq I] (pointers : AdapterPointers)
    (typeName : I → Option (Option String)) (answers : Nat → PlayerAnswers I) :
    PlayerInv P S (playerInitial P S pointers typeName answers).world where
  coherent :=
    { table := fun token => iff_of_false Bool.false_ne_true fun h => h.2 h.1
      token := Nat.le_refl _
      absent := fun _ => .inl rfl
      present := fun hne => absurd rfl hne
      bound := by rintro word ⟨⟩ }
  calls := by rintro call ⟨⟩

/-- One event keeps the primitives and the invariant. -/
theorem playerKept_step [DecidableEq I] {m : Machine (PlayerHost I)}
    (hprimitives : m.session.primitives = adapterPrimitives P S) (h : PlayerKept P S m.world)
    (event : PlayerEvent) :
    (playerStep P S m event).session.primitives = adapterPrimitives P S ∧
      PlayerKept P S (playerStep P S m event).world := by
  cases event with
  | observe argc out => exact ⟨hprimitives, playerKept_observe h argc out⟩
  | eval source =>
      have hinvariant : WorldInvariant (PlayerKept P S) m.session.primitives :=
        hprimitives ▸ worldInvariant_player
      obtain ⟨hsame, hworld⟩ := hinvariant.wsmEvalString (P := P) h source
      exact ⟨hsame.trans hprimitives, hworld⟩

/-- A run keeps it, whatever its events are. -/
theorem playerKept_run [DecidableEq I] {m : Machine (PlayerHost I)}
    (hprimitives : m.session.primitives = adapterPrimitives P S) (h : PlayerKept P S m.world)
    (events : List PlayerEvent) : PlayerKept P S (playerRun P S events m).world := by
  induction events generalizing m with
  | nil => exact h
  | cons event events ih =>
      obtain ⟨hprimitives', h'⟩ := playerKept_step hprimitives h event
      exact ih hprimitives' h'

/-- What every call and every observation keeps, every run keeps. -/
theorem WorldInvariant.playerRun [DecidableEq I] {J : HostWorld (PlayerHost I) → Prop}
    (h : WorldInvariant J (adapterPrimitives P S))
    (hobserve : ∀ argc out world, J world → J (observePlayer P S argc out world).2)
    (events : List PlayerEvent) {m : Machine (PlayerHost I)}
    (hprimitives : m.session.primitives = adapterPrimitives P S) (hm : J m.world) :
    (playerRun P S events m).session.primitives = adapterPrimitives P S ∧
      J (playerRun P S events m).world := by
  induction events generalizing m with
  | nil => exact ⟨hprimitives, hm⟩
  | cons event events ih =>
      have hstep : (playerStep P S m event).session.primitives = adapterPrimitives P S ∧
          J (playerStep P S m event).world := by
        cases event with
        | observe argc out => exact ⟨hprimitives, hobserve argc out m.world hm⟩
        | eval source =>
            have hsession : WorldInvariant J m.session.primitives := hprimitives ▸ h
            obtain ⟨hsame, hworld⟩ := hsession.wsmEvalString (P := P) hm source
            exact ⟨hsame.trans hprimitives, hworld⟩
      exact ih hstep.1 hstep.2

/-- **The lifecycle.** It holds after any observations and evaluations, as long as fewer than
`2 ^ 64 - 1` tokens have been taken. -/
theorem player_lifecycle [DecidableEq I] (P : Platform) (S : Surfaces)
    (pointers : AdapterPointers) (typeName : I → Option (Option String))
    (answers : Nat → PlayerAnswers I) (events : List PlayerEvent)
    (hretains : (playerRun P S events
      (playerInitial P S pointers typeName answers)).host.handles.retains < 2 ^ 64 - 1) :
    PlayerLifecycle P S (playerRun P S events (playerInitial P S pointers typeName answers)) :=
  (playerKept_run rfl (fun _ => coherent_initial pointers typeName answers) events
    hretains).lifecycle

/-- A player that comes, and goes. -/
theorem player_lifecycle_absent :
    PlayerLifecycle .standard ⟨"log", "present?", "class", "player"⟩
      (playerRun .standard ⟨"log", "present?", "class", "player"⟩
        [.observe 0 true, .observe 0 true]
        (playerInitial .standard ⟨"log", "present?", "class", "player"⟩
          ⟨true, true, true, true, true, true⟩ (fun _ : Unit => some (some "Player"))
          fun n => ⟨true, if n = 0 then some () else none, .succeeds, true⟩)) :=
  player_lifecycle .standard _ _ _ _ _ (by decide)

end LispHost
