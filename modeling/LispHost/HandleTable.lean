import LispHost.PlayerEpochs

/-!
# Tokens of the Handle Table

A token of a `GameHandleTable` is the value of a counter of 64 bits. The counter comes round,
and `Retain` passes over zero only: it hands out every other value again, also one that still
stands for a handle, and then keeps the handle that was there.

## Main definitions

* `TableCall`, `GameHandleTable.reached`: sequences of calls, and the table behind them.
* `Unaliased`: every token stands for the handle that it was handed out for, and for no other.
* `KeptApart`: no two handles that come under the same token, counted through, with the first
  neither released nor cleared in between.

## Main results

* `handles_origin`: where a live token comes from.
* `unaliased_iff`: which sequences of calls are without aliases.
-/

namespace LispHost

open Effects

variable {I : Type}

/-- A call of the table by the adapter. -/
inductive TableCall (I : Type) where
  | retain (handle : Option I)
  | release (token : Word)
  | clear
deriving DecidableEq, Repr

namespace TableCall

/-- Calls that take a token off the counter. -/
def takesToken : TableCall I → Bool
  | .retain handle => handle.isSome
  | _ => false

/-- Calls after which a token does not stand for a handle. -/
def Drops (token : Word) : TableCall I → Prop
  | .retain _ => False
  | .release token' => token' = token
  | .clear => True

end TableCall

namespace GameHandleTable

/-- `Clear`: the counter goes on where it was. -/
def clear (table : GameHandleTable I) : GameHandleTable I :=
  { table with handles := fun _ => none }

/-- The table after a call. -/
def apply (table : GameHandleTable I) : TableCall I → GameHandleTable I
  | .retain handle => (table.retain handle).2
  | .release token => table.release token
  | .clear => table.clear

/-- The table behind a sequence of calls on a new one. -/
def reached (calls : List (TableCall I)) : GameHandleTable I :=
  calls.foldl apply GameHandleTable.new

end GameHandleTable

open GameHandleTable

/-- How many tokens were taken off the counter. -/
def taken (calls : List (TableCall I)) : Nat := calls.countP TableCall.takesToken

/-- The value of the counter behind `n` tokens. -/
def tokenAt (n : Nat) : Word := BitVec.ofNat 64 (n + 1)

/-- **No aliases.** A `Retain` that returns zero stores nothing. The token that any other one
returns is not live for another handle, and resolves to its own handle until it is dropped. -/
def Unaliased (calls : List (TableCall I)) : Prop :=
  ∀ before handle after, calls = before ++ .retain handle :: after →
    let token := ((reached before).retain handle).1
    (token = 0 → (reached (before ++ [.retain handle])).handles = (reached before).handles) ∧
      (token ≠ 0 →
        ((reached before).handles token = none ∨ (reached before).handles token = handle) ∧
        ((∀ call ∈ after, ¬ call.Drops token) → (reached calls).resolve token = handle))

/-- Two handles under the same value of the counter are equal, unless the value is zero or the
first one is dropped in between. -/
def KeptApart (calls : List (TableCall I)) : Prop :=
  ∀ before handle between handle' after,
    calls = before ++ .retain (some handle) :: between ++ .retain (some handle') :: after →
    tokenAt (taken before) ≠ 0 →
    tokenAt (taken (before ++ .retain (some handle) :: between)) = tokenAt (taken before) →
    (∀ call ∈ between, ¬ call.Drops (tokenAt (taken before))) → handle = handle'

/-! ### Tables and calls -/

/-- The table after more calls. -/
theorem reached_append (calls calls' : List (TableCall I)) :
    reached (calls ++ calls') = calls'.foldl apply (reached calls) :=
  List.foldl_append

/-- The table after one more call. -/
theorem reached_concat (calls : List (TableCall I)) (call : TableCall I) :
    reached (calls ++ [call]) = (reached calls).apply call :=
  reached_append calls [call]

/-- The tokens that two sequences of calls take. -/
theorem taken_append (calls calls' : List (TableCall I)) :
    taken (calls ++ calls') = taken calls + taken calls' :=
  List.countP_append

/-- A retain of a handle takes a token. -/
theorem taken_retain (handle : I) (calls : List (TableCall I)) :
    taken (.retain (some handle) :: calls) = taken calls + 1 :=
  List.countP_cons_of_pos rfl

section Retain

variable {table : GameHandleTable I} {handle : I}

/-- At the token 0 the counter moves on and nothing is stored. -/
theorem retain_zero (h : table.nextToken = 0) :
    table.retain (some handle) = (0, table.advance) := by
  rw [GameHandleTable.retain, if_pos h]

/-- Elsewhere a retain returns the token of the counter. -/
theorem fst_retain (h : table.nextToken ≠ 0) :
    (table.retain (some handle)).1 = table.nextToken := by
  rw [GameHandleTable.retain, if_neg h]

/-- An entry that is there stays. -/
theorem handles_retain (h : table.nextToken ≠ 0) :
    (table.retain (some handle)).2.handles = Function.update table.handles table.nextToken
      (some ((table.handles table.nextToken).getD handle)) := by
  rw [GameHandleTable.retain, if_neg h]

/-- Either way it takes one token. -/
theorem retains_retain_some : (table.retain (some handle)).2.retains = table.retains + 1 := by
  by_cases h : table.nextToken = 0
  · rw [retain_zero h]
    rfl
  · rw [GameHandleTable.retain, if_neg h]
    rfl

end Retain

/-- The table counts the tokens that its calls take. -/
theorem retains_reached (calls : List (TableCall I)) : (reached calls).retains = taken calls := by
  induction calls using List.reverseRecOn with
  | nil => rfl
  | append_singleton calls call ih =>
      rw [reached_concat, taken_append, ← ih]
      cases call with
      | retain handle =>
          cases handle with
          | none => rfl
          | some handle => exact retains_retain_some
      | release token => rfl
      | clear => rfl

/-- The counter is the number of tokens taken, plus one, in 64 bits. -/
theorem nextToken_reached (calls : List (TableCall I)) :
    (reached calls).nextToken = tokenAt (taken calls) := by
  rw [(reached calls).nextToken_eq, retains_reached, tokenAt]

/-! ### What a token stands for -/

/-- A call that does not drop a token leaves the handle that it stands for. -/
theorem handles_apply {table : GameHandleTable I} {token : Word} {handle : I} {call : TableCall I}
    (h : table.handles token = some handle) (hcall : ¬ call.Drops token) :
    (table.apply call).handles token = some handle := by
  cases call with
  | retain handle' =>
      cases handle' with
      | none => exact h
      | some handle' =>
          by_cases hzero : table.nextToken = 0
          · rw [apply, retain_zero hzero]
            exact h
          · rw [apply, handles_retain hzero]
            by_cases htoken : token = table.nextToken
            · subst htoken
              rw [Function.update_self, h, Option.getD_some]
            · rw [Function.update_of_ne htoken, h]
  | release token' =>
      rw [apply, handles_release, Function.update_of_ne (fun heq => hcall heq.symm), h]
  | clear => exact absurd trivial hcall

/-- A handle stays under its token as long as no call drops the token. -/
theorem handles_foldl {table : GameHandleTable I} {token : Word} {handle : I}
    {calls : List (TableCall I)} (h : table.handles token = some handle)
    (hcalls : ∀ call ∈ calls, ¬ call.Drops token) :
    (calls.foldl apply table).handles token = some handle := by
  induction calls generalizing table with
  | nil => exact h
  | cons call calls ih =>
      obtain ⟨hcall, hrest⟩ := List.forall_mem_cons.mp hcalls
      exact ih (handles_apply h hcall) hrest

/-- A handle that is live under a token was retained when the counter had that value, and not
dropped since. -/
def Origin (calls : List (TableCall I)) (token : Word) (handle : I) : Prop :=
  ∃ before between, calls = before ++ .retain (some handle) :: between ∧
    tokenAt (taken before) = token ∧ ∀ call ∈ between, ¬ call.Drops token

/-- A call that does not drop the token keeps the origin. -/
theorem Origin.concat {calls : List (TableCall I)} {token : Word} {handle : I}
    {call : TableCall I} (h : Origin calls token handle) (hcall : ¬ call.Drops token) :
    Origin (calls ++ [call]) token handle := by
  obtain ⟨before, between, rfl, htoken, hbetween⟩ := h
  refine ⟨before, between ++ [call], by simp, htoken, ?_⟩
  intro call' hmem
  rcases List.mem_append.mp hmem with hmem | hmem
  · exact hbetween call' hmem
  · rw [List.mem_singleton.mp hmem]
    exact hcall

/-- **Where a live token comes from.** -/
theorem handles_origin {calls : List (TableCall I)} {token : Word} {handle : I}
    (h : (reached calls).handles token = some handle) : Origin calls token handle := by
  induction calls using List.reverseRecOn generalizing handle with
  | nil => cases h
  | append_singleton calls call ih =>
      rw [reached_concat] at h
      cases call with
      | retain handle' =>
          cases handle' with
          | none => exact (ih h).concat id
          | some handle' =>
              by_cases hzero : (reached calls).nextToken = 0
              · rw [apply, retain_zero hzero] at h
                exact (ih h).concat id
              · rw [apply, handles_retain hzero] at h
                by_cases htoken : token = (reached calls).nextToken
                · subst htoken
                  rw [Function.update_self] at h
                  cases hlive : (reached calls).handles (reached calls).nextToken with
                  | none =>
                      -- the token was free, and the entry is the one just made
                      rw [hlive, Option.getD_none] at h
                      cases h
                      exact ⟨calls, [], rfl, (nextToken_reached calls).symm, by simp⟩
                  | some live =>
                      rw [hlive, Option.getD_some] at h
                      cases h
                      exact (ih hlive).concat id
                · rw [Function.update_of_ne htoken] at h
                  exact (ih h).concat id
      | release token' =>
          rw [apply, handles_release] at h
          by_cases htoken : token = token'
          · rw [htoken, Function.update_self] at h
            cases h
          · rw [Function.update_of_ne htoken] at h
            exact (ih h).concat (fun heq => htoken heq.symm)
      | clear => cases h

/-! ### Aliases -/

/-- The entry behind a `Retain` whose token is free, or live for the same handle. -/
theorem handles_retain_of_free {table : GameHandleTable I} {handle : I}
    (hzero : table.nextToken ≠ 0)
    (hfree : table.handles table.nextToken = none ∨
      table.handles table.nextToken = some handle) :
    (table.retain (some handle)).2.handles table.nextToken = some handle := by
  rw [handles_retain hzero, Function.update_self]
  rcases hfree with hfree | hfree <;> simp [hfree]

/-- A token other than 0 is looked up. -/
theorem resolve_of_ne_zero {table : GameHandleTable I} {token : Word} (h : token ≠ 0) :
    table.resolve token = table.handles token :=
  if_neg h

/-- What `Retain` does to the entry under its token, without aliases. -/
theorem Unaliased.handles {calls before after : List (TableCall I)} {handle : I}
    (h : Unaliased calls) (hcalls : calls = before ++ .retain (some handle) :: after)
    (hzero : tokenAt (taken before) ≠ 0) :
    ((reached before).handles (tokenAt (taken before)) = none ∨
      (reached before).handles (tokenAt (taken before)) = some handle) ∧
    (reached (before ++ [.retain (some handle)])).handles (tokenAt (taken before)) =
      some handle := by
  rw [← nextToken_reached] at hzero ⊢
  obtain ⟨-, hnonzero⟩ := h before (some handle) after hcalls
  rw [fst_retain hzero] at hnonzero
  obtain ⟨hfree, -⟩ := hnonzero hzero
  exact ⟨hfree, by rw [reached_concat]; exact handles_retain_of_free hzero hfree⟩

/-- Without aliases: the first handle is still there when its token is handed out again. -/
theorem Unaliased.keptApart {calls : List (TableCall I)} (h : Unaliased calls) :
    KeptApart calls := by
  intro before handle between handle' after hcalls hzero htoken hbetween
  have hfirst : calls = before ++
      .retain (some handle) :: (between ++ .retain (some handle') :: after) := by simp [hcalls]
  obtain ⟨-, hstored⟩ := h.handles hfirst hzero
  have hlive : (reached (before ++ .retain (some handle) :: between)).handles
      (tokenAt (taken before)) = some handle := by
    rw [List.append_cons, reached_append]
    exact handles_foldl hstored hbetween
  obtain ⟨hfree, -⟩ := h.handles hcalls (htoken.symm ▸ hzero)
  rw [htoken, hlive] at hfree
  rcases hfree with hfree | hfree
  · cases hfree
  · exact Option.some.inj hfree

/-- Kept apart: a token that is handed out was free, or live for the same handle. -/
theorem KeptApart.handles {calls before after : List (TableCall I)} {handle : I}
    (h : KeptApart calls) (hcalls : calls = before ++ .retain (some handle) :: after)
    (hzero : tokenAt (taken before) ≠ 0) :
    (reached before).handles (tokenAt (taken before)) = none ∨
      (reached before).handles (tokenAt (taken before)) = some handle := by
  cases hlive : (reached before).handles (tokenAt (taken before)) with
  | none => exact .inl rfl
  | some live =>
      obtain ⟨first, between, rfl, htoken, hbetween⟩ := handles_origin hlive
      have heq := h first live between handle after (by simp [hcalls]) (htoken ▸ hzero)
        htoken.symm (by rwa [htoken])
      rw [heq]
      exact .inr rfl

/-- **Live tokens that are not met again keep their handles.** -/
theorem KeptApart.unaliased {calls : List (TableCall I)} (h : KeptApart calls) :
    Unaliased calls := by
  intro before handle after hcalls
  cases handle with
  | none => exact ⟨fun _ => by rw [reached_concat]; rfl, fun hne => absurd rfl hne⟩
  | some handle =>
      by_cases hzero : (reached before).nextToken = 0
      · rw [retain_zero hzero]
        refine ⟨fun _ => ?_, fun hne => absurd rfl hne⟩
        rw [reached_concat, apply, retain_zero hzero]
        rfl
      · rw [fst_retain hzero]
        refine ⟨fun heq => absurd heq hzero, fun _ => ?_⟩
        have hfree : (reached before).handles (reached before).nextToken = none ∨
            (reached before).handles (reached before).nextToken = some handle := by
          rw [nextToken_reached] at hzero ⊢
          exact h.handles hcalls hzero
        refine ⟨hfree, fun hafter => ?_⟩
        rw [resolve_of_ne_zero hzero, hcalls, List.append_cons, reached_append, reached_concat]
        exact handles_foldl (handles_retain_of_free hzero hfree) hafter

/-- **Which sequences of calls are without aliases.** -/
theorem unaliased_iff (calls : List (TableCall I)) : Unaliased calls ↔ KeptApart calls :=
  ⟨Unaliased.keptApart, KeptApart.unaliased⟩

/-- Before the counter comes round there are no aliases. -/
theorem unaliased_of_taken_lt {calls : List (TableCall I)} (h : taken calls < 2 ^ 64) :
    Unaliased calls := by
  refine KeptApart.unaliased ?_
  intro before handle between handle' after hcalls hzero htoken hbetween
  have htaken : taken calls = taken before + (taken between + 1) + (taken after + 1) := by
    rw [hcalls, taken_append, taken_append, taken_retain, taken_retain]
  have hagain : (taken before + (taken between + 1) + 1) % 2 ^ 64 =
      (taken before + 1) % 2 ^ 64 := by
    rw [taken_append, taken_retain] at htoken
    exact congrArg BitVec.toNat htoken
  omega

/-! ### An alias -/

/-- Handles that are retained and released at once, under the tokens from two on. -/
def released (n : Nat) : List (TableCall Bool) :=
  (List.range n).flatMap fun k => [.retain (some false), .release (tokenAt (k + 1))]

/-- Retaining and releasing `n` times takes `n` tokens. -/
theorem taken_released (n : Nat) : taken (released n) = n := by
  have hpair : (List.countP TableCall.takesToken ∘ fun k : Nat =>
      [.retain (some false), .release (tokenAt (k + 1))]) = fun _ => 1 := rfl
  rw [taken, released, List.countP_flatMap, hpair, List.map_const', List.length_range,
    List.sum_replicate_nat, Nat.mul_one]

/-- Before the counter has come round, none of these calls drops the token 1. -/
theorem not_drops_released {n : Nat} (hn : n < 2 ^ 64) :
    ∀ call ∈ released n, ¬ call.Drops (1 : Word) := by
  intro call hmem hdrops
  obtain ⟨k, hk, hcall⟩ := List.mem_flatMap.mp hmem
  have hlt := List.mem_range.mp hk
  rcases List.mem_pair.mp hcall with rfl | rfl
  · exact hdrops
  · have htoken : (k + 1 + 1) % 2 ^ 64 = 1 := congrArg BitVec.toNat hdrops
    omega

/-- **A token that stands for another handle.** The handle that is retained first is still live
when the counter comes round to its token. -/
theorem not_unaliased_round :
    ¬ Unaliased (.retain (some true) :: released (2 ^ 64 - 1) ++ [.retain (some false)]) := by
  intro h
  have heq := h.keptApart [] true (released (2 ^ 64 - 1)) false [] (by rw [List.nil_append])
    (by decide) ?_ (not_drops_released (by decide))
  · cases heq
  · rw [List.nil_append, ← List.singleton_append, taken_append, taken_released]
    rfl

end LispHost
