import LispHost.Lib.Transition
import Mathlib.Data.Set.Insert

/-!
# Ledgers with Two Lifetimes

A ledger hands out keys for values. A key is never handed out twice; at a clearing, the
values that are not kept are gone, and their keys stay used up. This is what a table with
persistent and transient entries is for, whatever its keys and its values are.

## Main definitions

* `Ledger`, `LedgerEvent`, `Ledger.Step`: the ledger and what can happen to it.

## Main results

* `Ledger.not_mem_of_run`: a key is different from every key handed out before.
* `Ledger.live_of_run`: what a key stands for at any later time.
-/

namespace Effects

/-- The keys handed out so far, and what they stand for. -/
structure Ledger (κ ν : Type) where
  issued : Set κ
  live : κ → Option ν

/-- What happens to a ledger. -/
inductive LedgerEvent (κ ν : Type) where
  | add (key : κ) (value : ν)
  | clear
  | idle

/-- The key an event hands out. -/
def LedgerEvent.key {κ ν : Type} : LedgerEvent κ ν → Option κ
  | add key _ => some key
  | _ => none

/-- The event is a clearing. -/
def LedgerEvent.isClear {κ ν : Type} : LedgerEvent κ ν → Bool
  | clear => true
  | _ => false

namespace Ledger

variable {κ ν : Type} (kept : ν → Bool)

/-- One event: a new key for a value, a clearing, or nothing. -/
inductive Step : Ledger κ ν → LedgerEvent κ ν → Ledger κ ν → Prop where
  | add {a b : Ledger κ ν} {key : κ} {value : ν} : key ∉ a.issued →
      b.issued = insert key a.issued → b.live key = some value →
      (∀ key', key' ≠ key → b.live key' = a.live key') → Step a (.add key value) b
  | clear {a b : Ledger κ ν} : b.issued = a.issued →
      (∀ key, b.live key = (a.live key).filter kept) → Step a .clear b
  | idle {a : Ledger κ ν} : Step a .idle a

variable {kept} {a b : Ledger κ ν} {key : κ}

/-- A key that was handed out stays handed out. -/
theorem issued_mono {event : LedgerEvent κ ν} (h : Step kept a event b)
    (hkey : key ∈ a.issued) : key ∈ b.issued := by
  cases h with
  | add _ hissued _ _ => exact hissued ▸ Set.mem_insert_of_mem _ hkey
  | clear hissued _ => exact hissued ▸ hkey
  | idle => exact hkey

/-- **No key twice.** A key is different from every key handed out before. -/
theorem not_mem_of_run {before after : List (LedgerEvent κ ν)} {value : ν}
    (h : Run (Step kept) a (before ++ .add key value :: after) b) :
    key ∉ before.filterMap LedgerEvent.key := by
  obtain ⟨c, hbefore, hrest⟩ := Run.append_iff.mp h
  obtain ⟨d, hadd, -⟩ := Run.cons_iff.mp hrest
  have hfresh : key ∉ c.issued := by
    cases hadd with
    | add hfresh _ _ _ => exact hfresh
  clear h hrest hadd
  induction hbefore with
  | nil => exact List.not_mem_nil
  | @cons s s' s'' event events hstep hrun ih =>
      intro hmem
      rw [List.filterMap_cons] at hmem
      cases hstep with
      | add _ hissued _ _ =>
          rcases List.mem_cons.mp hmem with rfl | hlater
          · have hkept := hrun.invariant (I := fun ledger => key ∈ ledger.issued)
              (fun _ _ _ hmem hstep => issued_mono hstep hmem)
              (hissued ▸ Set.mem_insert key _)
            exact hfresh hkept
          · exact ih hfresh hlater
      | clear _ _ => exact ih hfresh hmem
      | idle => exact ih hfresh hmem

/-- What happens later to a key that was handed out: only a clearing changes what it
stands for. -/
theorem live_of_mem {events : List (LedgerEvent κ ν)} (h : Run (Step kept) a events b)
    (hkey : key ∈ a.issued) :
    b.live key =
      if events.any LedgerEvent.isClear then (a.live key).filter kept else a.live key := by
  induction h with
  | nil => rfl
  | @cons s s' s'' event events hstep hrun ih =>
      rw [ih (issued_mono hstep hkey), List.any_cons]
      cases hstep with
      | add hfresh _ _ hother =>
          rw [hother key (fun heq => hfresh (heq ▸ hkey))]
          rfl
      | clear _ hlive =>
          rw [hlive key, Option.filter_filter]
          simp [LedgerEvent.isClear]
      | idle => rfl

/-- **What a key stands for.** A kept value stays for ever; any other one until the next
clearing, and from then on its key stands for nothing. -/
theorem live_of_run {before after : List (LedgerEvent κ ν)} {value : ν}
    (h : Run (Step kept) a (before ++ .add key value :: after) b) :
    b.live key = if kept value ∨ after.any LedgerEvent.isClear = false then some value
      else none := by
  obtain ⟨c, -, hrest⟩ := Run.append_iff.mp h
  obtain ⟨d, hadd, hafter⟩ := Run.cons_iff.mp hrest
  have hissued : key ∈ d.issued ∧ d.live key = some value := by
    cases hadd with
    | add _ hissued hlive _ => exact ⟨hissued ▸ Set.mem_insert key _, hlive⟩
  rw [live_of_mem hafter hissued.1, hissued.2]
  cases after.any LedgerEvent.isClear <;> cases hkept : kept value <;> simp [hkept]

end Ledger

end Effects
