import LispHost.Word
import Mathlib.Tactic.Common

/-!
# The Cons Arena

Pairs live in one arena of 256 cells that belongs to the process, not to a session. A
cell is two machine words, and the word of a pair is the cell's address, whose three low
bits are the tag `0`. `wsm_arena_reset` only moves the bump pointer back: what earlier
evaluations wrote stays in memory until it is overwritten, and the model keeps it.

## Main definitions

* `Arena`, `Arena.reset`, `Arena.cons`: the bump allocator.
* `wsmCar`, `wsmCdr`: the raw accessors, which end the process on a word that is not a
  pair.

## Main results

* `Arena.cons_spec`: a fresh pair goes into the next cell and disturbs no earlier one.
* `wsmCar_cellWord`, `wsmCdr_cellWord`: the accessors read the cell that a word names.
-/

namespace LispHost

/-- The number of cells in the arena. -/
def arenaCells : Nat := 256

/-- The arena. `next` counts the cells allocated since the last reset; `memory` is the
4096-byte block as 8-byte words, so that cell `k` is the words `2 * k` and `2 * k + 1`. -/
structure Arena where
  next : Nat
  memory : Nat → Word
  next_le : next ≤ arenaCells

namespace Arena

/-- Move the bump pointer back to the start. The memory keeps its content. -/
def reset (arena : Arena) : Arena where
  next := 0
  memory := arena.memory
  next_le := Nat.zero_le _

end Arena

/-- The word of the pair in cell `k`: its address. -/
def cellWord (P : Platform) (k : Nat) : Word := BitVec.ofNat 64 (P.arenaBase + 16 * k)

/-- `wsm_cons`: write the pair into the next cell and return its word; `none` is the
jump to `wsm_cons_oom`. -/
def Arena.cons (P : Platform) (arena : Arena) (car cdr : Word) : Option (Word × Arena) :=
  if h : arena.next < arenaCells then
    some (cellWord P arena.next,
      { next := arena.next + 1
        memory := fun i =>
          if i = 2 * arena.next then car
          else if i = 2 * arena.next + 1 then cdr
          else arena.memory i
        next_le := h })
  else none

/-- Load the 8-byte word at an address. -/
def Arena.load (P : Platform) (arena : Arena) (address : Nat) : Except Exit Word :=
  if P.arenaBase ≤ address ∧ address + 8 ≤ P.arenaBase + 16 * arenaCells then
    .ok (arena.memory ((address - P.arenaBase) / 8))
  else .error .accessViolation

/-- `wsm_car`: fail closed on a word that is not a pair, else load its first word. -/
def wsmCar (P : Platform) (arena : Arena) (pair : Word) : Except Exit Word :=
  if tagOf pair = tagCons then arena.load P pair.toNat else .error (.wsmFail .type)

/-- `wsm_cdr`: fail closed on a word that is not a pair, else load its second word. -/
def wsmCdr (P : Platform) (arena : Arena) (pair : Word) : Except Exit Word :=
  if tagOf pair = tagCons then arena.load P (pair.toNat + 8) else .error (.wsmFail .type)

variable {P : Platform}

/-- The address of a cell as a number, which does not wrap. -/
theorem toNat_cellWord {k : Nat} (hk : k < arenaCells) :
    (cellWord P k).toNat = P.arenaBase + 16 * k := by
  have hcells : arenaCells = 256 := rfl
  have hfits := P.arenaBase_fits
  rw [cellWord, BitVec.toNat_ofNat, Nat.mod_eq_of_lt (by omega)]

/-- The word of a cell has the tag of a pair. -/
theorem tagOf_cellWord {k : Nat} (hk : k < arenaCells) : tagOf (cellWord P k) = tagCons := by
  have haligned := P.arenaBase_aligned
  rw [tagOf_eq_iff, toNat_cellWord hk]
  have htag : tagCons.toNat = 0 := rfl
  omega

/-- The first accessor reads the first word of the cell. -/
theorem wsmCar_cellWord (arena : Arena) {k : Nat} (hk : k < arenaCells) :
    wsmCar P arena (cellWord P k) = .ok (arena.memory (2 * k)) := by
  have hcells : arenaCells = 256 := rfl
  rw [wsmCar, if_pos (tagOf_cellWord hk), toNat_cellWord hk, Arena.load,
    if_pos ⟨by omega, by omega⟩]
  congr 2
  omega

/-- The second accessor reads the second word of the cell. -/
theorem wsmCdr_cellWord (arena : Arena) {k : Nat} (hk : k < arenaCells) :
    wsmCdr P arena (cellWord P k) = .ok (arena.memory (2 * k + 1)) := by
  have hcells : arenaCells = 256 := rfl
  rw [wsmCdr, if_pos (tagOf_cellWord hk), toNat_cellWord hk, Arena.load,
    if_pos ⟨by omega, by omega⟩]
  congr 2
  omega

/-- **What `wsm_cons` does.** The cell it fills is the one after the allocated ones, and
no earlier cell changes. -/
theorem Arena.cons_spec {arena arena' : Arena} {car cdr word : Word}
    (h : arena.cons P car cdr = some (word, arena')) :
    arena.next < arenaCells ∧ word = cellWord P arena.next ∧
      arena'.next = arena.next + 1 ∧ arena'.memory (2 * arena.next) = car ∧
      arena'.memory (2 * arena.next + 1) = cdr ∧
      ∀ i, i < 2 * arena.next → arena'.memory i = arena.memory i := by
  rw [Arena.cons] at h
  split at h
  · rename_i hlt
    simp only [Option.some.injEq, Prod.mk.injEq] at h
    obtain ⟨rfl, rfl⟩ := h
    exact ⟨hlt, rfl, rfl, by simp, by simp, fun i hi =>
      (if_neg (by omega)).trans (if_neg (by omega))⟩
  · exact absurd h (by simp)

/-- `wsm_cons` fails exactly if all cells are allocated. -/
theorem Arena.cons_eq_none_iff {arena : Arena} {car cdr : Word} :
    arena.cons P car cdr = none ↔ arena.next = arenaCells := by
  have hle := arena.next_le
  rw [Arena.cons]
  split
  · simp only [reduceCtorEq, false_iff]
    omega
  · simp only [true_iff]
    omega

end LispHost
