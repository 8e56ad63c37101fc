import LispHost.Lib.Program
import LispHost.Word
import Mathlib.Data.List.Basic

/-!
# The Boxed-Value Table

Strings, game handles and exact fractions live in a table of the session, and the word
of such a value carries its position there. The table is append-only: `add` takes the
next position, and `clearTransient`, which runs before and after every evaluation,
empties the slots of transient values without giving their positions to anyone else.

## Main results

* `BoxedTable.add_eq`: what `add` returns and what the table is afterwards.
* `BoxedTable.entry_mono`: adding does not change what an earlier word resolves to.
* `BoxedTable.entry_clearTransient`: clearing removes the transient values only.
-/

namespace LispHost

open Effects

/-- A boxed value. A game handle is an opaque pointer-sized token; a fraction is a pair
of a numerator and a denominator, both `i64`. -/
inductive BoxedValue where
  | str (text : String)
  | gameHandle (token : Word)
  | rational (numerator denominator : Word)
deriving DecidableEq, Repr

/-- How long a boxed value is kept: with the session, or until the end of an evaluation. -/
inductive BoxedLifetime where
  | persistent
  | transient
deriving DecidableEq, Repr

/-- A boxed value with its lifetime. -/
structure BoxedEntry where
  value : BoxedValue
  lifetime : BoxedLifetime
deriving DecidableEq, Repr

/-- The kind of a boxed value. -/
inductive BoxedKind where
  | str
  | gameHandle
  | rational
deriving DecidableEq, Repr

/-- The boxed-value table of a session. The slot of a handle is the handle less one; a
slot that was cleared holds `none`. -/
structure BoxedTable where
  values : List (Option BoxedEntry)
  addressable : values.length < addressSpace
deriving DecidableEq

namespace BoxedTable

variable (P : Platform)

/-- The empty table. -/
protected def new : BoxedTable where
  values := []
  addressable := by decide

/-- The table with one more slot. -/
def push (table : BoxedTable) (entry : BoxedEntry)
    (hroom : table.values.length + 1 < addressSpace) : BoxedTable where
  values := table.values ++ [some entry]
  addressable := by simpa using hroom

/-- Append a value and return the word of its handle. Growing past what the process can
address fails to allocate; a handle that the codec rejects is a panic. -/
def add {ε : Type} (value : BoxedValue) (lifetime : BoxedLifetime) :
    Program Exit BoxedTable ε Word := fun table =>
  if hroom : table.values.length + 1 < addressSpace then
    match P.encodeBoxed (table.values.length + 1) with
    | some word => (.ok word, table.push ⟨value, lifetime⟩ hroom)
    | none => (.panic, table.push ⟨value, lifetime⟩ hroom)
  else (.abort .allocation, table)

/-- A string is kept until the end of the evaluation. -/
def addString {ε : Type} (text : String) : Program Exit BoxedTable ε Word :=
  add P (.str text) .transient

/-- A game handle is kept with the session. -/
def addGameHandle {ε : Type} (token : Word) : Program Exit BoxedTable ε Word :=
  add P (.gameHandle token) .persistent

/-- The entry a word resolves to. -/
def entry (table : BoxedTable) (word : Word) : Option BoxedEntry :=
  match P.decodeBoxed word with
  | some handle => (table.values[handle - 1]?).join
  | none => none

/-- The string that a word stands for. -/
def getString (table : BoxedTable) (word : Word) : Option String :=
  match table.entry P word with
  | some ⟨.str text, _⟩ => some text
  | _ => none

/-- The token that a word stands for. -/
def getGameHandle (table : BoxedTable) (word : Word) : Option Word :=
  match table.entry P word with
  | some ⟨.gameHandle token, _⟩ => some token
  | _ => none

/-- The fraction that a word stands for. -/
def getRational (table : BoxedTable) (word : Word) : Option (Word × Word) :=
  match table.entry P word with
  | some ⟨.rational numerator denominator, _⟩ => some (numerator, denominator)
  | _ => none

/-- The kind of what a word stands for. -/
def kindOf (table : BoxedTable) (word : Word) : Option BoxedKind :=
  match table.entry P word with
  | some ⟨.str _, _⟩ => some .str
  | some ⟨.gameHandle _, _⟩ => some .gameHandle
  | some ⟨.rational _ _, _⟩ => some .rational
  | none => none

/-- What `clearTransient` leaves in one slot. -/
def clearSlot : Option BoxedEntry → Option BoxedEntry
  | some ⟨_, .transient⟩ => none
  | slot => slot

/-- Empty the slots of all transient values. -/
def clearTransient (table : BoxedTable) : BoxedTable where
  values := table.values.map clearSlot
  addressable := by simpa using table.addressable

/-- A table that grew from another one by adding: the old slots come first. -/
instance : LE BoxedTable := ⟨fun a b => a.values <+: b.values⟩

/-- A table grew from itself. -/
protected theorem le_refl (table : BoxedTable) : table ≤ table :=
  List.prefix_refl table.values

/-- A table that grew from one that grew has grown. -/
protected theorem le_trans {a b c : BoxedTable} (hab : a ≤ b) (hbc : b ≤ c) : a ≤ c :=
  List.IsPrefix.trans hab hbc

instance : Preorder BoxedTable where
  le_refl := BoxedTable.le_refl
  le_trans _ _ _ := BoxedTable.le_trans

/-- Adding an entry makes the table grow. -/
theorem le_push (table : BoxedTable) (entry : BoxedEntry)
    (hroom : table.values.length + 1 < addressSpace) : table ≤ table.push entry hroom :=
  List.prefix_append _ _

/-! ### Adding -/

variable {P}

/-- The codec takes every handle a table can hand out. -/
theorem exists_encodeBoxed (table : BoxedTable)
    (hroom : table.values.length + 1 < addressSpace) :
    ∃ word, P.encodeBoxed (table.values.length + 1) = some word := by
  have hspace : addressSpace < 2 ^ 61 := by decide
  exact Option.isSome_iff_exists.mp (P.encodeBoxed_isSome _ (by omega) (by omega))

/-- **What `add` does.** It fails to allocate, or it returns the word of the next handle
and appends the entry. -/
theorem add_eq {ε : Type} (value : BoxedValue) (lifetime : BoxedLifetime)
    (table : BoxedTable) :
    add (ε := ε) P value lifetime table = (.abort .allocation, table) ∨
      ∃ word hroom, P.encodeBoxed (table.values.length + 1) = some word ∧
        add (ε := ε) P value lifetime table =
          (.ok word, table.push ⟨value, lifetime⟩ hroom) := by
  by_cases hroom : table.values.length + 1 < addressSpace
  · obtain ⟨word, hword⟩ := exists_encodeBoxed (P := P) table hroom
    exact .inr ⟨word, hroom, hword, by simp only [add, dif_pos hroom, hword]⟩
  · exact .inl (by rw [add, dif_neg hroom])

/-- `add` succeeds while there is room for one more entry. -/
theorem add_eq_ok {ε : Type} (value : BoxedValue) (lifetime : BoxedLifetime)
    {table : BoxedTable} (hroom : table.values.length + 1 < addressSpace) :
    ∃ word, P.encodeBoxed (table.values.length + 1) = some word ∧
      add (ε := ε) P value lifetime table =
        (.ok word, table.push ⟨value, lifetime⟩ hroom) := by
  obtain ⟨word, hword⟩ := exists_encodeBoxed (P := P) table hroom
  exact ⟨word, hword, by simp only [add, dif_pos hroom, hword]⟩

/-! ### Resolving words -/

/-- Only words with the boxed tag resolve. -/
theorem tagOf_of_entry {table : BoxedTable} {word : Word} {e : BoxedEntry}
    (h : table.entry P word = some e) : tagOf word = tagBoxed := by
  rw [entry] at h
  split at h
  · rename_i handle hdec
    exact P.tagOf_of_decodeBoxed hdec
  · exact absurd h (by simp)

/-- The word of a handle resolves to the slot of that handle. -/
theorem entry_of_encodeBoxed {table : BoxedTable} {word : Word} {slot : Nat}
    (h : P.encodeBoxed (slot + 1) = some word) :
    table.entry P word = (table.values[slot]?).join := by
  rw [entry, P.decodeBoxed_encodeBoxed _ _ h]
  rfl

/-- A resolving word is the word of an occupied slot. -/
theorem exists_slot_of_entry {table : BoxedTable} {word : Word} {e : BoxedEntry}
    (h : table.entry P word = some e) :
    ∃ slot, P.encodeBoxed (slot + 1) = some word ∧ table.values[slot]? = some (some e) := by
  rw [entry] at h
  split at h
  · rename_i handle hdec
    have hpos := P.decodeBoxed_pos hdec
    obtain ⟨slot, rfl⟩ : ∃ slot, handle = slot + 1 := ⟨handle - 1, by omega⟩
    exact ⟨slot, P.encodeBoxed_decodeBoxed _ _ hdec, Option.join_eq_some_iff.mp h⟩
  · exact absurd h (by simp)

/-- **Adding does not disturb.** A word that resolves keeps resolving to its entry in
every table that grew from this one. -/
theorem entry_mono {a b : BoxedTable} (hab : a ≤ b) {word : Word} {e : BoxedEntry}
    (h : a.entry P word = some e) : b.entry P word = some e := by
  obtain ⟨slot, hword, hslot⟩ := exists_slot_of_entry h
  obtain ⟨rest, hrest⟩ := hab
  obtain ⟨hlt, -⟩ := List.getElem?_eq_some_iff.mp hslot
  rw [entry_of_encodeBoxed hword, ← hrest, List.getElem?_append_left hlt, hslot]
  rfl

/-- The word that `add` returned resolves to the entry added. -/
theorem entry_push {table : BoxedTable} {word : Word} {e : BoxedEntry}
    (hword : P.encodeBoxed (table.values.length + 1) = some word)
    (hroom : table.values.length + 1 < addressSpace) :
    (table.push e hroom).entry P word = some e := by
  rw [entry_of_encodeBoxed hword, push, List.getElem?_concat_length]
  rfl

/-- **What clearing does to a word.** A transient entry is gone, any other one stays. -/
theorem entry_clearTransient (table : BoxedTable) (word : Word) :
    table.clearTransient.entry P word = clearSlot (table.entry P word) := by
  rw [entry, entry]
  split
  · rename_i handle hdec
    rw [clearTransient, List.getElem?_map]
    cases table.values[handle - 1]? with
    | none => rfl
    | some slot => rfl
  · rfl

/-- A word stands for a token exactly if its entry is that game handle. -/
theorem getGameHandle_eq_some_iff {table : BoxedTable} {word token : Word} :
    table.getGameHandle P word = some token ↔
      ∃ lifetime, table.entry P word = some ⟨.gameHandle token, lifetime⟩ := by
  rw [getGameHandle]
  split
  · rename_i token' lifetime hentry
    simp only [hentry, Option.some.injEq, BoxedEntry.mk.injEq, BoxedValue.gameHandle.injEq]
    exact ⟨fun h => ⟨lifetime, h, rfl⟩, fun ⟨_, h, _⟩ => h⟩
  · rename_i hentry
    simp only [reduceCtorEq, false_iff, not_exists]
    exact fun lifetime h => hentry token lifetime h

/-! ### Later tables of the same session -/

/-- **A later table.** Every old slot is as it was, or has been cleared. -/
def Evolves (a b : BoxedTable) : Prop :=
  ∀ (slot : Nat) content, a.values[slot]? = some content →
    b.values[slot]? = some content ∨ b.values[slot]? = some none

/-- A table evolves to itself. -/
theorem Evolves.refl (table : BoxedTable) : table.Evolves table := fun _ _ h => .inl h

/-- Evolution goes on over several steps. -/
theorem Evolves.trans {a b c : BoxedTable} (hab : a.Evolves b) (hbc : b.Evolves c) :
    a.Evolves c := by
  intro slot content h
  rcases hab slot content h with h | h
  · exact hbc slot content h
  · exact .inr ((hbc slot none h).elim id id)

/-- A table that grows evolves. -/
theorem Evolves.of_le {a b : BoxedTable} (h : a ≤ b) : a.Evolves b := by
  obtain ⟨rest, hrest⟩ := h
  intro slot content hslot
  obtain ⟨hlt, -⟩ := List.getElem?_eq_some_iff.mp hslot
  rw [← hrest, List.getElem?_append_left hlt]
  exact .inl hslot

/-- A table from which the transient values are cleared evolves. -/
theorem evolves_clearTransient (table : BoxedTable) : table.Evolves table.clearTransient := by
  intro slot content h
  rw [clearTransient, List.getElem?_map, h, Option.map_some, Option.some.injEq,
    Option.some.injEq]
  rcases content with _ | ⟨value, _ | _⟩
  · exact .inl rfl
  · exact .inl rfl
  · exact .inr rfl

/-- Neither this table nor a later one takes the word for a game handle. -/
def NeverHandle (P : Platform) (table : BoxedTable) (word : Word) : Prop :=
  ∀ later, table.Evolves later → later.getGameHandle P word = none

/-- A word that can never be a handle stays so. -/
theorem NeverHandle.mono {a b : BoxedTable} (hab : a.Evolves b) {word : Word}
    (h : a.NeverHandle P word) : b.NeverHandle P word :=
  fun later hlater => h later (hab.trans hlater)

/-- A word without the boxed tag is never taken for a handle. -/
theorem neverHandle_of_tagOf_ne {table : BoxedTable} {word : Word}
    (h : tagOf word ≠ tagBoxed) : table.NeverHandle P word := by
  intro later _
  rw [getGameHandle, entry, P.decodeBoxed_eq_none h]

/-- The slot of a string never becomes that of a handle. -/
theorem neverHandle_of_entry {table : BoxedTable} {word : Word} {text : String}
    {lifetime : BoxedLifetime} (h : table.entry P word = some ⟨.str text, lifetime⟩) :
    table.NeverHandle P word := by
  intro later hlater
  obtain ⟨slot, hword, hslot⟩ := exists_slot_of_entry h
  rw [getGameHandle, entry_of_encodeBoxed hword]
  rcases hlater slot _ hslot with hkept | hcleared
  · rw [hkept]
    rfl
  · rw [hcleared]
    rfl

end BoxedTable

end LispHost
