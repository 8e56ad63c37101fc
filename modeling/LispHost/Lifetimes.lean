import LispHost.Lib.Ledger
import LispHost.Rational

/-!
# Lifetimes of Boxed Values

Everything that happens to a boxed table is one of five operations: three kinds of values
are added, two of them with either lifetime, and the transient values are cleared. This
module runs sequences of them and shows that the table is a ledger with two lifetimes:
words play the keys, entries the values, and the persistent entries are the kept ones.

## Main definitions

* `BoxedOp`, `BoxedOp.run`, `BoxedStep`: the operations and their runs.
* `BoxedTable.readings`: what all getters answer for a word.
* `BoxedTable.ledger`: the ledger that a table is.

## Main results

* `ledger_step`: every operation of the table is a step of its ledger.
* `boxed_lifetimes`: what a returned word is worth, and for how long.
-/

namespace LispHost

open Effects

/-- The operations on a boxed table. -/
inductive BoxedOp where
  | addString (text : String)
  | addGameHandle (token : Word)
  | addRational (n d : Word)
  | addTransientRational (n d : Word)
  | clearTransient
deriving DecidableEq, Repr

variable (P : Platform) (mode : Overflow)

/-- Run an operation. An `add` returns the word of its value. -/
def BoxedOp.run : BoxedOp → Program Exit BoxedTable Empty (Option Word)
  | addString text => do return some (← BoxedTable.addString P text)
  | addGameHandle token => do return some (← BoxedTable.addGameHandle P token)
  | addRational n d => do return some (← BoxedTable.addRational P mode n d)
  | addTransientRational n d => do return some (← BoxedTable.addTransientRational P mode n d)
  | clearTransient => do
      Program.modify BoxedTable.clearTransient
      return none

/-- An operation together with how it ended. -/
abbrev BoxedEvent : Type := BoxedOp × Outcome Exit Empty (Option Word)

/-- A table runs an operation. A panic is caught, and the table stays in use. -/
def BoxedStep (table : BoxedTable) (event : BoxedEvent) (table' : BoxedTable) : Prop :=
  event.1.run P mode table = (event.2, table')

/-- The word that an event hands out. -/
def BoxedEvent.word : BoxedEvent → Option Word
  | (_, .ok word) => word
  | _ => none

/-- What the four getters answer for one word. -/
structure Readings where
  string : Option String
  gameHandle : Option Word
  rational : Option (Word × Word)
  kind : Option BoxedKind
deriving DecidableEq, Repr

/-- A word that no getter knows. -/
def Readings.nothing : Readings := ⟨none, none, none, none⟩

/-- The answers for a value: the getters of its own kind know it, and no other does. -/
def BoxedValue.readings : BoxedValue → Readings
  | str text => ⟨some text, none, none, some .str⟩
  | gameHandle token => ⟨none, some token, none, some .gameHandle⟩
  | rational n d => ⟨none, none, some (n, d), some .rational⟩

/-- What all accessors say of a word. -/
def BoxedTable.readings (table : BoxedTable) (word : Word) : Readings where
  string := table.getString P word
  gameHandle := table.getGameHandle P word
  rational := table.getRational P word
  kind := table.kindOf P word

/-- The entry of a fraction, unless its reduction panics. -/
def reducedEntry (lifetime : BoxedLifetime) (n d : Word) : Option BoxedEntry :=
  if d = 0 then none
  else (reduce mode n d).map fun reduced => ⟨.rational reduced.1 reduced.2, lifetime⟩

/-- The entry that an operation stores. -/
def BoxedOp.entry : BoxedOp → Option BoxedEntry
  | addString text => some ⟨.str text, .transient⟩
  | addGameHandle token => some ⟨.gameHandle token, .persistent⟩
  | addRational n d => reducedEntry mode .persistent n d
  | addTransientRational n d => reducedEntry mode .transient n d
  | clearTransient => none

/-- The kept entries. -/
def BoxedEntry.persists (entry : BoxedEntry) : Bool := entry.lifetime = .persistent

/-- The ledger that a table is. -/
def BoxedTable.ledger (table : BoxedTable) : Ledger Word BoxedEntry where
  issued := {word | ∃ slot < table.values.length, P.encodeBoxed (slot + 1) = some word}
  live := table.entry P

/-- What an event means for the ledger. -/
def BoxedEvent.ledger (event : BoxedEvent) : LedgerEvent Word BoxedEntry :=
  match event.1.entry mode, event.word with
  | some entry, some word => .add word entry
  | _, _ => if event.1 = .clearTransient then .clear else .idle

variable {P mode}

/-! ### One operation -/

/-- The two ways in which an operation with an entry ends. -/
def Stores (P : Platform) (entry : BoxedEntry) (table : BoxedTable)
    (result : Outcome Exit Empty (Option Word) × BoxedTable) : Prop :=
  result = (.abort .allocation, table) ∨
    ∃ word hroom, P.encodeBoxed (table.values.length + 1) = some word ∧
      result = (.ok (some word), table.push entry hroom)

/-- An allocation stores its value under a new word. -/
theorem stores_of_add (value : BoxedValue) (lifetime : BoxedLifetime) (table : BoxedTable) :
    Stores P ⟨value, lifetime⟩ table
      ((BoxedTable.add P value lifetime >>= fun word => pure (some word)) table) := by
  obtain habort | ⟨word, hroom, hword, hok⟩ :=
    BoxedTable.add_eq (ε := Empty) (P := P) value lifetime table
  · exact .inl (Program.bind_abort habort)
  · exact .inr ⟨word, hroom, hword, Program.bind_ok hok⟩

/-- A fraction is stored, or its reduction panics. -/
theorem addReduced_run (lifetime : BoxedLifetime) (n d : Word) (table : BoxedTable) :
    (∃ entry, reducedEntry mode lifetime n d = some entry ∧
        Stores P entry table ((BoxedTable.addReduced P mode lifetime n d >>=
          fun word => pure (some word)) table)) ∨
      (reducedEntry mode lifetime n d = none ∧
        (BoxedTable.addReduced P mode lifetime n d >>= fun word => pure (some word)) table =
          ((.panic, table) : Outcome Exit Empty (Option Word) × BoxedTable)) := by
  by_cases hd : d = 0
  · refine .inr ⟨by rw [reducedEntry, if_pos hd], ?_⟩
    rw [BoxedTable.addReduced, if_pos hd]
    rfl
  · rw [reducedEntry, BoxedTable.addReduced, if_neg hd, if_neg hd]
    cases hreduce : reduce mode n d with
    | none => exact .inr ⟨rfl, rfl⟩
    | some reduced => exact .inl ⟨_, rfl, stores_of_add _ lifetime table⟩

/-- **What one operation does.** It clears; or it stores its entry, unless the allocation
fails; or it has no entry and panics. -/
theorem BoxedOp.run_eq (op : BoxedOp) (table : BoxedTable) :
    (op = .clearTransient ∧ op.run P mode table = (.ok none, table.clearTransient)) ∨
      (∃ entry, op.entry mode = some entry ∧ Stores P entry table (op.run P mode table)) ∨
      (op ≠ .clearTransient ∧ op.entry mode = none ∧ op.run P mode table = (.panic, table)) := by
  cases op with
  | addString text => exact .inr (.inl ⟨_, rfl, stores_of_add _ _ table⟩)
  | addGameHandle token => exact .inr (.inl ⟨_, rfl, stores_of_add _ _ table⟩)
  | addRational n d =>
      refine .inr ((addReduced_run .persistent n d table).imp id fun ⟨hentry, hrun⟩ => ?_)
      exact ⟨by simp, hentry, hrun⟩
  | addTransientRational n d =>
      refine .inr ((addReduced_run .transient n d table).imp id fun ⟨hentry, hrun⟩ => ?_)
      exact ⟨by simp, hentry, hrun⟩
  | clearTransient => exact .inl ⟨rfl, rfl⟩

/-! ### The ledger -/

/-- Clearing a slot keeps what persists. -/
theorem clearSlot_eq_filter (slot : Option BoxedEntry) :
    BoxedTable.clearSlot slot = slot.filter BoxedEntry.persists := by
  rcases slot with _ | ⟨value, _ | _⟩ <;> rfl

/-- A new slot does not change what other words resolve to. -/
theorem entry_push_of_ne {table : BoxedTable} {word other : Word} {entry : BoxedEntry}
    {hroom : table.values.length + 1 < addressSpace}
    (hword : P.encodeBoxed (table.values.length + 1) = some word) (hne : other ≠ word) :
    (table.push entry hroom).entry P other = table.entry P other := by
  cases hold : table.entry P other with
  | some e => exact BoxedTable.entry_mono (table.le_push entry hroom) hold
  | none =>
      cases hnew : (table.push entry hroom).entry P other with
      | none => rfl
      | some e =>
          obtain ⟨slot, hother, hslot⟩ := BoxedTable.exists_slot_of_entry hnew
          rw [BoxedTable.entry_of_encodeBoxed hother] at hold
          rw [BoxedTable.push] at hslot
          rcases lt_trichotomy slot table.values.length with hlt | heq | hgt
          · rw [List.getElem?_append_left hlt] at hslot
            rw [hslot] at hold
            cases hold
          · rw [heq, hword] at hother
            exact absurd (Option.some.inj hother).symm hne
          · have hlength : (table.values ++ [some entry]).length ≤ slot := by
              rw [List.length_append, List.length_singleton]
              omega
            rw [List.getElem?_eq_none hlength] at hslot
            cases hslot

/-- Adding an entry is an event of the ledger, with its word as the key. -/
theorem ledger_push {table : BoxedTable} {word : Word} {entry : BoxedEntry}
    {hroom : table.values.length + 1 < addressSpace}
    (hword : P.encodeBoxed (table.values.length + 1) = some word) :
    Ledger.Step BoxedEntry.persists (table.ledger P) (.add word entry)
      ((table.push entry hroom).ledger P) := by
  refine .add ?_ ?_ (BoxedTable.entry_push hword hroom) fun other hne =>
    entry_push_of_ne hword hne
  · rintro ⟨slot, hlt, hslot⟩
    have := P.encodeBoxed_inj hslot hword
    omega
  · ext other
    simp only [BoxedTable.ledger, BoxedTable.push, List.length_append, List.length_singleton,
      Set.mem_ofPred_eq, Set.mem_insert_iff]
    constructor
    · rintro ⟨slot, hlt, hslot⟩
      obtain hold | rfl : slot < table.values.length ∨ slot = table.values.length := by omega
      · exact .inr ⟨slot, hold, hslot⟩
      · exact .inl (Option.some.inj (hslot.symm.trans hword))
    · rintro (rfl | ⟨slot, hlt, hslot⟩)
      · exact ⟨_, Nat.lt_succ_self _, hword⟩
      · exact ⟨slot, by omega, hslot⟩

/-- Clearing is a clearing of the ledger. -/
theorem ledger_clearTransient (table : BoxedTable) :
    Ledger.Step BoxedEntry.persists (table.ledger P) .clear
      (table.clearTransient.ledger P) := by
  refine .clear ?_ fun word => ?_
  · simp only [BoxedTable.ledger, BoxedTable.clearTransient, List.length_map]
  · exact (table.entry_clearTransient word).trans (clearSlot_eq_filter _)

/-- **What a step of the table is**: a clearing, a step that changes nothing, or a new entry
behind the others. -/
theorem boxedStep_cases {table table' : BoxedTable} {event : BoxedEvent}
    (h : BoxedStep P mode table event table') :
    (event.word = none ∧ event.ledger mode = .clear ∧ table' = table.clearTransient) ∨
      (event.word = none ∧ event.ledger mode = .idle ∧ table' = table) ∨
      ∃ word entry hroom, event.word = some word ∧ event.ledger mode = .add word entry ∧
        P.encodeBoxed (table.values.length + 1) = some word ∧ table' = table.push entry hroom := by
  obtain ⟨op, reply⟩ := event
  rw [BoxedStep] at h
  rcases op.run_eq (P := P) table with
    ⟨rfl, hrun⟩ | ⟨entry, hentry, habort | ⟨word, hroom, hword, hrun⟩⟩ | ⟨hne, hentry, hrun⟩
  · obtain ⟨rfl, rfl⟩ := Prod.mk.inj (hrun.symm.trans h)
    exact .inl ⟨rfl, rfl, rfl⟩
  · obtain ⟨rfl, rfl⟩ := Prod.mk.inj (habort.symm.trans h)
    have hne : op ≠ .clearTransient := by
      rintro rfl
      cases hentry
    refine .inr (.inl ⟨rfl, ?_, rfl⟩)
    simp only [BoxedEvent.ledger, hentry, BoxedEvent.word, hne, if_false]
  · obtain ⟨rfl, rfl⟩ := Prod.mk.inj (hrun.symm.trans h)
    refine .inr (.inr ⟨word, entry, hroom, rfl, ?_, hword, rfl⟩)
    simp only [BoxedEvent.ledger, hentry, BoxedEvent.word]
  · obtain ⟨rfl, rfl⟩ := Prod.mk.inj (hrun.symm.trans h)
    refine .inr (.inl ⟨rfl, ?_, rfl⟩)
    simp only [BoxedEvent.ledger, hentry, hne, if_false]

/-- **The table refines the ledger.** Every operation of the table is a step of its
ledger. -/
theorem ledger_step {table table' : BoxedTable} {event : BoxedEvent}
    (h : BoxedStep P mode table event table') :
    Ledger.Step BoxedEntry.persists (table.ledger P) (event.ledger mode)
      (table'.ledger P) := by
  rcases boxedStep_cases h with
    ⟨-, hclear, rfl⟩ | ⟨-, hidle, rfl⟩ | ⟨word, entry, hroom, -, hadd, hword, rfl⟩
  · rw [hclear]
    exact ledger_clearTransient table
  · rw [hidle]
    exact .idle
  · rw [hadd]
    exact ledger_push hword

/-! ### Readings -/

/-- The readings of a word are those of its entry. -/
theorem readings_of_entry {table : BoxedTable} {word : Word} {entry : BoxedEntry}
    (h : table.entry P word = some entry) :
    table.readings P word = entry.value.readings := by
  obtain ⟨value, lifetime⟩ := entry
  rw [BoxedTable.readings, BoxedTable.getString, BoxedTable.getGameHandle,
    BoxedTable.getRational, BoxedTable.kindOf, h]
  cases value <;> rfl

/-- A word without an entry reads as nothing. -/
theorem readings_of_entry_none {table : BoxedTable} {word : Word}
    (h : table.entry P word = none) : table.readings P word = .nothing := by
  rw [BoxedTable.readings, BoxedTable.getString, BoxedTable.getGameHandle,
    BoxedTable.getRational, BoxedTable.kindOf, h]
  rfl

/-- The words handed out are the keys of the ledger. -/
theorem key_ledger {table table' : BoxedTable} {event : BoxedEvent}
    (h : BoxedStep P mode table event table') :
    (event.ledger mode).key = event.word := by
  rcases boxedStep_cases h with
    ⟨hword, hclear, -⟩ | ⟨hword, hidle, -⟩ | ⟨word, entry, hroom, hword, hadd, -⟩
  · rw [hclear, hword]
    rfl
  · rw [hidle, hword]
    rfl
  · rw [hadd, hword]
    rfl

/-- The clearings of the table are those of the ledger. -/
theorem isClear_ledger (event : BoxedEvent) :
    (event.ledger mode).isClear = decide (event.1 = .clearTransient) := by
  obtain ⟨op, reply⟩ := event
  by_cases hclear : op = .clearTransient
  · subst hclear
    rfl
  · simp only [hclear, decide_false]
    rw [BoxedEvent.ledger]
    cases op.entry mode <;> cases BoxedEvent.word (op, reply) <;>
      simp only [hclear, if_false, LedgerEvent.isClear]

/-- A run of the table is a run of its ledger. -/
theorem ledger_run {table table' : BoxedTable} {events : List BoxedEvent}
    (h : Run (BoxedStep P mode) table events table') :
    Run (Ledger.Step BoxedEntry.persists) (table.ledger P)
      (events.map (BoxedEvent.ledger mode)) (table'.ledger P) :=
  h.map (BoxedTable.ledger P) (BoxedEvent.ledger mode) (I := fun _ => True)
    (fun _ _ _ _ _ => trivial) (fun _ _ _ _ hstep => ledger_step hstep) trivial

/-- The keys that the ledger hands out are the words that the table does. -/
theorem words_of_run {table table' : BoxedTable} {events : List BoxedEvent}
    (h : Run (BoxedStep P mode) table events table') :
    (events.map (BoxedEvent.ledger mode)).filterMap LedgerEvent.key =
      events.filterMap BoxedEvent.word := by
  induction h with
  | nil => rfl
  | cons hstep _ ih => rw [List.map_cons, List.filterMap_cons, List.filterMap_cons, ih,
      key_ledger hstep]

/-- **Lifetimes.** In every sequence of operations, the word that an `add` returns is
different from every word returned before, and the operation stored an entry. Whatever
operations follow, the word answers with the value of that entry and as nothing else; a
transient one does so until the next `clearTransient`, and from then on for nothing. -/
theorem boxed_lifetimes (P : Platform) (mode : Overflow) {before after : List BoxedEvent}
    {op : BoxedOp} {word : Word} {table : BoxedTable}
    (h : Run (BoxedStep P mode) .new (before ++ (op, .ok (some word)) :: after) table) :
    word ∉ before.filterMap BoxedEvent.word ∧
      ∃ entry, op.entry mode = some entry ∧
        table.readings P word =
          if entry.lifetime = .persistent ∨ ∀ event ∈ after, event.1 ≠ .clearTransient then
            entry.value.readings
          else .nothing := by
  obtain ⟨middle, hbefore, hrest⟩ := Run.append_iff.mp h
  obtain ⟨added, hadd, -⟩ := Run.cons_iff.mp hrest
  -- An operation that returned a word has an entry.
  have hentry : ∃ entry, op.entry mode = some entry := by
    have hkey := key_ledger hadd
    cases hentry : op.entry mode with
    | some entry => exact ⟨entry, rfl⟩
    | none =>
        simp only [BoxedEvent.ledger, hentry, BoxedEvent.word] at hkey
        by_cases hclear : op = .clearTransient <;>
          simp only [hclear, if_true, if_false, LedgerEvent.key, reduceCtorEq] at hkey
  obtain ⟨entry, hentry⟩ := hentry
  have hevent : BoxedEvent.ledger mode (op, .ok (some word)) = .add word entry := by
    simp only [BoxedEvent.ledger, hentry, BoxedEvent.word]
  have hledger := ledger_run h
  rw [List.map_append, List.map_cons, hevent] at hledger
  refine ⟨words_of_run hbefore ▸ Ledger.not_mem_of_run hledger, entry, hentry, ?_⟩
  have hlive : table.entry P word = _ := Ledger.live_of_run hledger
  have hlasts : (entry.persists = true ∨
        (after.map (BoxedEvent.ledger mode)).any LedgerEvent.isClear = false) ↔
      (entry.lifetime = .persistent ∨ ∀ event ∈ after, event.1 ≠ .clearTransient) := by
    simp only [List.any_map, List.any_eq_false, Function.comp_apply, isClear_ledger,
      decide_eq_true_eq, ne_eq, BoxedEntry.persists]
  by_cases hlast : entry.lifetime = .persistent ∨
      ∀ event ∈ after, event.1 ≠ .clearTransient
  · rw [if_pos (hlasts.mpr hlast)] at hlive
    rw [if_pos hlast]
    exact readings_of_entry hlive
  · rw [if_neg (fun h => hlast (hlasts.mp h))] at hlive
    rw [if_neg hlast]
    exact readings_of_entry_none hlive

/-- A game handle added after a string and a clearing gets a word of its own and keeps it. -/
theorem boxed_lifetimes_handle :
    ∃ table, Run (BoxedStep .standard .wraps) .new
        [(.addString "a", .ok (some 15)), (.clearTransient, .ok none),
          (.addGameHandle 5, .ok (some 23)), (.clearTransient, .ok none)] table ∧
      (23 : Word) ∉ [(15 : Word)] ∧
      table.readings .standard 23 = (BoxedValue.gameHandle 5).readings := by
  have hrun : Run (BoxedStep .standard .wraps) .new
      [(.addString "a", .ok (some 15)), (.clearTransient, .ok none),
        (.addGameHandle 5, .ok (some 23)), (.clearTransient, .ok none)] _ :=
    .cons rfl (.cons rfl (.cons rfl (.cons rfl (.nil _))))
  obtain ⟨hnew, entry, hentry, hreads⟩ := @boxed_lifetimes .standard .wraps
    [(.addString "a", .ok (some 15)), (.clearTransient, .ok none)] _ _ _ _ hrun
  cases hentry
  exact ⟨_, hrun, hnew, hreads⟩

end LispHost
