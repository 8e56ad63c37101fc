import LispHost.Word
import Mathlib.Data.List.Nodup
import Mathlib.Data.List.Perm.Subperm
import Mathlib.Data.List.Range
import Mathlib.Order.Basic

/-!
# The Symbol Table

A session interns symbol names to ids counted from one; `t` has a reserved id of its own
and takes none of them. A `SymbolTable` carries what every sequence of `intern` calls
maintains: the ids are exactly `1, 2, …` in order of interning, no name has two ids, and
`t` is not a name of the table. The reverse lookup `nameOf` therefore does not depend on
the order in which the source's hash map is iterated.

## Main results

* `SymbolTable.intern_spec`: an interned name is found again under its word.
* `SymbolTable.nameOf_mono`: a later table gives every old word its old name.
* `SymbolTable.nameOf_symbolWord`: entries are found by their id.
-/

namespace LispHost

/-- The symbol table of a session. The entries stand in the order of interning. -/
structure SymbolTable where
  nameToId : List (String × Nat)
  nextId : Nat
  ids : nameToId.map Prod.snd = List.range' 1 nameToId.length
  nextId_eq : nextId = nameToId.length + 1
  names_nodup : (nameToId.map Prod.fst).Nodup
  t_notMem : "t" ∉ nameToId.map Prod.fst
  addressable : nameToId.length < addressSpace

namespace SymbolTable

/-- The empty table, whose next id is one. -/
protected def new : SymbolTable where
  nameToId := []
  nextId := 1
  ids := rfl
  nextId_eq := rfl
  names_nodup := List.nodup_nil
  t_notMem := by simp
  addressable := by decide

/-- The id of a name, if it is interned. -/
def idOf (table : SymbolTable) (name : String) : Option Nat :=
  (table.nameToId.find? fun entry => entry.1 == name).map Prod.snd

/-- A name without an id is no name of the table. -/
theorem notMem_of_idOf_eq_none {table : SymbolTable} {name : String}
    (h : table.idOf name = none) : name ∉ table.nameToId.map Prod.fst := by
  rw [idOf, Option.map_eq_none_iff, List.find?_eq_none] at h
  rintro hmem
  obtain ⟨entry, hentry, rfl⟩ := List.mem_map.mp hmem
  exact h entry hentry (beq_self_eq_true _)

/-- The id of a name stands next to it in the table. -/
theorem mem_of_idOf_eq_some {table : SymbolTable} {name : String} {id : Nat}
    (h : table.idOf name = some id) : (name, id) ∈ table.nameToId := by
  rw [idOf, Option.map_eq_some_iff] at h
  obtain ⟨⟨name', id'⟩, hfind, rfl⟩ := h
  have hname : name' = name := by simpa using List.find?_some hfind
  exact hname ▸ List.mem_of_find?_eq_some hfind

/-- The table with a new name under the next id. -/
def insert (table : SymbolTable) (name : String) (hfresh : table.idOf name = none)
    (ht : name ≠ "t") (hroom : table.nameToId.length + 1 < addressSpace) :
    SymbolTable where
  nameToId := table.nameToId ++ [(name, table.nextId)]
  nextId := table.nextId + 1
  ids := by
    simp [table.ids, table.nextId_eq, List.range'_concat, Nat.add_comm]
  nextId_eq := by simp [table.nextId_eq]
  names_nodup := by
    rw [List.map_append, List.nodup_append]
    refine ⟨table.names_nodup, by simp, ?_⟩
    rintro a ha b hb rfl
    obtain rfl : a = name := by simpa using hb
    exact notMem_of_idOf_eq_none hfresh ha
  t_notMem := by
    simp only [List.map_append, List.map_cons, List.map_nil, List.mem_append,
      List.mem_singleton, not_or]
    exact ⟨table.t_notMem, fun h => ht h.symm⟩
  addressable := by simpa using hroom

/-- The word of `name`, interning it if it is new; `none` when the map cannot grow. -/
def intern (table : SymbolTable) (name : String) : Option (Word × SymbolTable) :=
  if ht : name = "t" then
    some (symTWord, table)
  else
    match hfind : table.idOf name with
    | some id => some (symbolWord id, table)
    | none =>
        if hroom : table.nameToId.length + 1 < addressSpace then
          some (symbolWord table.nextId, table.insert name hfind ht hroom)
        else none

/-- Reverse lookup: the name of a symbol word. -/
def nameOf (table : SymbolTable) (word : Word) : Option String :=
  if word = symTWord then
    some "t"
  else
    (table.nameToId.find? fun entry => entry.2 == (word >>> 3).toNat).map Prod.fst

/-- A later table of the same session: the old entries come first. -/
instance : LE SymbolTable := ⟨fun a b => a.nameToId <+: b.nameToId⟩

/-- A table is as late as itself. -/
protected theorem le_refl (table : SymbolTable) : table ≤ table :=
  List.prefix_refl table.nameToId

/-- A table that is later than a later one is later. -/
protected theorem le_trans {a b c : SymbolTable} (hab : a ≤ b) (hbc : b ≤ c) : a ≤ c :=
  List.IsPrefix.trans hab hbc

instance : Preorder SymbolTable where
  le_refl := SymbolTable.le_refl
  le_trans _ _ _ := SymbolTable.le_trans

/-- The interned names. -/
def names (table : SymbolTable) : List String := table.nameToId.map Prod.fst

/-- The ids of a table are at least one and at most its length. -/
theorem id_bounds {table : SymbolTable} {name : String} {id : Nat}
    (h : (name, id) ∈ table.nameToId) : 1 ≤ id ∧ id ≤ table.nameToId.length := by
  have hmem : id ∈ table.nameToId.map Prod.snd := List.mem_map.mpr ⟨_, h, rfl⟩
  rw [table.ids, List.mem_range'_1] at hmem
  omega

/-- Ids stay below the id reserved for `t`. -/
theorem id_lt_symTId {table : SymbolTable} {name : String} {id : Nat}
    (h : (name, id) ∈ table.nameToId) : id < symTId := by
  have hid := (id_bounds h).2
  have hlen := table.addressable
  have hspace : addressSpace < symTId := by decide
  omega

/-- No two entries have the same id. -/
theorem name_unique {table : SymbolTable} {name name' : String} {id : Nat}
    (h : (name, id) ∈ table.nameToId) (h' : (name', id) ∈ table.nameToId) :
    name = name' := by
  have hnodup : (table.nameToId.map Prod.snd).Nodup := by
    rw [table.ids]
    exact List.nodup_range'
  exact congrArg Prod.fst (List.inj_on_of_nodup_map hnodup h h' rfl)

/-- Entries are found by the word of their id. -/
theorem nameOf_symbolWord {table : SymbolTable} {name : String} {id : Nat}
    (h : (name, id) ∈ table.nameToId) : table.nameOf (symbolWord id) = some name := by
  have hlt := id_lt_symTId h
  have hspace : symTId < 2 ^ 61 := by decide
  have hne : symbolWord id ≠ symTWord := fun heq => by
    have := symbolWord_inj (by omega) hspace heq
    omega
  rw [nameOf, if_neg hne, payload_symbolWord (by omega)]
  obtain ⟨entry, hfind⟩ : ∃ entry,
      table.nameToId.find? (fun entry => entry.2 == id) = some entry :=
    Option.isSome_iff_exists.mp (List.find?_isSome.mpr ⟨_, h, beq_self_eq_true _⟩)
  obtain ⟨name', id'⟩ := entry
  have hid : id' = id := by simpa using List.find?_some hfind
  have hmem : (name', id) ∈ table.nameToId := hid ▸ List.mem_of_find?_eq_some hfind
  rw [hfind, Option.map_some, name_unique h hmem]

/-- The reserved word has its name in every table. -/
@[simp] theorem nameOf_symTWord (table : SymbolTable) : table.nameOf symTWord = some "t" :=
  if_pos rfl

/-- **Names are stable.** A later table gives every word the name it had before. -/
theorem nameOf_mono {a b : SymbolTable} (hab : a ≤ b) {word : Word} {name : String}
    (h : a.nameOf word = some name) : b.nameOf word = some name := by
  obtain ⟨rest, hrest⟩ := hab
  rw [nameOf] at h ⊢
  by_cases ht : word = symTWord
  · rw [if_pos ht] at h ⊢
    exact h
  · rw [if_neg ht] at h ⊢
    obtain ⟨entry, hfind, rfl⟩ := Option.map_eq_some_iff.mp h
    rw [← hrest, List.find?_append, hfind, Option.some_or, Option.map_some]

/-- **What `intern` does.** The table only grows, and the word it returns is a symbol
word of that name. -/
theorem intern_spec {table table' : SymbolTable} {name : String} {word : Word}
    (h : table.intern name = some (word, table')) :
    table ≤ table' ∧ tagOf word = tagSymbol ∧ table'.nameOf word = some name := by
  rw [intern] at h
  split at h
  · rename_i ht
    simp only [Option.some.injEq, Prod.mk.injEq] at h
    obtain ⟨rfl, rfl⟩ := h
    exact ⟨SymbolTable.le_refl _, tagOf_symTWord, by rw [nameOf_symTWord, ht]⟩
  · split at h
    · rename_i id hfind
      simp only [Option.some.injEq, Prod.mk.injEq] at h
      obtain ⟨rfl, rfl⟩ := h
      exact ⟨SymbolTable.le_refl _, tagOf_symbolWord id,
        nameOf_symbolWord (mem_of_idOf_eq_some hfind)⟩
    · split at h
      · simp only [Option.some.injEq, Prod.mk.injEq] at h
        obtain ⟨rfl, rfl⟩ := h
        refine ⟨List.prefix_append _ _, tagOf_symbolWord _, nameOf_symbolWord ?_⟩
        simp [insert]
      · exact absurd h (by simp)

/-- Interning adds at most one entry. -/
theorem length_of_intern {table table' : SymbolTable} {name : String} {word : Word}
    (h : table.intern name = some (word, table')) :
    table'.nameToId.length ≤ table.nameToId.length + 1 := by
  rw [intern] at h
  split at h
  · simp only [Option.some.injEq, Prod.mk.injEq] at h
    obtain ⟨-, rfl⟩ := h
    omega
  · split at h
    · simp only [Option.some.injEq, Prod.mk.injEq] at h
      obtain ⟨-, rfl⟩ := h
      omega
    · split at h
      · simp only [Option.some.injEq, Prod.mk.injEq] at h
        obtain ⟨-, rfl⟩ := h
        simp [insert]
      · exact absurd h (by simp)

/-- Interning succeeds while there is room for one more entry. -/
theorem exists_intern_eq_some {table : SymbolTable} (name : String)
    (hroom : table.nameToId.length + 1 < addressSpace) :
    ∃ word table', table.intern name = some (word, table') := by
  rw [intern]
  split
  · exact ⟨_, _, rfl⟩
  · split
    · exact ⟨_, _, rfl⟩
    · exact ⟨_, _, rfl⟩

/-- What interning does to the names. -/
theorem names_of_intern {table table' : SymbolTable} {name : String} {word : Word}
    (h : table.intern name = some (word, table')) :
    table.names ⊆ table'.names ∧ (name = "t" ∨ name ∈ table'.names) ∧
      ∀ n ∈ table'.names, n = name ∨ n ∈ table.names := by
  rw [intern] at h
  split at h
  · rename_i ht
    simp only [Option.some.injEq, Prod.mk.injEq] at h
    obtain ⟨-, rfl⟩ := h
    exact ⟨fun _ hn => hn, .inl ht, fun _ hn => .inr hn⟩
  · split at h
    · rename_i id hfind
      simp only [Option.some.injEq, Prod.mk.injEq] at h
      obtain ⟨-, rfl⟩ := h
      exact ⟨fun _ hn => hn, .inr (List.mem_map.mpr ⟨_, mem_of_idOf_eq_some hfind, rfl⟩),
        fun _ hn => .inr hn⟩
    · split at h
      · simp only [Option.some.injEq, Prod.mk.injEq] at h
        obtain ⟨-, rfl⟩ := h
        have hnames : ∀ hfresh ht hroom,
            (table.insert name hfresh ht hroom).names = table.names ++ [name] := by
          intro _ _ _
          simp [names, insert]
        rw [hnames]
        refine ⟨List.subset_append_left _ _, .inr (by simp), fun n hn => ?_⟩
        rcases List.mem_append.mp hn with hn | hn
        · exact .inr hn
        · exact .inl (List.mem_singleton.mp hn)
      · exact absurd h (by simp)

/-- **Interning in a smaller table.** Where interning succeeds, it succeeds in every table
with fewer names. -/
theorem exists_intern_of_names {a b b' : SymbolTable} (h : a.names ⊆ b.names) {name : String}
    {word : Word} (hb : b.intern name = some (word, b')) :
    ∃ word' a', a.intern name = some (word', a') ∧ a'.names ⊆ b'.names := by
  obtain ⟨hkeeps, hname, -⟩ := names_of_intern hb
  obtain ⟨word', a', ha⟩ : ∃ word' a', a.intern name = some (word', a') := by
    rw [intern]
    by_cases ht : name = "t"
    · exact ⟨_, _, dif_pos ht⟩
    · rw [dif_neg ht]
      split
      · exact ⟨_, _, rfl⟩
      · rename_i hfresh
        have hroom : a.nameToId.length + 1 < addressSpace := by
          -- the name and the names of `a` are all names of `b'`
          have hsub : name :: a.names ⊆ b'.names := by
            intro n hn
            rcases List.mem_cons.mp hn with rfl | hn
            · exact hname.resolve_left ht
            · exact hkeeps (h hn)
          have hnodup : (name :: a.names).Nodup :=
            List.nodup_cons.mpr ⟨notMem_of_idOf_eq_none hfresh, a.names_nodup⟩
          have hle := (List.subperm_of_subset hnodup hsub).length_le
          rw [List.length_cons, names, names, List.length_map, List.length_map] at hle
          have := b'.addressable
          omega
        exact ⟨_, _, dif_pos hroom⟩
  refine ⟨word', a', ha, fun n hn => ?_⟩
  obtain ⟨-, -, hnew⟩ := names_of_intern ha
  rcases hnew n hn with rfl | hn
  · by_cases ht : n = "t"
    · have := a'.t_notMem
      exact absurd (ht ▸ hn) this
    · exact hname.resolve_left ht
  · exact hkeeps (h hn)

/-- A symbol word with a name is `t`, or the word of an entry. -/
theorem mem_of_nameOf {table : SymbolTable} {word : Word} {name : String}
    (htag : tagOf word = tagSymbol) (h : table.nameOf word = some name) :
    word = symTWord ∧ name = "t" ∨
      ∃ id, (name, id) ∈ table.nameToId ∧ word = symbolWord id := by
  rw [nameOf] at h
  by_cases ht : word = symTWord
  · rw [if_pos ht] at h
    exact .inl ⟨ht, (Option.some.inj h).symm⟩
  · rw [if_neg ht] at h
    obtain ⟨⟨name', id⟩, hfind, rfl⟩ := Option.map_eq_some_iff.mp h
    have hid : id = (word >>> 3).toNat := by simpa using List.find?_some hfind
    exact .inr ⟨id, List.mem_of_find?_eq_some hfind, hid ▸ (symbolWord_payload htag).symm⟩

/-- The name of a word is `t`, or it is interned. -/
theorem mem_names_of_nameOf {table : SymbolTable} {word : Word} {name : String}
    (h : table.nameOf word = some name) : name = "t" ∨ name ∈ table.names := by
  rw [nameOf] at h
  by_cases ht : word = symTWord
  · rw [if_pos ht] at h
    exact .inl (Option.some.inj h).symm
  · rw [if_neg ht] at h
    obtain ⟨entry, hfind, rfl⟩ := Option.map_eq_some_iff.mp h
    exact .inr (List.mem_map_of_mem (List.mem_of_find?_eq_some hfind))

/-- No name has two symbol words. -/
theorem nameOf_inj {table : SymbolTable} {v w : Word} {name : String}
    (hv : tagOf v = tagSymbol) (hw : tagOf w = tagSymbol) (h : table.nameOf v = some name)
    (h' : table.nameOf w = some name) : v = w := by
  have ht : ∀ id, ("t", id) ∉ table.nameToId :=
    fun id hmem => table.t_notMem (List.mem_map.mpr ⟨_, hmem, rfl⟩)
  rcases mem_of_nameOf hv h with ⟨rfl, rfl⟩ | ⟨id, hmem, rfl⟩
  · rcases mem_of_nameOf hw h' with ⟨rfl, -⟩ | ⟨id, hmem, -⟩
    · rfl
    · exact absurd hmem (ht id)
  · rcases mem_of_nameOf hw h' with ⟨-, rfl⟩ | ⟨id', hmem', rfl⟩
    · exact absurd hmem (ht id)
    · have heq := List.inj_on_of_nodup_map table.names_nodup hmem hmem' rfl
      obtain rfl : id = id' := congrArg Prod.snd heq
      rfl

end SymbolTable

end LispHost
