import LispHost.Lib.Keyed
import LispHost.Lib.Transition
import LispHost.Symbols
import Mathlib.Data.Finset.Card

/-!
# The Symbol Table as a Hash Map

The source keeps the names of a `SymbolTable` in a hash map, and `name_of` searches it by id, in
the order of an iteration that nothing fixes. `SymbolMap` lists the entries in any order, which
any call may change. The table of the session is one of these, with the order of interning.

## Main definitions

* `SymbolMap`: the map and the next id, both as the machine holds them.
* `SymbolMap.step`: a call of `intern`, and a new order.

## Main results

* `SymbolMap.interned_of_run`: names and words stand for each other, at every moment.
* `SymbolMap.step_ofTable`: the session's table does what the map does.
-/

namespace LispHost

open Effects

/-- `SymbolTable`, with the entries in the order of an iteration. -/
structure SymbolMap where
  nameToId : List (String × Word)
  nextId : Word
deriving DecidableEq, Repr

namespace SymbolMap

/-- `SymbolTable::new`. -/
protected def new : SymbolMap := ⟨[], 1⟩

/-- `HashMap::get`. -/
def get (map : SymbolMap) (name : String) : Option Word :=
  (map.nameToId.find? fun entry => entry.1 == name).map Prod.snd

/-- `SymbolTable::intern`. -/
def intern (map : SymbolMap) (name : String) : Word × SymbolMap :=
  if name = "t" then (symTWord, map)
  else
    match map.get name with
    | some id => ((id <<< 3) ||| tagSymbol, map)
    | none =>
        ((map.nextId <<< 3) ||| tagSymbol,
          { nameToId := (name, map.nextId) :: map.nameToId, nextId := map.nextId + 1 })

/-- `SymbolTable::name_of`, which searches the entries in the order of the iteration. -/
def nameOf (map : SymbolMap) (word : Word) : Option String :=
  if word = symTWord then some "t"
  else (map.nameToId.find? fun entry => entry.2 == word >>> 3).map Prod.fst

/-- A call of `intern` with the word that it returns; the entries may come in a new order. -/
def step (map : SymbolMap) (call : String × Word) (map' : SymbolMap) : Prop :=
  (map.intern call.1).1 = call.2 ∧ map'.nameToId.Perm (map.intern call.1).2.nameToId ∧
    map'.nextId = (map.intern call.1).2.nextId

/-- The ids are exactly the numbers from one on. -/
structure Numbered (map : SymbolMap) : Prop where
  nextId : map.nextId = BitVec.ofNat 64 (map.nameToId.length + 1)
  ids : (map.nameToId.map fun entry => entry.2.toNat).Perm (List.range' 1 map.nameToId.length)
  names_nodup : (map.nameToId.map Prod.fst).Nodup
  t_notMem : "t" ∉ map.nameToId.map Prod.fst

namespace Numbered

variable {map map' : SymbolMap}

/-- The ids of a numbered map are at least one and at most its length. -/
theorem id_le (h : Numbered map) {entry : String × Word} (hmem : entry ∈ map.nameToId) :
    1 ≤ entry.2.toNat ∧ entry.2.toNat ≤ map.nameToId.length := by
  have hid := h.ids.mem_iff.mp (List.mem_map.mpr ⟨entry, hmem, rfl⟩)
  rw [List.mem_range'_1] at hid
  omega

/-- No two entries of a numbered map have one id. -/
theorem ids_nodup (h : Numbered map) : (map.nameToId.map Prod.snd).Nodup := by
  refine List.Nodup.of_map BitVec.toNat ?_
  rw [List.map_map]
  exact h.ids.nodup_iff.mpr List.nodup_range'

/-- A map whose entries come in another order is numbered, too. -/
theorem perm (h : Numbered map) (hperm : map'.nameToId.Perm map.nameToId)
    (hnext : map'.nextId = map.nextId) : Numbered map' where
  nextId := by rw [hnext, h.nextId, hperm.length_eq]
  ids := by
    rw [hperm.length_eq]
    exact (hperm.map _).trans h.ids
  names_nodup := (hperm.map _).nodup_iff.mpr h.names_nodup
  t_notMem := fun hmem => h.t_notMem ((hperm.map _).mem_iff.mp hmem)

/-- A new name takes the next id. -/
theorem insert (h : Numbered map) {name : String} (hfresh : name ∉ map.nameToId.map Prod.fst)
    (ht : name ≠ "t") (hroom : map.nameToId.length + 1 < 2 ^ 64) :
    Numbered ⟨(name, map.nextId) :: map.nameToId, map.nextId + 1⟩ where
  nextId := by
    rw [h.nextId, List.length_cons, BitVec.ofNat_add (_ + 1)]
    rfl
  ids := by
    have hnext : map.nextId.toNat = 1 + 1 * map.nameToId.length := by
      rw [h.nextId, BitVec.toNat_ofNat, Nat.mod_eq_of_lt hroom]
      omega
    rw [List.map_cons, List.length_cons, List.range'_concat, hnext]
    exact (List.Perm.cons _ h.ids).trans (List.perm_append_singleton _ _).symm
  names_nodup := List.nodup_cons.mpr ⟨hfresh, h.names_nodup⟩
  t_notMem := by
    rw [List.map_cons, List.mem_cons, not_or]
    exact ⟨Ne.symm ht, h.t_notMem⟩

end Numbered

/-- The word that a name has in a map. -/
def HasWord (map : SymbolMap) (name : String) (word : Word) : Prop :=
  name = "t" ∧ word = symTWord ∨
    ∃ id, (name, id) ∈ map.nameToId ∧ word = (id <<< 3) ||| tagSymbol

section Words

variable {map map' : SymbolMap} {name name' : String} {word word' : Word}

/-- A name keeps its word in a map with more entries. -/
theorem HasWord.mono (h : map.HasWord name word) (hsub : map.nameToId ⊆ map'.nameToId) :
    map'.HasWord name word := by
  rcases h with ht | ⟨id, hmem, hword⟩
  · exact .inl ht
  · exact .inr ⟨id, hsub hmem, hword⟩

/-- **What `intern` does.** It keeps the entries, adds at most the name, and returns its word. -/
theorem intern_spec (name : String) (h : Numbered map) (hroom : map.nameToId.length + 1 < 2 ^ 64) :
    Numbered (map.intern name).2 ∧ map.nameToId ⊆ (map.intern name).2.nameToId ∧
      (∀ n ∈ (map.intern name).2.nameToId.map Prod.fst,
        n = name ∨ n ∈ map.nameToId.map Prod.fst) ∧
      (map.intern name).2.HasWord name (map.intern name).1 := by
  by_cases ht : name = "t"
  · rw [intern, if_pos ht]
    exact ⟨h, List.Subset.refl _, fun _ hn => .inr hn, .inl ⟨ht, rfl⟩⟩
  · cases hget : map.get name with
    | some id =>
        obtain ⟨⟨name', id'⟩, hfind, rfl⟩ := Option.map_eq_some_iff.mp hget
        obtain ⟨hmem, rfl⟩ := (find?_key_eq_some_iff h.names_nodup).mp hfind
        simp only [intern, if_neg ht, hget]
        exact ⟨h, List.Subset.refl _, fun _ hn => .inr hn, .inr ⟨id', hmem, rfl⟩⟩
    | none =>
        have hfresh : name ∉ map.nameToId.map Prod.fst :=
          find?_key_eq_none_iff.mp (Option.map_eq_none_iff.mp hget)
        simp only [intern, if_neg ht, hget]
        exact ⟨h.insert hfresh ht hroom, List.subset_cons_self _ _,
          fun _ hn => List.mem_cons.mp hn, .inr ⟨_, List.mem_cons_self, rfl⟩⟩

/-- Few enough names that no id is the one of `t`. -/
def Fits (map : SymbolMap) : Prop := map.nameToId.length < symTId

/-- Shifting the tag in and out again keeps an id that has three bits left. -/
theorem payload_tagged {id : Word} (h : id.toNat < 2 ^ 61) :
    ((id <<< 3) ||| tagSymbol) >>> 3 = id := by
  refine BitVec.eq_of_toNat_eq ?_
  rw [BitVec.toNat_ushiftRight, Nat.shiftRight_eq_div_pow, toNat_tagged _ _ (by decide)]
  have htag : tagSymbol.toNat = 4 := rfl
  omega

/-- The word of an id in range is not the one of `t`. -/
theorem tagged_ne_symTWord {id : Word} (h : id.toNat < symTId) :
    (id <<< 3) ||| tagSymbol ≠ symTWord := by
  intro heq
  have hspace : symTId < 2 ^ 61 := by decide
  have hpayload : id = symTWord >>> 3 := by rw [← heq, payload_tagged (by omega)]
  rw [hpayload, symTWord, payload_symbolWord hspace] at h
  exact Nat.lt_irrefl _ h

/-- The reserved word is that of `t` and of no other name. -/
theorem HasWord.eq_symTWord_iff (hw : map.HasWord name word) (h : Numbered map) (hfits : Fits map) :
    word = symTWord ↔ name = "t" := by
  rcases hw with ⟨rfl, rfl⟩ | ⟨id, hmem, rfl⟩
  · exact iff_of_true rfl rfl
  · refine iff_of_false (tagged_ne_symTWord ?_) ?_
    · exact Nat.lt_of_le_of_lt (h.id_le hmem).2 hfits
    · rintro rfl
      exact h.t_notMem (List.mem_map.mpr ⟨_, hmem, rfl⟩)

/-- **Names are found under their words.** -/
theorem HasWord.nameOf_eq (hw : map.HasWord name word) (h : Numbered map) (hfits : Fits map) :
    map.nameOf word = some name := by
  have ht := hw.eq_symTWord_iff h hfits
  rcases hw with ⟨rfl, rfl⟩ | ⟨id, hmem, rfl⟩
  · exact if_pos rfl
  · have hlt := Nat.lt_of_le_of_lt (h.id_le hmem).2 hfits
    have hspace : symTId < 2 ^ 61 := by decide
    rw [nameOf, if_neg (tagged_ne_symTWord hlt), payload_tagged (Nat.lt_trans hlt hspace),
      (find?_key_eq_some_iff h.ids_nodup).mpr ⟨hmem, rfl⟩, Option.map_some]

/-- No name has two words. -/
theorem HasWord.unique (hw : map.HasWord name word) (hw' : map.HasWord name word')
    (h : Numbered map) : word = word' := by
  rcases hw with ⟨rfl, rfl⟩ | ⟨id, hmem, rfl⟩
  · rcases hw' with ⟨-, rfl⟩ | ⟨id', hmem', -⟩
    · rfl
    · exact absurd (List.mem_map.mpr ⟨_, hmem', rfl⟩) h.t_notMem
  · rcases hw' with ⟨rfl, -⟩ | ⟨id', hmem', rfl⟩
    · exact absurd (List.mem_map.mpr ⟨_, hmem, rfl⟩) h.t_notMem
    · have heq := List.inj_on_of_nodup_map h.names_nodup hmem hmem' rfl
      rw [(Prod.mk.inj heq).2]

/-- The order of the entries does not matter. -/
theorem nameOf_perm (h : Numbered map) (hperm : map'.nameToId.Perm map.nameToId) (word : Word) :
    map'.nameOf word = map.nameOf word := by
  rw [nameOf, nameOf, ← find?_key_perm h.ids_nodup hperm.symm]

end Words

/-! ### Runs of `intern` -/

/-- What holds of a map after some calls. -/
structure Interned (calls : List (String × Word)) (map : SymbolMap) : Prop where
  numbered : Numbered map
  names_subset : map.nameToId.map Prod.fst ⊆ calls.map Prod.fst
  words : ∀ call ∈ calls, map.HasWord call.1 call.2

variable {calls : List (String × Word)} {map : SymbolMap}

/-- How many names were interned. -/
def names (calls : List (String × Word)) : Nat := (calls.map Prod.fst).toFinset.card

/-- Later calls do not make the names fewer. -/
theorem names_append_le (calls calls' : List (String × Word)) :
    names calls ≤ names (calls ++ calls') := by
  rw [names, names, List.map_append, List.toFinset_append]
  exact Finset.card_le_card Finset.subset_union_left

/-- A map has at most as many entries as names were interned. -/
theorem Interned.length_le (h : Interned calls map) : map.nameToId.length ≤ names calls := by
  rw [← List.length_map (f := Prod.fst), ← List.toFinset_card_of_nodup h.numbered.names_nodup]
  refine Finset.card_le_card fun n hn => ?_
  exact List.mem_toFinset.mpr (h.names_subset (List.mem_toFinset.mp hn))

/-- One more call. -/
theorem Interned.concat {map' : SymbolMap} {call : String × Word} (h : Interned calls map)
    (hfew : names calls + 1 < 2 ^ 64) (hstep : map.step call map') :
    Interned (calls ++ [call]) map' := by
  obtain ⟨hword, hperm, hnext⟩ := hstep
  have hroom := h.length_le
  obtain ⟨hnumbered, hkept, hadded, hnew⟩ := intern_spec call.1 h.numbered (by omega)
  have hsub := hperm.symm.subset
  refine ⟨hnumbered.perm hperm hnext, fun n hn => ?_, fun call' hmem => ?_⟩
  · rw [List.map_append, List.mem_append]
    rcases hadded n ((hperm.map _).mem_iff.mp hn) with rfl | hold
    · exact .inr List.mem_cons_self
    · exact .inl (h.names_subset hold)
  · rcases List.mem_append.mp hmem with hold | hlast
    · exact (h.words call' hold).mono (List.Subset.trans hkept hsub)
    · rw [List.mem_singleton.mp hlast, ← hword]
      exact hnew.mono hsub

/-- Any number of calls, while the names are fewer than the ids. -/
theorem Interned.of_run (h : Run step SymbolMap.new calls map) (hfew : names calls < 2 ^ 64 - 1) :
    Interned calls map := by
  refine h.history (I := fun calls map => names calls < 2 ^ 64 - 1 → Interned calls map)
    ?_ ?_ hfew
  · intro calls map call map' hinterned hstep hfew
    have hle := names_append_le calls [call]
    exact (hinterned (by omega)).concat (by omega) hstep
  · intro _
    exact ⟨⟨rfl, .refl _, List.nodup_nil, by simp [SymbolMap.new]⟩, by simp [SymbolMap.new],
      by simp⟩

/-- **The symbol table is a bijection that lasts.** After any calls of `intern` every name is
found under its word, words are equal exactly when names are, `t` alone has its word, and no
order of the map's entries changes what a word is called. -/
theorem interned_of_run (h : Run step SymbolMap.new calls map) (hfew : names calls < 2 ^ 61 - 2) :
    (∀ call ∈ calls, map.nameOf call.2 = some call.1) ∧
      (∀ call ∈ calls, ∀ call' ∈ calls, call.2 = call'.2 ↔ call.1 = call'.1) ∧
      (∀ call ∈ calls, call.2 = symTWord ↔ call.1 = "t") ∧
      ∀ map' : SymbolMap, map'.nameToId.Perm map.nameToId →
        ∀ word, map'.nameOf word = map.nameOf word := by
  have hinterned := Interned.of_run h (by omega)
  have hfits : Fits map := by
    have hle := hinterned.length_le
    have hid : symTId = 2 ^ 61 - 1 := rfl
    rw [Fits]
    omega
  have hnamed : ∀ call ∈ calls, map.nameOf call.2 = some call.1 := fun call hmem =>
    (hinterned.words call hmem).nameOf_eq hinterned.numbered hfits
  refine ⟨hnamed, fun call hmem call' hmem' => ⟨fun hword => ?_, fun hname => ?_⟩,
    fun call hmem => (hinterned.words call hmem).eq_symTWord_iff hinterned.numbered hfits,
    fun map' hperm => nameOf_perm hinterned.numbered hperm⟩
  · have hsame := hnamed call hmem
    rw [hword, hnamed call' hmem'] at hsame
    exact (Option.some.inj hsame).symm
  · have hword' := hinterned.words call' hmem'
    rw [← hname] at hword'
    exact (hinterned.words call hmem).unique hword' hinterned.numbered

/-- A name that is interned twice, and `t`. -/
theorem interned_of_run_twice :
    (SymbolMap.mk [("a", 1)] 2).nameOf 12 = some "a" ∧ (12 = symTWord ↔ "a" = "t") := by
  have hnew : step SymbolMap.new ("a", 12) ⟨[("a", 1)], 2⟩ := ⟨rfl, .refl _, rfl⟩
  have ht : step ⟨[("a", 1)], 2⟩ ("t", symTWord) ⟨[("a", 1)], 2⟩ := ⟨rfl, .refl _, rfl⟩
  have hagain : step ⟨[("a", 1)], 2⟩ ("a", 12) ⟨[("a", 1)], 2⟩ := ⟨rfl, .refl _, rfl⟩
  have hrun := Run.cons hnew (.cons ht (.single hagain))
  obtain ⟨hnamed, -, ht, -⟩ := interned_of_run hrun (by decide)
  exact ⟨hnamed _ List.mem_cons_self, ht _ List.mem_cons_self⟩

/-! ### The table of a session -/

/-- The table of a session as a map, in the order of interning. -/
def ofTable (table : SymbolTable) : SymbolMap where
  nameToId := table.nameToId.map (Prod.map id (BitVec.ofNat 64))
  nextId := BitVec.ofNat 64 table.nextId

/-- The map has the ids of the table. -/
theorem get_ofTable (table : SymbolTable) (name : String) :
    (ofTable table).get name = (table.idOf name).map (BitVec.ofNat 64) := by
  rw [get, ofTable, List.find?_map, SymbolTable.idOf, Option.map_map, Option.map_map]
  rfl

/-- **The session's table does what the map does.** -/
theorem step_ofTable {table table' : SymbolTable} {name : String} {word : Word}
    (h : table.intern name = some (word, table')) :
    (ofTable table).step (name, word) (ofTable table') := by
  rw [SymbolTable.intern] at h
  by_cases ht : name = "t"
  · rw [dif_pos ht] at h
    cases h
    rw [step, intern, if_pos ht]
    exact ⟨rfl, .refl _, rfl⟩
  · rw [dif_neg ht] at h
    split at h
    · rename_i id hid
      cases h
      have hget : (ofTable table).get name = some (BitVec.ofNat 64 id) := by
        rw [get_ofTable, hid, Option.map_some]
      simp only [step, intern, if_neg ht, hget, and_true]
      exact ⟨rfl, .refl _⟩
    · rename_i hid
      have hget : (ofTable table).get name = none := by
        rw [get_ofTable, hid, Option.map_none]
      by_cases hroom : table.nameToId.length + 1 < addressSpace
      · rw [dif_pos hroom] at h
        cases h
        simp only [step, intern, if_neg ht, hget]
        refine ⟨rfl, ?_, by simp [ofTable, SymbolTable.insert, BitVec.ofNat_add]⟩
        simp only [ofTable, SymbolTable.insert, List.map_append, List.map_cons, List.map_nil]
        exact List.perm_append_singleton _ _
      · rw [dif_neg hroom] at h
        cases h

/-- The map has the names of the table. -/
theorem nameOf_ofTable (table : SymbolTable) (word : Word) :
    (ofTable table).nameOf word = table.nameOf word := by
  have hids : ∀ entry ∈ table.nameToId,
      (BitVec.ofNat 64 entry.2 == word >>> 3) = (entry.2 == (word >>> 3).toNat) := by
    intro entry hmem
    have hlt := SymbolTable.id_lt_symTId hmem
    have hspace : symTId < 2 ^ 64 := by decide
    rw [Bool.eq_iff_iff, beq_iff_eq, beq_iff_eq, ← BitVec.toNat_inj, BitVec.toNat_ofNat,
      Nat.mod_eq_of_lt (Nat.lt_trans hlt hspace)]
  rw [nameOf, SymbolTable.nameOf, ofTable, List.find?_map, Option.map_map]
  refine if_congr Iff.rfl rfl (congrArg (Option.map Prod.fst) ?_)
  exact List.find?_congr hids

end SymbolMap

end LispHost
