import Mathlib.Data.List.Find
import Mathlib.Data.List.Nodup

/-!
# Lists with Keys

A map without an order of its own is a list of entries, in whatever order an iteration meets
them. As long as no two entries have the same key, a search for a key does not depend on that
order.

## Main results

* `find?_key_eq_some_iff`: what a search for a key finds.
* `find?_key_perm`: the order of the entries does not matter.
-/

namespace Effects

variable {α κ : Type} [DecidableEq κ] {entries entries' : List α} {key : α → κ} {k : κ} {a : α}

/-- **What a search for a key finds**, where no two entries have the same key. -/
theorem find?_key_eq_some_iff (h : (entries.map key).Nodup) :
    (entries.find? fun entry => key entry == k) = some a ↔ a ∈ entries ∧ key a = k := by
  constructor
  · intro hfind
    exact ⟨List.mem_of_find?_eq_some hfind, by simpa using List.find?_some hfind⟩
  · rintro ⟨hmem, rfl⟩
    have hsome : (entries.find? fun entry => key entry == key a).isSome :=
      List.find?_isSome.mpr ⟨a, hmem, beq_self_eq_true _⟩
    obtain ⟨b, hfind⟩ := Option.isSome_iff_exists.mp hsome
    have hkey : key b = key a := by simpa using List.find?_some hfind
    rw [hfind, List.inj_on_of_nodup_map h (List.mem_of_find?_eq_some hfind) hmem hkey]

/-- A key is not found exactly if no entry has it. -/
theorem find?_key_eq_none_iff :
    (entries.find? fun entry => key entry == k) = none ↔ k ∉ entries.map key := by
  simp only [List.find?_eq_none, beq_iff_eq, List.mem_map, not_exists, not_and]

/-- **The order of the entries does not matter.** -/
theorem find?_key_perm (h : (entries.map key).Nodup) (hperm : entries.Perm entries') :
    (entries.find? fun entry => key entry == k) = entries'.find? fun entry => key entry == k := by
  refine List.find?_eq_find?_of_perm hperm ?_
  rintro a ⟨ha, hka⟩ b ⟨hb, hkb⟩
  have hkey : key a = key b := (beq_iff_eq.mp hka).trans (beq_iff_eq.mp hkb).symm
  exact List.inj_on_of_nodup_map h ha hb hkey

end Effects
