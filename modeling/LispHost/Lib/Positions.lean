import Mathlib.Data.List.Basic

/-!
# Positions in a List

A parser with an index looks at what stands at the index and moves on; its specification is
about the items from the index on. These lemmas lead from one to the other.

## Main results

* `getElem?_of_drop`, `getElem?_of_drop_nil`: the item at a position.
* `drop_of_drop_cons`, `drop_of_getElem?`, `drop_of_drop_append`,
  `drop_of_suffix`: the items behind it.
-/

namespace Effects

variable {α : Type}

/-- The item at a position is the first one of what is behind it. -/
theorem getElem?_of_drop {items rest : List α} {item : α} {pos : Nat}
    (h : items.drop pos = item :: rest) : items[pos]? = some item := by
  have hget : (items.drop pos)[0]? = items[pos]? := List.getElem?_drop
  rw [← hget, h]
  rfl

/-- There is no item at a position with nothing behind it. -/
theorem getElem?_of_drop_nil {items : List α} {pos : Nat} (h : items.drop pos = []) :
    items[pos]? = none := by
  have hget : (items.drop pos)[0]? = items[pos]? := List.getElem?_drop
  rw [← hget, h]
  rfl

/-- One position on, the first item is gone. -/
theorem drop_of_drop_cons {items rest : List α} {item : α} {pos : Nat}
    (h : items.drop pos = item :: rest) : items.drop (pos + 1) = rest := by
  rw [← List.drop_drop, h]
  rfl

/-- The position of a suffix of what is behind a position. -/
theorem drop_of_suffix {items mid : List α} {pos : Nat}
    (h : mid <:+ items.drop pos) :
    items.drop (pos + ((items.drop pos).length - mid.length)) = mid := by
  rw [← List.drop_drop]
  exact List.suffix_iff_eq_drop.mp h |>.symm

/-- The position behind some items. -/
theorem drop_of_drop_append {items first rest : List α} {pos : Nat}
    (h : items.drop pos = first ++ rest) : items.drop (pos + first.length) = rest := by
  rw [← List.drop_drop, h, List.drop_left]

end Effects
