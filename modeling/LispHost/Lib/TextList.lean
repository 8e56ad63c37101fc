import Mathlib.Data.List.Basic

/-!
# Lists in One Text

Some scripting languages keep a list as one text, with semicolons between the items. The text is
cut again at the semicolons that are not inside square brackets and have no backslash in front;
behind the cut an escaped semicolon loses its backslash. An item with brackets, backslashes or
semicolons of its own need not come back as it was.

## Main definitions

* `joinItems`, `appendItem`: putting a list together.
* `cutItems`, `expandList`: taking it apart.
* `Plain`: the items without a character of the list syntax.

## Main results

* `cutItems_cases`: the first item, and what is cut behind it.
* `place_of_unescapeItem`: what is in an unescaped item was in the item.
* `expandList_joinItems`: a list of plain items comes back as it was.
-/

namespace Effects

variable {a b s : List Char} {items : List (List Char)} {nesting : Int} {escaped : Bool}

/-- The items with semicolons between them. -/
def joinItems : List (List Char) → List Char
  | [] => []
  | [item] => item
  | item :: items => item ++ ';' :: joinItems items

/-- A list with one more item. -/
def appendItem (list item : List Char) : List Char :=
  if list = [] then item else list ++ ';' :: item

/-- How a character changes the nesting of square brackets. -/
def bracketWeight (c : Char) : Int := if c = '[' then 1 else if c = ']' then -1 else 0

/-- Put a character in front of the first item. -/
def consFirst (c : Char) : List (List Char) → List (List Char)
  | [] => [[c]]
  | item :: items => (c :: item) :: items

/-- The items between the semicolons that cut; `escaped` says that a backslash is in front. -/
def cutItems : Int → Bool → List Char → List (List Char)
  | _, _, [] => [[]]
  | nesting, escaped, c :: rest =>
      if c = ';' ∧ nesting = 0 ∧ escaped = false then [] :: cutItems 0 false rest
      else consFirst c (cutItems (nesting + bracketWeight c) (c == '\\') rest)

/-- An item without the backslashes in front of its semicolons. -/
def unescapeItem : List Char → List Char
  | [] => []
  | c :: rest =>
      if c = '\\' ∧ rest.head? = some ';' then unescapeItem rest else c :: unescapeItem rest

/-- The items of a list. -/
def expandList (list : List Char) : List (List Char) := (cutItems 0 false list).map unescapeItem

/-- The list has the item. An empty text is a list without items, and an item between two
semicolons with nothing in it is an empty item (the `NEW` behaviour of policy CMP0007). -/
def hasItem (list item : List Char) : Bool := list != [] && (expandList list).contains item

/-- An item in front of others is joined by a semicolon. -/
theorem joinItems_cons (h : items ≠ []) (item : List Char) :
    joinItems (item :: items) = item ++ ';' :: joinItems items := by
  cases items with
  | nil => exact absurd rfl h
  | cons next items => rfl

/-! ### Cutting -/

/-- The first item gets the character. -/
theorem consFirst_cons (c : Char) (item : List Char) (items : List (List Char)) :
    consFirst c (item :: items) = (c :: item) :: items := rfl

/-- **The first item.** Either nothing is cut, or it ends at a semicolon that no backslash
escapes, and the rest is cut by itself. -/
theorem cutItems_cases (nesting : Int) (escaped : Bool) (s : List Char) :
    cutItems nesting escaped s = [s] ∨
      ∃ item rest, s = item ++ ';' :: rest ∧ item.getLast? ≠ some '\\' ∧
        (item = [] → escaped = false) ∧
        cutItems nesting escaped s = item :: cutItems 0 false rest := by
  induction s generalizing nesting escaped with
  | nil => exact .inl rfl
  | cons c s ih =>
      by_cases hcut : c = ';' ∧ nesting = 0 ∧ escaped = false
      · obtain ⟨rfl, rfl, rfl⟩ := hcut
        exact .inr ⟨[], s, rfl, by simp, fun _ => rfl, by rw [cutItems, if_pos ⟨rfl, rfl, rfl⟩]⟩
      · rw [cutItems, if_neg hcut]
        obtain hnone | ⟨item, rest, rfl, hlast, hfirst, heq⟩ :=
          ih (nesting + bracketWeight c) (c == '\\')
        · rw [hnone]
          exact .inl rfl
        · rw [heq]
          refine .inr ⟨c :: item, rest, rfl, ?_, by simp, rfl⟩
          cases item with
          | nil =>
              have hc := hfirst rfl
              simpa using hc
          | cons d item => rwa [List.getLast?_cons_cons]

/-- A character of a text that is not cut there. -/
theorem cutItems_cons (c : Char) (h : c ≠ ';') (s : List Char) :
    cutItems nesting escaped (c :: s) =
      consFirst c (cutItems (nesting + bracketWeight c) (c == '\\') s) := by
  rw [cutItems, if_neg fun hcut => h hcut.1]

/-! ### Escapes -/

/-- A character that is no backslash stays. -/
theorem unescapeItem_cons {c : Char} (h : c ≠ '\\') (s : List Char) :
    unescapeItem (c :: s) = c :: unescapeItem s := by
  rw [unescapeItem, if_neg fun hescape => h hescape.1]

/-- A text without backslashes in front. -/
theorem unescapeItem_append_left (h : '\\' ∉ a) (b : List Char) :
    unescapeItem (a ++ b) = a ++ unescapeItem b := by
  induction a with
  | nil => rfl
  | cons c a ih =>
      rw [List.mem_cons, not_or] at h
      rw [List.cons_append, unescapeItem_cons (Ne.symm h.1), ih h.2, List.cons_append]

/-- An item without a backslash stays as it is. -/
theorem unescapeItem_eq_self (h : '\\' ∉ a) : unescapeItem a = a := by
  rw [← List.append_nil a, unescapeItem_append_left h]
  rfl

/-- Two texts between which nothing is escaped. -/
theorem unescapeItem_append (h : a.getLast? = some '\\' → b.head? ≠ some ';') :
    unescapeItem (a ++ b) = unescapeItem a ++ unescapeItem b := by
  induction a with
  | nil => rfl
  | cons c a ih =>
      have hrest : a.getLast? = some '\\' → b.head? ≠ some ';' := by
        intro hlast
        refine h ?_
        rw [List.getLast?_cons, hlast]
        rfl
      have hhead : c = '\\' → ((a ++ b).head? = some ';' ↔ a.head? = some ';') := by
        rintro rfl
        cases a with
        | nil =>
            refine iff_of_false ?_ (by simp)
            exact h rfl
        | cons d a => rfl
      rw [List.cons_append, unescapeItem, unescapeItem, ih hrest]
      by_cases hescape : c = '\\' ∧ a.head? = some ';'
      · rw [if_pos hescape, if_pos ⟨hescape.1, (hhead hescape.1).mpr hescape.2⟩]
      · have hescape' : ¬ (c = '\\' ∧ (a ++ b).head? = some ';') := fun hesc =>
          hescape ⟨hesc.1, (hhead hesc.1).mp hesc.2⟩
        rw [if_neg hescape, if_neg hescape', List.cons_append]

/-- Unescaping adds no character. -/
theorem mem_unescapeItem {c : Char} (h : c ∈ unescapeItem a) : c ∈ a := by
  induction a with
  | nil => exact h
  | cons d a ih =>
      rw [unescapeItem] at h
      split_ifs at h
      · exact List.mem_cons_of_mem _ (ih h)
      · exact List.mem_cons.mpr ((List.mem_cons.mp h).imp id ih)

/-- A character of the result is in the text with everything that was behind it. -/
theorem eq_cons_of_unescapeItem {c : Char} (h : c ≠ ';') (ha : unescapeItem a = c :: b) :
    ∃ s, a = c :: s ∧ unescapeItem s = b := by
  cases a with
  | nil => exact absurd ha.symm (List.cons_ne_nil c b)
  | cons d a =>
      rw [unescapeItem] at ha
      split_ifs at ha with hescape
      · obtain ⟨rest, rfl⟩ := List.head?_eq_some_iff.mp hescape.2
        rw [unescapeItem_cons (by decide)] at ha
        exact (h (List.cons.inj ha).1.symm).elim
      · obtain ⟨rfl, rfl⟩ := List.cons.inj ha
        exact ⟨a, rfl, rfl⟩

/-- What an unescaped item begins with, the item begins with, if there is no semicolon in it. -/
theorem eq_append_of_unescapeItem (h : ';' ∉ s) (ha : unescapeItem a = s ++ b) :
    ∃ t, a = s ++ t ∧ unescapeItem t = b := by
  induction s generalizing a with
  | nil => exact ⟨a, rfl, ha⟩
  | cons c s ih =>
      rw [List.mem_cons, not_or] at h
      obtain ⟨t, rfl, ht⟩ := eq_cons_of_unescapeItem (Ne.symm h.1) ha
      obtain ⟨u, rfl, hu⟩ := ih h.2 ht
      exact ⟨u, rfl, hu⟩

/-- A suffix of an unescaped item comes from a suffix of the item. -/
theorem suffix_unescapeItem (h : b <:+ unescapeItem a) : ∃ t, t <:+ a ∧ unescapeItem t = b := by
  induction a with
  | nil => exact ⟨[], List.suffix_refl _, (List.suffix_nil.mp h).symm⟩
  | cons c a ih =>
      rw [unescapeItem] at h
      split_ifs at h with hescape
      · obtain ⟨t, ht, hb⟩ := ih h
        exact ⟨t, ht.trans (List.suffix_cons c a), hb⟩
      · rcases List.suffix_cons_iff.mp h with rfl | hsuffix
        · exact ⟨c :: a, List.suffix_refl _, by rw [unescapeItem, if_neg hescape]⟩
        · obtain ⟨t, ht, hb⟩ := ih hsuffix
          exact ⟨t, ht.trans (List.suffix_cons c a), hb⟩

/-- **The places of the result are places of the text**, for what has no semicolon. -/
theorem place_of_unescapeItem (h : ';' ∉ s) (hs : s ++ b <:+ unescapeItem a) :
    ∃ t, s ++ t <:+ a ∧ unescapeItem t = b := by
  obtain ⟨u, hu, heq⟩ := suffix_unescapeItem hs
  obtain ⟨t, rfl, ht⟩ := eq_append_of_unescapeItem h heq
  exact ⟨t, hu, ht⟩

/-- Unescaping leaves no item empty that was not. -/
theorem unescapeItem_ne_nil (h : a ≠ []) : unescapeItem a ≠ [] := by
  induction a with
  | nil => exact absurd rfl h
  | cons c a ih =>
      rw [unescapeItem]
      split_ifs with hescape
      · refine ih ?_
        rintro rfl
        simp at hescape
      · exact List.cons_ne_nil _ _

/-- The first element of a list. -/
theorem expandList_cases (s : List Char) : expandList s = [unescapeItem s] ∨
    ∃ item rest, s = item ++ ';' :: rest ∧
      expandList s = unescapeItem item :: expandList rest := by
  obtain hnone | ⟨item, rest, hs, -, -, hcut⟩ := cutItems_cases 0 false s
  · exact .inl (by rw [expandList, hnone, List.map_singleton])
  · exact .inr ⟨item, rest, hs, by rw [expandList, hcut, List.map_cons, expandList]⟩

/-! ### Plain items -/

/-- No character of the list syntax. -/
def Plain (item : List Char) : Prop := ∀ c ∈ item, c ≠ ';' ∧ c ≠ '[' ∧ c ≠ ']' ∧ c ≠ '\\'

/-- Only brackets have a weight. -/
theorem bracketWeight_plain {c : Char} (hopen : c ≠ '[') (hclose : c ≠ ']') :
    bracketWeight c = 0 := by
  rw [bracketWeight, if_neg hopen, if_neg hclose]

/-- A plain item is not cut. -/
theorem cutItems_plain {item : List Char} (h : Plain item) :
    cutItems 0 escaped item = [item] := by
  induction item generalizing escaped with
  | nil => rfl
  | cons c item ih =>
      obtain ⟨⟨hsemicolon, hopen, hclose, -⟩, hitem⟩ := List.forall_mem_cons.mp h
      rw [cutItems_cons c hsemicolon, bracketWeight_plain hopen hclose, Int.zero_add, ih hitem,
        consFirst_cons]

/-- A plain item at the front is cut off. -/
theorem cutItems_plain_append {item : List Char} (h : Plain item) (s : List Char) :
    cutItems 0 false (item ++ ';' :: s) = item :: cutItems 0 false s := by
  induction item with
  | nil => rw [List.nil_append, cutItems, if_pos ⟨rfl, rfl, rfl⟩]
  | cons c item ih =>
      obtain ⟨⟨hsemicolon, hopen, hclose, hbackslash⟩, hitem⟩ := List.forall_mem_cons.mp h
      have hescaped : (c == '\\') = false := beq_eq_false_iff_ne.mpr hbackslash
      rw [List.cons_append, cutItems_cons c hsemicolon, bracketWeight_plain hopen hclose,
        Int.zero_add, hescaped, ih hitem, consFirst_cons]

/-- A plain item has nothing to unescape. -/
theorem unescapeItem_plain {item : List Char} (h : Plain item) : unescapeItem item = item :=
  unescapeItem_eq_self fun hmem => (h _ hmem).2.2.2 rfl

/-- **A list of plain items comes back as it was.** -/
theorem expandList_joinItems (hne : items ≠ []) (h : ∀ item ∈ items, Plain item) :
    expandList (joinItems items) = items := by
  rw [expandList]
  induction items with
  | nil => exact absurd rfl hne
  | cons item items ih =>
      obtain ⟨hitem, hitems⟩ := List.forall_mem_cons.mp h
      cases items with
      | nil => rw [joinItems, cutItems_plain hitem, List.map_singleton, unescapeItem_plain hitem]
      | cons next items =>
          have hnext := List.cons_ne_nil next items
          rw [joinItems_cons hnext, cutItems_plain_append hitem, List.map_cons,
            unescapeItem_plain hitem, ih hnext hitems]

/-! ### Appending -/

/-- Items that are not empty join to a text that is not. -/
theorem joinItems_ne_nil (hne : items ≠ []) (h : ∀ item ∈ items, item ≠ []) :
    joinItems items ≠ [] := by
  cases items with
  | nil => exact absurd rfl hne
  | cons item items =>
      cases items with
      | nil => exact h item List.mem_cons_self
      | cons next items => exact List.append_ne_nil_of_right_ne_nil _ (List.cons_ne_nil _ _)

/-- A list without empty items with one more item. -/
theorem appendItem_joinItems (h : ∀ item ∈ items, item ≠ []) (item : List Char) :
    appendItem (joinItems items) item = joinItems (items ++ [item]) := by
  induction items with
  | nil => rfl
  | cons first items ih =>
      obtain ⟨hfirst, hitems⟩ := List.forall_mem_cons.mp h
      have hne := joinItems_ne_nil (List.cons_ne_nil first items) h
      rw [appendItem, if_neg hne]
      by_cases hitems' : items = []
      · rw [hitems']
        rfl
      · have hrest := ih hitems
        rw [appendItem, if_neg (joinItems_ne_nil hitems' hitems)] at hrest
        rw [List.cons_append, joinItems_cons hitems', joinItems_cons (by simp), ← hrest,
          List.append_assoc, List.cons_append]

/-- **What is found in a list** of plain items is what was put into it. -/
theorem hasItem_iff (hne : ∀ item ∈ items, item ≠ []) (h : ∀ item ∈ items, Plain item)
    {item : List Char} : hasItem (joinItems items) item = true ↔ item ∈ items := by
  cases items with
  | nil => simp [hasItem, joinItems]
  | cons first items =>
      have hlist := joinItems_ne_nil (List.cons_ne_nil first items) hne
      rw [hasItem, expandList_joinItems (List.cons_ne_nil _ _) h, Bool.and_eq_true, bne_iff_ne,
        List.contains_iff_mem]
      exact and_iff_right hlist

end Effects
