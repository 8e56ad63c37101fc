import Mathlib.Data.List.Infix

/-!
# Scans of a Text

A regular expression is matched against a text in two ways here. A scan for all matches takes
the leftmost match again and again, each one behind the last. A replacement of a text by one
group of a pattern that begins with `.*` takes what stands at the last place where the pattern
matches, or leaves the text as it is.

## Main definitions

* `allMatches`: the leftmost matches that do not overlap.
* `lastFound`: what is found at the last place.
* `suffixesAt`: the places of a character.

## Main results

* `allMatches_eq`: a scan takes all places, if no place is inside a match.
* `lastFound_append`: what is found behind a part of a text.
-/

namespace Effects

variable {α : Type} {a b s text : List α}

/-! ### All matches -/

/-- The matches of a scan; `find` gives the length of a match at the front of a text, and `skip`
items belong to the last match. -/
def matchesFrom (find : List α → Option Nat) : Nat → List α → List (List α)
  | _, [] => []
  | skip + 1, _ :: rest => matchesFrom find skip rest
  | 0, c :: rest =>
      match find (c :: rest) with
      | some n => (c :: rest).take n :: matchesFrom find (n - 1) rest
      | none => matchesFrom find 0 rest

/-- All matches in a text, from left to right and none inside of another. -/
def allMatches (find : List α → Option Nat) (text : List α) : List (List α) :=
  matchesFrom find 0 text

section AllMatches

variable {find : List α → Option Nat} {starts : List α → Bool}

/-- A match at the first place is taken, and the search goes on behind it. -/
theorem matchesFrom_some {c : α} {rest : List α} {n : Nat} (h : find (c :: rest) = some n) :
    matchesFrom find 0 (c :: rest) =
      (c :: rest).take n :: matchesFrom find (n - 1) rest := by
  rw [matchesFrom, h]

/-- Where nothing matches, the search goes on one place further. -/
theorem matchesFrom_none {c : α} {rest : List α} (h : find (c :: rest) = none) :
    matchesFrom find 0 (c :: rest) = matchesFrom find 0 rest := by
  rw [matchesFrom, h]

/-- A scan that has items left of its last match takes all places behind them. -/
theorem matchesFrom_eq (hnil : starts [] = false) (hnone : ∀ s, starts s = false → find s = none)
    (hsome : ∀ s, s <:+ text → starts s = true →
      ∃ n, find s = some n ∧ 0 < n ∧ ∀ i, 0 < i → i < n → starts (s.drop i) = false)
    (skip : Nat) (hskip : ∀ i < skip, starts (text.drop i) = false) :
    matchesFrom find skip text =
      (text.tails.filter starts).map fun s => s.take ((find s).getD 0) := by
  induction text generalizing skip with
  | nil =>
      rw [matchesFrom, List.tails, List.filter_cons_of_neg (by simp [hnil])]
      rfl
  | cons c rest ih =>
      have hrest := ih fun s hs => hsome s (hs.trans (List.suffix_cons c rest))
      have hshift : ∀ {n}, (∀ i, 0 < i → i < n → starts ((c :: rest).drop i) = false) →
          ∀ i < n - 1, starts (rest.drop i) = false :=
        fun h i hi => h (i + 1) i.succ_pos (by omega)
      rw [List.tails_cons]
      cases skip with
      | succ skip =>
          rw [matchesFrom, List.filter_cons_of_neg (by simpa using hskip 0 skip.succ_pos)]
          exact hrest skip (hshift fun i _ hi => hskip i hi)
      | zero =>
          by_cases hstarts : starts (c :: rest) = true
          · obtain ⟨n, hfind, -, hinside⟩ := hsome _ (List.suffix_refl _) hstarts
            rw [matchesFrom_some hfind, List.filter_cons_of_pos hstarts, List.map_cons, hfind,
              hrest (n - 1) (hshift hinside)]
            rfl
          · rw [Bool.not_eq_true] at hstarts
            rw [matchesFrom_none (hnone _ hstarts), List.filter_cons_of_neg (by simp [hstarts])]
            exact hrest 0 (by simp)

/-- **A scan takes all places** at which a match can start, if no place is inside a match. -/
theorem allMatches_eq (hnil : starts [] = false) (hnone : ∀ s, starts s = false → find s = none)
    (hsome : ∀ s, s <:+ text → starts s = true →
      ∃ n, find s = some n ∧ 0 < n ∧ ∀ i, 0 < i → i < n → starts (s.drop i) = false) :
    allMatches find text = (text.tails.filter starts).map fun s => s.take ((find s).getD 0) :=
  matchesFrom_eq hnil hnone hsome 0 (by simp)

end AllMatches

/-! ### The places of a character -/

section Places

variable [DecidableEq α] {c d : α}

/-- The suffixes of a text that begin with the character. -/
def suffixesAt (c : α) (text : List α) : List (List α) :=
  text.tails.filter fun s => s.head? == some c

/-- The suffixes at a character are those that begin with it. -/
theorem mem_suffixesAt : s ∈ suffixesAt c text ↔ s <:+ text ∧ s.head? = some c := by
  rw [suffixesAt, List.mem_filter, List.mem_tails, beq_iff_eq]

@[simp] theorem suffixesAt_nil (c : α) : suffixesAt c [] = [] := rfl

/-- The character itself begins such a suffix. -/
@[simp] theorem suffixesAt_cons_self (c : α) (s : List α) :
    suffixesAt c (c :: s) = (c :: s) :: suffixesAt c s := by
  rw [suffixesAt, List.tails_cons, List.filter_cons_of_pos (by simp), suffixesAt]

/-- Any other character begins none. -/
theorem suffixesAt_cons_of_ne (h : d ≠ c) (s : List α) :
    suffixesAt c (d :: s) = suffixesAt c s := by
  rw [suffixesAt, List.tails_cons, List.filter_cons_of_neg (by simpa using h), suffixesAt]

/-- The places in two parts of a text. -/
theorem suffixesAt_append (c : α) (a b : List α) :
    suffixesAt c (a ++ b) = (suffixesAt c a).map (· ++ b) ++ suffixesAt c b := by
  induction a with
  | nil => rfl
  | cons d a ih =>
      by_cases hd : d = c
      · rw [hd, List.cons_append, suffixesAt_cons_self, suffixesAt_cons_self, ih]
        rfl
      · rw [List.cons_append, suffixesAt_cons_of_ne hd, suffixesAt_cons_of_ne hd, ih]

/-- A text without the character has none. -/
theorem suffixesAt_eq_nil (h : c ∉ a) : suffixesAt c a = [] := by
  refine List.filter_eq_nil_iff.mpr fun s hs => ?_
  rw [beq_iff_eq]
  intro hhead
  exact h ((List.mem_tails _ _).mp hs |>.subset (List.mem_of_mem_head? hhead))

/-- A part without the character. -/
theorem suffixesAt_append_of_notMem (h : c ∉ a) (b : List α) :
    suffixesAt c (a ++ b) = suffixesAt c b := by
  rw [suffixesAt_append, suffixesAt_eq_nil h]
  rfl

end Places

/-! ### The last place -/

/-- What is found at the last place of a text, or the text itself. -/
def lastFound (find : List α → Option (List α)) (text : List α) : List α :=
  ((text.tails.filterMap find).getLast?).getD text

section LastFound

variable {find : List α → Option (List α)} {value : List α}

/-- Something is found, or the text is left as it is. -/
theorem lastFound_cases (find : List α → Option (List α)) (text : List α) :
    lastFound find text = text ∨ ∃ s, s <:+ text ∧ find s = some (lastFound find text) := by
  rw [lastFound]
  cases hlast : (text.tails.filterMap find).getLast? with
  | none => exact .inl rfl
  | some value =>
      obtain ⟨s, hs, hfind⟩ := List.mem_filterMap.mp (List.mem_of_getLast? hlast)
      exact .inr ⟨s, (List.mem_tails _ _).mp hs, hfind⟩

/-- What is found in the back of a text is found last in the whole text. -/
theorem filterMap_tails_append (find : List α → Option (List α)) (a b : List α) :
    ∃ before, (a ++ b).tails.filterMap find = before ++ b.tails.filterMap find := by
  induction a with
  | nil => exact ⟨[], rfl⟩
  | cons c a ih =>
      obtain ⟨before, hbefore⟩ := ih
      rw [List.cons_append, List.tails_cons, List.filterMap_cons, hbefore]
      cases find (c :: (a ++ b)) with
      | none => exact ⟨before, rfl⟩
      | some value => exact ⟨value :: before, rfl⟩

/-- **What is found behind a part of a text**: if something is, it is found in the text. -/
theorem lastFound_append (hfound : ∃ s, s <:+ b ∧ (find s).isSome) (a : List α) :
    ∃ s, s <:+ b ∧ find s = some (lastFound find (a ++ b)) := by
  obtain ⟨before, hbefore⟩ := filterMap_tails_append find a b
  have hne : b.tails.filterMap find ≠ [] := by
    obtain ⟨s, hs, hfind⟩ := hfound
    obtain ⟨value, hvalue⟩ := Option.isSome_iff_exists.mp hfind
    exact List.ne_nil_of_mem (List.mem_filterMap.mpr ⟨s, (List.mem_tails _ _).mpr hs, hvalue⟩)
  obtain ⟨value, hlast⟩ := Option.ne_none_iff_exists'.mp (List.getLast?_eq_none_iff.not.mpr hne)
  have hlast' : ((a ++ b).tails.filterMap find).getLast? = some value := by
    rw [hbefore, List.getLast?_append, hlast]
    rfl
  obtain ⟨s, hs, hfind⟩ := List.mem_filterMap.mp (List.mem_of_getLast? hlast)
  refine ⟨s, (List.mem_tails _ _).mp hs, ?_⟩
  rw [lastFound, hlast', hfind]
  rfl

/-- What is found at a place is the result, if nothing else is found at any place. -/
theorem lastFound_eq (hfound : ∃ s, s <:+ text ∧ find s = some value)
    (hunique : ∀ s other, s <:+ text → find s = some other → other = value) :
    lastFound find text = value := by
  obtain ⟨s, hs, hfind⟩ := hfound
  have hsome : (find s).isSome := Option.isSome_iff_exists.mpr ⟨value, hfind⟩
  obtain ⟨t, ht, hlast⟩ := lastFound_append ⟨s, hs, hsome⟩ []
  exact hunique t _ ht hlast

end LastFound

end Effects
