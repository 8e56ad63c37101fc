import LispHost.EntryText

/-!
# Entries in a List

Between the scan and the loop the matches pass through a list in one text, which CMake cuts at
semicolons. A cut inside an entry leaves a piece whose last field cannot be read. A semicolon
that does not cut joins an entry with the next ones, and the piece is read with the ID of a later
entry. So if every piece is read as the entry that was put into the list, the list kept all of
them, in all their characters.

## Main results

* `Registry.Format.not_wellFormed_of_short`: a piece that ends inside an entry.
* `Registry.Format.id_mem_of_long`: a piece that goes on behind an entry.
* `Registry.Format.expandList_of_readEntry`: the list keeps what is read right.
-/

namespace LispHost

open Effects

namespace Registry

variable {N : Type} {F : Format N} {entry : Entry N} {entries : List (Entry N)}
  {t item rest : List Char}

/-- The entry behind a list, where escaped semicolons have lost their backslashes. -/
def Entry.unescaped (entry : Entry N) : Entry N where
  id := entry.id
  value n := unescapeItem (entry.value n)

namespace Format

/-! ### Escapes -/

/-- Its text can still be read. -/
theorem WellFormed.unescaped (h : F.WellFormed entry) : F.WellFormed entry.unescaped where
  isId := h.isId
  value_ne_nil n := unescapeItem_ne_nil (h.value_ne_nil n)
  inValue n c hc := h.inValue n c (mem_unescapeItem hc)
  noOpen n hmem := h.noOpen n (mem_unescapeItem hmem)

/-- The escapes of some fields are those of their values. -/
theorem unescapeItem_fieldsText (entry : Entry N) (ns : List N) :
    unescapeItem (F.fieldsText entry ns ++ [')']) = F.fieldsText entry.unescaped ns ++ [')'] := by
  induction ns with
  | nil => rfl
  | cons n ns ih =>
      have hopening := (F.isOpening_opening n).notMem (.inr rfl)
      rw [fieldsText_cons, fieldsText_cons, unescapeItem_cons (by decide),
        unescapeItem_append_left hopening, unescapeItem_append (fun _ => by simp),
        unescapeItem_cons (by decide), ih]
      rfl

/-- The escapes of an entry are those of its values. -/
theorem unescapeItem_entryText (h : F.WellFormed entry) :
    unescapeItem (F.entryText entry) = F.entryText entry.unescaped := by
  rw [entryText, unescapeItem_append_left (F.isOpening_tag.notMem (.inr rfl)),
    unescapeItem_append_left (h.isId.notMem rfl), unescapeItem_fieldsText]
  rfl

/-- An entry that is read unchanged has nothing that is unescaped. -/
theorem unescapeItem_eq_self_of_readEntry (h : F.WellFormed entry)
    (hread : F.readEntry (unescapeItem (F.entryText entry)) = entry) :
    unescapeItem (F.entryText entry) = F.entryText entry := by
  rw [unescapeItem_entryText h] at hread ⊢
  rw [readEntry_entryText h.unescaped] at hread
  rw [hread]

/-! ### A piece that ends inside an entry -/

/-- What is in front of a semicolon goes on behind a text without semicolons. -/
theorem eq_append_of_cut {s a b : List Char} (hs : ';' ∉ s) (h : s ++ a = item ++ ';' :: b) :
    ∃ t, item = s ++ t ∧ a = t ++ ';' :: b := by
  obtain ⟨t, hitem, ha⟩ | ⟨t, rfl, hb⟩ := List.append_eq_append_iff.mp h
  · exact ⟨t, hitem, ha⟩
  · cases t with
    | nil => exact ⟨[], by simp, by simpa using hb.symm⟩
    | cons c t =>
        obtain ⟨rfl, -⟩ := List.cons.inj hb
        simp at hs

/-- Where a cut is, seen from another semicolon. -/
theorem cut_cases {a b : List Char} (h : a ++ ';' :: b = item ++ ';' :: rest) :
    (∃ t, a = item ++ ';' :: t) ∨ (item = a ∧ rest = b) ∨
      ∃ t, item = a ++ ';' :: t ∧ b = t ++ ';' :: rest := by
  obtain ⟨t, hitem, hb⟩ | ⟨t, ha, hrest⟩ := List.append_eq_append_iff.mp h
  · cases t with
    | nil => exact .inr (.inl ⟨by rw [hitem, List.append_nil], (List.cons.inj hb).2.symm⟩)
    | cons c t =>
        obtain ⟨rfl, htail⟩ := List.cons.inj hb
        exact .inr (.inr ⟨t, hitem, htail⟩)
  · cases t with
    | nil => exact .inr (.inl ⟨by rw [ha, List.append_nil], (List.cons.inj hrest).2⟩)
    | cons c t =>
        obtain ⟨rfl, -⟩ := List.cons.inj hrest
        exact .inl ⟨t, ha⟩

/-- The last field of the pattern, with nothing behind it. -/
theorem exists_last (F : Format N) : ∃ n, ∀ before after, F.fields = before ++ n :: after →
    after = [] := by
  obtain hnil | ⟨init, last, hinit⟩ := List.eq_nil_or_concat F.fields
  · exact absurd hnil (List.ne_nil_of_mem (F.mem_fields F.surface))
  · refine ⟨last, fun before after hfields => ?_⟩
    obtain hnil | ⟨after, other, rfl⟩ := List.eq_nil_or_concat after
    · exact hnil
    · have hnodup := F.nodup_fields
      rw [hfields] at hnodup
      have hend : init ++ [last] = (before ++ last :: after) ++ [other] := by
        rw [← List.concat_eq_append, ← hinit, hfields]
        simp
      obtain rfl : last = other := List.singleton_inj.mp (List.append_inj_right' hend rfl)
      have hlast := (List.nodup_cons.mp (List.nodup_append.mp hnodup).2.1).1
      exact absurd (by simp) hlast

/-- **A piece that ends inside an entry** is not read as an entry. -/
theorem not_wellFormed_of_short (h : F.WellFormed entry)
    (hshort : F.entryText entry = item ++ ';' :: rest) :
    ¬ F.WellFormed (F.readEntry (unescapeItem item)) := by
  intro hread
  obtain ⟨n, hlast⟩ := exists_last F
  obtain hself | ⟨t, ht, hfind⟩ :=
    lastFound_cases (fun s => (F.matchValue n s).map Prod.fst) (unescapeItem item)
  · obtain ⟨t, rfl, -⟩ := eq_append_of_cut (F.isOpening_tag.notMem (.inl rfl)) hshort
    refine hread.noOpen n ?_
    show '(' ∈ lastFound _ _
    rw [hself, unescapeItem_append_left (F.isOpening_tag.notMem (.inr rfl)),
      F.isOpening_tag.eq_cons]
    exact List.mem_cons_self
  · obtain ⟨⟨value, behind⟩, hvalue, -⟩ := Option.map_eq_some_iff.mp hfind
    obtain ⟨-, -, rfl⟩ := matchValue_eq_some_iff.mp hvalue
    obtain ⟨u, hu, hunescape⟩ :=
      place_of_unescapeItem ((F.isOpening_opening n).notMem (.inl rfl)) ht
    have hclose : ')' ∈ u := by
      refine mem_unescapeItem ?_
      rw [hunescape]
      simp
    have hplace : (F.opening n ++ u) ++ ';' :: rest <:+ F.entryText entry := by
      rw [hshort]
      exact List.suffix_append_self_iff.mpr hu
    obtain ⟨before, after, hfields, heq⟩ :=
      opening_place h hplace ⟨u ++ ';' :: rest, by rw [List.append_assoc]⟩
    obtain rfl := hlast before after hfields
    rw [List.append_assoc, List.append_cancel_left_eq] at heq
    obtain ⟨a, hvalue, -⟩ | ⟨a, -, ha⟩ := List.append_eq_append_iff.mp heq
    · refine h.noClose n ?_
      rw [hvalue]
      exact List.mem_append_left _ hclose
    · have hsemicolon : ';' ∈ ')' :: (F.fieldsText entry [] ++ [')']) := by
        rw [ha]
        exact List.mem_append_right _ List.mem_cons_self
      exact absurd (show ';' ∈ [')', ')'] from hsemicolon) (by decide)

/-! ### A piece that goes on behind an entry -/

/-- The tag is only at the entries of a list. -/
theorem tag_place_joinItems (h : ∀ entry ∈ entries, F.WellFormed entry)
    (ht : F.tag ++ t <:+ joinItems (entries.map F.entryText)) :
    ∃ entry ∈ entries, F.entryText entry <+: F.tag ++ t := by
  induction entries with
  | nil =>
      have hnil := (List.append_eq_nil_iff.mp (List.suffix_nil.mp ht)).1
      exact (F.isOpening_tag.ne_nil hnil).elim
  | cons entry entries ih =>
      obtain ⟨hentry, hentries⟩ := List.forall_mem_cons.mp h
      by_cases hne : entries = []
      · rw [hne] at ht
        exact ⟨entry, List.mem_cons_self, by rw [tag_place_self hentry ht rfl]⟩
      · rw [List.map_cons, joinItems_cons (by simpa using hne)] at ht
        obtain heq | hrest := tag_place hentry ht (List.prefix_append _ _)
        · exact ⟨entry, List.mem_cons_self, heq ▸ List.prefix_append _ _⟩
        · rcases List.suffix_cons_iff.mp hrest with hsemicolon | hrest
          · rw [F.isOpening_tag.eq_cons] at hsemicolon
            exact absurd (List.cons.inj hsemicolon).1 (by decide)
          · obtain ⟨other, hother, hplace⟩ := ih hentries hrest
            exact ⟨other, List.mem_cons_of_mem _ hother, hplace⟩

/-- The ID at a tag is that of the entry. -/
theorem id_eq_of_prefix {id : List Char} (h : F.WellFormed entry) (hid : IsId id)
    (hbegins : F.entryText entry <+: F.tag ++ (id ++ t)) : entry.id = id := by
  obtain ⟨behind, heq⟩ := hbegins
  rw [entryText_append, List.append_cancel_left_eq] at heq
  exact (List.append_inj heq (h.isId.length_eq.trans hid.length_eq.symm)).1

/-- What is joined begins with the tag and ID of the first entry. -/
theorem joinItems_eq (entry : Entry N) (entries : List (Entry N)) :
    ∃ behind, joinItems ((entry :: entries).map F.entryText) = F.tag ++ (entry.id ++ behind) := by
  by_cases hne : entries = []
  · rw [hne]
    exact ⟨_, rfl⟩
  · rw [List.map_cons, joinItems_cons (by simpa using hne), entryText_append]
    exact ⟨_, rfl⟩

/-- **A piece that goes on behind an entry** is read with the ID of a later one. -/
theorem id_mem_of_long (h : ∀ entry ∈ entries, F.WellFormed entry)
    (hlong : joinItems (entries.map F.entryText) = item ++ ';' :: rest) (first : List Char) :
    (F.readEntry (unescapeItem (first ++ ';' :: item))).id ∈ entries.map Entry.id := by
  have hsplit : unescapeItem (first ++ ';' :: item) =
      unescapeItem (first ++ [';']) ++ unescapeItem item := by
    rw [← unescapeItem_append (by simp), List.append_assoc, List.singleton_append]
  have hfound : ∃ s, s <:+ unescapeItem item ∧ ((F.matchId s).map Prod.fst).isSome := by
    cases entries with
    | nil => simp [joinItems] at hlong
    | cons entry entries =>
        have hid := (h entry List.mem_cons_self).isId
        obtain ⟨behind, heq⟩ := joinItems_eq (F := F) entry entries
        rw [heq] at hlong
        obtain ⟨s, rfl, hs⟩ := eq_append_of_cut (F.isOpening_tag.notMem (.inl rfl)) hlong
        obtain ⟨s, rfl, -⟩ := eq_append_of_cut (hid.notMem rfl) hs
        refine ⟨_, List.suffix_refl _, ?_⟩
        rw [unescapeItem_append_left (F.isOpening_tag.notMem (.inr rfl)),
          unescapeItem_append_left (hid.notMem rfl), matchId_eq_some_iff.mpr ⟨hid, rfl⟩]
        rfl
  obtain ⟨s, hs, hfind⟩ := lastFound_append hfound (unescapeItem (first ++ [';']))
  obtain ⟨⟨id, behind⟩, hmatch, hid⟩ := Option.map_eq_some_iff.mp hfind
  obtain ⟨hdigits, rfl⟩ := matchId_eq_some_iff.mp hmatch
  have hsemicolon : ';' ∉ F.tag ++ id := by
    rw [List.mem_append, not_or]
    exact ⟨F.isOpening_tag.notMem (.inl rfl), hdigits.notMem rfl⟩
  rw [← List.append_assoc] at hs
  obtain ⟨u, hu, -⟩ := place_of_unescapeItem hsemicolon hs
  have hplace : F.tag ++ (id ++ (u ++ ';' :: rest)) <:+ joinItems (entries.map F.entryText) := by
    rw [hlong, ← List.append_assoc, ← List.append_assoc]
    exact List.suffix_append_self_iff.mpr hu
  obtain ⟨entry, hentry, hbegins⟩ := tag_place_joinItems h hplace
  have hread : (F.readEntry (unescapeItem (first ++ ';' :: item))).id = id := by
    rw [hsplit]
    exact hid.symm
  rw [hread, ← id_eq_of_prefix (h entry hentry) hdigits hbegins]
  exact List.mem_map_of_mem hentry

/-! ### The list -/

/-- **The list keeps what is read right.** -/
theorem expandList_of_readEntry (hne : entries ≠ []) (h : ∀ entry ∈ entries, F.WellFormed entry)
    (hids : (entries.map Entry.id).Nodup)
    (hread : (expandList (joinItems (entries.map F.entryText))).map F.readEntry = entries) :
    expandList (joinItems (entries.map F.entryText)) = entries.map F.entryText := by
  induction entries with
  | nil => exact absurd rfl hne
  | cons entry entries ih =>
      obtain ⟨hentry, hentries⟩ := List.forall_mem_cons.mp h
      obtain ⟨hfresh, hids⟩ := List.nodup_cons.mp hids
      by_cases hlast : entries = []
      · subst hlast
        rw [List.map_singleton, joinItems] at hread ⊢
        obtain heq | ⟨item, rest, hshort, heq⟩ := expandList_cases (F.entryText entry)
        · rw [heq] at hread ⊢
          have hself := List.singleton_inj.mp hread
          rw [unescapeItem_eq_self_of_readEntry hentry hself]
        · rw [heq, List.map_cons] at hread
          refine (not_wellFormed_of_short hentry hshort ?_).elim
          rwa [(List.cons.inj hread).1]
      · rw [List.map_cons, joinItems_cons (by simpa using hlast)] at hread ⊢
        obtain heq | ⟨item, rest, hcut, heq⟩ :=
          expandList_cases (F.entryText entry ++ ';' :: joinItems (entries.map F.entryText))
        · rw [heq] at hread
          exact absurd (List.cons.inj hread).2.symm hlast
        · rw [heq, List.map_cons] at hread
          obtain ⟨hfirst, hbehind⟩ := List.cons.inj hread
          obtain ⟨s, hshort⟩ | ⟨rfl, rfl⟩ | ⟨s, rfl, hlong⟩ := cut_cases hcut
          · refine (not_wellFormed_of_short hentry hshort ?_).elim
            rwa [hfirst]
          · rw [heq, unescapeItem_eq_self_of_readEntry hentry hfirst,
              ih hlast hentries hids hbehind]
          · refine absurd ?_ hfresh
            rw [← congrArg Entry.id hfirst]
            exact id_mem_of_long hentries hlong _

end Format

end Registry

end LispHost
