import LispHost.ListedEntries

/-!
# What the Projection Emits

A projection should fail closed: it aborts, or it emits each declared entry with its own values.
The scripts do so only on some texts. What begins like an entry but does not match the pattern of
one is not in the loop at all, and no check is made on it if there is another entry. And where the
list cuts in other places than between the entries, the pieces are read as something else.

## Main definitions

* `Registry.Format.Declares`: the entries of a text, one for each place of the tag.
* `Registry.Format.Rejects`: the checks that make a script abort.
* `Registry.Format.FailsClosed`: what a projection should do.

## Main results

* `Registry.Format.project_eq_ok_iff`: what a script emits, and when.
* `Registry.failsClosed_iff`: the texts on which the scripts fail closed.
-/

namespace LispHost

open Effects

namespace Registry

namespace Format

variable {N : Type} (F : Format N) {text input ids surfaces : List Char}
  {pieces : List (List Char)} {entries out : List (Entry N)}

/-! ### Failing closed -/

/-- The places where an entry is declared, with everything behind them. -/
def occurrences (text : List Char) : List (List Char) :=
  text.tails.filter fun place => F.tag.isPrefixOf place

/-- The text declares these entries: at every place of the tag is the whole text of one. -/
def Declares (text : List Char) (entries : List (Entry N)) : Prop :=
  List.Forall₂ (fun place entry => F.WellFormed entry ∧ F.entryText entry <+: place)
    (F.occurrences text) entries

/-- What a projection may emit. -/
structure Projected (text : List Char) (out : List (Entry N)) : Prop where
  declares : F.Declares text out
  ids : (out.map Entry.id).Nodup
  surfaces : (out.map fun entry => entry.value F.surface).Nodup
  admitted : ∀ entry ∈ out, F.check entry = none

/-- The script aborts or emits each declared entry, and no entry that has to be refused. -/
def FailsClosed (text : List Char) : Prop :=
  ∀ input out, F.project input text = .ok out → F.Projected text out

/-! ### The loop -/

/-- A list of the loop behind some of the pieces. -/
def listBehind (read : Entry N → List Char) (list : List Char) (before : List (List Char)) :
    List Char :=
  before.foldl (fun list piece => appendItem list (read (F.readEntry piece))) list

/-- The loop aborts at one of the pieces. -/
def Refuses (ids surfaces : List Char) (pieces : List (List Char)) : Prop :=
  ∃ before piece after, pieces = before ++ piece :: after ∧
    (F.check (F.readEntry piece) ≠ none ∨
      F.Repeats (F.listBehind Entry.id ids before)
        (F.listBehind (fun entry => entry.value F.surface) surfaces before) (F.readEntry piece))

/-- Why a script aborts. -/
inductive Rejects (text : List Char) : Prop
  | schema (h : ¬ F.DeclaresSchema text)
  | unknownId (declared : List Char) (hmem : declared ∈ F.declaredIds text)
      (h : ¬ F.IsDeclaredId declared)
  | noEntries (h : allMatches F.matchEntry text = [])
  | refuses (h : F.Refuses [] [] (F.entries text))

/-- A whole entry at every place of the tag, no surface twice, and a list in one text that has
the entries as its elements. -/
def Whole (text : List Char) : Prop :=
  ∃ entries, F.Declares text entries ∧
    (entries.map fun entry => entry.value F.surface).Nodup ∧
      expandList (joinItems (entries.map F.entryText)) = entries.map F.entryText

variable {F}

/-- No piece is refused where there is none. -/
theorem refuses_nil : ¬ F.Refuses ids surfaces [] := by
  rintro ⟨before, piece, after, heq, -⟩
  simp at heq

/-- The loop aborts at the first piece or behind it. -/
theorem refuses_cons {piece : List Char} : F.Refuses ids surfaces (piece :: pieces) ↔
    (F.check (F.readEntry piece) ≠ none ∨ F.Repeats ids surfaces (F.readEntry piece)) ∨
      F.Refuses (appendItem ids (F.readEntry piece).id)
        (appendItem surfaces ((F.readEntry piece).value F.surface)) pieces := by
  constructor
  · rintro ⟨before, other, after, heq, hrefused⟩
    cases before with
    | nil =>
        obtain ⟨rfl, -⟩ := List.cons.inj heq
        exact .inl hrefused
    | cons first before =>
        obtain ⟨rfl, rfl⟩ := List.cons.inj heq
        exact .inr ⟨before, other, after, rfl, hrefused⟩
  · rintro (hrefused | ⟨before, other, after, rfl, hrefused⟩)
    · exact ⟨[], piece, pieces, rfl, hrefused⟩
    · exact ⟨piece :: before, other, after, rfl, hrefused⟩

/-- The loop emits what is read of the pieces, if it refuses none. -/
theorem projectEntries_eq_ok_iff : F.projectEntries ids surfaces pieces = .ok out ↔
    ¬ F.Refuses ids surfaces pieces ∧ out = pieces.map F.readEntry := by
  induction pieces generalizing ids surfaces out with
  | nil =>
      rw [projectEntries, Except.ok.injEq, eq_comm, List.map_nil]
      exact (and_iff_right refuses_nil).symm
  | cons piece pieces ih =>
      rw [projectEntries, refuses_cons]
      cases hcheck : F.check (F.readEntry piece) with
      | some reason => simp
      | none =>
          by_cases hrepeats : F.Repeats ids surfaces (F.readEntry piece)
          · simp [hrepeats]
          · simp only [hrepeats, if_false, ne_eq, not_true_eq_false, false_or]
            cases hrest : F.projectEntries (appendItem ids (F.readEntry piece).id)
              (appendItem surfaces ((F.readEntry piece).value F.surface)) pieces with
            | error reason =>
                have hrefuses : F.Refuses (appendItem ids (F.readEntry piece).id)
                    (appendItem surfaces ((F.readEntry piece).value F.surface)) pieces := by
                  by_contra hrefuses
                  rw [ih.mpr ⟨hrefuses, rfl⟩] at hrest
                  cases hrest
                simp [Except.map, hrefuses]
            | ok rest =>
                obtain ⟨hrefuses, rfl⟩ := ih.mp hrest
                simp [Except.map, hrefuses, eq_comm]

/-- Once the scans are accepted, only the loop can abort. -/
theorem rejects_iff_refuses (hschema : F.DeclaresSchema text)
    (hids : ∀ declared ∈ F.declaredIds text, F.IsDeclaredId declared)
    (hentries : allMatches F.matchEntry text ≠ []) :
    F.Rejects text ↔ F.Refuses [] [] (F.entries text) := by
  refine ⟨fun h => ?_, .refuses⟩
  cases h with
  | schema h => exact (h hschema).elim
  | unknownId declared hmem h => exact (h (hids declared hmem)).elim
  | noEntries h => exact (hentries h).elim
  | refuses h => exact h

/-- **What a script emits**, and when. -/
theorem project_eq_ok_iff : F.project input text = .ok out ↔
    ¬ F.Rejects text ∧ out = (F.entries text).map F.readEntry := by
  rw [project]
  by_cases hschema : F.DeclaresSchema text
  · rw [if_neg (not_not.mpr hschema)]
    cases hfind : (F.declaredIds text).find? fun declared => ¬ F.IsDeclaredId declared with
    | some declared =>
        have hrejects : F.Rejects text := .unknownId declared (List.mem_of_find?_eq_some hfind)
          (by simpa using List.find?_some hfind)
        simp [hrejects]
    | none =>
        have hids : ∀ declared ∈ F.declaredIds text, F.IsDeclaredId declared := by
          simpa using List.find?_eq_none.mp hfind
        by_cases hentries : allMatches F.matchEntry text = []
        · have hrejects : F.Rejects text := .noEntries hentries
          simp [hentries, hrejects]
        · rw [rejects_iff_refuses hschema hids hentries, ← projectEntries_eq_ok_iff]
          simp [hentries]
  · have hrejects : F.Rejects text := .schema hschema
    simp [hschema, hrejects]

/-! ### The declared entries -/

/-- At every place of the tag is an entry. -/
theorem Declares.exists_of_mem (h : F.Declares text entries) {place : List Char}
    (hplace : place ∈ F.occurrences text) :
    ∃ entry ∈ entries, F.WellFormed entry ∧ F.entryText entry <+: place := by
  rw [Declares] at h
  generalize F.occurrences text = places at h hplace
  induction h with
  | nil => simp at hplace
  | cons hfirst _ ih =>
      rcases List.mem_cons.mp hplace with rfl | hplace
      · exact ⟨_, List.mem_cons_self, hfirst⟩
      · obtain ⟨entry, hentry, hread⟩ := ih hplace
        exact ⟨entry, List.mem_cons_of_mem _ hentry, hread⟩

/-- The entries can be read. -/
theorem Declares.wellFormed (h : F.Declares text entries) :
    ∀ entry ∈ entries, F.WellFormed entry := by
  rw [Declares] at h
  generalize F.occurrences text = places at h
  induction h with
  | nil => simp
  | cons hfirst _ ih => exact List.forall_mem_cons.mpr ⟨hfirst.1, ih⟩

/-- No place of the tag is inside an entry. -/
theorem isPrefixOf_drop {entry : Entry N} (h : F.WellFormed entry) (behind : List Char) {i : Nat}
    (hpos : 0 < i) (hlt : i < (F.entryText entry).length) :
    F.tag.isPrefixOf ((F.entryText entry ++ behind).drop i) = false := by
  by_contra htag
  rw [Bool.not_eq_false, List.isPrefixOf_iff_prefix] at htag
  have hlength : ((F.entryText entry ++ behind).drop i).length + i =
      (F.entryText entry).length + behind.length := by
    rw [List.length_drop, List.length_append]
    omega
  obtain heq | hbehind := tag_place h (List.drop_suffix i _) htag
  · rw [heq, List.length_append] at hlength
    omega
  · have hle := hbehind.length_le
    omega

/-- **The scan matches the declared entries**, if every place of the tag has one. -/
theorem Declares.allMatches_eq (h : F.Declares text entries) :
    allMatches F.matchEntry text = entries.map F.entryText := by
  have hnil : F.tag.isPrefixOf [] = false := by
    rw [F.isOpening_tag.eq_cons]
    rfl
  have hnone : ∀ s, F.tag.isPrefixOf s = false → F.matchEntry s = none := fun s hs =>
    matchEntry_of_not_tag (by rw [← List.isPrefixOf_iff_prefix, hs]; exact Bool.false_ne_true)
  have hsome : ∀ s, s <:+ text → F.tag.isPrefixOf s = true → ∃ n, F.matchEntry s = some n ∧
      0 < n ∧ ∀ i, 0 < i → i < n → F.tag.isPrefixOf (s.drop i) = false := by
    intro s hs htag
    obtain ⟨entry, -, hentry, behind, rfl⟩ :=
      h.exists_of_mem (List.mem_filter.mpr ⟨(List.mem_tails _ _).mpr hs, htag⟩)
    refine ⟨_, matchEntry_entryText hentry behind, ?_, fun i => isPrefixOf_drop hentry behind⟩
    rw [entryText, F.isOpening_tag.eq_cons]
    exact Nat.succ_pos _
  rw [Effects.allMatches_eq hnil hnone hsome, ← List.forall₂_eq_eq_eq,
    List.forall₂_map_left_iff, List.forall₂_map_right_iff]
  refine h.imp ?_
  rintro place entry ⟨hentry, behind, rfl⟩
  rw [matchEntry_entryText hentry, Option.getD_some, List.take_left]

/-- The text of an entry is not empty. -/
theorem entryText_ne_nil (entry : Entry N) : F.entryText entry ≠ [] := by
  rw [entryText]
  exact List.append_ne_nil_of_left_ne_nil F.isOpening_tag.ne_nil _

/-- The second scan finds the declared entries, and they pass through one list. -/
theorem Declares.entries_eq (h : F.Declares text entries) (hne : entries ≠ []) :
    F.entries text = expandList (joinItems (entries.map F.entryText)) := by
  have hjoin : joinItems (entries.map F.entryText) ≠ [] := by
    refine joinItems_ne_nil (by simpa using hne) fun item hitem => ?_
    obtain ⟨entry, -, rfl⟩ := List.mem_map.mp hitem
    exact entryText_ne_nil entry
  rw [Format.entries, h.allMatches_eq, elements, if_neg hjoin]

/-- A text that is not rejected declares an entry. -/
theorem Declares.ne_nil (h : F.Declares text entries) (hrejects : ¬ F.Rejects text) :
    entries ≠ [] := by
  rintro rfl
  exact hrejects (.noEntries (by rw [h.allMatches_eq, List.map_nil]))

/-! ### What the loop checks -/

/-- A piece that is not refused has passed its check. -/
theorem check_of_not_refuses (h : ¬ F.Refuses ids surfaces pieces) {piece : List Char}
    (hpiece : piece ∈ pieces) : F.check (F.readEntry piece) = none := by
  by_contra hcheck
  obtain ⟨before, after, rfl⟩ := List.append_of_mem hpiece
  exact h ⟨before, piece, after, rfl, .inl hcheck⟩

/-- The list of the loop joins what was read, if no part of it is empty. -/
theorem listBehind_eq {read : Entry N → List Char} {before : List (List Char)}
    (h : ∀ piece ∈ before, read (F.readEntry piece) ≠ []) :
    F.listBehind read [] before = joinItems (before.map fun piece => read (F.readEntry piece)) := by
  induction before using List.reverseRecOn with
  | nil => rfl
  | append_singleton before piece ih =>
      rw [List.forall_mem_append] at h
      rw [listBehind, List.foldl_append, List.foldl_cons, List.foldl_nil, ← listBehind, ih h.1,
        appendItem_joinItems (List.forall_mem_map.mpr h.1), List.map_append, List.map_singleton]

/-- The loop takes no ID twice. -/
theorem nodup_ids_of_not_refuses (h : ¬ F.Refuses [] [] pieces)
    (hids : ∀ piece ∈ pieces, IsId (F.readEntry piece).id) :
    (pieces.map fun piece => (F.readEntry piece).id).Nodup := by
  induction pieces using List.reverseRecOn with
  | nil => exact List.nodup_nil
  | append_singleton pieces piece ih =>
      rw [List.forall_mem_append] at hids
      have hrest : ¬ F.Refuses [] [] pieces := by
        rintro ⟨before, other, after, rfl, hrefused⟩
        exact h ⟨before, other, after ++ [piece], by simp, hrefused⟩
      have hfresh : (F.readEntry piece).id ∉ pieces.map fun piece => (F.readEntry piece).id := by
        intro hmem
        refine h ⟨pieces, piece, [], rfl, .inr (.inl ?_)⟩
        rw [listBehind_eq fun other hother => (hids.1 other hother).plain.2]
        refine (hasItem_iff ?_ ?_).mpr hmem
        · exact List.forall_mem_map.mpr fun other hother => (hids.1 other hother).plain.2
        · exact List.forall_mem_map.mpr fun other hother => (hids.1 other hother).plain.1
      rw [List.map_append, List.map_singleton, ← List.concat_eq_append, List.nodup_concat]
      exact ⟨hfresh, ih hrest hids.1⟩

/-! ### When a script fails closed -/

/-- Entries are read back from their texts. -/
theorem map_readEntry_entryText (h : ∀ entry ∈ entries, F.WellFormed entry) :
    (entries.map F.entryText).map F.readEntry = entries := by
  rw [List.map_map]
  exact (List.map_congr_left fun entry hentry => readEntry_entryText (h entry hentry)).trans
    (List.map_id entries)

/-- **What is emitted is what was declared**, if the list keeps the entries apart. -/
theorem projected_of_declares (h : F.Declares text entries) (hrejects : ¬ F.Rejects text)
    (hsurfaces : (entries.map fun entry => entry.value F.surface).Nodup)
    (hlist : expandList (joinItems (entries.map F.entryText)) = entries.map F.entryText) :
    F.Projected text ((F.entries text).map F.readEntry) := by
  have hread := map_readEntry_entryText h.wellFormed
  have hrefuses : ¬ F.Refuses [] [] (entries.map F.entryText) := by
    rw [← hlist, ← h.entries_eq (h.ne_nil hrejects)]
    exact fun hrefuses => hrejects (.refuses hrefuses)
  rw [h.entries_eq (h.ne_nil hrejects), hlist, hread]
  refine ⟨h, ?_, hsurfaces, fun entry hentry => ?_⟩
  · have hids := nodup_ids_of_not_refuses hrefuses <| List.forall_mem_map.mpr fun entry hentry => by
      rw [readEntry_entryText (h.wellFormed entry hentry)]
      exact (h.wellFormed entry hentry).isId
    have heq := congrArg (List.map Entry.id) hread
    rw [List.map_map] at heq
    rwa [← heq]
  · have hcheck := check_of_not_refuses hrefuses (List.mem_map_of_mem hentry)
    rwa [readEntry_entryText (h.wellFormed entry hentry)] at hcheck

/-- **A script fails closed** on the texts that it rejects and on those with whole entries. -/
theorem failsClosed_iff (F : Format N) (text : List Char) :
    F.FailsClosed text ↔ F.Rejects text ∨ F.Whole text := by
  constructor
  · intro hclosed
    by_cases hrejects : F.Rejects text
    · exact .inl hrejects
    · have hout := hclosed [] _ (project_eq_ok_iff.mpr ⟨hrejects, rfl⟩)
      have hne := hout.declares.ne_nil hrejects
      have hread := congrArg (List.map F.readEntry) (hout.declares.entries_eq hne)
      exact .inr ⟨_, hout.declares, hout.surfaces,
        expandList_of_readEntry hne hout.declares.wellFormed hout.ids hread.symm⟩
  · rintro (hrejects | ⟨entries, hdeclares, hsurfaces, hlist⟩) input out hproject
    · exact ((project_eq_ok_iff.mp hproject).1 hrejects).elim
    · obtain ⟨hrejects, rfl⟩ := project_eq_ok_iff.mp hproject
      exact projected_of_declares hdeclares hrejects hsurfaces hlist

/-- An entry with plain values is plain text. -/
theorem plain_entryText {entry : Entry N} (h : F.WellFormed entry)
    (hvalues : ∀ n, Plain (entry.value n)) : Plain (F.entryText entry) := by
  have hclose : Plain [')'] := by simp [Plain]
  have hfields : ∀ n, Plain (F.fieldText entry n) := fun n => List.forall_mem_cons.mpr
    ⟨by decide, List.forall_mem_append.mpr ⟨(F.isOpening_opening n).plain,
      List.forall_mem_append.mpr ⟨hvalues n, hclose⟩⟩⟩
  refine List.forall_mem_append.mpr ⟨F.isOpening_tag.plain,
    List.forall_mem_append.mpr ⟨h.isId.plain.1, List.forall_mem_append.mpr ⟨?_, hclose⟩⟩⟩
  intro c hc
  obtain ⟨n, -, hc⟩ := List.mem_flatMap.mp hc
  exact hfields n c hc

/-- Without brackets, semicolons and backslashes in the values the list is no obstacle. -/
theorem whole_of_plain (h : F.Declares text entries) (hne : entries ≠ [])
    (hsurfaces : (entries.map fun entry => entry.value F.surface).Nodup)
    (hvalues : ∀ entry ∈ entries, ∀ n, Plain (entry.value n)) : F.Whole text := by
  refine ⟨entries, h, hsurfaces, expandList_joinItems (by simpa using hne) ?_⟩
  intro item hitem
  obtain ⟨entry, hentry, rfl⟩ := List.mem_map.mp hitem
  exact plain_entryText (h.wellFormed entry hentry) (hvalues entry hentry)

/-- What is written of the entries that a script emits. -/
theorem FailsClosed.map_eq_ok {α : Type} {render : List (Entry N) → α} {written : α}
    (hclosed : F.FailsClosed text) (h : (F.project input text).map render = .ok written) :
    ∃ entries, F.Projected text entries ∧ written = render entries := by
  cases hproject : F.project input text with
  | error reason => simp [hproject, Except.map] at h
  | ok entries =>
      rw [hproject] at h
      exact ⟨entries, hclosed input entries hproject, (Except.ok.inj h).symm⟩

/-- A script that emits more or fewer entries than there are places of the tag. -/
theorem not_failsClosed {n : Nat} (hproject : (F.project [] text).toOption.map List.length = some n)
    (hplaces : (F.occurrences text).length ≠ n) : ¬ F.FailsClosed text := by
  intro hclosed
  cases hresult : F.project [] text with
  | error reason => simp [hresult, Except.toOption] at hproject
  | ok out =>
      rw [hresult] at hproject
      rw [(hclosed [] out hresult).declares.length_eq] at hplaces
      exact hplaces (Option.some.inj hproject)

end Format

/-! ### The two scripts -/

/-- What is in a header that `GenerateHostOperations.cmake` has written. -/
theorem generateHostOperations_eq_ok {input text header : List Char} {markdown : Bool}
    {table : Option (List Char)} (hclosed : hostOperations.FailsClosed text)
    (h : generateHostOperations input text markdown = .ok (header, table)) :
    ∃ entries, hostOperations.Projected text entries ∧
      header = operationsPrologue ++ entries.flatMap operationLine ++
        "\x7d // namespace host_operations\n".toList := by
  obtain ⟨entries, hprojected, heq⟩ := hclosed.map_eq_ok h
  exact ⟨entries, hprojected, (Prod.mk.inj heq).1⟩

/-- And in one that `GenerateHostBindings.cmake` has written. -/
theorem generateHostBindings_eq_ok {input text header : List Char}
    (hclosed : hostBindings.FailsClosed text)
    (h : generateHostBindings input text = .ok header) :
    ∃ entries, hostBindings.Projected text entries ∧
      header = bindingsPrologue ++ entries.flatMap bindingLine ++
        "\x7d // namespace host_bindings\n".toList :=
  hclosed.map_eq_ok h

/-- **Both projections fail closed** exactly on the registries that a check of the script rejects,
and on those where every place of the tag has a whole entry and the list keeps the entries. -/
theorem registries_failsClosed_iff (text : List Char) :
    (hostOperations.FailsClosed text ↔ hostOperations.Rejects text ∨ hostOperations.Whole text) ∧
      (hostBindings.FailsClosed text ↔ hostBindings.Rejects text ∨ hostBindings.Whole text) :=
  ⟨hostOperations.failsClosed_iff text, hostBindings.failsClosed_iff text⟩

/-- The first of two operations has no owner. -/
def operationWithoutOwner : List Char :=
  ["(host-operations/2\n",
    "  (cp:0001 ", "(semantic-id none) ", "(surface uk log) ", "(arity 0) ", "(effect mutate) ",
    "(input none) ", "(result nil) ", "(ffi LogPrimitive) ", "(status live) ",
    "(evidence slice))\n",
    "  (cp:0002 ", "(semantic-id none) ", "(surface uk say) ", "(arity 0) ", "(effect mutate) ",
    "(input none) ", "(result nil) ", "(owner ", "cyberpunk-host) ", "(ffi SayPrimitive) ",
    "(status live) ", "(evidence slice))\n", ")\n"].flatMap String.toList

/-- The first of two bindings has no owner. -/
def bindingWithoutOwner : List Char :=
  ["(host-bindings/1\n", "  (cpb:0001 ", "(surface uk log) ", "(kind primitive))\n",
    "  (cpb:0002 ", "(surface uk say) ", "(kind primitive) ", "(owner ", "cyberpunk-host))\n",
    ")\n"].flatMap String.toList

/-- The entry without an owner is left out, since another entry is valid. -/
theorem not_failsClosed_withoutOwner : ¬ hostOperations.FailsClosed operationWithoutOwner ∧
    ¬ hostBindings.FailsClosed bindingWithoutOwner :=
  ⟨Format.not_failsClosed (n := 1) (by decide +kernel) (by decide +kernel),
    Format.not_failsClosed (n := 1) (by decide +kernel) (by decide +kernel)⟩

end Registry

end LispHost
