import LispHost.HostRegistry

/-!
# The Text of an Entry

A registry entry is written with its tag and ID and then its fields in the order of the pattern,
with one space in front of each. The pattern of an entry matches exactly this text, and reading
its fields gives the entry back. Both need that no parenthesis of the text is anything but the
beginning of the entry or of a field.

## Main definitions

* `Registry.Format.entryText`: the text of an entry.
* `Registry.Format.WellFormed`: four digits, and values without parentheses.

## Main results

* `Registry.Format.mem_places_entryText`: what begins at a parenthesis of an entry.
* `Registry.Format.matchEntry_entryText`: the pattern matches the text of an entry.
* `Registry.Format.readEntry_entryText`: and the fields of the match are those of the entry.
-/

namespace LispHost

open Effects

namespace Registry

variable {s t rest behind id value : List Char}

/-- An ID has four digits. -/
theorem IsId.length_eq (h : IsId id) : id.length = 4 := h.1

/-- Its characters are digits. -/
theorem IsId.mem_isDigit (h : IsId id) {c : Char} (hc : c ∈ id) : c.isDigit = true :=
  List.all_eq_true.mp h.2 c hc

/-- What is no digit is not in an ID. -/
theorem IsId.notMem (h : IsId id) {c : Char} (hc : c.isDigit = false) : c ∉ id := fun hmem => by
  rw [h.mem_isDigit hmem] at hc
  exact Bool.noConfusion hc

/-- An ID is plain text. -/
theorem IsId.plain {id : List Char} (h : IsId id) : Plain id ∧ id ≠ [] := by
  refine ⟨fun c hc => ?_, ?_⟩
  · have hdigit := h.mem_isDigit hc
    refine ⟨?_, ?_, ?_, ?_⟩ <;> rintro rfl <;> exact absurd hdigit (by decide)
  · rintro rfl
    exact absurd h.length_eq (by decide)

/-- An opening begins with a parenthesis. -/
theorem IsOpening.eq_cons (h : IsOpening s) : s = '(' :: s.tail :=
  List.eq_cons_of_mem_head? h.1

/-- So it is not empty. -/
theorem IsOpening.ne_nil (h : IsOpening s) : s ≠ [] := by
  rw [h.eq_cons]
  exact List.cons_ne_nil _ _

/-- Behind the parenthesis there are no characters that mean something. -/
theorem IsOpening.tail_ne (h : IsOpening s) {c : Char} (hc : c ∈ s.tail) :
    c ≠ '(' ∧ c ≠ ';' ∧ c ≠ '[' ∧ c ≠ ']' ∧ c ≠ '\\' := by
  simpa using List.all_eq_true.mp h.2 c hc

/-- An opening is plain text. -/
theorem IsOpening.plain (h : IsOpening s) : Plain s := by
  intro c hc
  rw [h.eq_cons] at hc
  rcases List.mem_cons.mp hc with rfl | hc
  · decide
  · exact (h.tail_ne hc).2

/-- It has neither semicolons nor backslashes. -/
theorem IsOpening.notMem (h : IsOpening s) {c : Char} (hc : c = ';' ∨ c = '\\') : c ∉ s := by
  intro hmem
  obtain ⟨hsemicolon, -, -, hbackslash⟩ := h.plain c hmem
  exact hc.elim hsemicolon hbackslash

/-- The only parenthesis of an opening is the first character. -/
theorem IsOpening.places_append (h : IsOpening s) (rest : List Char) :
    suffixesAt '(' (s ++ rest) = (s ++ rest) :: suffixesAt '(' rest := by
  have htail : '(' ∉ s.tail := fun hmem => (h.tail_ne hmem).1 rfl
  rw [h.eq_cons, List.cons_append, suffixesAt_cons_self, suffixesAt_append_of_notMem htail]

/-- A prefix is dropped. -/
theorem dropPrefix?_append_self (s rest : List Char) : (s ++ rest).dropPrefix? s = some rest :=
  List.dropPrefix?_append_of_beq rest (beq_self_eq_true s)

/-- So is a first character. -/
theorem dropPrefix?_cons_self (c : Char) (s : List Char) : (c :: s).dropPrefix? [c] = some s :=
  dropPrefix?_append_self [c] s

namespace Format

variable {N : Type} {F : Format N} {n : N} {entry : Entry N}

/-! ### The patterns -/

/-- What is matched as an ID is the tag and four digits. -/
theorem matchId_eq_some_iff : F.matchId s = some (id, rest) ↔
    IsId id ∧ s = F.tag ++ (id ++ rest) := by
  rw [matchId]
  constructor
  · intro h
    obtain ⟨behind, htag, hid⟩ := Option.bind_eq_some_iff.mp h
    obtain ⟨tag, rfl, heq⟩ := List.dropPrefix?_eq_some_iff.mp htag
    split_ifs at hid with hdigits
    obtain ⟨rfl, rfl⟩ := Prod.mk.inj (Option.some.inj hid)
    rw [List.take_append_drop, eq_of_beq heq]
    exact ⟨hdigits, rfl⟩
  · rintro ⟨hid, rfl⟩
    rw [dropPrefix?_append_self, Option.bind_some, ← hid.length_eq,
       List.take_left, List.drop_left, if_pos hid]

/-- The value runs to the first closing parenthesis. -/
theorem matchValue_eq_some_iff : F.matchValue n s = some (value, behind) ↔
    value ≠ [] ∧ (∀ c ∈ value, F.inValue n c = true) ∧
      s = F.opening n ++ (value ++ ')' :: behind) := by
  rw [matchValue]
  constructor
  · intro h
    obtain ⟨rest, hopening, hvalue⟩ := Option.bind_eq_some_iff.mp h
    obtain ⟨opening, rfl, heq⟩ := List.dropPrefix?_eq_some_iff.mp hopening
    split_ifs at hvalue with hne
    obtain ⟨behind', hclose, hsome⟩ := Option.map_eq_some_iff.mp hvalue
    obtain ⟨rfl, rfl⟩ := Prod.mk.inj hsome
    obtain ⟨close, hrest, hclose⟩ := List.dropPrefix?_eq_some_iff.mp hclose
    refine ⟨hne, List.all_eq_true.mp List.all_takeWhile, ?_⟩
    rw [eq_of_beq hclose, List.singleton_append] at hrest
    rw [← hrest, List.takeWhile_append_dropWhile, eq_of_beq heq]
  · rintro ⟨hne, hvalue, rfl⟩
    have hclose : ¬ F.inValue n ')' = true := by rw [F.inValue_close]; exact Bool.false_ne_true
    have htake : (value ++ ')' :: behind).takeWhile (F.inValue n) = value := by
      rw [List.takeWhile_append_of_pos hvalue, List.takeWhile_cons_of_neg hclose, List.append_nil]
    have hdrop : (value ++ ')' :: behind).dropWhile (F.inValue n) = ')' :: behind := by
      rw [List.dropWhile_append_of_pos hvalue, List.dropWhile_cons_of_neg hclose]
    rw [dropPrefix?_append_self, Option.bind_some, htake, hdrop, if_neg hne,
      dropPrefix?_cons_self, Option.map_some]

/-! ### The text -/

variable (F)

/-- The text of a field, with the space in front of it. -/
def fieldText (entry : Entry N) (n : N) : List Char :=
  ' ' :: (F.opening n ++ (entry.value n ++ [')']))

/-- The text of some fields. -/
def fieldsText (entry : Entry N) (ns : List N) : List Char := ns.flatMap (F.fieldText entry)

/-- The text of an entry, with its fields in the order of the pattern. -/
def entryText (entry : Entry N) : List Char :=
  F.tag ++ (entry.id ++ (F.fieldsText entry F.fields ++ [')']))

/-- An entry whose text can be read. -/
structure WellFormed (entry : Entry N) : Prop where
  isId : IsId entry.id
  value_ne_nil : ∀ n, entry.value n ≠ []
  inValue : ∀ n, ∀ c ∈ entry.value n, F.inValue n c = true
  noOpen : ∀ n, '(' ∉ entry.value n

variable {F}

/-- The first field comes before the others. -/
theorem fieldsText_cons (entry : Entry N) (n : N) (ns : List N) (rest : List Char) :
    F.fieldsText entry (n :: ns) ++ rest =
      ' ' :: (F.opening n ++ (entry.value n ++ ')' :: (F.fieldsText entry ns ++ rest))) := by
  simp [fieldsText, fieldText]

/-- An entry, part by part, with what is behind it. -/
theorem entryText_append (entry : Entry N) (rest : List Char) :
    F.entryText entry ++ rest =
      F.tag ++ (entry.id ++ (F.fieldsText entry F.fields ++ ')' :: rest)) := by
  simp [entryText]

/-- A field and what is behind it are at the end of their entry. -/
theorem field_suffix (entry : Entry N) {before after : List N}
    (h : F.fields = before ++ n :: after) :
    F.opening n ++ (entry.value n ++ ')' :: (F.fieldsText entry after ++ [')'])) <:+
      F.entryText entry := by
  refine ⟨F.tag ++ entry.id ++ F.fieldsText entry before ++ [' '], ?_⟩
  simp [entryText, h, fieldsText, fieldText]

namespace WellFormed

/-- No value closes a parenthesis. -/
theorem noClose (h : F.WellFormed entry) (n : N) : ')' ∉ entry.value n := by
  intro hmem
  have hclose := h.inValue n _ hmem
  rw [F.inValue_close] at hclose
  exact Bool.false_ne_true hclose

end WellFormed

/-! ### The places -/

/-- What begins at a parenthesis of the fields, or behind them. -/
theorem mem_places_fieldsText (h : F.WellFormed entry) {ns : List N}
    (ht : t ∈ suffixesAt '(' (F.fieldsText entry ns ++ rest)) :
    (∃ before n after, ns = before ++ n :: after ∧
        t = F.opening n ++ (entry.value n ++ ')' :: (F.fieldsText entry after ++ rest))) ∨
      t ∈ suffixesAt '(' rest := by
  induction ns with
  | nil => exact .inr ht
  | cons n ns ih =>
      rw [fieldsText_cons, suffixesAt_cons_of_ne (by decide),
        (F.isOpening_opening n).places_append, suffixesAt_append_of_notMem (h.noOpen n),
        suffixesAt_cons_of_ne (by decide)] at ht
      rcases List.mem_cons.mp ht with rfl | ht
      · exact .inl ⟨[], n, ns, rfl, rfl⟩
      · refine (ih ht).imp_left ?_
        rintro ⟨before, m, after, rfl, rfl⟩
        exact ⟨n :: before, m, after, rfl, rfl⟩

/-- **What begins at a parenthesis** of an entry is the entry or one of its fields. -/
theorem mem_places_entryText (h : F.WellFormed entry)
    (ht : t ∈ suffixesAt '(' (F.entryText entry ++ rest)) :
    t = F.entryText entry ++ rest ∨
      (∃ before n after, F.fields = before ++ n :: after ∧
        t = F.opening n ++ (entry.value n ++ ')' :: (F.fieldsText entry after ++ ')' :: rest))) ∨
      t ∈ suffixesAt '(' rest := by
  rw [entryText_append, F.isOpening_tag.places_append,
    suffixesAt_append_of_notMem (h.isId.notMem rfl), List.mem_cons] at ht
  rw [entryText_append]
  refine ht.imp_right fun ht => (mem_places_fieldsText h ht).imp_right fun ht => ?_
  rwa [suffixesAt_cons_of_ne (by decide)] at ht

/-- What begins with an opening is found at a place. -/
theorem mem_places (hopening : IsOpening s) (hs : s <+: t) (ht : t <:+ rest) :
    t ∈ suffixesAt '(' rest := by
  obtain ⟨behind, rfl⟩ := hs
  refine mem_suffixesAt.mpr ⟨ht, ?_⟩
  rw [hopening.eq_cons]
  rfl

/-- Two patterns that begin at one place. -/
theorem comparable {a b c : List Char} (ha : a <+: t) (hb : t = b ++ c) : a <+: b ∨ b <+: a :=
  List.prefix_or_prefix_of_prefix ha (hb ▸ List.prefix_append b c)

/-- The tag is only at the beginning of an entry. -/
theorem tag_place (h : F.WellFormed entry) (ht : t <:+ F.entryText entry ++ rest)
    (htag : F.tag <+: t) : t = F.entryText entry ++ rest ∨ t <:+ rest := by
  obtain heq | ⟨_, n, _, _, hfield⟩ | hrest :=
    mem_places_entryText h (mem_places F.isOpening_tag htag ht)
  · exact .inl heq
  · exact ((comparable htag hfield).elim (F.tag_apart n).1 (F.tag_apart n).2).elim
  · exact .inr (mem_suffixesAt.mp hrest).1

/-- The tag is found once in an entry, at its beginning. -/
theorem tag_place_self (h : F.WellFormed entry) (ht : t <:+ F.entryText entry)
    (htag : t = F.tag ++ rest) : t = F.entryText entry := by
  rw [← List.append_nil (F.entryText entry)] at ht
  obtain heq | hnil := tag_place h ht (htag ▸ List.prefix_append _ _)
  · rw [heq, List.append_nil]
  · rw [List.suffix_nil.mp hnil] at htag
    exact (F.isOpening_tag.ne_nil (List.append_eq_nil_iff.mp htag.symm).1).elim

/-- The opening of a field is only at the field. -/
theorem opening_place (h : F.WellFormed entry) (ht : t <:+ F.entryText entry)
    (hopening : F.opening n <+: t) :
    ∃ before after, F.fields = before ++ n :: after ∧
      t = F.opening n ++ (entry.value n ++ ')' :: (F.fieldsText entry after ++ [')'])) := by
  rw [← List.append_nil (F.entryText entry)] at ht
  obtain heq | ⟨before, m, after, hfields, rfl⟩ | hrest :=
    mem_places_entryText h (mem_places (F.isOpening_opening n) hopening ht)
  · rw [entryText_append] at heq
    exact ((comparable hopening heq).elim (F.tag_apart n).2 (F.tag_apart n).1).elim
  · obtain rfl : n = m := (comparable hopening rfl).elim (F.opening_injective n m)
      fun hm => (F.opening_injective m n hm).symm
    exact ⟨before, after, hfields, rfl⟩
  · simp at hrest

/-! ### Matching and reading -/

/-- The fields of an entry match their pattern. -/
theorem matchFields_fieldsText (h : F.WellFormed entry) (ns : List N) (rest : List Char) :
    F.matchFields ns (F.fieldsText entry ns ++ rest) = some rest := by
  induction ns with
  | nil => rfl
  | cons n ns ih =>
      rw [fieldsText_cons, matchFields, dropPrefix?_cons_self, Option.bind_some,
        matchValue_eq_some_iff.mpr ⟨h.value_ne_nil n, h.inValue n, rfl⟩, Option.bind_some, ih]

/-- **The pattern matches the text of an entry**, whatever is behind it. -/
theorem matchEntry_entryText (h : F.WellFormed entry) (rest : List Char) :
    F.matchEntry (F.entryText entry ++ rest) = some (F.entryText entry).length := by
  have hlength : (F.entryText entry ++ rest).length - rest.length =
      (F.entryText entry).length := by
    rw [List.length_append, Nat.add_sub_cancel]
  rw [← hlength, entryText_append, matchEntry, matchId_eq_some_iff.mpr ⟨h.isId, rfl⟩,
    Option.bind_some, matchFields_fieldsText h, Option.bind_some, dropPrefix?_cons_self,
    Option.map_some]

/-- Only what begins with the tag matches. -/
theorem matchEntry_of_not_tag (h : ¬ F.tag <+: s) : F.matchEntry s = none := by
  rw [matchEntry, matchId, Option.bind_eq_none_iff]
  intro found hfound
  obtain ⟨rest, htag, -⟩ := Option.bind_eq_some_iff.mp hfound
  obtain ⟨tag, rfl, heq⟩ := List.dropPrefix?_eq_some_iff.mp htag
  rw [eq_of_beq heq] at h
  exact (h (List.prefix_append _ _)).elim

/-- The ID of an entry is read back. -/
theorem readEntry_id (h : F.WellFormed entry) :
    (F.readEntry (F.entryText entry)).id = entry.id := by
  refine lastFound_eq ⟨_, List.suffix_refl _, ?_⟩ fun s other hs hother => ?_
  · rw [entryText, matchId_eq_some_iff.mpr ⟨h.isId, rfl⟩, Option.map_some]
  · obtain ⟨⟨id, rest⟩, hid, rfl⟩ := Option.map_eq_some_iff.mp hother
    obtain rfl := tag_place_self h hs (matchId_eq_some_iff.mp hid).2
    rw [entryText, matchId_eq_some_iff.mpr ⟨h.isId, rfl⟩] at hid
    exact (Prod.mk.inj (Option.some.inj hid)).1.symm

/-- So are its values. -/
theorem readEntry_value (h : F.WellFormed entry) (n : N) :
    (F.readEntry (F.entryText entry)).value n = entry.value n := by
  refine lastFound_eq ?_ fun s other hs hother => ?_
  · obtain ⟨before, after, hfields⟩ := List.append_of_mem (F.mem_fields n)
    refine ⟨_, field_suffix entry hfields, ?_⟩
    rw [matchValue_eq_some_iff.mpr ⟨h.value_ne_nil n, h.inValue n, rfl⟩, Option.map_some]
  · obtain ⟨⟨value, behind⟩, hvalue, rfl⟩ := Option.map_eq_some_iff.mp hother
    have hopening : F.opening n <+: s := by
      rw [(matchValue_eq_some_iff.mp hvalue).2.2]
      exact List.prefix_append _ _
    obtain ⟨before, after, -, hplace⟩ := opening_place h hs hopening
    rw [matchValue_eq_some_iff.mpr ⟨h.value_ne_nil n, h.inValue n, hplace⟩] at hvalue
    exact (Prod.mk.inj (Option.some.inj hvalue)).1.symm

/-- **Reading the text of an entry** gives the entry back. -/
theorem readEntry_entryText (h : F.WellFormed entry) :
    F.readEntry (F.entryText entry) = entry :=
  Entry.ext (readEntry_id h) (funext (readEntry_value h))

end Format

end Registry

end LispHost
