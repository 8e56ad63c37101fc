import LispHost.Calls

/-!
# Runs That Differ in Ids and Handle Numbers

Two runs with other symbol ids and other handle numbers. The relation between them pairs a
symbol with the symbol of the same name, and a boxed word with the one that a `Renaming` gives
it; any other word is equal in both. It is a partial bijection that grows while the two runs
wrap values, and paired boxed words resolve to equal entries. Where the primitives do not look
at ids and handle numbers, machines that are alike answer alike.

## Main definitions

* `Renaming`, `Alike`: the relation between the words of the two runs.
* `Renaming.Joins`: the relation between the boxed tables.
* `HostPrimitive.Equivariant`: primitives that do not look at ids and handle numbers.
* `Machine.AlikeAt`: machines that are alike in front of a call.

## Main results

* `Alike.eq_iff`: the relation renames words.
* `Renaming.Joins.add`: wrapping a value in both runs pairs the two new words.
* `callSim_alike`: machines that are alike work alike.
-/

namespace LispHost

open Effects

/-! ### Renaming words -/

/-- A partial bijection between the boxed words of two runs. -/
structure Renaming where
  rel : Word → Word → Prop
  tagged : ∀ {v w}, rel v w → tagOf v = tagBoxed ∧ tagOf w = tagBoxed
  right_unique : ∀ {v w w'}, rel v w → rel v w' → w = w'
  left_unique : ∀ {v v' w}, rel v w → rel v' w → v = v'

instance : Preorder Renaming where
  le k l := ∀ v w, k.rel v w → l.rel v w
  le_refl _ _ _ h := h
  le_trans _ _ _ h h' v w hvw := h' v w (h v w hvw)

namespace Renaming

/-- The renaming with a pair of words that it does not have yet. -/
def extend (k : Renaming) {v w : Word} (hv : tagOf v = tagBoxed) (hw : tagOf w = tagBoxed)
    (hleft : ∀ w', ¬ k.rel v w') (hright : ∀ v', ¬ k.rel v' w) : Renaming where
  rel v' w' := k.rel v' w' ∨ v' = v ∧ w' = w
  tagged := by
    rintro v' w' (h | ⟨rfl, rfl⟩)
    · exact k.tagged h
    · exact ⟨hv, hw⟩
  right_unique := by
    rintro v' w₁ w₂ (h | ⟨rfl, rfl⟩) (h' | ⟨h₁, rfl⟩)
    · exact k.right_unique h h'
    · exact absurd (h₁ ▸ h) (hleft _)
    · exact absurd h' (hleft _)
    · rfl
  left_unique := by
    rintro v₁ v₂ w' (h | ⟨rfl, rfl⟩) (h' | ⟨rfl, h₂⟩)
    · exact k.left_unique h h'
    · exact absurd (h₂ ▸ h) (hright _)
    · exact absurd h' (hright _)
    · rfl

/-- **What the tables of two runs have in common.** Paired words resolve to the same entry,
and the second table is no longer than the first. -/
structure Joins (P : Platform) (k : Renaming) (a b : BoxedTable) : Prop where
  resolves : ∀ {v w}, k.rel v w → ∃ e, a.entry P v = some e ∧ b.entry P w = some e
  length_le : b.values.length ≤ a.values.length

variable {P : Platform} {k : Renaming} {a b : BoxedTable}

/-- A word whose handle is the next one to be handed out is not paired. -/
theorem Joins.not_rel_left (h : k.Joins P a b) {v : Word}
    (hv : P.encodeBoxed (a.values.length + 1) = some v) (w : Word) : ¬ k.rel v w := by
  intro hvw
  obtain ⟨e, hentry, -⟩ := h.resolves hvw
  rw [BoxedTable.entry_of_encodeBoxed hv, List.getElem?_eq_none le_rfl] at hentry
  cases hentry

/-- The new handle on the right has no partner yet. -/
theorem Joins.not_rel_right (h : k.Joins P a b) {w : Word}
    (hw : P.encodeBoxed (b.values.length + 1) = some w) (v : Word) : ¬ k.rel v w := by
  intro hvw
  obtain ⟨e, -, hentry⟩ := h.resolves hvw
  rw [BoxedTable.entry_of_encodeBoxed hw, List.getElem?_eq_none le_rfl] at hentry
  cases hentry

/-- **Wrapping a value in both runs.** Where the first table takes it, the second one does,
and the two new words become a pair. -/
theorem Joins.add {ε : Type} (h : k.Joins P a b) (value : BoxedValue) (lifetime : BoxedLifetime) :
    (BoxedTable.add (ε := ε) P value lifetime a).1 = .abort .allocation ∨
      ∃ v w l, k ≤ l ∧ l.rel v w ∧
        (BoxedTable.add (ε := ε) P value lifetime a).1 = .ok v ∧
        (BoxedTable.add (ε := ε) P value lifetime b).1 = .ok w ∧
        l.Joins P (BoxedTable.add (ε := ε) P value lifetime a).2
          (BoxedTable.add (ε := ε) P value lifetime b).2 := by
  obtain hfull | ⟨v, hroom, hv, hadd⟩ := BoxedTable.add_eq (P := P) (ε := ε) value lifetime a
  · exact .inl (by rw [hfull])
  · have hroom' : b.values.length + 1 < addressSpace := by
      have := h.length_le
      omega
    obtain ⟨w, hw, hadd'⟩ := BoxedTable.add_eq_ok (P := P) (ε := ε) value lifetime hroom'
    have hentry := BoxedTable.entry_push (e := ⟨value, lifetime⟩) hv hroom
    have hentry' := BoxedTable.entry_push (e := ⟨value, lifetime⟩) hw hroom'
    refine .inr ⟨v, w, k.extend (P.tagOf_encodeBoxed _ _ hv) (P.tagOf_encodeBoxed _ _ hw)
      (h.not_rel_left hv) (h.not_rel_right hw), fun _ _ => .inl, .inr ⟨rfl, rfl⟩,
      by rw [hadd], by rw [hadd'], ?_⟩
    rw [hadd, hadd']
    constructor
    · rintro v' w' (hvw | ⟨rfl, rfl⟩)
      · obtain ⟨e, hv', hw'⟩ := h.resolves hvw
        exact ⟨e, BoxedTable.entry_mono (a.le_push _ hroom) hv',
          BoxedTable.entry_mono (b.le_push _ hroom') hw'⟩
      · exact ⟨_, hentry, hentry'⟩
    · have := h.length_le
      simp only [BoxedTable.push, List.length_append, List.length_singleton]
      omega

end Renaming

/-- **The words of two runs.** A symbol goes with the symbol of the same name, a boxed word
with the one it is renamed to, and any other word with itself. -/
inductive Alike (left right : SymbolTable) (k : Renaming) : Word → Word → Prop
  | same {word : Word} (hsymbol : tagOf word ≠ tagSymbol) (hboxed : tagOf word ≠ tagBoxed) :
      Alike left right k word word
  | symbol {v w : Word} {name : String} (hv : tagOf v = tagSymbol) (hw : tagOf w = tagSymbol)
      (hname : left.nameOf v = some name) (hname' : right.nameOf w = some name) :
      Alike left right k v w
  | boxed {v w : Word} (h : k.rel v w) : Alike left right k v w

namespace Alike

variable {left right left' right' : SymbolTable} {k l : Renaming} {v w : Word}

/-- Words that are alike stay so in later tables. -/
theorem mono (hleft : left ≤ left') (hright : right ≤ right') (hkl : k ≤ l)
    (h : Alike left right k v w) : Alike left' right' l v w := by
  cases h with
  | same hsymbol hboxed => exact .same hsymbol hboxed
  | symbol hv hw hname hname' =>
      exact .symbol hv hw (SymbolTable.nameOf_mono hleft hname)
        (SymbolTable.nameOf_mono hright hname')
  | boxed h => exact .boxed (hkl _ _ h)

/-- Words that are alike have one tag. -/
theorem tag_eq (h : Alike left right k v w) : tagOf v = tagOf w := by
  cases h with
  | same => rfl
  | symbol hv hw => rw [hv, hw]
  | boxed h => rw [(k.tagged h).1, (k.tagged h).2]

/-- A word that is neither a symbol nor boxed is alike to itself only. -/
theorem eq_of_tag (h : Alike left right k v w) (hsymbol : tagOf v ≠ tagSymbol)
    (hboxed : tagOf v ≠ tagBoxed) : v = w := by
  cases h with
  | same => rfl
  | symbol hv => exact absurd hv hsymbol
  | boxed h => exact absurd (k.tagged h).1 hboxed

/-- The empty list is alike to itself only. -/
theorem nil_iff (h : Alike left right k v w) : v = wordNil ↔ w = wordNil := by
  constructor
  · rintro rfl
    exact (h.eq_of_tag (by decide) (by decide)).symm
  · rintro rfl
    refine h.eq_of_tag ?_ ?_
    · rw [h.tag_eq]
      decide
    · rw [h.tag_eq]
      decide

/-- Symbols that are alike have the same name. -/
theorem nameOf_eq (h : Alike left right k v w) (htag : tagOf v = tagSymbol) :
    left.nameOf v = right.nameOf w := by
  cases h with
  | same hsymbol => exact absurd htag hsymbol
  | symbol _ _ hname hname' => rw [hname, hname']
  | boxed h =>
      rw [(k.tagged h).1] at htag
      exact absurd htag (by decide)

/-- A word has one partner on the right. -/
theorem right_unique {w' : Word} (h : Alike left right k v w) (h' : Alike left right k v w') :
    w = w' := by
  cases h with
  | same hsymbol hboxed => exact h'.eq_of_tag hsymbol hboxed
  | symbol hv hw hname hname' =>
      have hnames := h'.nameOf_eq hv
      rw [hname] at hnames
      exact SymbolTable.nameOf_inj hw (h'.tag_eq ▸ hv) hname' hnames.symm
  | boxed h =>
      cases h' with
      | same _ hboxed => exact absurd (k.tagged h).1 hboxed
      | symbol hv =>
          rw [(k.tagged h).1] at hv
          exact absurd hv (by decide)
      | boxed h' => exact k.right_unique h h'

/-- And one on the left. -/
theorem left_unique {v' : Word} (h : Alike left right k v w) (h' : Alike left right k v' w) :
    v = v' := by
  cases h with
  | same hsymbol hboxed =>
      rw [← h'.tag_eq] at hsymbol hboxed
      exact (h'.eq_of_tag hsymbol hboxed).symm
  | symbol hv hw hname hname' =>
      have hv' := h'.tag_eq.trans hw
      have hnames := h'.nameOf_eq hv'
      rw [hname'] at hnames
      exact SymbolTable.nameOf_inj hv hv' hname hnames
  | boxed h =>
      cases h' with
      | same _ hboxed => exact absurd (k.tagged h).2 hboxed
      | symbol _ hw =>
          rw [(k.tagged h).2] at hw
          exact absurd hw (by decide)
      | boxed h' => exact k.left_unique h h'

/-- **The relation renames words**: equal words are alike to equal words only. -/
theorem eq_iff {v₁ v₂ w₁ w₂ : Word} (h₁ : Alike left right k v₁ w₁)
    (h₂ : Alike left right k v₂ w₂) : v₁ = v₂ ↔ w₁ = w₂ := by
  constructor
  · rintro rfl
    exact h₁.right_unique h₂
  · rintro rfl
    exact h₁.left_unique h₂

end Alike

/-! ### Primitives that do not look at ids and handle numbers -/

section Host

variable {σ : Type} (P : Platform) (R : Renaming → σ → σ → Prop)

/-- Two words that a host hands out: alike, and no pairs. -/
def HostAlike (left right : SymbolTable) (k : Renaming) (v w : Word) : Prop :=
  Alike left right k v w ∧ tagOf v ≠ tagCons

/-- Two worlds of the host that are alike, where `R` says when its own states are. -/
structure HostWorld.AlikeAt (left right : SymbolTable) (k : Renaming)
    (world world' : HostWorld σ) : Prop where
  boxed : k.Joins P world.boxed world'.boxed
  bindings : ∀ name, Option.Rel (HostAlike left right k) (world.bindings.value name)
    (world'.bindings.value name)
  host : R k world.host world'.host

/-- Two calls that end alike. -/
inductive HostResult.AlikeAt (left right : SymbolTable) (k : Renaming) :
    HostResult → HostResult → Prop
  | ok {v w : Word} (h : HostAlike left right k v w) : AlikeAt left right k (.ok v) (.ok w)
  | failed (message : String) : AlikeAt left right k (.failed message) (.failed message)
  | panicked : AlikeAt left right k .panicked .panicked

/-- **A primitive that does not look at ids and handle numbers.** On arguments and in worlds
that are alike it ends alike, unless it ends the process; what it has wrapped extends the
renaming. -/
def HostPrimitive.Equivariant (primitive : HostPrimitive σ) : Prop :=
  ∀ left right k args args' world world', List.Forall₂ (Alike left right k) args args' →
    HostWorld.AlikeAt P R left right k world world' →
    (primitive.call args world).1 = .exited ∨
      ∃ l, k ≤ l ∧
        HostResult.AlikeAt left right l (primitive.call args world).1
          (primitive.call args' world').1 ∧
        HostWorld.AlikeAt P R left right l (primitive.call args world).2
          (primitive.call args' world').2

/-- No primitive looks at ids and handle numbers. -/
structure Primitives.Equivariant (primitives : Primitives σ) : Prop where
  mono : ∀ {k l host host'}, k ≤ l → R k host host' → R l host host'
  primitive : ∀ {name primitive}, primitives name = some primitive →
    primitive.Equivariant P R

/-- Two calls of the same primitive on arguments that are alike, which end alike. -/
structure HostCall.AlikeAt (left right : SymbolTable) (k : Renaming) (call call' : HostCall) :
    Prop where
  name : call.name = call'.name
  args : List.Forall₂ (Alike left right k) call.args call'.args
  result : HostResult.AlikeAt left right k call.result call'.result

/-- Two records of calls that are alike behind the given ones. -/
def CallsAlike (base base' : List HostCall) (left right : SymbolTable) (k : Renaming)
    (calls calls' : List HostCall) : Prop :=
  ∃ new new', calls = base ++ new ∧ calls' = base' ++ new' ∧
    List.Forall₂ (HostCall.AlikeAt left right k) new new'

variable {P R} {left right left' right' : SymbolTable} {k l : Renaming}

/-- Words for the host that are alike stay so. -/
theorem HostAlike.mono (hleft : left ≤ left') (hright : right ≤ right') (hkl : k ≤ l)
    {v w : Word} (h : HostAlike left right k v w) : HostAlike left' right' l v w :=
  ⟨h.1.mono hleft hright hkl, h.2⟩

/-- Results that are alike stay so. -/
theorem HostResult.AlikeAt.mono (hleft : left ≤ left') (hright : right ≤ right') (hkl : k ≤ l)
    {result result' : HostResult} (h : result.AlikeAt left right k result') :
    result.AlikeAt left' right' l result' := by
  cases h with
  | ok h => exact .ok (h.mono hleft hright hkl)
  | failed message => exact .failed message
  | panicked => exact .panicked

/-- Logs that are alike stay so. -/
theorem CallsAlike.mono (hleft : left ≤ left') (hright : right ≤ right') (hkl : k ≤ l)
    {base base' calls calls' : List HostCall}
    (h : CallsAlike base base' left right k calls calls') :
    CallsAlike base base' left' right' l calls calls' := by
  obtain ⟨new, new', hcalls, hcalls', hnew⟩ := h
  refine ⟨new, new', hcalls, hcalls', hnew.imp fun call call' h => ⟨h.name, ?_, ?_⟩⟩
  · exact h.args.imp fun v w hvw => hvw.mono hleft hright hkl
  · exact h.result.mono hleft hright hkl

/-- A call on each side that are alike keeps the logs alike. -/
theorem CallsAlike.concat {base base' calls calls' : List HostCall}
    (h : CallsAlike base base' left right k calls calls') {call call' : HostCall}
    (hcall : call.AlikeAt left right k call') :
    CallsAlike base base' left right k (calls ++ [call]) (calls' ++ [call']) := by
  obtain ⟨new, new', rfl, rfl, hnew⟩ := h
  exact ⟨new ++ [call], new' ++ [call'], List.append_assoc _ _ _, List.append_assoc _ _ _,
    List.rel_append hnew (.cons hcall .nil)⟩

end Host

/-! ### The reader -/

/-- What the reader leaves behind in the two runs: its symbol tables, and the number of cells
it has allocated. -/
structure Frame where
  left : SymbolTable
  right : SymbolTable
  cells : Nat

instance : Preorder Frame where
  le a b := a.left ≤ b.left ∧ a.right ≤ b.right ∧ a.cells ≤ b.cells
  le_refl _ := ⟨le_rfl, le_rfl, le_rfl⟩
  le_trans _ _ _ h h' := ⟨h.1.trans h'.1, h.2.1.trans h'.2.1, h.2.2.trans h'.2.2⟩

/-- Two words that a run can hold: alike, and a pair is an allocated cell. -/
structure HeldAlike (P : Platform) (k : Renaming) (d : Frame) (v w : Word) : Prop where
  alike : Alike d.left d.right k v w
  cell : tagOf v = tagCons → ∃ c, c < d.cells ∧ v = cellWord P c

/-- Two arenas whose allocated cells are alike. -/
structure Arena.AlikeAt (P : Platform) (k : Renaming) (d : Frame) (a b : Arena) : Prop where
  next : a.next = d.cells
  next' : b.next = d.cells
  car : ∀ c, c < d.cells → HeldAlike P k d (a.memory (2 * c)) (b.memory (2 * c))
  cdr : ∀ c, c < d.cells → HeldAlike P k d (a.memory (2 * c + 1)) (b.memory (2 * c + 1))

/-- Two states of the reader that are alike. The names of the second run are names of the
first one. -/
structure ReaderState.AlikeAt (P : Platform) (i : Renaming × Frame) (s s' : ReaderState) :
    Prop where
  left : s.symbols = i.2.left
  right : s'.symbols = i.2.right
  names : s'.symbols.names ⊆ s.symbols.names
  arena : s.arena.AlikeAt P i.1 i.2 s'.arena
  boxed : i.1.Joins P s.boxed s'.boxed

section Reader

variable {P : Platform} {i j : Renaming × Frame}

/-- Words in the heap that are alike stay so. -/
theorem HeldAlike.mono (hij : i ≤ j) {v w : Word} (h : HeldAlike P i.1 i.2 v w) :
    HeldAlike P j.1 j.2 v w where
  alike := h.alike.mono hij.2.1 hij.2.2.1 hij.1
  cell htag := by
    obtain ⟨c, hc, heq⟩ := h.cell htag
    exact ⟨c, hc.trans_le hij.2.2.2, heq⟩

/-- Words without cells behind them can be held as soon as they are alike. -/
theorem HeldAlike.of_tagOf {k : Renaming} {d : Frame} {v w : Word}
    (h : Alike d.left d.right k v w) (hcons : tagOf v ≠ tagCons) : HeldAlike P k d v w :=
  ⟨h, fun htag => absurd htag hcons⟩

/-- Arenas that are alike stay so, while no cell is added. -/
theorem Arena.AlikeAt.mono (hij : i ≤ j) (hcells : i.2.cells = j.2.cells) {a b : Arena}
    (h : a.AlikeAt P i.1 i.2 b) : a.AlikeAt P j.1 j.2 b where
  next := h.next.trans hcells
  next' := h.next'.trans hcells
  car c hc := (h.car c (hcells ▸ hc)).mono hij
  cdr c hc := (h.cdr c (hcells ▸ hc)).mono hij

/-- The accessors load words that are alike. -/
theorem Arena.AlikeAt.load {k : Renaming} {d : Frame} {a b : Arena} (h : a.AlikeAt P k d b)
    {v w : Word} (hvw : HeldAlike P k d v w) (htag : tagOf v = tagCons) :
    ExceptAgree (HeldAlike P k d) (wsmCar P a v) (wsmCar P b w) ∧
      ExceptAgree (HeldAlike P k d) (wsmCdr P a v) (wsmCdr P b w) := by
  obtain rfl : v = w := by
    refine hvw.alike.eq_of_tag ?_ ?_
    · rw [htag]
      decide
    · rw [htag]
      decide
  obtain ⟨c, hc, rfl⟩ := hvw.cell htag
  have hlt : c < arenaCells := by
    have hcells : c < a.next := h.next ▸ hc
    exact hcells.trans_le a.next_le
  rw [wsmCar_cellWord _ hlt, wsmCar_cellWord _ hlt, wsmCdr_cellWord _ hlt,
    wsmCdr_cellWord _ hlt]
  exact ⟨.ok (h.car c hc), .ok (h.cdr c hc)⟩

/-- **Allocating a pair in both arenas.** Both take the next cell, and both are full at the
same time. -/
theorem Arena.AlikeAt.cons {k : Renaming} {d : Frame} {a b : Arena} (h : a.AlikeAt P k d b)
    {head head' tail tail' : Word} (hhead : HeldAlike P k d head head')
    (htail : HeldAlike P k d tail tail') :
    a.cons P head tail = none ∧ b.cons P head' tail' = none ∨
      ∃ word a' b', a.cons P head tail = some (word, a') ∧
        b.cons P head' tail' = some (word, b') ∧
        HeldAlike P k { d with cells := d.cells + 1 } word word ∧
        a'.AlikeAt P k { d with cells := d.cells + 1 } b' := by
  have hle : ((k, d) : Renaming × Frame) ≤ (k, { d with cells := d.cells + 1 }) :=
    ⟨le_rfl, le_rfl, le_rfl, Nat.le_succ _⟩
  cases hcons : a.cons P head tail with
  | none =>
      rw [Arena.cons_eq_none_iff] at hcons
      exact .inl ⟨rfl, Arena.cons_eq_none_iff.mpr (by rw [h.next', ← h.next, hcons])⟩
  | some result =>
      obtain ⟨word, a'⟩ := result
      obtain ⟨hlt, rfl, hnext, hcar, hcdr, hmemory⟩ := Arena.cons_spec hcons
      cases hcons' : b.cons P head' tail' with
      | none =>
          rw [Arena.cons_eq_none_iff, h.next', ← h.next] at hcons'
          omega
      | some result =>
          obtain ⟨word', b'⟩ := result
          obtain ⟨-, rfl, hnext', hcar', hcdr', hmemory'⟩ := Arena.cons_spec hcons'
          rw [h.next] at hlt hnext hcar hcdr hmemory ⊢
          rw [h.next'] at hnext' hcar' hcdr' hmemory' ⊢
          refine .inr ⟨_, a', b', rfl, rfl, ⟨.same ?_ ?_, fun _ => ⟨_, Nat.lt_succ_self _, rfl⟩⟩,
            hnext, hnext', fun c hc => ?_, fun c hc => ?_⟩
          · rw [tagOf_cellWord hlt]
            decide
          · rw [tagOf_cellWord hlt]
            decide
          · rcases Nat.lt_succ_iff_lt_or_eq.mp hc with hc | rfl
            · rw [hmemory _ (by omega), hmemory' _ (by omega)]
              exact (h.car c hc).mono hle
            · rw [hcar, hcar']
              exact hhead.mono hle
          · rcases Nat.lt_succ_iff_lt_or_eq.mp hc with hc | rfl
            · rw [hmemory _ (by omega), hmemory' _ (by omega)]
              exact (h.cdr c hc).mono hle
            · rw [hcdr, hcdr']
              exact htail.mono hle

/-- **The reader works alike.** -/
theorem readerSim_alike :
    ReaderSim P (fun _ => True) (ReaderState.AlikeAt P)
      (fun i : Renaming × Frame => HeldAlike P i.1 i.2) where
  value_mono hij h := h.mono hij
  nil _ := .of_tagOf (.same (by decide) (by decide)) (by decide)
  fixnum _ n := by
    have htag := tagOf_encodeFixnum n
    refine .of_tagOf (.same ?_ ?_) ?_
    · rw [htag]
      decide
    · rw [htag]
      decide
    · rw [htag]
      decide
  intern i name := by
    rintro j - s s' hs
    rw [internSymbol, internSymbol]
    cases hintern : s.symbols.intern name with
    | none => exact .inl ⟨_, rfl, trivial⟩
    | some result =>
        obtain ⟨v, left⟩ := result
        obtain ⟨w, right, hintern', hnames⟩ :=
          SymbolTable.exists_intern_of_names hs.names hintern
        obtain ⟨hleft, hv, hname⟩ := SymbolTable.intern_spec hintern
        obtain ⟨hright, hw, hname'⟩ := SymbolTable.intern_spec hintern'
        have hle : j ≤ (j.1, ⟨left, right, j.2.cells⟩) :=
          ⟨le_rfl, hs.left ▸ hleft, hs.right ▸ hright, le_rfl⟩
        refine .inr ⟨_, hle, ?_⟩
        rw [hintern']
        refine ⟨⟨rfl, rfl, hnames, hs.arena.mono hle rfl, hs.boxed⟩,
          .ok (.of_tagOf (.symbol hv hw hname hname') ?_)⟩
        rw [hv]
        decide
  string i text := by
    rintro j - s s' hs
    rw [addStringLiteral, Program.zoom, Program.zoom, BoxedTable.addString]
    obtain hfull | ⟨v, w, l, hjl, hvw, hv, hw, hjoins⟩ :=
      hs.boxed.add (ε := ReadError) (.str text) .transient
    · exact .inl ⟨_, hfull, trivial⟩
    · have hle : j ≤ (l, j.2) := ⟨hjl, le_rfl⟩
      refine .inr ⟨_, hle, ⟨hs.left, hs.right, hs.names, hs.arena.mono hle rfl, hjoins⟩, ?_⟩
      rw [hv, hw]
      refine .ok (.of_tagOf (.boxed hvw) ?_)
      rw [(l.tagged hvw).1]
      decide
  cons i head head' tail tail' hhead htail := by
    rintro j hij s s' hs
    rw [wsmCons, wsmCons]
    obtain ⟨hfull, hfull'⟩ | ⟨word, a, b, hcons, hcons', hword, harena⟩ :=
      hs.arena.cons (hhead.mono hij) (htail.mono hij)
    · rw [hfull]
      exact .inl ⟨_, rfl, trivial⟩
    · rw [hcons, hcons']
      exact .inr ⟨(j.1, { j.2 with cells := j.2.cells + 1 }),
        ⟨le_rfl, le_rfl, le_rfl, Nat.le_succ _⟩,
        ⟨hs.left, hs.right, hs.names, harena, hs.boxed⟩, .ok hword⟩

end Reader

/-! ### Calls -/

section Calls

variable {σ : Type} (P : Platform) (R : Renaming → σ → σ → Prop) (base base' : List HostCall)

/-- Two states of the evaluator that are alike. -/
structure EvalState.AlikeAt (k : Renaming) (d : Frame) (s s' : EvalState σ) : Prop where
  world : HostWorld.AlikeAt P R d.left d.right k s.world s'.world
  calls : CallsAlike base base' d.left d.right k s.calls s'.calls

/-- Two machines that are alike while a word is evaluated and printed. -/
structure Machine.LiveAlike (k : Renaming) (d : Frame) (m m' : Machine σ) : Prop where
  left : m.session.symbols = d.left
  right : m'.session.symbols = d.right
  arena : m.arena.AlikeAt P k d m'.arena
  state : EvalState.AlikeAt P R base base' k d m.evalState m'.evalState
  primitives : m.session.primitives = m'.session.primitives
  equivariant : m.session.primitives.Equivariant P R

/-- Two machines that are alike in front of a call. Paired words are those of persistent
values, which the call does not clear. -/
structure Machine.AlikeAt (k : Renaming) (m m' : Machine σ) : Prop where
  names : m'.session.symbols.names ⊆ m.session.symbols.names
  persistent : ∀ {v w}, k.rel v w →
    ∃ value, m.session.boxed.entry P v = some ⟨value, .persistent⟩
  state : EvalState.AlikeAt P R base base' k ⟨m.session.symbols, m'.session.symbols, 0⟩
    m.evalState m'.evalState
  primitives : m.session.primitives = m'.session.primitives
  equivariant : m.session.primitives.Equivariant P R

/-- Two machines with records of calls that are alike. -/
def Machine.SameCalls (k : Renaming) (m m' : Machine σ) : Prop :=
  CallsAlike base base' m.session.symbols m'.session.symbols k m.calls m'.calls

variable {P R base base'}

/-- Worlds that are alike stay so, with new tables of boxed values. -/
theorem HostWorld.AlikeAt.mono (hR : ∀ {k l host host'}, k ≤ l → R k host host' → R l host host')
    {left right left' right' : SymbolTable} {k l : Renaming} (hleft : left ≤ left')
    (hright : right ≤ right') (hkl : k ≤ l) {world world' : HostWorld σ}
    (h : HostWorld.AlikeAt P R left right k world world') {boxed boxed' : BoxedTable}
    (hboxed : l.Joins P boxed boxed') :
    HostWorld.AlikeAt P R left' right' l { world with boxed := boxed }
      { world' with boxed := boxed' } where
  boxed := hboxed
  bindings name := by
    have hname := h.bindings name
    generalize world.bindings.value name = x at hname ⊢
    generalize world'.bindings.value name = y at hname ⊢
    cases hname with
    | none => exact .none
    | some h => exact .some (h.mono hleft hright hkl)
  host := hR hkl h.host

/-- Clearing the transient values keeps the tables joined while only persistent values are
paired. -/
theorem Renaming.Joins.clearTransient {k : Renaming} {a b : BoxedTable} (h : k.Joins P a b)
    (hpersistent : ∀ {v w}, k.rel v w → ∃ value, a.entry P v = some ⟨value, .persistent⟩) :
    k.Joins P a.clearTransient b.clearTransient where
  resolves hvw := by
    obtain ⟨value, hvalue⟩ := hpersistent hvw
    obtain ⟨e, hv, hw⟩ := h.resolves hvw
    obtain rfl : e = ⟨value, .persistent⟩ := Option.some.inj (hv.symm.trans hvalue)
    refine ⟨⟨value, .persistent⟩, ?_, ?_⟩
    · rw [BoxedTable.entry_clearTransient, hv]
      rfl
    · rw [BoxedTable.entry_clearTransient, hw]
      rfl
  length_le := by
    simpa [BoxedTable.clearTransient] using h.length_le

/-- **A call of a primitive is alike in both runs**, unless it ends the process. -/
theorem callPrimitive_alike {primitives : Primitives σ} (hprimitives : primitives.Equivariant P R)
    {k : Renaming} {d : Frame} {s s' : EvalState σ}
    (hs : EvalState.AlikeAt P R base base' k d s s') (name : String) {args args' : List Word}
    (hargs : List.Forall₂ (Alike d.left d.right k) args args') :
    (callPrimitive primitives name args s).1 = .abort .host ∨
      ∃ l, k ≤ l ∧
        EvalState.AlikeAt P R base base' l d (callPrimitive primitives name args s).2
          (callPrimitive primitives name args' s').2 ∧
        (callPrimitive primitives name args s).1.Agree (HostAlike d.left d.right l)
          (callPrimitive primitives name args' s').1 := by
  cases hname : primitives name with
  | none =>
      rw [callPrimitive_of_none hname, callPrimitive_of_none hname]
      exact .inr ⟨k, le_rfl, hs, .err _⟩
  | some primitive =>
      rw [callPrimitive_of_some hname, callPrimitive_of_some hname]
      obtain hexit | ⟨l, hkl, hresult, hworld⟩ :=
        hprimitives.primitive hname d.left d.right k args args' s.world s'.world hargs hs.world
      · exact .inl (by rw [hexit]; rfl)
      · refine .inr ⟨l, hkl, ⟨hworld, ?_⟩, ?_⟩
        · refine (hs.calls.mono le_rfl le_rfl hkl).concat ⟨rfl, ?_, hresult⟩
          exact hargs.imp fun v w hvw => hvw.mono le_rfl le_rfl hkl
        · simp only
          generalize (primitive.call args s.world).1 = result at hresult ⊢
          generalize (primitive.call args' s'.world).1 = result' at hresult ⊢
          cases hresult with
          | ok h => exact .ok h
          | failed message => exact .err _
          | panicked => exact .panic

/-- Words that are neither pairs nor `()` are printed alike. -/
theorem Alike.atomText {left right : SymbolTable} {k : Renaming} {v w : Word}
    (h : Alike left right k v w) {a b : BoxedTable} (hboxed : k.Joins P a b) :
    LispHost.atomText P left a v = LispHost.atomText P right b w := by
  rw [LispHost.atomText, LispHost.atomText, ← h.tag_eq]
  by_cases hfixnum : tagOf v = tagFixnum
  · obtain rfl : v = w := by
      refine h.eq_of_tag ?_ ?_
      · rw [hfixnum]
        decide
      · rw [hfixnum]
        decide
    rw [if_pos hfixnum, if_pos hfixnum]
  · rw [if_neg hfixnum, if_neg hfixnum]
    cases h with
    | same hsymbol hboxed => rw [if_neg hsymbol, if_neg hsymbol, if_neg hboxed, if_neg hboxed]
    | symbol hv hw hname hname' => rw [if_pos hv, if_pos hv, hname, hname']
    | boxed h =>
        obtain ⟨e, hv, hw⟩ := hboxed.resolves h
        have htag := (k.tagged h).1
        have hsymbol : tagOf v ≠ tagSymbol := by
          rw [htag]
          decide
        rw [if_neg hsymbol, if_neg hsymbol, if_pos htag, if_pos htag, hv, hw]
        rcases e with ⟨_ | _ | _, lifetime⟩
        · rfl
        · rfl
        · rfl

/-- **Machines that are alike work alike.** -/
theorem callSim_alike :
    CallSim (σ := σ) P (fun _ => True) (Machine.AlikeAt P R base base')
      (Machine.LiveAlike P R base base') (Machine.SameCalls base base')
      (ReaderState.AlikeAt P) (fun i : Renaming × Frame => HeldAlike P i.1 i.2)
      (EvalState.AlikeAt P R base base') (HeldAlike P) where
  reader := readerSim_alike
  rest h := h.state.calls
  start {k m m'} h := by
    have hboxed := h.state.world.boxed.clearTransient h.persistent
    refine ⟨(k, ⟨m.session.symbols, m'.session.symbols, 0⟩),
      ⟨rfl, rfl, h.names, ⟨rfl, rfl, ?_, ?_⟩, hboxed⟩, fun j s s' hij hs => ?_⟩
    · intro c hc
      exact absurd hc (Nat.not_lt_zero c)
    · intro c hc
      exact absurd hc (Nat.not_lt_zero c)
    · refine ⟨j.1, j.2, hij.1, ⟨hs.left, hs.right, hs.arena, ⟨?_, ?_⟩, h.primitives,
        h.equivariant⟩, fun _ _ hvw => hvw⟩
      · exact HostWorld.AlikeAt.mono (R := R) h.equivariant.mono hij.2.1 hij.2.2.1 hij.1
          h.state.world hs.boxed
      · exact h.state.calls.mono hij.2.1 hij.2.2.1 hij.1
  evaluator {k d m m'} h :=
    { value_mono := fun {i j v w} hij hvw =>
        HeldAlike.mono (i := (i.world, d)) (j := (j.world, d)) ⟨hij, le_rfl⟩ hvw
      tag := fun hvw => hvw.alike.tag_eq
      nil := fun _ => .of_tagOf (.same (by decide) (by decide)) (by decide)
      nil_iff := fun hvw => hvw.alike.nil_iff
      car := fun {i v w} hvw htag =>
        ((h.arena.mono (i := (k, d)) (j := (i.world, d)) ⟨i.le, le_rfl⟩ rfl).load hvw htag).1
      cdr := fun {i v w} hvw htag =>
        ((h.arena.mono (i := (k, d)) (j := (i.world, d)) ⟨i.le, le_rfl⟩ rfl).load hvw htag).2
      name := fun {i v w} hvw htag => by
        rw [Machine.context, Machine.context, h.left, h.right]
        exact hvw.alike.nameOf_eq htag
      bound := fun {i s t} hs name => by
        have hname := hs.world.bindings name
        generalize s.world.bindings.value name = x at hname ⊢
        generalize t.world.bindings.value name = y at hname ⊢
        cases hname with
        | none => exact .none
        | some hvw => exact .some (.of_tagOf hvw.1 hvw.2)
      call := fun i name args args' hargs j hij s t hs => by
        have hargs' : List.Forall₂ (Alike d.left d.right j.world) args args' :=
          hargs.imp fun v w hvw => hvw.alike.mono le_rfl le_rfl hij
        rw [Machine.context, Machine.context, ← h.primitives]
        obtain hexit | ⟨l, hjl, hstate, hagree⟩ :=
          callPrimitive_alike h.equivariant hs name hargs'
        · exact .inl ⟨_, hexit, trivial⟩
        · exact .inr ⟨⟨l, j.le.trans hjl⟩, hjl, hstate,
            hagree.imp fun v w hvw => .of_tagOf hvw.1 hvw.2⟩ }
  evalState h := h.state
  evaluated {k l d m m' s s'} h hkl hs :=
    ⟨h.left, h.right, h.arena.mono (i := (k, d)) (j := (l, d)) ⟨hkl, le_rfl⟩ rfl, hs,
      h.primitives, h.equivariant⟩
  printer {k d m m'} h :=
    { tag := fun hvw => hvw.alike.tag_eq
      car := fun hvw htag => (h.arena.load hvw htag).1
      cdr := fun hvw htag => (h.arena.load hvw htag).2
      atom := fun hvw _ => by
        rw [h.left, h.right]
        exact hvw.alike.atomText h.state.world.boxed }
  done {k d m m'} h := by
    rw [Machine.SameCalls, h.left, h.right]
    exact h.state.calls
  clear h := ⟨_, le_rfl, h⟩

end Calls

end LispHost
