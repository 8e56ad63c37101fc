import LispHost.Calls
import LispHost.Reference

/-!
# Handles Cannot Be Forged

Where a word comes from. A word that the reader builds (a fixnum, a symbol, the word of a
string literal, a pair, `()`) is never taken for a game handle, neither now nor by any
later table of the session; every other word that an evaluation can get hold of was bound
by the host or returned by a primitive before. The record of primitive calls keeps the
tables as they were at each call, so that "before" can be said.

The invariant is carried through the reader, the evaluator and all later calls by the
two-run logic, with one run on both sides.

## Main definitions

* `HostWord`: a word that the host has bound or returned.
* `LogHonest`: every argument taken for a handle was a host word at that moment.
* `Epoch`: what grows along a history.

## Main results

* `Represents.neverHandle`: what is read is never a handle.
* `callSim_honest`: calls keep the record honest.
* `handles_not_forged`: no source forges a handle, over whole histories.
-/

namespace LispHost

open Effects

variable {σ : Type} (P : Platform)

/-! ### The record of calls -/

/-- A word that the host has bound, or has returned in one of the calls. -/
def HostWord (bindings : Bindings) (calls : List HostCall) (word : Word) : Prop :=
  (∃ name, (name, word) ∈ bindings) ∨ ∃ call ∈ calls, call.result = .ok word

/-- Each argument that the table of the moment takes for a game handle is a word that the
host had bound or returned before. -/
def HostCall.Honest (earlier : List HostCall) (call : HostCall) : Prop :=
  ∀ word ∈ call.args, (call.boxed.getGameHandle P word).isSome →
    HostWord call.bindings earlier word

/-- Every call of the record is honest about the calls in front of it. -/
def LogHonest (calls : List HostCall) : Prop :=
  ∀ earlier call later, calls = earlier ++ call :: later → call.Honest P earlier

/-- What grows along a history: the boxed table, the bindings and the record of calls. -/
structure Epoch where
  boxed : BoxedTable
  bindings : Bindings
  calls : List HostCall

instance : Preorder Epoch where
  le a b := a.boxed.Evolves b.boxed ∧ a.bindings <:+ b.bindings ∧
    ∃ new, b.calls = a.calls ++ new ∧ ∀ call ∈ new, a.boxed.Evolves call.boxed
  le_refl a := ⟨.refl _, List.suffix_refl _, [], by simp⟩
  le_trans a b c := by
    rintro ⟨hab, hbind, new, hcalls, hnew⟩ ⟨hbc, hbind', new', hcalls', hnew'⟩
    refine ⟨hab.trans hbc, hbind.trans hbind', new ++ new', ?_, ?_⟩
    · rw [hcalls', hcalls, List.append_assoc]
    · intro call hcall
      rcases List.mem_append.mp hcall with hcall | hcall
      · exact hnew call hcall
      · exact hab.trans (hnew' call hcall)

/-- A word that came from the host stays one that did. -/
theorem HostWord.mono {a b : Epoch} (hab : a ≤ b) {word : Word}
    (h : HostWord a.bindings a.calls word) : HostWord b.bindings b.calls word := by
  obtain ⟨-, hbind, new, hcalls, -⟩ := hab
  rcases h with ⟨name, hmem⟩ | ⟨call, hmem, hresult⟩
  · exact .inl ⟨name, hbind.subset hmem⟩
  · exact .inr ⟨call, hcalls ▸ List.mem_append_left new hmem, hresult⟩

variable {P}

/-- An honest call keeps the log honest. -/
theorem LogHonest.append {calls : List HostCall} (h : LogHonest P calls) {call : HostCall}
    (hcall : call.Honest P calls) : LogHonest P (calls ++ [call]) := by
  intro earlier c later heq
  rcases later.eq_nil_or_concat with rfl | ⟨later, last, rfl⟩
  · obtain ⟨rfl, heq⟩ := List.append_inj' heq rfl
    obtain rfl : call = c := by simpa using heq
    exact hcall
  · rw [List.concat_eq_append, ← List.cons_append, ← List.append_assoc] at heq
    obtain ⟨hcalls, -⟩ := List.append_inj' heq rfl
    exact h earlier c later hcalls

/-! ### The words of the source -/

/-- A stage of a call: the world, and the number of cells the reader has allocated. -/
structure Stage (κ : Type) where
  world : κ
  cells : Nat

instance {κ : Type} [Preorder κ] : Preorder (Stage κ) where
  le a b := a.world ≤ b.world ∧ a.cells ≤ b.cells
  le_refl a := ⟨le_rfl, le_rfl⟩
  le_trans _ _ _ h h' := ⟨h.1.trans h'.1, h.2.trans h'.2⟩

/-- A word that can come from the reader: a pair is an allocated cell, and no table from
this one on takes the word for a handle. -/
structure SourceWord (P : Platform) (i : Stage BoxedTable) (word : Word) : Prop where
  never : i.world.NeverHandle P word
  cell : tagOf word = tagCons → ∃ c, c < i.cells ∧ word = cellWord P c

/-- A word of the source stays one. -/
theorem SourceWord.mono {i j : Stage BoxedTable} (hij : i ≤ j) {word : Word}
    (h : SourceWord P i word) : SourceWord P j word where
  never := h.never.mono (.of_le hij.1)
  cell htag := by
    obtain ⟨c, hc, heq⟩ := h.cell htag
    exact ⟨c, hc.trans_le hij.2, heq⟩

/-- A word that is neither boxed nor a pair can come from the reader. -/
theorem SourceWord.of_tagOf {i : Stage BoxedTable} {word : Word} (hboxed : tagOf word ≠ tagBoxed)
    (hcons : tagOf word ≠ tagCons) : SourceWord P i word :=
  ⟨BoxedTable.neverHandle_of_tagOf_ne hboxed, fun h => absurd h hcons⟩

/-- The reader's state: the allocated cells hold words of the source. -/
structure ReaderState.Sourced (P : Platform) (i : Stage BoxedTable) (s : ReaderState) :
    Prop where
  boxed : s.boxed = i.world
  next : s.arena.next = i.cells
  car : ∀ c, c < i.cells → SourceWord P i (s.arena.memory (2 * c))
  cdr : ∀ c, c < i.cells → SourceWord P i (s.arena.memory (2 * c + 1))

/-- The reader builds words of the source. -/
theorem readerSim_sourced :
    ReaderSim P (fun _ => False) (fun i s s' => s = s' ∧ s.Sourced P i)
      (fun i v w => v = w ∧ SourceWord P i v) where
  value_mono hij h := ⟨h.1, h.2.mono hij⟩
  nil _ := ⟨rfl, .of_tagOf (by decide) (by decide)⟩
  fixnum _ n := ⟨rfl, .of_tagOf (by rw [tagOf_encodeFixnum]; decide)
    (by rw [tagOf_encodeFixnum]; decide)⟩
  intern i name := by
    rintro j - s _ ⟨rfl, hs⟩
    refine .inr ⟨j, le_rfl, ?_⟩
    rw [internSymbol]
    cases hintern : s.symbols.intern name with
    | none => exact ⟨⟨rfl, hs⟩, .abort _⟩
    | some result =>
        obtain ⟨word, symbols⟩ := result
        obtain ⟨-, htag, -⟩ := SymbolTable.intern_spec hintern
        refine ⟨⟨rfl, hs.boxed, hs.next, hs.car, hs.cdr⟩, .ok ⟨rfl, .of_tagOf ?_ ?_⟩⟩
        · rw [htag]
          decide
        · rw [htag]
          decide
  string i text := by
    rintro j - s _ ⟨rfl, hs⟩
    obtain hfull | ⟨word, hroom, hword, hadd⟩ :=
      BoxedTable.add_eq (P := P) (ε := ReadError) (.str text) .transient s.boxed
    · refine .inr ⟨j, le_rfl, ?_⟩
      rw [addStringLiteral, Program.zoom, BoxedTable.addString, hfull]
      exact ⟨⟨rfl, hs⟩, .abort _⟩
    · have hle : j ≤ ⟨s.boxed.push ⟨.str text, .transient⟩ hroom, j.cells⟩ :=
        ⟨hs.boxed ▸ BoxedTable.le_push _ _ hroom, le_rfl⟩
      refine .inr ⟨_, hle, ?_⟩
      rw [addStringLiteral, Program.zoom, BoxedTable.addString, hadd]
      have hentry := BoxedTable.entry_push (e := ⟨.str text, .transient⟩) hword hroom
      refine ⟨⟨rfl, rfl, hs.next, fun c hc => (hs.car c hc).mono hle,
        fun c hc => (hs.cdr c hc).mono hle⟩, .ok ⟨rfl, BoxedTable.neverHandle_of_entry hentry,
        fun hcons => ?_⟩⟩
      rw [BoxedTable.tagOf_of_entry hentry] at hcons
      exact absurd hcons (by decide)
  cons i head _ tail _ := by
    rintro ⟨rfl, hhead⟩ ⟨rfl, htail⟩ j hij s _ ⟨rfl, hs⟩
    rw [wsmCons]
    cases hcons : s.arena.cons P head tail with
    | none => exact .inr ⟨j, le_rfl, ⟨rfl, hs⟩, .abort _⟩
    | some result =>
        obtain ⟨word, arena⟩ := result
        obtain ⟨hlt, rfl, hnext, hcar, hcdr, hmemory⟩ := Arena.cons_spec hcons
        have hle : j ≤ ⟨j.world, j.cells + 1⟩ := ⟨le_rfl, Nat.le_succ _⟩
        refine .inr ⟨_, hle, ⟨rfl, hs.boxed, by rw [hnext, hs.next], ?_, ?_⟩, ?_⟩
        · intro c hc
          rcases Nat.lt_succ_iff_lt_or_eq.mp hc with hc | rfl
          · rw [hmemory _ (by have := hs.next; omega)]
            exact (hs.car c hc).mono hle
          · rw [hs.next] at hcar
            rw [hcar]
            exact hhead.mono (hij.trans hle)
        · intro c hc
          rcases Nat.lt_succ_iff_lt_or_eq.mp hc with hc | rfl
          · rw [hmemory _ (by have := hs.next; omega)]
            exact (hs.cdr c hc).mono hle
          · rw [hs.next] at hcdr
            rw [hcdr]
            exact htail.mono (hij.trans hle)
        · refine .ok ⟨rfl, BoxedTable.neverHandle_of_tagOf_ne ?_, fun _ => ?_⟩
          · rw [tagOf_cellWord hlt]
            decide
          · exact ⟨s.arena.next, by rw [hs.next]; exact Nat.lt_succ_self _, rfl⟩

/-! ### The words of an evaluation -/

/-- A word that an evaluation can hold: a word of the source, or one that the host bound or
returned; a pair is an allocated cell. -/
structure HeldWord (P : Platform) (i : Stage Epoch) (word : Word) : Prop where
  origin : i.world.boxed.NeverHandle P word ∨ HostWord i.world.bindings i.world.calls word
  cell : tagOf word = tagCons → ∃ c, c < i.cells ∧ word = cellWord P c

/-- A word that may be held stays one. -/
theorem HeldWord.mono {k l : Epoch} {n : Nat} (hkl : k ≤ l) {word : Word}
    (h : HeldWord P ⟨k, n⟩ word) : HeldWord P ⟨l, n⟩ word where
  origin := h.origin.imp (·.mono hkl.1) (·.mono hkl)
  cell := h.cell

/-- A word of the source may be held. -/
theorem SourceWord.held {i : Stage BoxedTable} {word : Word} (h : SourceWord P i word)
    (bindings : Bindings) (calls : List HostCall) :
    HeldWord P ⟨⟨i.world, bindings, calls⟩, i.cells⟩ word :=
  ⟨.inl h.never, h.cell⟩

/-- The state of an evaluation at an epoch, with an honest record. -/
structure EvalState.HonestAt (P : Platform) (k : Epoch) (s : EvalState σ) : Prop where
  epoch : k = ⟨s.world.boxed, s.world.bindings, s.calls⟩
  bindings : s.world.bindings.NonCons
  log : LogHonest P s.calls

/-- A machine at an epoch, with an honest record and a host that hands out no pairs. -/
structure Machine.HonestAt (P : Platform) (k : Epoch) (m : Machine σ) : Prop where
  state : m.evalState.HonestAt P k
  primitives : m.session.primitives.NonCons

/-- During a call, the allocated cells hold words that an evaluation can hold. -/
structure Machine.HonestHeap (P : Platform) (i : Stage Epoch) (m : Machine σ) : Prop where
  honest : m.HonestAt P i.world
  next : m.arena.next = i.cells
  car : ∀ c, c < i.cells → HeldWord P i (m.arena.memory (2 * c))
  cdr : ∀ c, c < i.cells → HeldWord P i (m.arena.memory (2 * c + 1))

/-- The accessors load words that an evaluation can hold. -/
theorem Machine.HonestHeap.load {k l : Epoch} {n : Nat} {m : Machine σ}
    (h : m.HonestHeap P ⟨k, n⟩) (hkl : k ≤ l) {word : Word} (hword : HeldWord P ⟨l, n⟩ word)
    (htag : tagOf word = tagCons) :
    ExceptAgree (fun v w => v = w ∧ HeldWord P ⟨l, n⟩ v) (wsmCar P m.arena word)
        (wsmCar P m.arena word) ∧
      ExceptAgree (fun v w => v = w ∧ HeldWord P ⟨l, n⟩ v) (wsmCdr P m.arena word)
        (wsmCdr P m.arena word) := by
  obtain ⟨c, hc, rfl⟩ := hword.cell htag
  have hlt : c < arenaCells := by
    have hcells : c < m.arena.next := h.next ▸ hc
    exact hcells.trans_le m.arena.next_le
  rw [wsmCar_cellWord _ hlt, wsmCdr_cellWord _ hlt]
  exact ⟨.ok ⟨rfl, (h.car c hc).mono hkl⟩, .ok ⟨rfl, (h.cdr c hc).mono hkl⟩⟩

/-- **A call of a primitive keeps the record honest.** -/
theorem callPrimitive_honest {primitives : Primitives σ} (hprimitives : primitives.NonCons)
    {k : Epoch} {n : Nat} {s : EvalState σ} (hs : s.HonestAt P k) (name : String)
    {args : List Word} (hargs : ∀ word ∈ args, HeldWord P ⟨k, n⟩ word) :
    ∃ l, k ≤ l ∧ (callPrimitive primitives name args s).2.HonestAt P l ∧
      ∀ word, (callPrimitive primitives name args s).1 = .ok word →
        HeldWord P ⟨l, n⟩ word := by
  cases hname : primitives name with
  | none =>
      rw [callPrimitive_of_none hname]
      exact ⟨k, le_rfl, hs, by rintro word ⟨⟩⟩
  | some primitive =>
      have hresult := hprimitives.result name primitive hname args s.world
      have hbindings := hprimitives.bindings name primitive hname args s.world hs.bindings
      have hboxed := primitive.boxed_le args s.world
      have hsuffix := primitive.bindings_suffix args s.world
      rw [callPrimitive_of_some hname]
      generalize primitive.call args s.world = run at hresult hbindings hboxed hsuffix ⊢
      obtain ⟨result, world⟩ := run
      have hepoch := hs.epoch
      set call : HostCall := ⟨name, args, s.world.boxed, s.world.bindings, result⟩ with hcall
      have hhonest : call.Honest P s.calls := by
        intro word hword haccepted
        have horigin := (hargs word hword).origin
        rw [hepoch] at horigin
        rcases horigin with hnever | hhost
        · rw [hnever _ (.refl _)] at haccepted
          cases haccepted
        · exact hhost
      refine ⟨⟨world.boxed, world.bindings, s.calls ++ [call]⟩, ?_,
        ⟨rfl, hbindings, hs.log.append hhonest⟩, ?_⟩
      · rw [hepoch]
        refine ⟨.of_le hboxed, hsuffix, [call], rfl, ?_⟩
        intro c hc
        obtain rfl : c = call := by simpa using hc
        exact .refl _
      · intro word hword
        cases result with
        | failed | panicked | exited => cases hword
        | ok value =>
            obtain rfl : value = word := by simpa [HostResult.outcome] using hword
            refine ⟨.inr (.inr ⟨call, by simp, rfl⟩), fun hcons => ?_⟩
            exact absurd hcons (hresult value rfl)

/-! ### Calls -/

/-- **Calls keep the record honest.** -/
theorem callSim_honest :
    CallSim (σ := σ) (τ := σ) P (fun _ => False) (fun k m m' => m = m' ∧ m.HonestAt P k)
      (fun k n m m' => m = m' ∧ m.HonestHeap P ⟨k, n⟩) (fun k m m' => m = m' ∧ m.HonestAt P k)
      (fun i s s' => s = s' ∧ s.Sourced P i)
      (fun i v w => v = w ∧ SourceWord P i v) (fun k _ s s' => s = s' ∧ s.HonestAt P k)
      (fun k n v w => v = w ∧ HeldWord P ⟨k, n⟩ v) where
  reader := readerSim_sourced
  rest h := h
  start {k m m'} h := by
    obtain ⟨rfl, hm⟩ := h
    refine ⟨⟨m.start.session.boxed, 0⟩, ⟨rfl, rfl, rfl, fun c hc => absurd hc (by simp),
      fun c hc => absurd hc (by simp)⟩, ?_⟩
    rintro j s _ hij ⟨rfl, hs⟩
    have hepoch := hm.state.epoch
    refine ⟨⟨j.world, m.session.bindings, m.calls⟩, j.cells, ?_, ⟨rfl, ?_⟩,
      fun v w hvw => ⟨hvw.1, hvw.2.held _ _⟩⟩
    · rw [hepoch]
      exact ⟨(BoxedTable.evolves_clearTransient _).trans (.of_le hij.1), List.suffix_refl _, [],
        by simp [Machine.evalState], by simp⟩
    · exact
        { honest := ⟨⟨by rw [← hs.boxed]; rfl, hm.state.bindings, hm.state.log⟩, hm.primitives⟩
          next := hs.next
          car := fun c hc => (hs.car c hc).held _ _
          cdr := fun c hc => (hs.cdr c hc).held _ _ }
  evaluator {k n m m'} h := by
    obtain ⟨rfl, hm⟩ := h
    exact
      { value_mono := fun hij h => ⟨h.1, h.2.mono hij⟩
        tag := fun h => congrArg tagOf h.1
        nil := fun _ => ⟨rfl, .inl (BoxedTable.neverHandle_of_tagOf_ne (by decide)),
          fun h => absurd h (by decide)⟩
        nil_iff := fun h => h.1 ▸ Iff.rfl
        car := fun {i v w} h htag => by
          obtain ⟨rfl, hv⟩ := h
          exact (hm.load i.le hv htag).1
        cdr := fun {i v w} h htag => by
          obtain ⟨rfl, hv⟩ := h
          exact (hm.load i.le hv htag).2
        name := fun h _ => congrArg m.session.symbols.nameOf h.1
        bound := fun {i s t} h name => by
          obtain ⟨rfl, hs⟩ := h
          cases hvalue : s.world.bindings.value name with
          | none => exact .none
          | some word =>
              refine .some ⟨rfl, .inr ?_, fun hcons => ?_⟩
              · rw [hs.epoch]
                exact .inl ⟨name, Bindings.mem_of_value hvalue⟩
              · exact absurd hcons (hs.bindings name word hvalue)
        call := fun i name args args' hargs j hij s t h => by
          obtain ⟨rfl, hs⟩ := h
          obtain rfl : args = args' :=
            List.forall₂_eq_eq_eq ▸ hargs.imp fun _ _ h => h.1
          have hheld : ∀ word ∈ args, HeldWord P ⟨j.world, n⟩ word := by
            intro word hword
            have hself := List.forall₂_same.mp hargs word hword
            exact hself.2.mono hij
          obtain ⟨l, hjl, hstate, hvalue⟩ :=
            callPrimitive_honest hm.honest.primitives hs name hheld
          refine .inr ⟨⟨l, j.le.trans hjl⟩, hjl, ⟨rfl, hstate⟩, ?_⟩
          change Outcome.Agree _ (callPrimitive m.session.primitives name args s).1
            (callPrimitive m.session.primitives name args s).1
          generalize (callPrimitive m.session.primitives name args s).1 = o at hvalue
          cases o with
          | ok word => exact .ok ⟨rfl, hvalue word rfl⟩
          | err e => exact .err e
          | panic => exact .panic
          | abort r => exact .abort r
          | timeout => exact .timeout }
  evalState h := ⟨congrArg Machine.evalState h.1, h.2.honest.state⟩
  evaluated {k l n m m' s s'} h hkl hs := by
    obtain ⟨rfl, hm⟩ := h
    obtain ⟨rfl, hs⟩ := hs
    exact ⟨rfl, ⟨hs, hm.honest.primitives⟩, hm.next, fun c hc => (hm.car c hc).mono hkl,
      fun c hc => (hm.cdr c hc).mono hkl⟩
  printer {k n m m'} h := by
    obtain ⟨rfl, hm⟩ := h
    exact
      { tag := fun h => congrArg tagOf h.1
        car := fun {v w} h htag => by
          obtain ⟨rfl, hv⟩ := h
          exact (hm.load le_rfl hv htag).1
        cdr := fun {v w} h htag => by
          obtain ⟨rfl, hv⟩ := h
          exact (hm.load le_rfl hv htag).2
        atom := fun h _ => by rw [h.1] }
  done h := ⟨h.1, h.2.honest⟩
  clear {k m m'} h := by
    obtain ⟨rfl, hm⟩ := h
    have hepoch := hm.state.epoch
    refine ⟨⟨m.clearTransient.session.boxed, m.session.bindings, m.calls⟩, ?_, rfl,
      ⟨rfl, hm.state.bindings, hm.state.log⟩, hm.primitives⟩
    rw [hepoch]
    exact ⟨BoxedTable.evolves_clearTransient _, List.suffix_refl _, [],
      by simp [Machine.evalState], by simp⟩

/-! ### What is read is never a handle -/

/-- The words of a tree. -/
def Sexp.words : Sexp Word → List Word
  | .fixnum label _ => [label]
  | .symbol label _ => [label]
  | .string label _ => [label]
  | .nil => [wordNil]
  | .pair label head tail => label :: (head.words ++ tail.words)

/-- **No word of a tree that has been read is ever taken for a handle.** -/
theorem Represents.neverHandle {s : ReaderState} {d : Sexp Word} (h : Represents P s d) :
    ∀ word ∈ d.words, s.boxed.NeverHandle P word := by
  induction d with
  | fixnum label value =>
      intro word hword
      obtain rfl : word = label := by simpa [Sexp.words] using hword
      refine BoxedTable.neverHandle_of_tagOf_ne ?_
      rw [show word = encodeFixnum value from h, tagOf_encodeFixnum]
      decide
  | symbol label name =>
      intro word hword
      obtain rfl : word = label := by simpa [Sexp.words] using hword
      refine BoxedTable.neverHandle_of_tagOf_ne ?_
      rw [h.1]
      decide
  | string label text =>
      intro word hword
      obtain rfl : word = label := by simpa [Sexp.words] using hword
      exact BoxedTable.neverHandle_of_entry h
  | nil =>
      intro word hword
      obtain rfl : word = wordNil := by simpa [Sexp.words] using hword
      exact BoxedTable.neverHandle_of_tagOf_ne (by decide)
  | pair label head tail ihh iht =>
      have htag : tagOf label = tagCons := h.tagOf_word
      obtain ⟨-, hhead, htail⟩ := h
      intro word hword
      rcases List.mem_cons.mp hword with rfl | hword
      · refine BoxedTable.neverHandle_of_tagOf_ne ?_
        rw [htag]
        decide
      · rcases List.mem_append.mp hword with hword | hword
        · exact ihh hhead word hword
        · exact iht htail word hword

/-- A call on an accepted text starts to evaluate with the table that the reader leaves. -/
theorem Machine.HonestAt.evalStr {k : Epoch} {m : Machine σ} (h : m.HonestAt P k) {text : String}
    {word : Word} {s : ReaderState}
    (hread : readOne P text m.start.reader = (.ok word, s)) :
    ∃ l, ⟨s.boxed, m.session.bindings, m.calls⟩ ≤ l ∧
      (LispHost.evalStr P text m).2.HonestAt P l := by
  have hidle : (fun (k : Epoch) (m m' : Machine σ) => m = m' ∧ m.HonestAt P k) k m m := ⟨rfl, h⟩
  obtain ⟨i, hstart, hleaves⟩ := callSim_honest.start hidle
  obtain ⟨r, -, hx⟩ | ⟨j, hij, hRS, hagree⟩ :=
    readerSim_sourced.readOne i text i le_rfl _ _ hstart
  · exact hx.elim
  · rw [hread] at hRS hagree
    obtain ⟨l, n, -, hlive, hheld⟩ := hleaves j s s hij hRS
    rw [evalStr_eq, hread]
    cases hagree with
    | ok hword =>
        have hepoch := hlive.2.honest.state.epoch
        obtain ⟨r, -, hx⟩ | ⟨l', hll', hafter, -⟩ :=
          callSim_honest.evalPrint hlive le_rfl (hheld _ _ hword)
        · exact hx.elim
        · exact ⟨l', hepoch ▸ hll', hafter.2⟩

/-- **Handles cannot be forged.** In every history of a session whose host hands out no
pairs, each argument that is taken for a game handle at its call was bound or returned by
the host before; and no word of a text that has been read is taken for a handle by the
table at the end of the history or at any primitive call since. -/
theorem handles_not_forged {m : Machine σ} (hprimitives : m.session.primitives.NonCons)
    (hbindings : m.session.bindings.NonCons) (hcalls : m.calls = [])
    (sources : List SourceArg) :
    LogHonest P (afterCalls P sources m).calls ∧
      ∀ before text after, sources = before ++ .text text :: after →
        ∀ word s d, readOne P text (afterCalls P before m).start.reader = (.ok word, s) →
          Sexp.word d = word → Represents P s d → ∀ w ∈ d.words,
            (afterCalls P sources m).session.boxed.getGameHandle P w = none ∧
              ∀ call ∈ (afterCalls P sources m).calls.drop (afterCalls P before m).calls.length,
                call.boxed.getGameHandle P w = none := by
  have hlog : LogHonest P m.calls := by
    intro earlier call later heq
    rw [hcalls] at heq
    exact absurd heq.symm (by simp)
  have hm : m.HonestAt P ⟨m.session.boxed, m.session.bindings, m.calls⟩ :=
    ⟨⟨rfl, hbindings, hlog⟩, hprimitives⟩
  refine ⟨?_, ?_⟩
  · obtain ⟨-, l, -, -, hafter⟩ := callSim_honest.calls (P := P) ⟨rfl, hm⟩ sources
    exact hafter.state.log
  · rintro before text after rfl word s d hread - hrep w hw
    obtain ⟨-, k, -, -, hbefore⟩ := callSim_honest.calls (P := P) ⟨rfl, hm⟩ before
    obtain ⟨l, hl, hread'⟩ := hbefore.evalStr hread
    obtain ⟨-, l', hll', -, hafter⟩ := callSim_honest.calls (P := P) ⟨rfl, hread'⟩ after
    have hwhole : afterCalls P (before ++ .text text :: after) m =
        afterCalls P after (evalStr P text (afterCalls P before m)).2 := by
      rw [afterCalls, List.foldl_append, List.foldl_cons, wsmEvalString_text_snd]
      rfl
    rw [hwhole]
    obtain ⟨hboxed, -, new, hnew, hsince⟩ := hl.trans hll'
    have hnever := hrep.neverHandle w hw
    rw [hafter.state.epoch] at hboxed hnew
    refine ⟨hnever _ hboxed, fun call hcall => hnever _ (hsince call ?_)⟩
    have hdrop : (afterCalls P after (evalStr P text (afterCalls P before m)).2).calls.drop
        (afterCalls P before m).calls.length = new := by
      rw [show (afterCalls P after (evalStr P text (afterCalls P before m)).2).calls =
        (afterCalls P before m).calls ++ new from hnew, List.drop_left]
    exact hdrop ▸ hcall

/-- A source that passes the bound handle on. -/
theorem handles_not_forged_player :
    LogHonest .standard
      (afterCalls .standard [.text "(f player)"] (playerMachine 1)).calls :=
  (handles_not_forged (m := playerMachine 1) (.single "f" (by decide))
    (.singleton "player" (by decide)) rfl [.text "(f player)"]).1

end LispHost
