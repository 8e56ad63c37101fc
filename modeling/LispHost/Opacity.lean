import LispHost.Calls

/-!
# Handles Are Opaque to Lisp

Two sessions in the same state except for the tokens in their game handles, with
primitives whose behaviour does not depend on the tokens, give the same answers to every
sequence of sources. The relation between the two runs is equality of words: a token is in
the boxed table only, and neither the evaluator nor the printer reads it from there.

## Main definitions

* `BoxedTable.SameUpToTokens`, `Machine.SameUpToTokens`: equality but for the tokens.
* `Primitives.Blind`: primitives that do not depend on the tokens.

## Main results

* `BoxedTable.SameUpToTokens.entry`: a word resolves alike in the two tables.
* `callSim_sameUpToTokens`: the relation is respected by every call.
* `answers_sameUpToTokens`: the two sessions answer alike.
-/

namespace LispHost

open Effects

/-- Two boxed values that differ in a token at most. -/
inductive BoxedValue.SameUpToToken : BoxedValue → BoxedValue → Prop
  | gameHandle (token token' : Word) : SameUpToToken (.gameHandle token) (.gameHandle token')
  | same (value : BoxedValue) : SameUpToToken value value

/-- Two entries that differ in a token at most. -/
structure BoxedEntry.SameUpToToken (e e' : BoxedEntry) : Prop where
  value : e.value.SameUpToToken e'.value
  lifetime : e.lifetime = e'.lifetime

/-- Two tables with the same slots up to tokens. -/
def BoxedTable.SameUpToTokens (a b : BoxedTable) : Prop :=
  List.Forall₂ (Option.Rel BoxedEntry.SameUpToToken) a.values b.values

namespace BoxedTable.SameUpToTokens

variable {P : Platform} {a b : BoxedTable} (h : a.SameUpToTokens b)

include h

/-- A word resolves alike in the two tables. -/
theorem entry (word : Word) :
    Option.Rel BoxedEntry.SameUpToToken (a.entry P word) (b.entry P word) := by
  rw [BoxedTable.entry, BoxedTable.entry]
  cases P.decodeBoxed word with
  | none => exact .none
  | some handle =>
      have hslot : Option.Rel (Option.Rel BoxedEntry.SameUpToToken) a.values[handle - 1]?
          b.values[handle - 1]? := by
        by_cases hlt : handle - 1 < a.values.length
        · rw [List.getElem?_eq_getElem hlt,
            List.getElem?_eq_getElem (List.Forall₂.length_eq h ▸ hlt)]
          exact .some (List.Forall₂.get h hlt _)
        · rw [List.getElem?_eq_none (by omega),
            List.getElem?_eq_none (by rw [← List.Forall₂.length_eq h]; omega)]
          exact .none
      simp only
      generalize a.values[handle - 1]? = x at hslot
      generalize b.values[handle - 1]? = y at hslot
      cases hslot with
      | none => exact .none
      | some hslot => exact hslot

/-- Adding the same value keeps the tables alike, and returns the same word. -/
theorem add {ε : Type} (value : BoxedValue) (lifetime : BoxedLifetime) :
    (add (ε := ε) P value lifetime a).1 = (BoxedTable.add (ε := ε) P value lifetime b).1 ∧
      (BoxedTable.add (ε := ε) P value lifetime a).2.SameUpToTokens
        (BoxedTable.add (ε := ε) P value lifetime b).2 := by
  have hlength := List.Forall₂.length_eq h
  have hpush : List.Forall₂ (Option.Rel BoxedEntry.SameUpToToken)
      (a.values ++ [some ⟨value, lifetime⟩]) (b.values ++ [some ⟨value, lifetime⟩]) :=
    List.rel_append h (.cons (.some ⟨.same value, rfl⟩) .nil)
  rw [BoxedTable.add, BoxedTable.add]
  by_cases hroom : a.values.length + 1 < addressSpace
  · have hroom' : b.values.length + 1 < addressSpace := hlength ▸ hroom
    rw [dif_pos hroom, dif_pos hroom', ← hlength]
    cases P.encodeBoxed (a.values.length + 1) with
    | none => exact ⟨rfl, hpush⟩
    | some word => exact ⟨rfl, hpush⟩
  · have hroom' : ¬ b.values.length + 1 < addressSpace := hlength ▸ hroom
    rw [dif_neg hroom, dif_neg hroom']
    exact ⟨rfl, h⟩

/-- Clearing the transient values keeps the tables alike. -/
theorem clearTransient : a.clearTransient.SameUpToTokens b.clearTransient := by
  refine List.forall₂_map_left_iff.mpr (List.forall₂_map_right_iff.mpr ?_)
  refine List.Forall₂.imp ?_ h
  intro slot slot' hslot
  cases hslot with
  | none => exact .none
  | @some e e' he =>
      obtain ⟨value, lifetime⟩ := e
      obtain ⟨value', lifetime'⟩ := e'
      obtain rfl : lifetime = lifetime' := he.lifetime
      cases lifetime with
      | persistent => exact .some he
      | transient => exact .none

/-- A word that is no pair is printed alike. -/
theorem atomText (symbols : SymbolTable) (word : Word) :
    atomText P symbols a word = LispHost.atomText P symbols b word := by
  rw [LispHost.atomText, LispHost.atomText]
  have hentry := h.entry (P := P) word
  generalize a.entry P word = x at hentry
  generalize b.entry P word = y at hentry
  cases hentry with
  | none => rfl
  | @some e e' he =>
      obtain ⟨value, lifetime⟩ := e
      obtain ⟨value', lifetime'⟩ := e'
      obtain rfl : lifetime = lifetime' := he.lifetime
      cases he.value with
      | gameHandle => rfl
      | same => rfl

end BoxedTable.SameUpToTokens

/-! ### Primitives that do not look at tokens -/

section Blind

variable {σ τ : Type} (R : σ → τ → Prop)

/-- Two worlds of the host that are alike, where `R` says when its own states are. -/
structure HostWorld.SameUpToTokens (world : HostWorld σ) (world' : HostWorld τ) : Prop where
  boxed : world.boxed.SameUpToTokens world'.boxed
  bindings : world.bindings = world'.bindings
  host : R world.host world'.host

/-- Two primitives that behave alike in worlds that are alike. -/
def HostPrimitive.Blind (p : HostPrimitive σ) (q : HostPrimitive τ) : Prop :=
  ∀ args world world', HostWorld.SameUpToTokens R world world' →
    (p.call args world).1 = (q.call args world').1 ∧
      HostWorld.SameUpToTokens R (p.call args world).2 (q.call args world').2

/-- The same names are registered, for primitives that behave alike. -/
def Primitives.Blind (p : Primitives σ) (q : Primitives τ) : Prop :=
  ∀ name, Option.Rel (HostPrimitive.Blind R) (p name) (q name)

/-! ### The relation on machines -/

/-- Two machines in the same state but for the tokens of game handles. -/
structure Machine.SameUpToTokens (m : Machine σ) (m' : Machine τ) : Prop where
  arena : m.arena = m'.arena
  symbols : m.session.symbols = m'.session.symbols
  world : HostWorld.SameUpToTokens R m.world m'.world
  primitives : Primitives.Blind R m.session.primitives m'.session.primitives

/-- Two states of the reader that are alike. -/
structure ReaderState.SameUpToTokens (s s' : ReaderState) : Prop where
  arena : s.arena = s'.arena
  symbols : s.symbols = s'.symbols
  boxed : s.boxed.SameUpToTokens s'.boxed

/-- Two states of the evaluator that are alike. -/
def EvalState.SameUpToTokens (s : EvalState σ) (s' : EvalState τ) : Prop :=
  HostWorld.SameUpToTokens R s.world s'.world

variable {R} {P : Platform}

/-- The reader works alike, with equal words. -/
theorem readerSim_sameUpToTokens :
    ReaderSim P (fun _ => False) (fun (_ : Fixed) => ReaderState.SameUpToTokens)
      (fun _ => Eq) where
  value_mono _ h := h
  nil _ := rfl
  fixnum _ _ := rfl
  intern i name := by
    rintro j _ ⟨arena, symbols, boxed⟩ ⟨arena', symbols', boxed'⟩ ⟨harena, hsymbols, hboxed⟩
    obtain rfl : arena = arena' := harena
    obtain rfl : symbols = symbols' := hsymbols
    refine .inr ⟨j, le_rfl, ?_⟩
    rw [internSymbol, internSymbol]
    cases symbols.intern name with
    | none => exact ⟨⟨rfl, rfl, hboxed⟩, .abort _⟩
    | some result => exact ⟨⟨rfl, rfl, hboxed⟩, .ok rfl⟩
  string i text := by
    rintro j _ s s' ⟨harena, hsymbols, hboxed⟩
    obtain ⟨hword, htable⟩ :=
      hboxed.add (P := P) (ε := ReadError) (.str text) .transient
    refine .inr ⟨j, le_rfl, ⟨harena, hsymbols, htable⟩, ?_⟩
    change Outcome.Agree Eq (BoxedTable.add P (.str text) .transient s.boxed).1
      (BoxedTable.add P (.str text) .transient s'.boxed).1
    rw [hword]
    exact .refl _
  cons i head head' tail tail' hhead htail := by
    subst hhead htail
    rintro j _ ⟨arena, symbols, boxed⟩ ⟨arena', symbols', boxed'⟩ ⟨harena, hsymbols, hboxed⟩
    obtain rfl : arena = arena' := harena
    refine .inr ⟨j, le_rfl, ?_⟩
    simp only [wsmCons]
    cases arena.cons P head tail with
    | none => exact ⟨⟨rfl, hsymbols, hboxed⟩, .abort _⟩
    | some result => exact ⟨⟨rfl, hsymbols, hboxed⟩, .ok rfl⟩

/-- Primitives that do not depend on the tokens are called alike. -/
theorem callPrimitive_sameUpToTokens {p : Primitives σ} {q : Primitives τ}
    (h : Primitives.Blind R p q) (name : String) (args : List Word) {s : EvalState σ}
    {s' : EvalState τ} (hs : EvalState.SameUpToTokens R s s') :
    EvalState.SameUpToTokens R (callPrimitive p name args s).2
        (callPrimitive q name args s').2 ∧
      (callPrimitive p name args s).1 = (callPrimitive q name args s').1 := by
  rw [callPrimitive, callPrimitive]
  have hname := h name
  generalize p name = x at hname
  generalize q name = y at hname
  cases hname with
  | none => exact ⟨hs, rfl⟩
  | @some primitive primitive' hblind =>
      obtain ⟨hresult, hworld⟩ := hblind args s.world s'.world hs
      exact ⟨hworld, congrArg (HostResult.outcome name) hresult⟩

/-- **Calls work alike.** -/
theorem callSim_sameUpToTokens :
    CallSim P (fun _ => False) (fun (_ : Fixed) => Machine.SameUpToTokens R)
      (fun _ (_ : Unit) => Machine.SameUpToTokens R) (fun _ => Machine.SameUpToTokens R)
      (fun (_ : Fixed) => ReaderState.SameUpToTokens) (fun _ => Eq)
      (fun _ _ => EvalState.SameUpToTokens R) (fun _ _ => Eq) where
  reader := readerSim_sameUpToTokens
  rest h := h
  start {k m m'} h := by
    refine ⟨.world, ⟨?_, h.symbols, h.world.boxed.clearTransient⟩, fun j s s' _ hs => ?_⟩
    · simp only [Machine.start, Machine.reader, Machine.resetArena, Machine.clearTransient,
        h.arena]
    · exact ⟨k, (), le_rfl, ⟨hs.arena, hs.symbols, ⟨hs.boxed, h.world.bindings, h.world.host⟩,
        h.primitives⟩, fun _ _ hvw => hvw⟩
  evaluator {k _ m m'} h :=
    { value_mono := fun _ h => h
      tag := fun h => congrArg tagOf h
      nil := fun _ => rfl
      nil_iff := fun h => h ▸ Iff.rfl
      car := fun {i v w} hv _ => by
        subst hv
        rw [Machine.context, Machine.context, h.arena]
        exact .refl (fun _ => rfl) _
      cdr := fun {i v w} hv _ => by
        subst hv
        rw [Machine.context, Machine.context, h.arena]
        exact .refl (fun _ => rfl) _
      name := fun {i v w} hv _ => by
        subst hv
        rw [Machine.context, Machine.context, h.symbols]
      bound := fun {i s t} hs name => by
        rw [hs.bindings]
        cases t.world.bindings.value name with
        | none => exact .none
        | some word => exact .some rfl
      call := fun i name args args' hargs j _ s t hs => by
        obtain rfl : args = args' := List.forall₂_eq_eq_eq ▸ hargs
        obtain ⟨hstate, hresult⟩ := callPrimitive_sameUpToTokens h.primitives name args hs
        refine .inr ⟨j, le_rfl, hstate, ?_⟩
        rw [Machine.context, Machine.context, hresult]
        exact .refl _ }
  evalState h := h.world
  evaluated h _ hs := ⟨h.arena, h.symbols, hs, h.primitives⟩
  printer {k _ m m'} h :=
    { tag := fun h => congrArg tagOf h
      car := fun {v w} hv _ => by
        subst hv
        rw [h.arena]
        exact .refl (fun _ => rfl) _
      cdr := fun {v w} hv _ => by
        subst hv
        rw [h.arena]
        exact .refl (fun _ => rfl) _
      atom := fun {v w} hv _ => by
        subst hv
        rw [h.symbols]
        exact h.world.boxed.atomText _ _ }
  done h := h
  clear {k m m'} h := ⟨k, le_rfl, h.arena, h.symbols, ⟨h.world.boxed.clearTransient,
    h.world.bindings, h.world.host⟩, h.primitives⟩

/-- **Handles are opaque.** Sessions in the same state but for the tokens, with primitives
that do not depend on the tokens, answer every sequence of sources alike. -/
theorem answers_sameUpToTokens {m : Machine σ} {m' : Machine τ}
    (h : Machine.SameUpToTokens R m m') (sources : List SourceArg) :
    answers P sources m = answers P sources m' :=
  (callSim_sameUpToTokens.calls (k := .world) h sources).1

/-- Two tokens, and two sources that use the handle. -/
theorem answers_sameUpToTokens_player :
    answers .standard [.text "player", .text "(f player)"] (playerMachine 1) =
      answers .standard [.text "player", .text "(f player)"] (playerMachine 2) := by
  have hprimitives : Primitives.Blind Eq (playerMachine 1).session.primitives
      (playerMachine 2).session.primitives := by
    intro name
    simp only [playerMachine, Machine.init, Primitives.single]
    by_cases hf : name = "f"
    · rw [if_pos hf]
      exact .some fun _ _ _ h => ⟨rfl, h⟩
    · rw [if_neg hf]
      exact .none
  have hsame : Machine.SameUpToTokens Eq (playerMachine 1) (playerMachine 2) :=
    { arena := rfl
      symbols := rfl
      world := ⟨.cons (.some ⟨.gameHandle 1 2, rfl⟩) .nil, rfl, rfl⟩
      primitives := hprimitives }
  exact answers_sameUpToTokens hsame _

end Blind

end LispHost
