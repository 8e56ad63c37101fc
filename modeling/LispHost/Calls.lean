import LispHost.TwoRun

/-!
# Whole Calls in Two-Run Logic

Two runs of `wsm_eval_string` on the same source, from related machines. In front of a call
the machines are related by `idle`, at a world of the relation, and behind it by `settled`;
while a word is evaluated and printed they are related by `live`, which also depends on data
that an evaluation does not change, such as the number of cells the reader has allocated.
`CallSim` lists what the relations have to satisfy, and `CallSim.wsmEvalString` and
`CallSim.calls` are what follows for a call and for a sequence of calls.

## Main definitions

* `Later`: the worlds of an evaluation.
* `CallSim`: relations that a call respects.
* `Tracks`: two calls end alike, in related machines, unless the first one is excused.
* `WorldInvariant`: an invariant of what the host can reach.

## Main results

* `CallSim.wsmEvalString`, `CallSim.calls`: related machines answer alike.
* `WorldInvariant.wsmEvalString`: the host's invariants survive every call.
-/

namespace LispHost

open Effects

variable {σ τ κ δ ι : Type} [Preorder κ] [Preorder ι]

/-- A world behind a given one. -/
structure Later (k : κ) where
  world : κ
  le : k ≤ world

instance (k : κ) : Preorder (Later k) where
  le a b := a.world ≤ b.world
  le_refl _ := le_rfl
  le_trans _ _ _ h h' := le_trans h h'

/-- What the reader has to leave behind: machines related by `live`, at a world behind
`k`, and words related by `V`. -/
def LeavesLive (live : κ → δ → Machine σ → Machine τ → Prop)
    (V : κ → δ → Word → Word → Prop) (k : κ) (W : Word → Word → Prop) (m : Machine σ)
    (m' : Machine τ) : Prop :=
  ∃ l d, k ≤ l ∧ live l d m m' ∧ ∀ v w, W v w → V l d v w

/-- **Relations that a call respects.** `idle` relates the machines in front of the call,
`live` while a word is evaluated and printed, and `settled` behind it; `RS` and `VR` are the
relations of the reader, with worlds of their own. -/
structure CallSim (P : Platform) (X : Exit → Prop) (idle : κ → Machine σ → Machine τ → Prop)
    (live : κ → δ → Machine σ → Machine τ → Prop) (settled : κ → Machine σ → Machine τ → Prop)
    (RS : ι → ReaderState → ReaderState → Prop) (VR : ι → Word → Word → Prop)
    (ES : κ → δ → EvalState σ → EvalState τ → Prop) (V : κ → δ → Word → Word → Prop) :
    Prop where
  reader : ReaderSim P X RS VR
  rest : ∀ {k m m'}, idle k m m' → settled k m m'
  start : ∀ {k m m'}, idle k m m' → ∃ i, RS i m.start.reader m'.start.reader ∧
    ∀ j s s', i ≤ j → RS j s s' →
      LeavesLive live V k (VR j) (m.start.setReader s) (m'.start.setReader s')
  evaluator : ∀ {k d m m'}, live k d m m' →
    EvalSim P X m.context m'.context (fun l : Later k => ES l.world d) fun l => V l.world d
  evalState : ∀ {k d m m'}, live k d m m' → ES k d m.evalState m'.evalState
  evaluated : ∀ {k l d m m' s s'}, live k d m m' → k ≤ l → ES l d s s' →
    live l d (m.setEvalState s) (m'.setEvalState s')
  printer : ∀ {k d m m'}, live k d m m' → PrinterSim P m.arena m'.arena m.session.symbols
    m'.session.symbols m.session.boxed m'.session.boxed (V k d)
  done : ∀ {k d m m'}, live k d m m' → settled k m m'
  clear : ∀ {k m m'}, settled k m m' →
    ∃ l, k ≤ l ∧ settled l m.clearTransient m'.clearTransient

/-- The two results end alike, in machines related at a later world, unless the first one is
excused. -/
def Tracks {α : Type} (X : Exit → Prop) (settled : κ → Machine σ → Machine τ → Prop) (k : κ)
    (r : Outcome Exit Empty α × Machine σ) (r' : Outcome Exit Empty α × Machine τ) : Prop :=
  r.1.Excused X ∨ ∃ l, k ≤ l ∧ settled l r.2 r'.2 ∧ r.1 = r'.1

namespace CallSim

variable {P : Platform} {X : Exit → Prop} {idle : κ → Machine σ → Machine τ → Prop}
  {live : κ → δ → Machine σ → Machine τ → Prop} {settled : κ → Machine σ → Machine τ → Prop}
  {RS : ι → ReaderState → ReaderState → Prop} {VR : ι → Word → Word → Prop}
  {ES : κ → δ → EvalState σ → EvalState τ → Prop} {V : κ → δ → Word → Word → Prop}
  (C : CallSim P X idle live settled RS VR ES V) {k l : κ} {d : δ} {m : Machine σ} {m' : Machine τ}

include C

/-- A call that returns clears the transient values last. -/
theorem tracks_clear {α : Type} (h : settled l m m') (hkl : k ≤ l) (a : α) :
    Tracks X settled k (.ok a, m.clearTransient) (.ok a, m'.clearTransient) := by
  obtain ⟨l', hll', hsettled⟩ := C.clear h
  exact .inr ⟨l', hkl.trans hll', hsettled, rfl⟩

/-- Printing related words. -/
theorem print (h : live l d m m') (hkl : k ≤ l) {v w : Word} (hv : V l d v w) :
    Tracks X settled k ((printWord P v >>= finish) m) ((printWord P w >>= finish) m') := by
  have htext := (C.printer h).writeValue printFuel hv
  have hprint : printWord P v m = (valueToString P m.arena m.session.symbols
    m.session.boxed v, m) := rfl
  have hprint' : printWord P w m' = (valueToString P m.arena m.session.symbols
      m.session.boxed v, m') := by
    rw [valueToString, htext]
    rfl
  have hsettled := C.done h
  generalize valueToString P m.arena m.session.symbols m.session.boxed v = walk
    at hprint hprint'
  cases walk with
  | ok text =>
      rw [Program.bind_ok hprint, Program.bind_ok hprint']
      exact C.tracks_clear hsettled hkl text
  | err e => exact e.elim
  | panic =>
      rw [Program.bind_panic hprint, Program.bind_panic hprint']
      exact .inr ⟨l, hkl, hsettled, rfl⟩
  | abort r =>
      rw [Program.bind_abort hprint, Program.bind_abort hprint']
      exact .inr ⟨l, hkl, hsettled, rfl⟩
  | timeout =>
      rw [Program.bind_timeout hprint, Program.bind_timeout hprint']
      exact .inr ⟨l, hkl, hsettled, rfl⟩

/-- Evaluating and printing related words. -/
theorem evalPrint (h : live l d m m') (hkl : k ≤ l) {v w : Word} (hv : V l d v w) :
    Tracks X settled k ((evalPrint P v >>= finish) m) ((LispHost.evalPrint P w >>= finish) m') := by
  rw [evalPrint_eq, evalPrint_eq]
  have hlock := (C.evaluator h).eval (i := ⟨l, le_rfl⟩) hv evalFuel
  obtain ⟨r, hr, hx⟩ | ⟨⟨l', hll'⟩, -, hES, hagree⟩ :=
    hlock ⟨l, le_rfl⟩ le_rfl _ _ (C.evalState h)
  · left
    generalize eval P m.context evalFuel v m.evalState = result at hr
    obtain ⟨o, s⟩ := result
    obtain rfl : o = .abort r := hr
    exact ⟨r, rfl, hx⟩
  · have hlive := C.evaluated h hll' hES
    have hsettled := C.done hlive
    have hkl' := hkl.trans hll'
    generalize eval P m.context evalFuel v m.evalState = result at hES hagree hlive hsettled ⊢
    generalize eval P m'.context evalFuel w m'.evalState = result' at hES hagree hlive hsettled ⊢
    obtain ⟨o, s⟩ := result
    obtain ⟨o', s'⟩ := result'
    cases hagree with
    | ok hvalue => exact C.print hlive hkl' hvalue
    | err e => exact C.tracks_clear hsettled hkl' _
    | panic => exact .inr ⟨l', hkl', hsettled, rfl⟩
    | abort r => exact .inr ⟨l', hkl', hsettled, rfl⟩
    | timeout => exact .inr ⟨l', hkl', hsettled, rfl⟩

/-- **Related machines evaluate a text alike.** -/
theorem evalStr (h : idle k m m') (text : String) :
    Tracks X settled k (evalStr P text m) (LispHost.evalStr P text m') := by
  rw [evalStr_eq, evalStr_eq]
  obtain ⟨i, hstart, hleaves⟩ := C.start h
  obtain ⟨r, hr, hx⟩ | ⟨j, hij, hRS, hagree⟩ :=
    C.reader.readOne i text i le_rfl _ _ hstart
  · left
    generalize readOne P text m.start.reader = result at hr
    obtain ⟨o, s⟩ := result
    obtain rfl : o = .abort r := hr
    exact ⟨r, rfl, hx⟩
  · obtain ⟨l, d, hkl, hlive, hV⟩ := hleaves j _ _ hij hRS
    have hsettled := C.done hlive
    generalize readOne P text m.start.reader = result at hRS hagree hlive hsettled ⊢
    generalize readOne P text m'.start.reader = result' at hRS hagree hlive hsettled ⊢
    obtain ⟨o, s⟩ := result
    obtain ⟨o', s'⟩ := result'
    cases hagree with
    | ok hvalue => exact C.evalPrint hlive hkl (hV _ _ hvalue)
    | err e => exact C.tracks_clear hsettled hkl _
    | panic => exact .inr ⟨l, hkl, hsettled, rfl⟩
    | abort r => exact .inr ⟨l, hkl, hsettled, rfl⟩
    | timeout => exact .inr ⟨l, hkl, hsettled, rfl⟩

/-- **Related machines answer a call alike.** -/
theorem wsmEvalString (h : idle k m m') (source : SourceArg) :
    Tracks X settled k (wsmEvalString P source m) (LispHost.wsmEvalString P source m') := by
  cases source with
  | null => exact .inr ⟨k, le_rfl, C.rest h, rfl⟩
  | notUtf8 => exact .inr ⟨k, le_rfl, C.rest h, rfl⟩
  | text text =>
      rw [LispHost.wsmEvalString, LispHost.wsmEvalString]
      beta_reduce
      have hcall := C.evalStr h text
      generalize LispHost.evalStr P text m = result at hcall ⊢
      generalize LispHost.evalStr P text m' = result' at hcall ⊢
      obtain ⟨o, s⟩ := result
      obtain ⟨o', s'⟩ := result'
      rcases hcall with ⟨r, rfl, hx⟩ | ⟨l, hkl, hsettled, rfl⟩
      · exact .inl ⟨r, rfl, hx⟩
      · refine .inr ⟨l, hkl, ?_⟩
        cases o with
        | ok | panic | abort | timeout => exact ⟨hsettled, rfl⟩
        | err e => exact e.elim

end CallSim

/-- **Related machines stay related.** Where no call is excused, related machines give the
same answers to a sequence of calls and are related again behind it. -/
theorem CallSim.calls {P : Platform} {idle : κ → Machine σ → Machine τ → Prop}
    {live : κ → δ → Machine σ → Machine τ → Prop}
    {RS : ι → ReaderState → ReaderState → Prop} {VR : ι → Word → Word → Prop}
    {ES : κ → δ → EvalState σ → EvalState τ → Prop} {V : κ → δ → Word → Word → Prop}
    (C : CallSim P (fun _ => False) idle live idle RS VR ES V) {k : κ} {m : Machine σ}
    {m' : Machine τ} (h : idle k m m') (sources : List SourceArg) :
    answers P sources m = answers P sources m' ∧
      ∃ l, k ≤ l ∧ idle l (afterCalls P sources m) (afterCalls P sources m') := by
  induction sources generalizing k m m' with
  | nil => exact ⟨rfl, k, le_rfl, h⟩
  | cons source sources ih =>
      rcases C.wsmEvalString h source with ⟨r, -, hx⟩ | ⟨l, hkl, hafter, hanswer⟩
      · exact hx.elim
      · obtain ⟨hanswers, l', hll', hidle⟩ := ih hafter
        refine ⟨?_, l', hkl.trans hll', hidle⟩
        rw [answers, answers, hanswer]
        cases (LispHost.wsmEvalString P source m').1 with
        | ok text => rw [hanswers]
        | err | panic | abort | timeout => rfl

/-! ### Invariants of what the host can reach -/

/-- **An invariant of what the host can reach**: what the runtime does to the boxed table
keeps it, and so do the primitives. -/
structure WorldInvariant (I : HostWorld σ → Prop) (primitives : Primitives σ) : Prop where
  grow : ∀ {world : HostWorld σ} {boxed}, I world → world.boxed ≤ boxed →
    I { world with boxed := boxed }
  clear : ∀ {world : HostWorld σ}, I world →
    I { world with boxed := world.boxed.clearTransient }
  call : ∀ {name primitive}, primitives name = some primitive → ∀ args {world}, I world →
    I (primitive.call args world).2

/-- The reader makes the boxed table grow, and works alike on equal states. -/
theorem readerSim_grows (P : Platform) :
    ReaderSim P (fun _ => False) (fun (i : BoxedTable) s s' => s = s' ∧ i ≤ s.boxed)
      (fun _ => Eq) where
  value_mono _ h := h
  nil _ := rfl
  fixnum _ _ := rfl
  intern i name := by
    rintro j - s _ ⟨rfl, hs⟩
    refine .inr ⟨j, le_rfl, ?_⟩
    rw [internSymbol]
    cases s.symbols.intern name with
    | none => exact ⟨⟨rfl, hs⟩, .abort _⟩
    | some result => exact ⟨⟨rfl, hs⟩, .ok rfl⟩
  string i text := by
    rintro j - s _ ⟨rfl, hs⟩
    refine .inr ⟨j, le_rfl, ⟨rfl, ?_⟩, .refl _⟩
    rw [addStringLiteral, Program.zoom, BoxedTable.addString]
    obtain hfull | ⟨word, hroom, -, hadd⟩ :=
      BoxedTable.add_eq (P := P) (ε := ReadError) (.str text) .transient s.boxed
    · rw [hfull]
      exact hs
    · rw [hadd]
      exact hs.trans (BoxedTable.le_push _ _ hroom)
  cons i head _ tail _ := by
    rintro rfl rfl j - s _ ⟨rfl, hs⟩
    refine .inr ⟨j, le_rfl, ?_⟩
    rw [wsmCons]
    cases s.arena.cons P head tail with
    | none => exact ⟨⟨rfl, hs⟩, .abort _⟩
    | some result => exact ⟨⟨rfl, hs⟩, .ok rfl⟩

namespace WorldInvariant

variable {P : Platform} {I : HostWorld σ → Prop} {primitives : Primitives σ}

/-- Two equal machines with these primitives and the invariant. -/
def Kept (I : HostWorld σ → Prop) (primitives : Primitives σ) (m m' : Machine σ) : Prop :=
  m = m' ∧ m.session.primitives = primitives ∧ I m.world

/-- Equal machines work alike, and keep the invariant. -/
theorem callSim (h : WorldInvariant I primitives) :
    CallSim P (fun _ => False) (fun (_ : Fixed) => Kept I primitives)
      (fun _ (_ : Unit) => Kept I primitives) (fun _ => Kept I primitives)
      (fun (i : BoxedTable) s s' => s = s' ∧ i ≤ s.boxed) (fun _ => Eq)
      (fun _ _ s s' => s = s' ∧ I s.world) (fun _ _ => Eq) where
  reader := readerSim_grows P
  rest h := h
  start {k m m'} hm := by
    obtain ⟨rfl, hprimitives, hworld⟩ := hm
    refine ⟨m.start.session.boxed, ⟨rfl, le_rfl⟩, ?_⟩
    rintro j s _ hij ⟨rfl, hs⟩
    exact ⟨k, (), le_rfl, ⟨rfl, hprimitives, h.grow (h.clear hworld) (hij.trans hs)⟩,
      fun _ _ hvw => hvw⟩
  evaluator {k _ m m'} hm := by
    obtain ⟨rfl, hprimitives, -⟩ := hm
    exact
      { value_mono := fun _ h => h
        tag := fun h => congrArg tagOf h
        nil := fun _ => rfl
        nil_iff := fun h => h ▸ Iff.rfl
        car := fun hv _ => hv ▸ .refl (fun _ => rfl) _
        cdr := fun hv _ => hv ▸ .refl (fun _ => rfl) _
        name := fun hv _ => hv ▸ rfl
        bound := fun {i s t} hs name => by
          obtain ⟨rfl, -⟩ := hs
          cases s.world.bindings.value name with
          | none => exact .none
          | some word => exact .some rfl
        call := fun i name args args' hargs => by
          rintro j - s _ ⟨rfl, hs⟩
          obtain rfl : args = args' := List.forall₂_eq_eq_eq ▸ hargs
          refine .inr ⟨j, le_rfl, ⟨rfl, ?_⟩, .refl _⟩
          rw [Machine.context, hprimitives]
          cases hname : primitives name with
          | none =>
              rw [callPrimitive_of_none hname]
              exact hs
          | some primitive =>
              rw [callPrimitive_of_some hname]
              exact h.call hname args hs }
  evalState hm := ⟨hm.1 ▸ rfl, hm.2.2⟩
  evaluated := by
    rintro k l _ m _ s _ ⟨rfl, hprimitives, -⟩ - ⟨rfl, hs⟩
    exact ⟨rfl, hprimitives, hs⟩
  printer {k _ m m'} hm := by
    obtain ⟨rfl, -, -⟩ := hm
    exact
      { tag := fun h => congrArg tagOf h
        car := fun hv _ => hv ▸ .refl (fun _ => rfl) _
        cdr := fun hv _ => hv ▸ .refl (fun _ => rfl) _
        atom := fun hv _ => hv ▸ rfl }
  done h := h
  clear {k m m'} hm := by
    obtain ⟨rfl, hprimitives, hworld⟩ := hm
    exact ⟨k, le_rfl, rfl, hprimitives, h.clear hworld⟩

/-- **The host's invariants survive every call**, and the primitives stay registered. -/
theorem wsmEvalString {m : Machine σ} (h : WorldInvariant I m.session.primitives)
    (hworld : I m.world) (source : SourceArg) :
    (LispHost.wsmEvalString P source m).2.session.primitives = m.session.primitives ∧
      I (LispHost.wsmEvalString P source m).2.world := by
  obtain ⟨r, -, hx⟩ | ⟨-, -, ⟨-, hafter⟩, -⟩ :=
    h.callSim.wsmEvalString (P := P) (k := .world) ⟨rfl, rfl, hworld⟩ source
  · exact hx.elim
  · exact hafter

end WorldInvariant

end LispHost
