import LispHost.EvalKeeps
import LispHost.Lib.Transition
import LispHost.OneLine
import LispHost.ReaderKeeps

/-!
# One Line per Request

A session keeps the names of its symbols from call to call, and nothing else that a reply can
show: strings are transient. The names are atoms of the sources so far, so that they are on one
line whatever the sources are. A reply to a source on one line is therefore on one line itself,
if the strings are that the host wraps meanwhile.

A host wraps strings and reports failures through the C interface: a string that it wraps is a C
string and transient, and a failure is a number.

## Main definitions

* `HostPrimitive.InC`: the primitives that keep to the C interface.
* `SessionStep`: what happens to a session, call for call.
* `wrappedStrings`: the strings that the host wraps during a call.
* `Machine.Tidy`: what a session keeps.

## Main results

* `CallEnds.of_evalStr`: how a call ends.
* `Machine.Tidy.step`: the sessions that can be reached are tidy.
* `replies_on_one_line`: a reply to a line is a line.
-/

namespace LispHost

open Effects

/-! ### Strings of a boxed table -/

/-- A slot that holds a string holds a transient one with the property. -/
def SlotHolds (Q : String → Prop) : Option BoxedEntry → Prop
  | some ⟨.str text, lifetime⟩ => lifetime = .transient ∧ Q text
  | _ => True

/-- All strings of the table are transient and have the property. -/
def BoxedTable.Strings (Q : String → Prop) (table : BoxedTable) : Prop :=
  ∀ slot ∈ table.values, SlotHolds Q slot

namespace BoxedTable.Strings

variable {P : Platform} {Q Q' : String → Prop} {table a b : BoxedTable}

/-- Strings with a stronger property. -/
theorem imp (h : table.Strings Q) (hQ : ∀ text, Q text → Q' text) : table.Strings Q' := by
  intro slot hslot
  have hholds := h slot hslot
  rcases slot with _ | ⟨text | _ | _, lifetime⟩
  · trivial
  · exact ⟨hholds.1, hQ text hholds.2⟩
  · trivial
  · trivial

/-- Boxing a value that may be there keeps the property. -/
theorem push (h : table.Strings Q) {entry : BoxedEntry} (hentry : SlotHolds Q (some entry))
    (hroom : table.values.length + 1 < addressSpace) : (table.push entry hroom).Strings Q := by
  intro slot hslot
  rcases List.mem_append.mp hslot with hold | hnew
  · exact h slot hold
  · exact List.mem_singleton.mp hnew ▸ hentry

/-- No string survives the clearing. -/
theorem clearTransient (h : table.Strings Q) : table.clearTransient.Strings Q' := by
  intro slot hslot
  obtain ⟨old, hold, rfl⟩ := List.mem_map.mp hslot
  have hholds := h old hold
  rcases old with _ | ⟨text | _ | _, _ | _⟩
  · trivial
  · exact absurd hholds.1 (by simp)
  all_goals trivial

/-- A table that has grown: the new slots have the property. -/
theorem grow (h : a.Strings Q) (hab : a ≤ b)
    (hnew : ∀ slot ∈ b.values.drop a.values.length, SlotHolds Q slot) : b.Strings Q := by
  obtain ⟨rest, hrest⟩ := hab
  intro slot hslot
  rw [← hrest, List.drop_left] at hnew
  rw [← hrest] at hslot
  exact (List.mem_append.mp hslot).elim (h slot) (hnew slot)

/-- A string that a word stands for has the property. -/
theorem entry (h : table.Strings Q) {word : Word} {text : String} {lifetime : BoxedLifetime}
    (hentry : table.entry P word = some ⟨.str text, lifetime⟩) : Q text := by
  obtain ⟨slot, -, hslot⟩ := BoxedTable.exists_slot_of_entry hentry
  exact (h _ (List.mem_of_getElem? hslot)).2

end BoxedTable.Strings

/-! ### The reader -/

/-- What the reader keeps: names are on one line, and strings have the property. -/
structure ReaderState.Tidy (Q : String → Prop) (s : ReaderState) : Prop where
  names : ∀ name ∈ s.symbols.names, OneLine name
  strings : s.boxed.Strings Q

section Reader

variable {P : Platform} {Q : String → Prop} {text : String}

/-- Interning a name on one line keeps the session tidy. -/
theorem internSymbol_tidy {name : String} (hname : OneLine name) :
    Keeps (fun (_ : Fixed) => ReaderState.Tidy Q) (fun _ _ => True)
      (fun e => OneLine (readErrorText e)) .world (internSymbol name) := by
  rintro j - s hs
  rw [internSymbol]
  cases hintern : s.symbols.intern name with
  | none => exact ⟨j, le_rfl, hs, by simp, by simp⟩
  | some result =>
      obtain ⟨word, symbols⟩ := result
      obtain ⟨-, -, hnames⟩ := SymbolTable.names_of_intern hintern
      refine ⟨j, le_rfl, ⟨fun n hn => ?_, hs.strings⟩, by simp, by simp⟩
      rcases hnames n hn with rfl | hold
      · exact hname
      · exact hs.names n hold

/-- So does a literal with the property. -/
theorem addStringLiteral_tidy (htext : Q text) :
    Keeps (fun (_ : Fixed) => ReaderState.Tidy Q) (fun _ _ => True)
      (fun e => OneLine (readErrorText e)) .world (addStringLiteral P text) := by
  rintro j - s hs
  rw [addStringLiteral, Program.zoom, BoxedTable.addString]
  obtain hfull | ⟨word, hroom, -, hadd⟩ :=
    BoxedTable.add_eq (P := P) (ε := ReadError) (.str text) .transient s.boxed
  · rw [hfull]
    exact ⟨j, le_rfl, hs, by simp, by simp⟩
  · rw [hadd]
    have hslot : SlotHolds Q (some ⟨.str text, .transient⟩) := ⟨rfl, htext⟩
    exact ⟨j, le_rfl, ⟨hs.names, hs.strings.push hslot hroom⟩, by simp, by simp⟩

/-- So does a pair, and its failure is told on one line. -/
theorem wsmCons_tidy (head tail : Word) :
    Keeps (fun (_ : Fixed) => ReaderState.Tidy Q) (fun _ _ => True)
      (fun e => OneLine (readErrorText e)) .world (wsmCons P head tail) := by
  rintro j - s hs
  rw [wsmCons]
  cases s.arena.cons P head tail with
  | none => exact ⟨j, le_rfl, hs, by simp, by simp⟩
  | some result => exact ⟨j, le_rfl, ⟨hs.names, hs.strings⟩, by simp, by simp⟩

/-- The reader keeps it, on every C string whose literals have the property. -/
theorem readerInv_tidy (hnul : ¬ HasNul text)
    (hQ : ∀ literal : String, literal.toList ⊆ text.toList → Q literal) {tokens : List Token}
    (htokens : tokenize text = .ok tokens) :
    ReaderInv P tokens (fun (_ : Fixed) => ReaderState.Tidy Q) (fun _ _ => True)
      (fun _ _ => True) (fun e => OneLine (readErrorText e)) := by
  rw [hasNul_iff] at hnul
  have hof := tokens_of_lex htokens
  exact
    { form_mono := fun _ h => h
      list_mono := fun _ h => h
      form_of_list := fun h => h
      nil := fun _ => trivial
      fixnum := fun _ _ => trivial
      intern := fun _ name hname => internSymbol_tidy (.of_atom (hof _ hname) hnul)
      string := fun _ literal hliteral => addStringLiteral_tidy (hQ literal (hof _ hliteral))
      cons := fun _ head tail _ _ => wsmCons_tidy head tail
      eof := by decide
      closeParen := by decide
      capacity := fun required =>
        .append (.before (.behind (.nat _))) (.nat _)
      trailing := fun pos => by
        refine .behind (.intercalate (by decide) ?_)
        rw [List.forall_mem_map]
        exact fun token htoken => (hof token (List.mem_of_mem_drop htoken)).echo hnul }

/-- **What reading keeps**, and what its errors say. -/
theorem readOne_tidy (hnul : ¬ HasNul text)
    (hQ : ∀ literal : String, literal.toList ⊆ text.toList → Q literal) {s : ReaderState}
    (hs : s.Tidy Q) :
    (readOne P text s).2.Tidy Q ∧
      ∀ e, (readOne P text s).1 = .err e → OneLine (readErrorText e) := by
  have hfail : ∀ e, tokenize text = .error e → OneLine (readErrorText e) := by
    intro e he
    rw [tokenize_eq_lex] at he
    rw [lex_eq_error he]
    decide
  have hkeeps := ReaderInv.readOne (P := P) hfail
    (fun tokens htokens => readerInv_tidy hnul hQ htokens) Fixed.world
  obtain ⟨-, -, hs', -, herror⟩ := hkeeps.spec hs
  exact ⟨hs', herror⟩

end Reader

/-! ### The host -/

variable {σ : Type}

/-- What the C interface lets a primitive do: strings are wrapped with
`wsm_wrap_transient_string`, and a failure comes with an `int`. -/
structure HostPrimitive.InC (primitive : HostPrimitive σ) : Prop where
  strings : ∀ args world,
    ∀ slot ∈ (primitive.call args world).2.boxed.values.drop world.boxed.values.length,
      SlotHolds (fun text => ¬ HasNul text) slot
  message : ∀ args world message, (primitive.call args world).1 = .failed message →
    ∃ code : BitVec 32, message = "host primitive reported error code " ++ toString code.toInt

/-- All primitives are called through the C interface. -/
def Primitives.InC (primitives : Primitives σ) : Prop :=
  ∀ name primitive, primitives name = some primitive → primitive.InC

/-- The state of an evaluation that has begun with the table `boxed`. -/
def EvalState.Tidy (boxed : BoxedTable) (s : EvalState σ) : Prop :=
  boxed ≤ s.world.boxed ∧ s.world.boxed.Strings fun text => ¬ HasNul text

section Evaluator

variable {P : Platform} {Γ : EvalContext σ} {boxed : BoxedTable}

/-- A call keeps the session tidy, and its error is told on one line. -/
theorem callPrimitive_tidy (hprimitives : Γ.primitives.InC) {name : String}
    (hname : OneLine name) (args : List Word) :
    Keeps (fun (_ : Fixed) => EvalState.Tidy boxed) (fun _ _ => True)
      (fun e => OneLine (evalErrorText e)) .world (callPrimitive Γ.primitives name args) := by
  rintro j - s ⟨hle, hstrings⟩
  cases hprimitive : Γ.primitives name with
  | none =>
      rw [callPrimitive_of_none hprimitive]
      refine ⟨j, le_rfl, ⟨hle, hstrings⟩, by simp, fun e he => ?_⟩
      cases he
      exact .behind hname
  | some primitive =>
      have hC := hprimitives name primitive hprimitive
      have hgrown := primitive.boxed_le args s.world
      rw [callPrimitive_of_some hprimitive]
      refine ⟨j, le_rfl, ⟨hle.trans hgrown, ?_⟩, by simp, fun e he => ?_⟩
      · exact hstrings.grow hgrown (hC.strings args s.world)
      · cases hresult : (primitive.call args s.world).1 with
        | ok | panicked | exited =>
            rw [hresult] at he
            cases he
        | failed message =>
            rw [hresult] at he
            cases he
            obtain ⟨code, rfl⟩ := hC.message args s.world message hresult
            have hcode : OneLine ("host primitive reported error code " ++ toString code.toInt) :=
              .behind (.int _)
            exact .append (.before (.behind hname)) hcode

/-- An evaluation keeps it, where the names of symbols are on one line. -/
theorem evalInv_tidy (hnames : ∀ name ∈ Γ.symbols.names, OneLine name)
    (hprimitives : Γ.primitives.InC) :
    EvalInv Γ (fun (_ : Fixed) => EvalState.Tidy boxed) (fun e => OneLine (evalErrorText e)) := by
  have hname : ∀ {word name}, Γ.symbols.nameOf word = some name → OneLine name := by
    intro word name h
    rcases SymbolTable.mem_names_of_nameOf h with rfl | hmem
    · exact (by decide : OneLine "t")
    · exact hnames name hmem
  have hmessages : ∀ message, message ∈ invalidFormTexts ∨ message ∈ typeErrorTexts →
      OneLine message := by
    intro message hmessage
    have hall : (invalidFormTexts ++ typeErrorTexts).all (fun text => OneLine text) := by
      decide +kernel
    exact of_decide_eq_true (List.all_eq_true.mp hall message (List.mem_append.mpr hmessage))
  exact
    { call := fun _ _ _ args h => callPrimitive_tidy hprimitives (hname h) args
      unknownSymbol := fun h => .behind (hname h)
      notCallable := by decide
      invalidForm := fun message hmessage => .behind (hmessages message (.inl hmessage))
      typeError := fun message hmessage => .behind (hmessages message (.inr hmessage)) }

/-- **What an evaluation keeps**, and what its errors say. -/
theorem eval_tidy (hnames : ∀ name ∈ Γ.symbols.names, OneLine name)
    (hprimitives : Γ.primitives.InC) {s : EvalState σ} (hs : s.Tidy boxed) (fuel : Nat)
    (word : Word) :
    (eval P Γ fuel word s).2.Tidy boxed ∧
      ∀ e, (eval P Γ fuel word s).1 = .err e → OneLine (evalErrorText e) := by
  have hinv : EvalInv Γ (fun (_ : Fixed) => EvalState.Tidy boxed) _ :=
    evalInv_tidy hnames hprimitives
  have hkeeps := hinv.eval (P := P) .world fuel word
  obtain ⟨-, -, hs', -, herror⟩ := hkeeps.spec hs
  exact ⟨hs', herror⟩

end Evaluator

/-! ### Calls -/

section Calls

variable {P : Platform}

/-- **How a call ends**: with the text of an error, with a printed value, or without a text. -/
inductive CallEnds (P : Platform) (text : String) (m : Machine σ) :
    Outcome Exit Empty String × Machine σ → Prop
  | readError {e : ReadError} {s : ReaderState}
      (hread : readOne P text m.start.reader = (.err e, s)) :
      CallEnds P text m (.ok (readErrorText e), (m.start.setReader s).clearTransient)
  | readStops {o : Outcome Exit Empty String}
      (hread : ∀ result, o ≠ .ok result) :
      CallEnds P text m (o, m.start.setReader (readOne P text m.start.reader).2)
  | evalError {form : Word} {s : ReaderState} {e : EvalError} {t : EvalState σ}
      (hread : readOne P text m.start.reader = (.ok form, s))
      (heval : eval P (m.start.setReader s).context evalFuel form
        (m.start.setReader s).evalState = (.err e, t)) :
      CallEnds P text m
        (.ok (evalErrorText e), ((m.start.setReader s).setEvalState t).clearTransient)
  | evalStops {form : Word} {s : ReaderState} {o : Outcome Exit EvalError Word}
      {t : EvalState σ} {o' : Outcome Exit Empty String}
      (hread : readOne P text m.start.reader = (.ok form, s))
      (heval : eval P (m.start.setReader s).context evalFuel form
        (m.start.setReader s).evalState = (o, t)) (hstops : ∀ result, o' ≠ .ok result) :
      CallEnds P text m (o', (m.start.setReader s).setEvalState t)
  | printed {form value : Word} {s : ReaderState} {t : EvalState σ} {result : String}
      (hread : readOne P text m.start.reader = (.ok form, s))
      (heval : eval P (m.start.setReader s).context evalFuel form
        (m.start.setReader s).evalState = (.ok value, t))
      (hprint : valueToString P s.arena s.symbols t.world.boxed value = .ok result) :
      CallEnds P text m (.ok result, ((m.start.setReader s).setEvalState t).clearTransient)

/-- Printing returns the text of the value, or it has no text. -/
theorem printWord_finish (value : Word) (m : Machine σ) :
    (∃ result, valueToString P m.arena m.session.symbols m.session.boxed value = .ok result ∧
        (printWord P value >>= finish) m = (.ok result, m.clearTransient)) ∨
      ∃ o, (printWord P value >>= finish) m = (o, m) ∧ ∀ result, o ≠ .ok result := by
  have hprint : printWord P value m =
      (valueToString P m.arena m.session.symbols m.session.boxed value, m) := rfl
  generalize valueToString P m.arena m.session.symbols m.session.boxed value = walk at hprint ⊢
  cases walk with
  | ok result => exact .inl ⟨result, rfl, Program.bind_ok hprint⟩
  | err e => exact e.elim
  | panic => exact .inr ⟨.panic, Program.bind_panic hprint, by simp⟩
  | abort r => exact .inr ⟨.abort r, Program.bind_abort hprint, by simp⟩
  | timeout => exact .inr ⟨.timeout, Program.bind_timeout hprint, by simp⟩

/-- Every call ends in one of these ways. -/
theorem CallEnds.of_evalStr (text : String) (m : Machine σ) :
    CallEnds P text m (evalStr P text m) := by
  rw [evalStr_eq]
  rcases hread : readOne P text m.start.reader with ⟨o, s⟩
  have hstate : (readOne P text m.start.reader).2 = s := by rw [hread]
  cases o with
  | err e => exact .readError hread
  | panic | abort | timeout => exact hstate ▸ .readStops (by simp)
  | ok form =>
      rw [afterRead, evalPrint_eq]
      rcases heval : eval P (m.start.setReader s).context evalFuel form
        (m.start.setReader s).evalState with ⟨o, t⟩
      cases o with
      | err e => exact .evalError hread heval
      | panic | abort | timeout => exact .evalStops hread heval (by simp)
      | ok value =>
          rw [afterEval]
          obtain ⟨result, hprint, heq⟩ | ⟨o, heq, hstops⟩ :=
            printWord_finish (P := P) value ((m.start.setReader s).setEvalState t)
          · rw [heq]
            exact .printed hread heval hprint
          · rw [heq]
            exact .evalStops hread heval hstops

/-- **What a session keeps** from call to call. -/
structure Machine.Tidy (m : Machine σ) : Prop where
  names : ∀ name ∈ m.session.symbols.names, OneLine name
  strings : m.session.boxed.Strings fun text => ¬ HasNul text
  primitives : m.session.primitives.InC

namespace Machine.Tidy

variable {m : Machine σ} {text : String} {Q : String → Prop}

/-- Where a call begins there are no strings. -/
theorem start (h : m.Tidy) : m.start.reader.Tidy Q where
  names := h.names
  strings := h.strings.clearTransient

/-- Behind the reader. -/
theorem setReader (h : m.Tidy) {s : ReaderState} (hs : s.Tidy fun text => ¬ HasNul text) :
    (m.start.setReader s).Tidy where
  names := hs.names
  strings := hs.strings
  primitives := h.primitives

/-- Behind the evaluator. -/
theorem setEvalState (h : m.Tidy) {boxed : BoxedTable} {t : EvalState σ} (ht : t.Tidy boxed) :
    (m.setEvalState t).Tidy where
  names := h.names
  strings := ht.2
  primitives := h.primitives

/-- Clearing the transient values keeps a session tidy. -/
theorem clearTransient (h : m.Tidy) : m.clearTransient.Tidy where
  names := h.names
  strings := h.strings.clearTransient
  primitives := h.primitives

/-- The evaluation of a form behind the reader. -/
theorem eval (h : m.Tidy) (word : Word) :
    (LispHost.eval P m.context evalFuel word m.evalState).2.Tidy m.session.boxed ∧
      ∀ e, (LispHost.eval P m.context evalFuel word m.evalState).1 = .err e →
        OneLine (evalErrorText e) := by
  have hnames : ∀ name ∈ m.context.symbols.names, OneLine name := h.names
  have hstate : m.evalState.Tidy m.session.boxed := ⟨le_rfl, h.strings⟩
  exact eval_tidy hnames h.primitives hstate evalFuel word

/-- **A call keeps a session tidy**, whatever C string is its source. -/
theorem evalStr (h : m.Tidy) (hnul : ¬ HasNul text) : (evalStr P text m).2.Tidy := by
  have hliteral : ∀ literal : String, literal.toList ⊆ text.toList → ¬ HasNul literal := by
    intro literal hsub hliteral
    exact hnul (hasNul_iff.mpr (hsub (hasNul_iff.mp hliteral)))
  have hread := h.setReader (readOne_tidy (P := P) hnul hliteral h.start).1
  have hends := CallEnds.of_evalStr (P := P) text m
  generalize LispHost.evalStr P text m = result at hends ⊢
  cases hends with
  | readError hform =>
      rw [hform] at hread
      exact hread.clearTransient
  | readStops => exact hread
  | @evalError form _ _ _ hform heval =>
      rw [hform] at hread
      have ht := (hread.eval (P := P) form).1
      rw [heval] at ht
      exact (hread.setEvalState ht).clearTransient
  | @evalStops form _ _ _ _ hform heval =>
      rw [hform] at hread
      have ht := (hread.eval (P := P) form).1
      rw [heval] at ht
      exact hread.setEvalState ht
  | @printed form _ _ _ _ hform heval =>
      rw [hform] at hread
      have ht := (hread.eval (P := P) form).1
      rw [heval] at ht
      exact (hread.setEvalState ht).clearTransient

end Machine.Tidy

/-! ### Replies -/

/-- The text in a slot. -/
def slotString : Option BoxedEntry → Option String
  | some ⟨.str text, _⟩ => some text
  | _ => none

/-- **The strings that the host wraps during a call**: those of the slots behind the ones that
the reader leaves. During an evaluation nothing else adds slots. -/
def wrappedStrings (P : Platform) (text : String) (m : Machine σ) : List String :=
  match readOne P text m.start.reader with
  | (.ok form, s) =>
      let m' := m.start.setReader s
      ((eval P m'.context evalFuel form m'.evalState).2.world.boxed.values.drop
        s.boxed.values.length).filterMap slotString
  | _ => []

/-- The strings that an evaluation wraps are those behind the ones of the reading. -/
theorem wrappedStrings_eq {text : String} {m : Machine σ} {form : Word} {s : ReaderState}
    {o : Outcome Exit EvalError Word} {t : EvalState σ}
    (hread : readOne P text m.start.reader = (.ok form, s))
    (heval : eval P (m.start.setReader s).context evalFuel form
      (m.start.setReader s).evalState = (o, t)) :
    wrappedStrings P text m =
      (t.world.boxed.values.drop s.boxed.values.length).filterMap slotString := by
  simp only [wrappedStrings, hread, heval]

/-- The strings that a printer finds are on one line. -/
theorem strings_oneLine {a b : BoxedTable} (ha : a.Strings OneLine) (hab : a ≤ b)
    (hb : b.Strings fun text => ¬ HasNul text)
    (hnew : ∀ text ∈ (b.values.drop a.values.length).filterMap slotString, '\n' ∉ text.toList) :
    b.Strings OneLine := by
  refine ha.grow hab fun slot hslot => ?_
  have hholds := hb slot (List.mem_of_mem_drop hslot)
  rcases slot with _ | ⟨text | _ | _, lifetime⟩
  · trivial
  · obtain ⟨hlifetime, hnul⟩ := hholds
    have hline := hnew text (List.mem_filterMap.mpr ⟨_, hslot, rfl⟩)
    exact ⟨hlifetime, oneLine_iff.mpr ⟨hline, hnul⟩⟩
  · trivial
  · trivial

/-- **What `eval_str` returns is on one line.** -/
theorem Machine.Tidy.oneLine {m : Machine σ} (h : m.Tidy) {text : String} (htext : OneLine text)
    (hwrapped : ∀ wrapped ∈ wrappedStrings P text m, '\n' ∉ wrapped.toList) {result : String}
    (hresult : (LispHost.evalStr P text m).1 = .ok result) : OneLine result := by
  have hnul := (oneLine_iff.mp htext).2
  have hliteral : ∀ literal : String, literal.toList ⊆ text.toList → OneLine literal :=
    fun literal hsub c hc => htext c (hsub hc)
  obtain ⟨hstate, herror⟩ := readOne_tidy (P := P) hnul hliteral (h.start (Q := OneLine))
  have hread := h.setReader
    ⟨hstate.names, hstate.strings.imp fun text htext => (oneLine_iff.mp htext).2⟩
  have hends := CallEnds.of_evalStr (P := P) text m
  generalize LispHost.evalStr P text m = call at hends hresult
  cases hends with
  | readError hform =>
      cases hresult
      exact herror _ (by rw [hform])
  | readStops hstops => exact absurd hresult (hstops result)
  | evalStops hform heval hstops => exact absurd hresult (hstops result)
  | @evalError form _ _ _ hform heval =>
      cases hresult
      rw [hform] at hread
      exact (hread.eval (P := P) form).2 _ (by rw [heval])
  | @printed form value s t _ hform heval hprint =>
      cases hresult
      rw [hform] at hread hstate
      obtain ⟨⟨hle, hstrings⟩, -⟩ := hread.eval (P := P) form
      rw [heval] at hle hstrings
      rw [wrappedStrings_eq hform heval] at hwrapped
      have hlines := strings_oneLine hstate.strings hle hstrings hwrapped
      have hentries : ∀ word text lifetime,
          t.world.boxed.entry P word = some ⟨.str text, lifetime⟩ → OneLine text :=
        fun _ _ _ hentry => hlines.entry hentry
      exact (write_oneLine hstate.names hentries printFuel).1 value _ hprint

/-- What a call makes of the text that `eval_str` returns. -/
theorem wsmEvalString_text_ok {text result : String} {m : Machine σ}
    (h : (evalStr P text m).1 = .ok result) :
    (wsmEvalString P (.text text) m).1 = .ok (toCString result) := by
  have heval : evalStr P text m = (.ok result, (evalStr P text m).2) := Prod.ext h rfl
  rw [wsmEvalString]
  beta_reduce
  rw [heval]

/-- A reply is the text that `eval_str` returns, or it tells of a panic. -/
theorem wsmEvalString_text_cases {text reply : String} {m : Machine σ}
    (h : (wsmEvalString P (.text text) m).1 = .ok reply) :
    (∃ result, (evalStr P text m).1 = .ok result ∧ reply = toCString result) ∨
      reply = toCString "error: internal panic during eval" := by
  rw [wsmEvalString] at h
  beta_reduce at h
  generalize evalStr P text m = call at h ⊢
  obtain ⟨o, m'⟩ := call
  cases o with
  | ok result =>
      cases h
      exact .inl ⟨result, rfl, rfl⟩
  | err e => exact e.elim
  | panic =>
      cases h
      exact .inr rfl
  | abort | timeout => cases h

/-! ### Sessions -/

/-- What happens to a session: a call, or anything else that its host does. -/
inductive SessionEvent where
  | call (source : SourceArg)
  | host
deriving DecidableEq, Repr

/-- **One step of a session.** The source of a call is a C string. Between two calls the host
registers primitives, binds names and wraps values, and other sessions use the arena. -/
inductive SessionStep (P : Platform) : Machine σ → SessionEvent → Machine σ → Prop
  | call (m : Machine σ) {source : SourceArg}
      (hsource : ∀ text, source = .text text → ¬ HasNul text) :
      SessionStep P m (.call source) (wsmEvalString P source m).2
  | host {m m' : Machine σ} (hsymbols : m'.session.symbols = m.session.symbols)
      (hboxed : m.session.boxed ≤ m'.session.boxed)
      (hstrings : ∀ slot ∈ m'.session.boxed.values.drop m.session.boxed.values.length,
        SlotHolds (fun text => ¬ HasNul text) slot)
      (hprimitives : m'.session.primitives.InC) : SessionStep P m .host m'

/-- A new session is tidy. -/
theorem Machine.Tidy.init {primitives : Primitives σ} (hprimitives : primitives.InC)
    (bindings : Bindings) (host : σ) :
    (Machine.init (Session.init primitives bindings) host).Tidy where
  names _ hname := absurd hname List.not_mem_nil
  strings _ hslot := absurd hslot List.not_mem_nil
  primitives := hprimitives

/-- **Every step keeps a session tidy.** -/
theorem Machine.Tidy.step {m m' : Machine σ} {event : SessionEvent} (h : m.Tidy)
    (hstep : SessionStep P m event m') : m'.Tidy := by
  cases hstep with
  | @call source hsource =>
      cases source with
      | null => exact h
      | notUtf8 => exact h
      | text text =>
          rw [wsmEvalString_text_snd]
          exact h.evalStr (hsource text rfl)
  | host hsymbols hboxed hstrings hprimitives =>
      exact ⟨hsymbols ▸ h.names, h.strings.grow hboxed hstrings, hprimitives⟩

/-- **One line in, one line out.** In every session that can be reached, whatever its earlier
sources and its host, a source on one line is replied to on one line, if the strings are that
the host wraps during the call: what `eval_str` returns has no newline and no NUL, so that
`wsm_eval_string` returns it as it is, and every reply is sent as exactly one line. -/
theorem replies_on_one_line {primitives : Primitives σ} (hprimitives : primitives.InC)
    {bindings : Bindings} {host : σ} {events : List SessionEvent} {m : Machine σ}
    (hrun : Run (SessionStep P) (Machine.init (Session.init primitives bindings) host) events m)
    {text : String} (hline : '\n' ∉ text.toList) (hnul : ¬ HasNul text)
    (hwrapped : ∀ wrapped ∈ wrappedStrings P text m, '\n' ∉ wrapped.toList) :
    (∀ result, (evalStr P text m).1 = .ok result →
      OneLine result ∧ (wsmEvalString P (.text text) m).1 = .ok result) ∧
    ∀ reply, (wsmEvalString P (.text text) m).1 = .ok reply →
      OneLine reply ∧ lines (utf8 reply ++ [lineFeed]) = [utf8 reply] ∧
        ∀ answers, sendLine answers (utf8 reply) <+: utf8 reply ++ [lineFeed] ∧
          ((∀ sent ∈ answers, 0 < sent) → (utf8 reply).length < answers.length →
            sendLine answers (utf8 reply) = utf8 reply ++ [lineFeed]) := by
  have htidy := hrun.invariant (fun _ _ _ h hstep => Machine.Tidy.step h hstep)
    (Machine.Tidy.init hprimitives bindings host)
  have hresult : ∀ result, (evalStr P text m).1 = .ok result → OneLine result :=
    fun result h => htidy.oneLine (oneLine_iff.mpr ⟨hline, hnul⟩) hwrapped h
  have hcall : ∀ result, (evalStr P text m).1 = .ok result →
      (wsmEvalString P (.text text) m).1 = .ok result := by
    intro result h
    rw [wsmEvalString_text_ok h, (hresult result h).toCString]
  refine ⟨fun result h => ⟨hresult result h, hcall result h⟩, fun reply h => ?_⟩
  have hreply : OneLine reply := by
    rcases wsmEvalString_text_cases h with ⟨result, hevaluated, rfl⟩ | rfl
    · have hone := hresult result hevaluated
      exact hone.toCString.symm ▸ hone
    · decide
  exact ⟨hreply, hreply.lines_sendLine⟩

/-- A session without primitives. -/
def bareMachine : Machine Unit := Machine.init (Session.init (fun _ => none) []) ()

/-- A reply behind a source of two lines. -/
theorem replies_on_one_line_close :
    ∃ m, Run (SessionStep .standard) bareMachine [.call (.text "(quote\n a")] m ∧
      (wsmEvalString .standard (.text ")") m).1 = .ok "error: unexpected ')'" ∧
      lines (utf8 "error: unexpected ')'" ++ [lineFeed]) = [utf8 "error: unexpected ')'"] := by
  have hsource : ∀ text, SourceArg.text "(quote\n a" = .text text → ¬ HasNul text := by
    rintro text ⟨⟩
    decide
  have hrun := Run.single (SessionStep.call (P := .standard) bareMachine hsource)
  have hprimitives : bareMachine.session.primitives.InC := by rintro name primitive ⟨⟩
  have hline : '\n' ∉ ")".toList := by decide
  obtain ⟨hresult, hreply⟩ :=
    replies_on_one_line hprimitives hrun hline (by decide) (by rintro wrapped ⟨⟩)
  obtain ⟨-, hcall⟩ := hresult "error: unexpected ')'" rfl
  exact ⟨_, hrun, hcall, (hreply _ hcall).2.1⟩

end Calls

end LispHost
