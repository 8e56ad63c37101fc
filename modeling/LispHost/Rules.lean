import LispHost.Accepts
import LispHost.Lib.Triple

/-!
# Rules for Source Texts

What a source text does is said here by pre- and postconditions, and shown by a rule for each kind
of form. A form is given as a tree without labels, since its words depend on what the session has
read before. The rules are about the reference evaluator; a call of `wsm_eval_string` on the text
of the form does what they say.

## Main definitions

* `Platform.formKind`: what the name in front of a list says it is.
* `Establishes`, `EstablishesArgs`, `EstablishesClauses`: pre- and postconditions of forms.

## Main results

* `Establishes.quote`, `Establishes.name`, `Establishes.call`, `Establishes.cond` and the rules for
  arguments and clauses.
* `Establishes.guarded`: a form that is evaluated only behind a test.
* `evalStr_of_establishes`: what a call on the text does.
-/

namespace LispHost

open Effects

/-- What a list is: a special form, an accessor, or a call of a host primitive. -/
inductive FormKind where
  | cond
  | quote
  | car
  | cdr
  | call
deriving DecidableEq, Repr

/-- What the name in front of a list says it is. -/
def Platform.formKind (P : Platform) (name : String) : FormKind :=
  if P.condSpellings.contains name then .cond
  else if P.quoteSpellings.contains name then .quote
  else if P.carSpellings.contains name then .car
  else if P.cdrSpellings.contains name then .cdr
  else .call

namespace Sexp

variable {α : Type}

/-- The list of a name and what follows it. -/
def form (name : String) (rest : Sexp Unit) : Sexp Unit := .pair () (.symbol () name) rest

/-- The list of one tree. -/
def single (tree : Sexp Unit) : Sexp Unit := .pair () tree .nil

/-- A tree that is a form without its labels is one with them. -/
theorem erase_eq_form {d : Sexp α} {name : String} {rest : Sexp Unit}
    (h : d.erase = form name rest) :
    ∃ label label' rest', d = .pair label (.symbol label' name) rest' ∧ rest'.erase = rest := by
  obtain ⟨label, head, rest', rfl, hhead, hrest⟩ := erase_eq_pair h
  obtain ⟨label', rfl⟩ := erase_eq_symbol hhead
  exact ⟨label, label', rest', rfl, hrest⟩

/-- A tree that is a list of one item without its labels is one with them. -/
theorem erase_eq_single {d : Sexp α} {tree : Sexp Unit} (h : d.erase = single tree) :
    ∃ label tree', d = .pair label tree' .nil ∧ tree'.erase = tree := by
  obtain ⟨label, tree', tail, rfl, htree, htail⟩ := erase_eq_pair h
  obtain rfl := erase_eq_nil htail
  exact ⟨label, tree', rfl, htree⟩

/-- Labels do not change how many literals there are. -/
@[simp] theorem length_literals_erase (d : Sexp α) :
    d.erase.literals.length = d.literals.length := by
  induction d with
  | pair label head tail ihh iht => simp only [erase, literals, List.length_append, ihh, iht]
  | fixnum | symbol | string | nil => rfl

end Sexp

variable {σ : Type} (P : Platform) (primitives : Primitives σ)

/-- What holds before and behind the evaluation of a form, under whatever words it was read: it
ends with a value in a state of `post`, or with an error in a state of `err`. -/
def Establishes (pre : EvalState σ → Prop) (form : Sexp Unit) (post : Value → EvalState σ → Prop)
    (err : EvalError → EvalState σ → Prop) : Prop :=
  ∀ d : Sexp Word, d.erase = form → Total pre (refEval P primitives d) post err

/-- The same for the arguments of a call. -/
def EstablishesArgs (pre : EvalState σ → Prop) (args : Sexp Unit)
    (post : List Value → EvalState σ → Prop) (err : EvalError → EvalState σ → Prop) : Prop :=
  ∀ d : Sexp Word, d.erase = args → Total pre (refArgs P primitives d) post err

/-- The same for the clauses of a `cond`. -/
def EstablishesClauses (pre : EvalState σ → Prop) (clauses : Sexp Unit)
    (post : Value → EvalState σ → Prop) (err : EvalError → EvalState σ → Prop) : Prop :=
  ∀ d : Sexp Word, d.erase = clauses → Total pre (refCond P primitives d) post err

variable {P primitives} {pre : EvalState σ → Prop} {post U : Value → EvalState σ → Prop}
  {err : EvalError → EvalState σ → Prop}

/-! ### The kinds of lists -/

section Kinds

variable {name : String} (label label' : Word) (rest : Sexp Word)

/-- A form with the name of `cond`. -/
theorem refEval_of_cond (h : P.formKind name = .cond) :
    refEval P primitives (.pair label (.symbol label' name) rest) =
      refCond P primitives rest := by
  rw [refEval.eq_def]
  simp only [Platform.formKind] at h
  split_ifs at h with hcond
  simp only [hcond, if_true]

/-- A form with the name of `quote`. -/
theorem refEval_of_quote (h : P.formKind name = .quote) :
    refEval P primitives (.pair label (.symbol label' name) rest) = refQuote rest := by
  rw [refEval.eq_def]
  simp only [Platform.formKind] at h
  split_ifs at h with hcond hquote
  simp only [hcond, hquote, if_true, if_false, Bool.false_eq_true]

/-- A form with any other name. -/
theorem refEval_of_call (h : P.formKind name = .call) :
    refEval P primitives (.pair label (.symbol label' name) rest) =
      refArgs P primitives rest >>= refCall primitives name := by
  rw [refEval.eq_def]
  simp only [Platform.formKind] at h
  split_ifs at h with hcond hquote hcar hcdr
  simp only [hcond, hquote, hcar, hcdr, if_false, Bool.false_eq_true]

/-- A symbol. -/
theorem refEval_symbol : refEval P primitives (.symbol label name) =
    refSymbol (.symbol label name) name := by
  rw [refEval.eq_def]

end Kinds

/-! ### The rules -/

/-- A quoted form is its own tree. -/
theorem Establishes.quote {name : String} {tree : Sexp Unit} (hname : P.formKind name = .quote)
    (hpost : ∀ d : Sexp Word, d.erase = tree → ∀ s, pre s → post (.datum d) s) :
    Establishes P primitives pre (.form name (.single tree)) post err := by
  intro d hd
  obtain ⟨label, label', rest, rfl, hrest⟩ := Sexp.erase_eq_form hd
  obtain ⟨label'', quoted, rfl, hquoted⟩ := Sexp.erase_eq_single hrest
  rw [refEval_of_quote label label' _ hname, refQuote.eq_def]
  exact .pure (hpost quoted hquoted)

/-- The name of truth. -/
theorem Establishes.truth (hpost : ∀ label s, pre s → post (.datum (.symbol label "t")) s) :
    Establishes P primitives pre (.symbol () "t") post err := by
  intro d hd s hs
  obtain ⟨label, rfl⟩ := Sexp.erase_eq_symbol hd
  rw [refEval_symbol]
  exact .inl ⟨_, s, if_pos rfl, hpost label s hs⟩

/-- Any other name is what it is bound to. -/
theorem Establishes.name {name : String} (hname : name ≠ "t")
    (hbound : ∀ s, pre s → ∃ word, s.world.bindings.value name = some word ∧
      post (.host word) s) :
    Establishes P primitives pre (.symbol () name) post err := by
  intro d hd s hs
  obtain ⟨label, rfl⟩ := Sexp.erase_eq_symbol hd
  obtain ⟨word, hvalue, hpost⟩ := hbound s hs
  refine .inl ⟨.host word, s, ?_, hpost⟩
  simp only [refEval_symbol, refSymbol, if_neg hname, hvalue]

/-- No arguments. -/
theorem EstablishesArgs.nil {post : List Value → EvalState σ → Prop}
    (hpost : ∀ s, pre s → post [] s) : EstablishesArgs P primitives pre .nil post err := by
  intro d hd
  obtain rfl := Sexp.erase_eq_nil hd
  rw [refArgs.eq_def]
  exact .pure hpost

/-- Arguments are evaluated from left to right. -/
theorem EstablishesArgs.cons {head rest : Sexp Unit} {post : List Value → EvalState σ → Prop}
    (hhead : Establishes P primitives pre head U err)
    (hrest : ∀ value, EstablishesArgs P primitives (U value) rest
      (fun values => post (value :: values)) err) :
    EstablishesArgs P primitives pre (.pair () head rest) post err := by
  intro d hd
  obtain ⟨label, head', rest', rfl, hhead', hrest'⟩ := Sexp.erase_eq_pair hd
  rw [refArgs.eq_def]
  exact (hhead head' hhead').bind fun value =>
    (hrest value rest' hrest').bind fun values => .pure fun _ hs => hs

/-- The state behind a call of a primitive. -/
def EvalState.called (s : EvalState σ) (name : String) (args : List Word)
    (run : HostResult × HostWorld σ) : EvalState σ :=
  ⟨run.2, s.calls ++ [⟨name, args, s.world.boxed, s.world.bindings, run.1⟩]⟩

/-- A list of any other name is a call of the primitive on its arguments. -/
theorem Establishes.call {name : String} {args : Sexp Unit} {primitive : HostPrimitive σ}
    {U : List Value → EvalState σ → Prop} (hname : P.formKind name = .call)
    (hprimitive : primitives name = some primitive)
    (hargs : EstablishesArgs P primitives pre args U err)
    (hcall : ∀ values s, U values s → ∀ run,
      primitive.call (values.map Value.word) s.world = run →
      (∃ word, run.1 = .ok word ∧
          post (.host word) (s.called name (values.map Value.word) run)) ∨
        ∃ message, run.1 = .failed message ∧
          err (.hostPrimitiveFailed name message) (s.called name (values.map Value.word) run)) :
    Establishes P primitives pre (.form name args) post err := by
  intro d hd
  obtain ⟨label, label', rest, rfl, hrest⟩ := Sexp.erase_eq_form hd
  rw [refEval_of_call label label' _ hname]
  refine (hargs rest hrest).bind fun values => ?_
  rw [refCall_eq]
  refine Total.bind (U := fun word => post (.host word)) ?_ fun word => .pure fun _ hs => hs
  intro s hs
  have hrun := callPrimitive_of_some hprimitive (values.map Value.word) s
  obtain ⟨word, hok, hpost⟩ | ⟨message, hfailed, herr⟩ := hcall values s hs _ rfl
  · rw [hok] at hrun
    refine .inl ⟨word, _, hrun, ?_⟩
    rwa [EvalState.called, hok] at hpost
  · rw [hfailed] at hrun
    refine .inr ⟨_, _, hrun, ?_⟩
    rwa [EvalState.called, hfailed] at herr

/-- No clause is left; the value is the empty list. -/
theorem EstablishesClauses.nil (hpost : ∀ s, pre s → post (.datum .nil) s) :
    EstablishesClauses P primitives pre .nil post err := by
  intro d hd
  obtain rfl := Sexp.erase_eq_nil hd
  rw [refCond.eq_def]
  exact .pure hpost

/-- **A clause.** Its body starts where its test is true, the clauses behind it where the test is
false. -/
theorem EstablishesClauses.cons {test body rest : Sexp Unit}
    (htest : Establishes P primitives pre test U err)
    (hbody : Establishes P primitives (fun s => ∃ value, value.isTrue = true ∧ U value s) body
      post err)
    (hrest : EstablishesClauses P primitives (fun s => ∃ value, value.isTrue = false ∧ U value s)
      rest post err) :
    EstablishesClauses P primitives pre (.pair () (.pair () test (.single body)) rest) post
      err := by
  intro d hd
  obtain ⟨label, clause, rest', rfl, hclause, hrest'⟩ := Sexp.erase_eq_pair hd
  obtain ⟨label', test', tail, rfl, htest', htail⟩ := Sexp.erase_eq_pair hclause
  obtain ⟨label'', body', rfl, hbody'⟩ := Sexp.erase_eq_single htail
  rw [refCond.eq_def]
  refine (htest test' htest').bind fun value => ?_
  cases htrue : value.isTrue with
  | true => exact fun s hs => hbody body' hbody' s ⟨value, htrue, hs⟩
  | false => exact fun s hs => hrest rest' hrest' s ⟨value, htrue, hs⟩

/-- The rule of `cond`. -/
theorem Establishes.cond {name : String} {clauses : Sexp Unit} (hname : P.formKind name = .cond)
    (hclauses : EstablishesClauses P primitives pre clauses post err) :
    Establishes P primitives pre (.form name clauses) post err := by
  intro d hd
  obtain ⟨label, label', rest, rfl, hrest⟩ := Sexp.erase_eq_form hd
  rw [refEval_of_cond label label' _ hname]
  exact hclauses rest hrest

/-- A form behind a test, as the scripts have it: `(cond (test body) (t (quote ())))`. -/
def Sexp.guarded (test body : Sexp Unit) : Sexp Unit :=
  .form "cond" (.pair () (.pair () test (.single body))
    (.single (.pair () (.symbol () "t") (.single (.form "quote" (.single .nil))))))

/-- **Behind a test.** The body is evaluated where the test was true; elsewhere the value is
`()`. -/
theorem Establishes.guarded {test body : Sexp Unit} (hcond : P.formKind "cond" = .cond)
    (hquote : P.formKind "quote" = .quote) (htest : Establishes P primitives pre test U err)
    (hbody : Establishes P primitives (fun s => ∃ value, value.isTrue = true ∧ U value s) body
      post err)
    (hpost : ∀ s value, value.isTrue = false → U value s → post (.datum .nil) s) :
    Establishes P primitives pre (.guarded test body) post err := by
  have hnil : ∀ s, (∃ value, value.isTrue = false ∧ U value s) → post (.datum .nil) s :=
    fun s ⟨value, hfalse, hmid⟩ => hpost s value hfalse hmid
  refine .cond hcond (.cons htest hbody (.cons (U := fun value s => value.isTrue = true ∧
    ∃ value, value.isTrue = false ∧ U value s) (.truth fun label s hs => ⟨rfl, hs⟩) ?_ ?_))
  · refine .quote hquote ?_
    rintro d hd s ⟨-, -, -, hs⟩
    obtain rfl := Sexp.erase_eq_nil hd
    exact hnil s hs
  · exact .nil fun s ⟨_, hfalse, htrue, _⟩ => absurd htrue (by simp [hfalse])

/-! ### Calls on a source text -/

section Held

variable {s : ReaderState} {d : Sexp Word} {st st' : EvalState σ}

/-- The evaluator ends like the reference evaluator. -/
theorem Sexp.Held.eval_of_ok (h : d.Held P s) (hprimitives : primitives.NonCons)
    (hbindings : st.world.bindings.NonCons) {value : Value}
    (href : refEval P primitives d st = (.ok value, st')) :
    LispHost.eval P ⟨s.arena, s.symbols, primitives⟩ evalFuel d.word st =
      (.ok value.word, st') := by
  obtain ⟨hstate, hagree, -⟩ := h.eval hprimitives hbindings le_rfl
  rw [href] at hstate hagree
  generalize LispHost.eval P ⟨s.arena, s.symbols, primitives⟩ evalFuel d.word st = run
    at hstate hagree
  obtain ⟨o, _⟩ := run
  obtain ⟨rfl, -⟩ := hstate
  cases hagree with
  | ok hvalue =>
      obtain ⟨rfl, -⟩ := hvalue
      rfl

/-- A tree on which the reference fails: the evaluator fails alike. -/
theorem Sexp.Held.eval_of_err (h : d.Held P s) (hprimitives : primitives.NonCons)
    (hbindings : st.world.bindings.NonCons) {e : EvalError}
    (href : refEval P primitives d st = (.err e, st')) :
    LispHost.eval P ⟨s.arena, s.symbols, primitives⟩ evalFuel d.word st = (.err e, st') := by
  obtain ⟨hstate, hagree, -⟩ := h.eval hprimitives hbindings le_rfl
  rw [href] at hstate hagree
  generalize LispHost.eval P ⟨s.arena, s.symbols, primitives⟩ evalFuel d.word st = run
    at hstate hagree
  obtain ⟨o, _⟩ := run
  obtain ⟨rfl, -⟩ := hstate
  cases hagree with
  | err => rfl

end Held

/-- **What a call on a text does.** If the text is a form that fits the arena and the tables have
room, the call evaluates it as the rules say; the value is printed, and an error is rendered. -/
theorem evalStr_of_establishes {text : String} {tokens : List Token} {form : Sexp Unit}
    {m : Machine σ} (htokens : tokenize text = .ok tokens)
    (hparses : Parses .form tokens form []) (hfits : form.cells ≤ arenaCells)
    (hroom : m.start.reader.Room tokens.length) (hprimitives : m.session.primitives.NonCons)
    (hbindings : m.session.bindings.NonCons)
    (hform : ∀ boxed, boxed.values.length = m.session.boxed.values.length + form.literals.length →
      m.session.boxed.clearTransient ≤ boxed →
      Establishes P m.session.primitives (· = ⟨{ m.world with boxed }, m.calls⟩) form post err) :
    ∃ s : ReaderState,
      (∃ value st, post value st ∧ evalStr P text m =
        (printWord P value.word >>= finish) ((m.start.setReader s).setEvalState st)) ∨
      ∃ e st, err e st ∧ evalStr P text m =
        (.ok (evalErrorText e), ((m.start.setReader s).setEvalState st).clearTransient) := by
  have hreset : m.start.reader.arena.next = 0 := rfl
  obtain ⟨hlarge, -⟩ | ⟨-, ⟨d, s, herase, hrep, -, hliterals, hread⟩ | ⟨s, hfull, -⟩⟩ :=
    readOne_of_parses (P := P) htokens hparses hreset
  · omega
  · rw [if_pos rfl] at hread
    refine ⟨s, ?_⟩
    have hheld : d.Held P s := by
      refine ⟨hrep, d.proper_erase.mp (herase ▸ hparses.proper.1), ?_⟩
      rw [← Sexp.cells_erase, herase]
      exact hfits
    have hlength : s.boxed.values.length =
        m.session.boxed.values.length + form.literals.length := by
      rw [hliterals.1, List.length_append, List.length_map, ← herase, Sexp.length_literals_erase]
      exact congrArg (· + d.literals.length) (List.length_map BoxedTable.clearSlot)
    have hgrown : m.session.boxed.clearTransient ≤ s.boxed := by
      change m.start.reader.boxed.values <+: s.boxed.values
      rw [hliterals.1]
      exact List.prefix_append _ _
    rw [evalStr_eq, hread, afterRead, evalPrint_eq]
    obtain ⟨value, st, href, hpost⟩ | ⟨e, st, href, herr⟩ :=
      hform s.boxed hlength hgrown d herase (m.start.setReader s).evalState rfl
    · have heval : LispHost.eval P (m.start.setReader s).context evalFuel d.word
          (m.start.setReader s).evalState = (.ok value.word, st) :=
        hheld.eval_of_ok hprimitives hbindings href
      rw [heval]
      exact .inl ⟨value, st, hpost, rfl⟩
    · have heval : LispHost.eval P (m.start.setReader s).context evalFuel d.word
          (m.start.setReader s).evalState = (.err e, st) :=
        hheld.eval_of_err hprimitives hbindings href
      rw [heval]
      exact .inr ⟨e, st, herr, rfl⟩
  · exact absurd hroom hfull

end LispHost
