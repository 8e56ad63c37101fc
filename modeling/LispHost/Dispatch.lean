import LispHost.Observation
import LispHost.OneReply
import LispHost.Rules

/-!
# The Dispatcher

In every frame the adapter evaluates `scripts/dispatcher.lisp`, which asks whether there is a
player and, if so, for the name of the player's class. The script is shown to do that by the rules
for source texts, with the primitives of the adapter; so what a frame answers is read off the one
observation that is made in it, whatever was evaluated and observed before.

## Main definitions

* `dispatcherSource`: the script.
* `DispatcherReply`: what it answers to an observation, and which primitives it calls.
* `frameReply`: the answer while the library does not fail.

## Main results

* `establishes_dispatcher`: the script, by the rules.
* `dispatcher_call`: what a call on the script does.
-/

namespace LispHost

open Effects

variable {I : Type}

/-! ### The script -/

/-- The surface names under which the scripts know the primitives and the player. -/
def Surfaces.ofScripts : Surfaces where
  log := "запиши-лог"
  playerPresent := "гравець-присутній?"
  class_ := "клас"
  player := "гравець"

/-- `scripts/dispatcher.lisp`. -/
def dispatcherSource : String :=
  "(cond\n  ((гравець-присутній?) (клас гравець))\n  (t (quote ())))\n"

/-- The tokens of the script. -/
def dispatcherTokens : List Token :=
  [.open, .atom "cond", .open, .open, .atom "гравець-присутній?", .close, .open, .atom "клас",
    .atom "гравець", .close, .close, .open, .atom "t", .open, .atom "quote", .open, .close, .close,
    .close, .close]

/-- The tree of the script. -/
def dispatcherForm : Sexp Unit :=
  .guarded (.form "гравець-присутній?" .nil) (.form "клас" (.single (.symbol () "гравець")))

/-- The tokenizer reads these tokens. -/
theorem tokenize_dispatcherSource : tokenize dispatcherSource = .ok dispatcherTokens := by
  decide +kernel

/-- They are a spelling of the tree. -/
theorem parses_dispatcher : Parses .form dispatcherTokens dispatcherForm [] :=
  .list (.item (.atom "cond" _)
    (.item (.list (.item (.list (.item (.atom "гравець-присутній?" _) (.close _)))
        (.item (.list (.item (.atom "клас" _) (.item (.atom "гравець" _) (.close _))))
          (.close _))))
      (.item (.list (.item (.atom "t" _)
          (.item (.list (.item (.atom "quote" _) (.item (.list (.close _)) (.close _))))
            (.close _))))
        (.close _))))

/-- The words of the script are what it takes them for. -/
structure Platform.Spells (P : Platform) : Prop where
  cond : P.formKind "cond" = .cond
  quote : P.formKind "quote" = .quote
  playerPresent : P.formKind Surfaces.ofScripts.playerPresent = .call
  class_ : P.formKind Surfaces.ofScripts.class_ = .call

/-- The standard spellings do. -/
theorem Platform.standard_spells : Platform.standard.Spells := by
  constructor <;> decide

/-! ### What it answers -/

/-- The text of a primitive's failure. -/
def primitiveFailure (name : String) (code : Nat) : String :=
  evalErrorText (.hostPrimitiveFailed name ("host primitive reported error code " ++ toString code))

/-- **What the script answers to an observation**, with the primitives that it has called. -/
inductive DispatcherReply (host : PlayerHost I) (call : PlayerCall I) :
    List String → String → Prop
  | failed {code : Nat} (hcode : call.result = .failed code) :
      DispatcherReply host call [Surfaces.ofScripts.playerPresent]
        (primitiveFailure Surfaces.ofScripts.playerPresent code)
  | absent (hplayer : call.answers.player = none) (hresult : call.result = .returned wordNil) :
      DispatcherReply host call [Surfaces.ofScripts.playerPresent] "()"
  | noClass {handle : I} {code : Nat} (hplayer : call.answers.player = some handle)
      (hresult : call.result = .returned symTWord)
      (hclass : classAnswer host handle = .error code) :
      DispatcherReply host call [Surfaces.ofScripts.playerPresent, Surfaces.ofScripts.class_]
        (primitiveFailure Surfaces.ofScripts.class_ code)
  | present {handle : I} {className : String} (hplayer : call.answers.player = some handle)
      (hresult : call.result = .returned symTWord)
      (hclass : classAnswer host handle = .ok className) :
      DispatcherReply host call [Surfaces.ofScripts.playerPresent, Surfaces.ofScripts.class_]
        ("\"" ++ className ++ "\"")

/-- What a frame answers while the library does not fail. -/
def frameReply (host : PlayerHost I) (answers : PlayerAnswers I) : String :=
  match answers.player with
  | none => "()"
  | some handle =>
      match classAnswer host handle with
      | .error code => primitiveFailure Surfaces.ofScripts.class_ code
      | .ok className => "\"" ++ className ++ "\""

/-- An observation that does not fail is answered by the presence and the class. -/
theorem DispatcherReply.eq_frameReply {host : PlayerHost I} {call : PlayerCall I}
    {names : List String} {reply : String} (h : DispatcherReply host call names reply)
    (hsucceeds : ∀ code, call.result ≠ .failed code) : reply = frameReply host call.answers := by
  cases h with
  | failed hcode => exact absurd hcode (hsucceeds _)
  | absent hplayer => simp only [frameReply, hplayer]
  | noClass hplayer _ hclass => simp only [frameReply, hplayer, hclass]
  | present hplayer _ hclass => simp only [frameReply, hplayer, hclass]

/-! ### The script, by the rules -/

/-- Nil is printed as the empty list. -/
theorem valueToString_wordNil (P : Platform) (arena : Arena) (symbols : SymbolTable)
    (boxed : BoxedTable) : valueToString P arena symbols boxed wordNil = .ok "()" := by
  simp [valueToString, printFuel, writeValue, tagOf_wordNil]

/-- A string is printed between quotes. -/
theorem valueToString_string {P : Platform} (arena : Arena) (symbols : SymbolTable)
    {boxed : BoxedTable} {word : Word} {text : String} {lifetime : BoxedLifetime}
    (h : boxed.entry P word = some ⟨.str text, lifetime⟩) :
    valueToString P arena symbols boxed word = .ok ("\"" ++ text ++ "\"") := by
  have htag := BoxedTable.tagOf_of_entry h
  simp [valueToString, printFuel, writeValue, atomText, h, htag, tagBoxed, tagFixnum, tagNil,
    tagCons, tagSymbol]

/-- What an evaluation has done that began with this host and these calls: one observation, and
calls of these primitives. -/
structure Dispatched (host : PlayerHost I) (past : List HostCall) (s : EvalState (PlayerHost I))
    (call : PlayerCall I) (names : List String) : Prop where
  calls : s.world.host.calls = host.calls ++ [call]
  answers : call.answers = host.answers host.calls.length
  succeeds : host.pointers.Set → call.answers.Succeeds → ∀ code, call.result ≠ .failed code
  names : s.calls.map HostCall.name = past.map HostCall.name ++ names

variable {P : Platform}

/-- Behind the script: the value prints as what the script answers to the observation. -/
def DispatcherPost (P : Platform) (host : PlayerHost I) (past : List HostCall) (value : Value)
    (s : EvalState (PlayerHost I)) : Prop :=
  ∃ call names reply, Dispatched host past s call names ∧ DispatcherReply host call names reply ∧
    ∀ arena symbols, valueToString P arena symbols s.world.boxed value.word = .ok reply

/-- Behind an error of the script. -/
def DispatcherError (host : PlayerHost I) (past : List HostCall) (e : EvalError)
    (s : EvalState (PlayerHost I)) : Prop :=
  ∃ call names, Dispatched host past s call names ∧
    DispatcherReply host call names (evalErrorText e)

/-- Behind the test of the script. -/
def ObservedPost (P : Platform) (s : EvalState (PlayerHost I)) (value : Value)
    (s' : EvalState (PlayerHost I)) : Prop :=
  ∃ call, Observation P .ofScripts s.world s'.world call ∧ call.result = .returned value.word ∧
    s'.calls.map HostCall.name = s.calls.map HostCall.name ++ [Surfaces.ofScripts.playerPresent] ∧
    ∃ word, value = .host word

variable {s : EvalState (PlayerHost I)}

/-- The test observes the player. -/
theorem establishes_playerPresent [DecidableEq I] (hP : P.Spells)
    (hinv : PlayerInv P .ofScripts s.world) (hfits : s.world.host.handles.Fits)
    (hroom : s.world.boxed.values.length + 1 < addressSpace) :
    Establishes P (adapterPrimitives P .ofScripts) (· = s)
      (.form Surfaces.ofScripts.playerPresent .nil) (ObservedPost P s)
      (DispatcherError s.world.host s.calls) := by
  obtain ⟨call, world', hrun, hobservation⟩ := observePlayer_spec hinv hfits hroom
  refine .call (U := fun values s' => values = [] ∧ s' = s) hP.playerPresent rfl
    (.nil fun s' hs => ⟨rfl, hs⟩) ?_
  rintro values s' ⟨rfl, rfl⟩ run hcall
  have hends : run = (call.result.host, world') := by
    rw [← hcall]
    change ((observePlayer P .ofScripts 0 true s'.world).1.host,
      (observePlayer P .ofScripts 0 true s'.world).2) = _
    rw [hrun]
  subst hends
  have hnames : (s'.called Surfaces.ofScripts.playerPresent [] (call.result.host, world')).calls.map
      HostCall.name = s'.calls.map HostCall.name ++ [Surfaces.ofScripts.playerPresent] :=
    List.map_append
  obtain ⟨code, hcode⟩ | ⟨-, hnil⟩ | ⟨handle, -, htrue, -⟩ := hobservation.result
  · refine .inr ⟨_, by rw [hcode]; rfl, call, _, ?_, .failed hcode⟩
    exact ⟨hobservation.calls, hobservation.answers, hobservation.succeeds, hnames⟩
  · exact .inl ⟨wordNil, by rw [hnil]; rfl, call, hobservation, hnil, hnames, wordNil, rfl⟩
  · exact .inl ⟨symTWord, by rw [htrue]; rfl, call, hobservation, htrue, hnames, symTWord, rfl⟩

/-- Behind the argument of the body: the word that the player's name stands for. -/
def PlayerArgument (P : Platform) (s : EvalState (PlayerHost I)) (value : Value)
    (s' : EvalState (PlayerHost I)) : Prop :=
  ∃ call handle word, value = .host word ∧ resolveWord P s'.world word = some handle ∧
    Observation P .ofScripts s.world s'.world call ∧ call.answers.player = some handle ∧
    call.result = .returned symTWord ∧
    s'.calls.map HostCall.name = s.calls.map HostCall.name ++ [Surfaces.ofScripts.playerPresent]

/-- The player's name stands for the handle that the observation has found. -/
theorem establishes_player [DecidableEq I] {err : EvalError → EvalState (PlayerHost I) → Prop} :
    Establishes P (adapterPrimitives P .ofScripts)
      (fun s' => ∃ value, value.isTrue = true ∧ ObservedPost P s value s')
      (.symbol () Surfaces.ofScripts.player) (PlayerArgument P s) err := by
  refine .name (by decide) ?_
  rintro s' ⟨_, htrue, call, hobservation, hresult, hnames, word, rfl⟩
  obtain ⟨code, hcode⟩ | ⟨-, hnil⟩ | ⟨handle, hplayer, hreported, hinstance⟩ := hobservation.result
  · cases hresult.symm.trans hcode
  · obtain rfl : word = wordNil := PrimitiveResult.returned.inj (hresult.symm.trans hnil)
    cases htrue
  · obtain ⟨word', hvalue, hresolve⟩ := Option.bind_eq_some_iff.mp hinstance
    exact ⟨word', hvalue, call, handle, word', rfl, hresolve, hobservation, hplayer, hreported,
      hnames⟩

/-- The body names the class of the player. -/
theorem establishes_class [DecidableEq I] (hP : P.Spells)
    (hroom : s.world.boxed.values.length + 2 < addressSpace) :
    Establishes P (adapterPrimitives P .ofScripts)
      (fun s' => ∃ value, value.isTrue = true ∧ ObservedPost P s value s')
      (.form Surfaces.ofScripts.class_ (.single (.symbol () Surfaces.ofScripts.player)))
      (DispatcherPost P s.world.host s.calls) (DispatcherError s.world.host s.calls) := by
  refine .call (U := fun values s' => ∃ value, values = [value] ∧ PlayerArgument P s value s')
    hP.class_ rfl (.cons establishes_player fun value => .nil fun s' hs => ⟨value, rfl, hs⟩) ?_
  rintro _ s' ⟨_, rfl, call, handle, word, rfl, hresolve, hobservation, hplayer, hreported, hnames⟩
    run hcall
  have hends : run = ((classPrimitive P [word] s'.world).1.host,
      (classPrimitive P [word] s'.world).2) := hcall.symm
  have hlength := hobservation.boxed
  have hnames' : (s'.called Surfaces.ofScripts.class_ [word] run).calls.map HostCall.name =
      s.calls.map HostCall.name ++
        [Surfaces.ofScripts.playerPresent, Surfaces.ofScripts.class_] := by
    rw [EvalState.called, List.map_append, hnames, List.append_assoc]
    rfl
  have hclass := hobservation.classAnswer_eq handle
  obtain ⟨code, hcode, hrun⟩ | ⟨className, out, boxed, hname, hrun, hentry⟩ :=
    classPrimitive_spec hresolve (show s'.world.boxed.values.length + 1 < addressSpace by omega)
  · rw [hrun] at hends
    subst hends
    refine .inr ⟨_, rfl, call, _, ⟨hobservation.calls, hobservation.answers,
      hobservation.succeeds, hnames'⟩, .noClass hplayer hreported (hclass ▸ hcode)⟩
  · rw [hrun] at hends
    subst hends
    exact .inl ⟨out, rfl, call, _, _, ⟨hobservation.calls, hobservation.answers,
      hobservation.succeeds, hnames'⟩, .present hplayer hreported (hclass ▸ hname),
      fun arena symbols => valueToString_string arena symbols hentry⟩

/-- **The script does what it says.** -/
theorem establishes_dispatcher [DecidableEq I] (hP : P.Spells)
    (hinv : PlayerInv P .ofScripts s.world) (hfits : s.world.host.handles.Fits)
    (hroom : s.world.boxed.values.length + 2 < addressSpace) :
    Establishes P (adapterPrimitives P .ofScripts) (· = s) dispatcherForm
      (DispatcherPost P s.world.host s.calls) (DispatcherError s.world.host s.calls) := by
  refine .guarded hP.cond hP.quote (establishes_playerPresent hP hinv hfits
    (Nat.lt_of_succ_lt hroom)) (establishes_class hP hroom) ?_
  rintro s' value hfalse ⟨call, hobservation, hresult, hnames, word, rfl⟩
  obtain ⟨code, hcode⟩ | ⟨hplayer, hnil⟩ | ⟨handle, -, htrue, -⟩ := hobservation.result
  · cases hresult.symm.trans hcode
  · exact ⟨call, _, _, ⟨hobservation.calls, hobservation.answers, hobservation.succeeds, hnames⟩,
      .absent hplayer hnil, fun arena symbols => valueToString_wordNil P arena symbols _⟩
  · obtain rfl : word = symTWord := PrimitiveResult.returned.inj (hresult.symm.trans htrue)
    cases hfalse

/-! ### Calls on the script -/

/-- The start of a call leaves the room that there was. -/
theorem ReaderState.room_start {m : Machine (PlayerHost I)} {k : Nat} (h : m.reader.Room k) :
    m.start.reader.Room k := by
  refine ⟨h.1, ?_⟩
  change (m.session.boxed.values.map BoxedTable.clearSlot).length + k < addressSpace
  rw [List.length_map]
  exact h.2

/-- What one call on the script does to the record of the observations and of the calls, and what
it answers. -/
def DispatcherCall (m m' : Machine (PlayerHost I)) (call : PlayerCall I) (text : String) : Prop :=
  ∃ names reply, DispatcherReply m.host call names reply ∧ text = toCString reply ∧
    Dispatched m.host m.calls m'.evalState call names

/-- A word that prints as a text is the answer, and the transient values are cleared. -/
theorem printWord_of_eq {value : Word} {m : Machine (PlayerHost I)} {text : String}
    (h : valueToString P m.arena m.session.symbols m.session.boxed value = .ok text) :
    (printWord P value >>= finish) m = (.ok text, m.clearTransient) := by
  have hprint : printWord P value m = (.ok text, m) := by rw [printWord, h]
  rw [Program.bind_ok hprint]
  rfl

/-- What the C interface returns of a text. -/
theorem wsmEvalString_of_ok {source text : String} {m m' : Machine (PlayerHost I)}
    (h : evalStr P source m = (.ok text, m')) :
    wsmEvalString P (.text source) m = (.ok (toCString text), m') := by
  rw [wsmEvalString]
  beta_reduce
  rw [h]

/-- **What a call on the script does.** It makes one observation, and answers what the script
answers to it. -/
theorem dispatcher_call [DecidableEq I] (hP : P.Spells) {m : Machine (PlayerHost I)}
    (hprimitives : m.session.primitives = adapterPrimitives P .ofScripts)
    (hinv : PlayerInv P .ofScripts m.world) (hbindings : m.session.bindings.NonCons)
    (hfits : m.host.handles.Fits) (hroom : m.reader.Room dispatcherTokens.length) :
    ∃ call text m', wsmEvalString P (.text dispatcherSource) m = (.ok text, m') ∧
      DispatcherCall m m' call text := by
  have hspace : m.session.boxed.values.length + 20 < addressSpace := hroom.2
  have hform : ∀ boxed, boxed.values.length =
        m.session.boxed.values.length + dispatcherForm.literals.length →
      m.session.boxed.clearTransient ≤ boxed →
      Establishes P m.session.primitives (· = ⟨{ m.world with boxed }, m.calls⟩) dispatcherForm
        (DispatcherPost P m.host m.calls) (DispatcherError m.host m.calls) := by
    intro boxed hlength hgrown
    change boxed.values.length = m.session.boxed.values.length + 0 at hlength
    rw [hprimitives]
    refine establishes_dispatcher (s := ⟨{ m.world with boxed }, m.calls⟩) hP
      ⟨hinv.coherent.clear.grow hgrown, hinv.calls⟩ hfits ?_
    change boxed.values.length + 2 < addressSpace
    omega
  have hnonCons : m.session.primitives.NonCons := by
    rw [hprimitives]
    exact adapterPrimitives_nonCons P .ofScripts
  obtain ⟨s, ⟨value, st, ⟨call, names, reply, hdispatched, hreply, hprints⟩, hcall⟩ |
      ⟨e, st, ⟨call, names, hdispatched, hreply⟩, hcall⟩⟩ :=
    evalStr_of_establishes tokenize_dispatcherSource parses_dispatcher (by decide)
      (ReaderState.room_start hroom) hnonCons hbindings hform
  · have hprint : (printWord P value.word >>= finish) ((m.start.setReader s).setEvalState st) =
        (.ok reply, ((m.start.setReader s).setEvalState st).clearTransient) :=
      printWord_of_eq (hprints s.arena s.symbols)
    rw [hprint] at hcall
    exact ⟨call, _, _, wsmEvalString_of_ok hcall, names, reply, hreply, rfl,
      ⟨hdispatched.calls, hdispatched.answers, hdispatched.succeeds, hdispatched.names⟩⟩
  · exact ⟨call, _, _, wsmEvalString_of_ok hcall, names, _, hreply, rfl,
      ⟨hdispatched.calls, hdispatched.answers, hdispatched.succeeds, hdispatched.names⟩⟩

end LispHost
