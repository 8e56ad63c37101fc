import LispHost.Eval
import LispHost.Printer
import LispHost.Reader

/-!
# Sessions and `wsm_eval_string`

A session owns its primitives, bindings, symbol table and boxed table; the arena and the
host's state belong to the process. `evalStr` evaluates one source text: it clears the
transient values, resets the arena, reads, evaluates and prints, and clears the transient
values again. Errors become `error:` texts. A panic leaves the session as it is at that
point and becomes an `error:` text in `wsmEvalString`.

## Main definitions

* `Session`, `Machine`: the state of one call.
* `readErrorText`, `evalErrorText`: the error renderings.
* `evalStr`, `wsmEvalString`: the entry points.
-/

namespace LispHost

open Effects

/-- What one session keeps between its calls. The arena is that of the process. -/
structure Session (σ : Type) where
  primitives : Primitives σ
  bindings : Bindings
  symbols : SymbolTable
  boxed : BoxedTable

/-- A session after `wsm_session_init`, the registration of the primitives and the given
bindings. -/
def Session.init {σ : Type} (primitives : Primitives σ) (bindings : Bindings) : Session σ where
  primitives := primitives
  bindings := bindings
  symbols := .new
  boxed := .new

/-- Everything a call of `wsm_eval_string` runs on: the process's arena, the session, the
host's state, and the record of the primitive calls made so far. -/
structure Machine (σ : Type) where
  arena : Arena
  session : Session σ
  host : σ
  calls : List HostCall

/-- A process at its start, with one session. -/
def Machine.init {σ : Type} (session : Session σ) (host : σ) : Machine σ where
  arena := ReaderState.new.arena
  session := session
  host := host
  calls := []

/-- A process whose session has the name `player` bound to a game handle with the token, and
one primitive, which does nothing. -/
def playerMachine (token : Word) : Machine Unit :=
  Machine.init
    { primitives := .single "f" (.returning (.ok wordNil))
      bindings := [("player", 15)]
      symbols := .new
      boxed := BoxedTable.new.push ⟨.gameHandle token, .persistent⟩ (by decide) } ()

namespace Machine

variable {σ : Type}

/-- The part the reader works on. -/
def reader (m : Machine σ) : ReaderState := ⟨m.arena, m.session.symbols, m.session.boxed⟩

/-- The machine behind a reading. -/
def setReader (m : Machine σ) (s : ReaderState) : Machine σ :=
  { m with
    arena := s.arena
    session := { m.session with symbols := s.symbols, boxed := s.boxed } }

/-- The part the host can reach. -/
def world (m : Machine σ) : HostWorld σ := ⟨m.session.boxed, m.session.bindings, m.host⟩

/-- The part the evaluator changes. -/
def evalState (m : Machine σ) : EvalState σ := ⟨m.world, m.calls⟩

/-- The machine behind an evaluation. -/
def setEvalState (m : Machine σ) (s : EvalState σ) : Machine σ :=
  { m with
    session := { m.session with boxed := s.world.boxed, bindings := s.world.bindings }
    host := s.world.host
    calls := s.calls }

/-- The part the evaluator only reads. -/
def context (m : Machine σ) : EvalContext σ :=
  ⟨m.arena, m.session.symbols, m.session.primitives⟩

/-- The machine without its transient values. -/
def clearTransient (m : Machine σ) : Machine σ :=
  { m with session := { m.session with boxed := m.session.boxed.clearTransient } }

/-- The machine with an empty arena. -/
def resetArena (m : Machine σ) : Machine σ := { m with arena := m.arena.reset }

end Machine

/-- The result text of a read error. -/
def readErrorText : ReadError → String
  | .unexpectedEof => "error: unexpected end of input"
  | .unexpectedCloseParen => "error: unexpected ')'"
  | .unterminatedString => "error: unterminated string literal"
  | .trailingInput rest => "error: trailing input: " ++ rest
  | .arenaCapacityExceeded required capacity =>
      "error: form needs " ++ toString required ++ " cons cells; arena capacity is " ++
        toString capacity

/-- The result text of an evaluation error. -/
def evalErrorText : EvalError → String
  | .unknownSymbol name =>
      "error: unknown symbol · nevidomyi symvol · unbekanntes Symbol: " ++ name
  | .notCallable => "error: not callable"
  | .invalidForm message => "error: invalid form: " ++ message
  | .typeError message => "error: type error: " ++ message
  | .hostPrimitiveFailed name message => "error: " ++ name ++ " failed: " ++ message

variable {σ : Type} (P : Platform)

/-- Read one form. An error is returned as a value. -/
def readForm (text : String) : Program Exit (Machine σ) Empty (Except ReadError Word) :=
  ((readOne P text).zoom Machine.reader Machine.setReader).attempt

/-- Evaluate a word. An error is returned as a value. -/
def evalWord (word : Word) : Program Exit (Machine σ) Empty (Except EvalError Word) := fun m =>
  ((eval P m.context evalFuel word).zoom Machine.evalState Machine.setEvalState).attempt m

/-- Print a word. -/
def printWord (word : Word) : Program Exit (Machine σ) Empty String := fun m =>
  (valueToString P m.arena m.session.symbols m.session.boxed word, m)

/-- Evaluate and print a word, or render the error. -/
def evalPrint (word : Word) : Program Exit (Machine σ) Empty String := do
  match ← evalWord P word with
  | .ok value => printWord P value
  | .error e => pure (evalErrorText e)

/-- Read, evaluate and print, or render the error. -/
def readEvalPrint (text : String) : Program Exit (Machine σ) Empty String := do
  match ← readForm P text with
  | .ok word => evalPrint P word
  | .error e => pure (readErrorText e)

/-- `eval_str`. -/
def evalStr (text : String) : Program Exit (Machine σ) Empty String := do
  Program.modify Machine.clearTransient
  Program.modify Machine.resetArena
  let result ← readEvalPrint P text
  Program.modify Machine.clearTransient
  pure result

/-- The machine on which a call starts to read. -/
def Machine.start (m : Machine σ) : Machine σ := m.clearTransient.resetArena

/-- What follows the evaluation of a text. -/
def finish (result : String) : Program Exit (Machine σ) Empty String := do
  Program.modify Machine.clearTransient
  pure result

/-- What a call does with the result of its reader: an accepted word is evaluated and
printed, an error is rendered, and where the reader stops the call stops. -/
def afterRead (m : Machine σ) :
    Outcome Exit ReadError Word × ReaderState → Outcome Exit Empty String × Machine σ
  | (.ok word, s) => (evalPrint P word >>= finish) (m.setReader s)
  | (.err e, s) => (.ok (readErrorText e), (m.setReader s).clearTransient)
  | (.panic, s) => (.panic, m.setReader s)
  | (.abort r, s) => (.abort r, m.setReader s)
  | (.timeout, s) => (.timeout, m.setReader s)

/-- **What a call does.** -/
theorem evalStr_eq (text : String) (m : Machine σ) :
    evalStr P text m = afterRead P m.start (readOne P text m.start.reader) := by
  have hread : readForm P text m.start =
      ((readOne P text).zoom Machine.reader Machine.setReader).attempt m.start := rfl
  have hcall : evalStr P text m = (readEvalPrint P text >>= finish) m.start := rfl
  rw [Program.attempt, Program.zoom] at hread
  rcases hrun : readOne P text m.start.reader with ⟨o, s⟩
  rw [hrun] at hread
  rw [hcall]
  cases o with
  | ok word =>
      have heval : readEvalPrint P text m.start = evalPrint P word (m.start.setReader s) := by
        rw [readEvalPrint, Program.bind_ok hread]
      change _ = (evalPrint P word >>= finish) (m.start.setReader s)
      rcases hresult : evalPrint P word (m.start.setReader s) with ⟨o, m'⟩
      rw [hresult] at heval
      cases o with
      | ok result => rw [Program.bind_ok heval, Program.bind_ok hresult]
      | err e => exact e.elim
      | panic => rw [Program.bind_panic heval, Program.bind_panic hresult]
      | abort r => rw [Program.bind_abort heval, Program.bind_abort hresult]
      | timeout => rw [Program.bind_timeout heval, Program.bind_timeout hresult]
  | err e =>
      have heval : readEvalPrint P text m.start =
          (.ok (readErrorText e), m.start.setReader s) := by
        rw [readEvalPrint, Program.bind_ok hread]
        rfl
      rw [Program.bind_ok heval]
      rfl
  | panic =>
      have heval : readEvalPrint P text m.start = (.panic, m.start.setReader s) := by
        rw [readEvalPrint, Program.bind_panic hread]
      rw [Program.bind_panic heval, afterRead]
  | abort r =>
      have heval : readEvalPrint P text m.start = (.abort r, m.start.setReader s) := by
        rw [readEvalPrint, Program.bind_abort hread]
      rw [Program.bind_abort heval, afterRead]
  | timeout =>
      have heval : readEvalPrint P text m.start = (.timeout, m.start.setReader s) := by
        rw [readEvalPrint, Program.bind_timeout hread]
      rw [Program.bind_timeout heval, afterRead]

/-- What a call does with the result of an evaluation: a value is printed, an error is
rendered, and where the evaluation stops the call stops. -/
def afterEval (m : Machine σ) :
    Outcome Exit EvalError Word × EvalState σ → Outcome Exit Empty String × Machine σ
  | (.ok value, s) => (printWord P value >>= finish) (m.setEvalState s)
  | (.err e, s) => (.ok (evalErrorText e), (m.setEvalState s).clearTransient)
  | (.panic, s) => (.panic, m.setEvalState s)
  | (.abort r, s) => (.abort r, m.setEvalState s)
  | (.timeout, s) => (.timeout, m.setEvalState s)

/-- **What a call does behind its reader.** -/
theorem evalPrint_eq (word : Word) (m : Machine σ) :
    (evalPrint P word >>= finish) m =
      afterEval P m (eval P m.context evalFuel word m.evalState) := by
  have heval : evalWord P word m =
      ((eval P m.context evalFuel word).zoom Machine.evalState Machine.setEvalState).attempt m :=
    rfl
  rw [Program.attempt, Program.zoom] at heval
  rcases hrun : eval P m.context evalFuel word m.evalState with ⟨o, s⟩
  rw [hrun] at heval
  cases o with
  | ok value =>
      have hprint : evalPrint P word m = printWord P value (m.setEvalState s) := by
        rw [evalPrint, Program.bind_ok heval]
      change _ = (printWord P value >>= finish) (m.setEvalState s)
      rcases hresult : printWord P value (m.setEvalState s) with ⟨o, m'⟩
      rw [hresult] at hprint
      cases o with
      | ok result => rw [Program.bind_ok hprint, Program.bind_ok hresult]
      | err e => exact e.elim
      | panic => rw [Program.bind_panic hprint, Program.bind_panic hresult]
      | abort r => rw [Program.bind_abort hprint, Program.bind_abort hresult]
      | timeout => rw [Program.bind_timeout hprint, Program.bind_timeout hresult]
  | err e =>
      have hprint : evalPrint P word m = (.ok (evalErrorText e), m.setEvalState s) := by
        rw [evalPrint, Program.bind_ok heval]
        rfl
      rw [Program.bind_ok hprint]
      rfl
  | panic =>
      have hprint : evalPrint P word m = (.panic, m.setEvalState s) := by
        rw [evalPrint, Program.bind_panic heval]
      rw [Program.bind_panic hprint, afterEval]
  | abort r =>
      have hprint : evalPrint P word m = (.abort r, m.setEvalState s) := by
        rw [evalPrint, Program.bind_abort heval]
      rw [Program.bind_abort hprint, afterEval]
  | timeout =>
      have hprint : evalPrint P word m = (.timeout, m.setEvalState s) := by
        rw [evalPrint, Program.bind_timeout heval]
      rw [Program.bind_timeout hprint, afterEval]

/-- The source argument as the C interface receives it. -/
inductive SourceArg where
  | null
  | notUtf8
  | text (text : String)
deriving DecidableEq, Repr

/-- `CString::new`, with the message that replaces a text it rejects. -/
def toCString (message : String) : String :=
  if message.toList.any (·.toNat == 0) then "error: result contained an embedded NUL"
  else message

/-- `wsm_eval_string` on a live session. -/
def wsmEvalString (source : SourceArg) : Program Exit (Machine σ) Empty String :=
  match source with
  | .null => pure (toCString "error: null session or source pointer")
  | .notUtf8 => pure (toCString "error: source is not valid UTF-8")
  | .text text => fun m =>
      match evalStr P text m with
      | (.ok message, m') => (.ok (toCString message), m')
      | (.panic, m') => (.ok (toCString "error: internal panic during eval"), m')
      | other => other

/-- What a call leaves behind is what the evaluation of its text leaves. -/
theorem wsmEvalString_text_snd (text : String) (m : Machine σ) :
    (wsmEvalString P (.text text) m).2 = (evalStr P text m).2 := by
  rw [wsmEvalString]
  beta_reduce
  generalize evalStr P text m = result
  obtain ⟨o, m'⟩ := result
  cases o <;> rfl

/-- The machine after a sequence of calls. -/
def afterCalls (sources : List SourceArg) (m : Machine σ) : Machine σ :=
  sources.foldl (fun m source => (wsmEvalString P source m).2) m

/-- The answers of a sequence of calls; a call that does not return is the last one. -/
def answers : List SourceArg → Machine σ → List (Outcome Exit Empty String)
  | [], _ => []
  | source :: sources, m =>
      (wsmEvalString P source m).1 ::
        match (wsmEvalString P source m).1 with
        | .ok _ => answers sources (wsmEvalString P source m).2
        | _ => []

end LispHost
