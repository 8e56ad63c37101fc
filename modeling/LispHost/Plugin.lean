import LispHost.Adapter
import LispHost.Lib.Triple
import LispHost.Lib.Resources

/-!
# What the Adapter Owns

`Load` takes a reference to the runtime library and a session of it, `Unload` gives them back,
and every evaluation takes a text from the library and gives it back. A load that fails on its
way leaves this to the destructor of `WsmRuntimeGuard`. A journal records what is acquired, used
and released: references to the library, sessions, and texts. A call of an export uses the
reference under which the export was looked up, and the session that it is given. What the
primitives call while a text is evaluated is no entry of its own: `wsm_bind` and the exports that
wrap and unwrap words are called on the same session, out of the call of `wsm_eval_string` that the
journal has, and nothing is released before that call is over. The look-ups of exports are not
recorded either.

The journal is kept beside the globals of `Adapter`. `wsm_session_free` is asked for twice, in a
load and in an unload, and the two answers are independent.

## Main definitions

* `Resource`, `Journal`: what is owned, and the record of it.
* `RuntimeGuard`: the destructor behind a load.
* `Plugin`, `Plugin.load`, `Plugin.dispatchRunningTick`, `Plugin.unload`: the entry points.
* `Plugin.run`: any number of calls of them.
* `Plugin.adapter`: the globals without the journal.
-/

open Effects

namespace LispHost

/-- What the adapter takes from the system and from the runtime library. The number is that of
the taking. -/
inductive Resource where
  | module (id : Nat)
  | session (id : Nat)
  | text (id : Nat)
deriving DecidableEq, Repr

/-- What was done with resources so far, and how many were taken. -/
structure Journal where
  ops : List (ResourceOp Resource)
  acquired : Nat

namespace Journal

/-- An empty journal. -/
def new : Journal where
  ops := []
  acquired := 0

/-- One more entry. -/
def perform (journal : Journal) (op : ResourceOp Resource) : Journal :=
  { journal with ops := journal.ops ++ [op] }

/-- Take a resource of a kind. -/
def acquire (journal : Journal) (kind : Nat → Resource) : Journal where
  ops := journal.ops ++ [.acquire (kind journal.acquired)]
  acquired := journal.acquired + 1

/-- Call an export of the library. -/
def call (journal : Journal) (wsmModule : Resource) : Journal := journal.perform (.use wsmModule)

/-- Call an export that is given a session. -/
def callOn (journal : Journal) (wsmModule session : Resource) : Journal :=
  (journal.call wsmModule).perform (.use session)

/-- Take the text that a call returns, read it, and hand it to `wsm_free_string`. -/
def readText (journal : Journal) (wsmModule : Resource) : Journal :=
  let text := Resource.text journal.acquired
  (((journal.acquire .text).perform (.use text)).call wsmModule).perform (.release text)

end Journal

/-- `WsmRuntimeGuard`. `sessionFree` says that the pointer to `wsm_session_free` is not null. -/
structure RuntimeGuard where
  module : Option Resource
  session : Option Resource
  sessionFree : Bool
  released : Bool

namespace RuntimeGuard

/-- The guard at the beginning of a load. -/
def new : RuntimeGuard where
  module := none
  session := none
  sessionFree := false
  released := false

/-- `SetModule`. -/
def setModule (guard : RuntimeGuard) (wsmModule : Resource) : RuntimeGuard :=
  { guard with module := some wsmModule }

/-- `SetSession`. -/
def setSession (guard : RuntimeGuard) (session : Resource) (sessionFree : Bool) : RuntimeGuard :=
  { guard with session := some session, sessionFree }

/-- `Release`: the destructor has nothing to do any more. -/
def release (guard : RuntimeGuard) : RuntimeGuard := { guard with released := true }

/-- The first half of the destructor. -/
def freeSession (guard : RuntimeGuard) (journal : Journal) : Journal :=
  match guard.module, guard.session with
  | some wsmModule, some session =>
      if guard.sessionFree then (journal.call wsmModule).perform (.release session) else journal
  | _, _ => journal

/-- The second half of the destructor. -/
def freeLibrary (guard : RuntimeGuard) (journal : Journal) : Journal :=
  match guard.module with
  | some wsmModule => journal.perform (.release wsmModule)
  | none => journal

/-- The destructor. -/
def drop (guard : RuntimeGuard) (journal : Journal) : Journal :=
  if guard.released then journal else guard.freeLibrary (guard.freeSession journal)

end RuntimeGuard

/-! ### The dispatch source -/

/-- `ReadFileIfExists`; a file that cannot be opened is `none`. -/
def readFileIfExists (file : Option Bytes) (out : Bytes) : Bool × Bytes :=
  match file with
  | none => (false, out)
  | some bytes => (!bytes.isEmpty, bytes)

/-- `LoadFirstExisting`. -/
def loadFirstExisting : List (Option Bytes) → Bytes → Bool × Bytes
  | [], out => (false, out)
  | file :: files, out =>
      if (readFileIfExists file out).1 then readFileIfExists file out
      else loadFirstExisting files (readFileIfExists file out).2

/-- The first file that can be read and is not empty. -/
def firstSource (files : List (Option Bytes)) : Option Bytes :=
  files.findSome? fun file => file.filter fun bytes => !bytes.isEmpty

/-- **Which source is loaded.** -/
theorem loadFirstExisting_spec (files : List (Option Bytes)) (out : Bytes) :
    (loadFirstExisting files out).1 = (firstSource files).isSome ∧
      ∀ source, firstSource files = some source → (loadFirstExisting files out).2 = source := by
  induction files generalizing out with
  | nil =>
      refine ⟨rfl, ?_⟩
      rintro source ⟨⟩
  | cons file files ih =>
      rw [loadFirstExisting, firstSource, List.findSome?_cons]
      match file with
      | none => exact ih out
      | some [] => exact ih []
      | some (byte :: bytes) =>
          refine ⟨rfl, ?_⟩
          rintro source ⟨⟩
          rfl

/-! ### The globals -/

/-- What the system and the library answer to `Load`, with the contents of the files in the
order of `DispatchCandidates`. The export that frees sessions is one of the others. -/
structure LoadCalls (S : Type) extends LoadAnswers S where
  sessionFree : Bool
  files : List (Option Bytes)
  sessionFree_of_otherExports : otherExports = true → sessionFree = true
  dispatchSource_eq : dispatchSource = firstSource files

/-- The session that `Load` gets. -/
def LoadCalls.opened {S : Type} (calls : LoadCalls S) : Option S := do
  guard calls.module
  let abiVersion ← calls.abiVersion
  let featureBits ← calls.featureBits
  guard (abiVersion = kExpectedHostAbiVersion)
  guard (featureBits &&& kRequiredHostFeatures = kRequiredHostFeatures)
  let init ← calls.toLoadAnswers.sessionInit
  init

/-- What the checks behind the session leave. -/
def LoadCalls.checked {S : Type} (calls : LoadCalls S) (state : S) : Option (EvalString S × S) := do
  let evalString ← calls.evalString
  guard (calls.freeString && calls.otherExports)
  guard calls.registerLog
  guard calls.registerPlayerPresent
  guard calls.registerClass
  let text ← (evalString state (utf8 "(quote ())")).1
  guard (text = utf8 "()")
  guard (firstSource calls.files).isSome
  return (evalString, (evalString state (utf8 "(quote ())")).2)

/-- The globals of the adapter with what they hold, and the journal. -/
structure Plugin (S R : Type) where
  module : Option Resource
  session : Option (Resource × S)
  logger : Bool
  evalString : Option (EvalString S)
  freeString : Bool
  dispatchSource : Bytes
  lastDispatchResult : Bytes
  server : Server R
  journal : Journal

variable {S R : Type}

/-- A load on its way: the globals, and the guard on the stack. -/
structure Loading (S R : Type) where
  plugin : Plugin S R
  guard : RuntimeGuard

namespace Loading

/-- A load with another journal. -/
def mapJournal (loading : Loading S R) (f : Journal → Journal) : Loading S R :=
  { loading with plugin := { loading.plugin with journal := f loading.plugin.journal } }

/-- A step of `Load`. All errors are a `return false`. -/
abbrev Step (S R α : Type) : Type := Program Empty (Loading S R) Unit α

/-- Return false if a check fails. -/
def require (check : Prop) [Decidable check] : Step S R Unit :=
  if check then pure () else Program.throw ()

/-- Return false if a pointer is null. -/
def expect {α : Type} (answer : Option α) : Step S R α :=
  match answer with
  | some a => pure a
  | none => Program.throw ()

/-- What is done with resources. -/
def record (f : Journal → Journal) : Step S R Unit := Program.modify fun l => l.mapJournal f

/-- `LoadLibraryW` and `SetModule`. -/
def loadLibrary : Step S R Resource := fun l =>
  let wsmModule := Resource.module l.plugin.journal.acquired
  (.ok wsmModule,
    { (l.mapJournal (·.acquire .module)) with guard := l.guard.setModule wsmModule })

/-- `wsm_session_init` and `SetSession`. -/
def sessionInit (sessionFree : Bool) : Step S R Resource := fun l =>
  let session := Resource.session l.plugin.journal.acquired
  (.ok session,
    { (l.mapJournal (·.acquire .session)) with guard := l.guard.setSession session sessionFree })

/-- `LoadDispatchSource` on the global. A file that is empty clears it. -/
def loadDispatchSource (files : List (Option Bytes)) : Step S R Bool := fun l =>
  let (found, dispatchSource) := loadFirstExisting files l.plugin.dispatchSource
  (.ok found, { l with plugin := { l.plugin with dispatchSource } })

/-- `Load` up to the session. -/
def openSession (calls : LoadCalls S) : Step S R (Resource × Resource × S) := do
  Program.modify fun l => { l with plugin := { l.plugin with logger := true } }
  require calls.module
  let wsmModule ← loadLibrary
  let abiVersion ← expect calls.abiVersion
  let featureBits ← expect calls.featureBits
  record (·.call wsmModule)
  require (abiVersion = kExpectedHostAbiVersion)
  record (·.call wsmModule)
  require (featureBits &&& kRequiredHostFeatures = kRequiredHostFeatures)
  -- the log line asks for the version and the feature bits once more
  record (·.call wsmModule)
  record (·.call wsmModule)
  let init ← expect calls.toLoadAnswers.sessionInit
  record (·.call wsmModule)
  let state ← expect init
  let session ← sessionInit calls.sessionFree
  return (wsmModule, session, state)

/-- `Load` from the session up to the globals. -/
def checkSession (calls : LoadCalls S) (wsmModule session : Resource) (state : S) :
    Step S R (EvalString S × S) := do
  let evalString ← expect calls.evalString
  require (calls.freeString && calls.otherExports)
  record (·.callOn wsmModule session)
  require calls.registerLog
  record (·.callOn wsmModule session)
  require calls.registerPlayerPresent
  record (·.callOn wsmModule session)
  require calls.registerClass
  record (·.callOn wsmModule session)
  let text ← expect (evalString state (utf8 "(quote ())")).1
  record (·.readText wsmModule)
  require (text = utf8 "()")
  let found ← loadDispatchSource calls.files
  require found
  return (evalString, (evalString state (utf8 "(quote ())")).2)

/-- The globals behind all checks, and `Release`. -/
def install (calls : LoadCalls S) (wsmModule session : Resource) (evalString : EvalString S)
    (state : S) : Step S R Unit :=
  Program.modify fun l =>
    { plugin :=
        { l.plugin with
          module := some wsmModule
          session := some (session, state)
          evalString := some evalString
          freeString := true
          server := (l.plugin.server.start calls.start).1
          journal := (l.plugin.journal.call wsmModule).call wsmModule }
      guard := l.guard.release }

/-- The body of `Load`. -/
def body (calls : LoadCalls S) : Step S R Unit := do
  let (wsmModule, session, state) ← openSession calls
  let (evalString, state) ← checkSession calls wsmModule session state
  install calls wsmModule session evalString state

/-- What a load on its way ends with, behind the destructor. -/
def finish (loading : Loading S R) : Plugin S R :=
  { loading.plugin with journal := loading.guard.drop loading.plugin.journal }

end Loading

namespace Plugin

/-- The globals before the first load. -/
def new : Plugin S R where
  module := none
  session := none
  logger := false
  evalString := none
  freeString := false
  dispatchSource := []
  lastDispatchResult := []
  server := { impl := .new, requests := .empty }
  journal := .new

/-- `Main` for `Load`. -/
def load (plugin : Plugin S R) (calls : LoadCalls S) : Plugin S R × Bool :=
  match Loading.body calls { plugin, guard := .new } with
  | (.ok (), loading) => (loading.finish, true)
  | (_, loading) => (loading.finish, false)

/-- How a tick evaluates a text: what the call returns. -/
def evaluate (wsmModule session : Resource) (evalString : EvalString S) (source : Bytes)
    (state : S × Journal) : Option Bytes × (S × Journal) :=
  match evalString state.1 source with
  | (none, s) => (none, s, state.2.callOn wsmModule session)
  | (some text, s) => (some text, s, (state.2.callOn wsmModule session).readText wsmModule)

/-- How a tick answers a request. -/
def answer (wsmModule session : Resource) (evalString : EvalString S) (source : Bytes)
    (state : S × Journal) : Bytes × (S × Journal) :=
  match evaluate wsmModule session evalString source state with
  | (none, state) => (utf8 "error: Lisp evaluation returned null", state)
  | (some text, state) => (text, state)

/-- The fixed dispatch, behind the requests. -/
def dispatch (plugin : Plugin S R) (wsmModule session : Resource) (evalString : EvalString S)
    (state : S × Journal) : Plugin S R :=
  if plugin.dispatchSource = [] then
    { plugin with session := some (session, state.1), journal := state.2 }
  else
    match evaluate wsmModule session evalString plugin.dispatchSource state with
    | (none, s, journal) => { plugin with session := some (session, s), journal }
    | (some result, s, journal) =>
        { plugin with session := some (session, s), lastDispatchResult := result, journal }

/-- `DispatchRunningTick`; `none` is the use of a null pointer. The pointers to exports go with
the module. -/
def dispatchRunningTick (plugin : Plugin S R) :
    Option (Plugin S R × List (Request R × Bytes) × Bool) :=
  match plugin.session, plugin.evalString, plugin.module with
  | some (session, s), some evalString, some wsmModule =>
      if plugin.freeString && plugin.logger then do
        let (server, replies, state) ←
          plugin.server.drain (answer wsmModule session evalString) (s, plugin.journal)
        return (dispatch { plugin with server } wsmModule session evalString state, replies, false)
      else some (plugin, [], true)
  | _, _, _ => some (plugin, [], true)

/-- What `Unload` does with its resources. `sessionFree` says that `wsm_session_free` is found. -/
def unloadJournal (plugin : Plugin S R) (sessionFree : Bool) : Journal :=
  match plugin.module, plugin.session with
  | some wsmModule, some (session, _) =>
      (if sessionFree then (plugin.journal.call wsmModule).perform (.release session)
        else plugin.journal).perform (.release wsmModule)
  | some wsmModule, none => plugin.journal.perform (.release wsmModule)
  | none, _ => plugin.journal

/-- `Main` for `Unload`. -/
def unload (plugin : Plugin S R) (sessionFree : Bool) : Plugin S R where
  module := none
  session := if plugin.module.isSome then none else plugin.session
  logger := false
  evalString := none
  freeString := false
  dispatchSource := []
  lastDispatchResult := []
  server := plugin.server.stop.1
  journal := plugin.unloadJournal sessionFree

/-- The globals without the journal. -/
def adapter (plugin : Plugin S R) : Adapter S R where
  module := plugin.module.isSome
  session := plugin.session.map Prod.snd
  logger := plugin.logger
  evalString := plugin.evalString
  freeString := plugin.freeString
  dispatchSource := plugin.dispatchSource
  lastDispatchResult := plugin.lastDispatchResult
  server := plugin.server

end Plugin

/-- A call of the adapter, or a request that comes in. -/
inductive PluginEvent (S R : Type) where
  | load (calls : LoadCalls S)
  | tick
  | unload (sessionFree : Bool)
  | request (source : Bytes) (reply : R)

/-- The call without what only the journal needs. -/
def PluginEvent.adapterEvent : PluginEvent S R → AdapterEvent S R
  | load calls => .load calls.toLoadAnswers
  | tick => .tick
  | unload _ => .unload
  | request source reply => .request source reply

/-- One call. A tick that does not return has no next state. -/
def Plugin.step (plugin : Plugin S R) : PluginEvent S R → Option (Plugin S R)
  | .load calls => some (plugin.load calls).1
  | .tick => plugin.dispatchRunningTick.map Prod.fst
  | .unload sessionFree => some (plugin.unload sessionFree)
  | .request source reply =>
      match plugin.server.requests.push source (some reply) with
      | none => some plugin
      | some requests => some { plugin with server := { plugin.server with requests } }

/-- Any number of calls; `none` is the use of a null pointer. -/
def Plugin.run (plugin : Plugin S R) (events : List (PluginEvent S R)) : Option (Plugin S R) :=
  events.foldlM Plugin.step plugin

end LispHost
