import LispHost.Renaming
import LispHost.Returns
import Mathlib.Data.List.Basic
import Mathlib.Logic.Function.Basic

/-!
# Sessions Do Not See Each Other

All sessions of a process share one arena, and a session keeps its symbol table and its boxed
table from call to call. Neither shows: whatever the process has evaluated before, a call
answers as it would in a fresh session with the same primitives and bindings. In the fresh
session the persistent values have been wrapped again, in their order, and the names are bound
to their new words.

## Main definitions

* `Session.renew`: the fresh session.
* `Bindings.Durable`: every name is bound to a word that survives a call.
* `Process`: the sessions of a process, and its calls.

## Main results

* `joins_renew`: a persistent value is in both tables.
* `Process.Isolated.after`: bindings stay durable, whatever the sessions evaluate.
* `wsmEvalString_eq_renew`: history and the other sessions are unobservable.
-/

namespace LispHost

open Effects

/-! ### Wrapping the persistent values again -/

/-- Where a filter puts an element that it keeps. -/
theorem getElem?_filter_countP {α : Type} (p : α → Bool) {l : List α} {i : Nat} {a : α}
    (h : l[i]? = some a) (ha : p a) : (l.filter p)[(l.take i).countP p]? = some a := by
  induction l generalizing i with
  | nil => simp at h
  | cons b l ih =>
      cases i with
      | zero =>
          obtain rfl : b = a := by simpa using h
          rw [List.filter_cons_of_pos ha]
          rfl
      | succ i =>
          rw [List.getElem?_cons_succ] at h
          rw [List.take_succ_cons, List.countP_cons]
          by_cases hb : p b
          · rw [List.filter_cons_of_pos hb, if_pos hb, List.getElem?_cons_succ]
            exact ih h
          · rw [List.filter_cons_of_neg hb, if_neg hb]
            exact ih h

/-- A filter keeps the order. -/
theorem countP_take_lt {α : Type} (p : α → Bool) {l : List α} {i j : Nat} {a : α}
    (h : l[i]? = some a) (ha : p a) (hij : i < j) :
    (l.take i).countP p < (l.take j).countP p := by
  have htake : l.take (i + 1) = l.take i ++ [a] := by
    rw [List.take_add_one, h]
    rfl
  have hsub : (l.take (i + 1)).countP p ≤ (l.take j).countP p :=
    (List.take_sublist_take_left hij).countP_le
  rw [htake, List.countP_append, List.countP_singleton, if_pos ha] at hsub
  omega

namespace BoxedTable

/-- The slot holds a persistent value. -/
def persistentSlot : Option BoxedEntry → Bool
  | some ⟨_, .persistent⟩ => true
  | _ => false

/-- The persistent values of the table, wrapped again in their order. -/
def renew (table : BoxedTable) : BoxedTable where
  values := table.values.filter persistentSlot
  addressable := (List.length_filter_le _ _).trans_lt table.addressable

/-- The slot that a persistent value gets when it is wrapped again. -/
def renewSlot (table : BoxedTable) (slot : Nat) : Nat :=
  (table.values.take slot).countP persistentSlot

/-- The word of a persistent value that has been wrapped again; any other word stays. -/
def renewWord (P : Platform) (table : BoxedTable) (word : Word) : Word :=
  ((P.decodeBoxed word).bind fun handle =>
    P.encodeBoxed (table.renewSlot (handle - 1) + 1)).getD word

variable {P : Platform} {table : BoxedTable}

/-- Only handles are renewed. -/
theorem renewWord_of_tagOf_ne {word : Word} (h : tagOf word ≠ tagBoxed) :
    table.renewWord P word = word := by
  rw [renewWord, P.decodeBoxed_eq_none h]
  rfl

/-- **Where a persistent value goes.** -/
theorem renewWord_spec {word : Word} {value : BoxedValue}
    (h : table.entry P word = some ⟨value, .persistent⟩) :
    ∃ slot, P.encodeBoxed (slot + 1) = some word ∧
      table.values[slot]? = some (some ⟨value, .persistent⟩) ∧
      P.encodeBoxed (table.renewSlot slot + 1) = some (table.renewWord P word) := by
  obtain ⟨slot, hword, hslot⟩ := exists_slot_of_entry h
  refine ⟨slot, hword, hslot, ?_⟩
  have hle : table.renewSlot slot ≤ table.values.length :=
    List.countP_le_length.trans (List.length_take_le' _ _)
  have haddressable := table.addressable
  have hspace : addressSpace < 2 ^ 61 := by decide
  obtain ⟨word', hword'⟩ := Option.isSome_iff_exists.mp
    (P.encodeBoxed_isSome (table.renewSlot slot + 1) (by omega) (by omega))
  rw [renewWord, P.decodeBoxed_encodeBoxed _ _ hword, Option.bind_some, Nat.add_sub_cancel, hword']
  rfl

/-- Persistent values are wrapped again under distinct words. -/
theorem renewWord_inj {v w : Word} {value value' : BoxedValue}
    (hv : table.entry P v = some ⟨value, .persistent⟩)
    (hw : table.entry P w = some ⟨value', .persistent⟩)
    (h : table.renewWord P v = table.renewWord P w) : v = w := by
  obtain ⟨slot, hword, hslot, hrenew⟩ := renewWord_spec hv
  obtain ⟨slot', hword', hslot', hrenew'⟩ := renewWord_spec hw
  have heq : table.renewSlot slot = table.renewSlot slot' := by
    rw [h] at hrenew
    exact Nat.succ_injective (P.encodeBoxed_inj hrenew hrenew')
  rcases Nat.lt_trichotomy slot slot' with hlt | rfl | hlt
  · have := countP_take_lt persistentSlot hslot rfl hlt
    rw [renewSlot, renewSlot] at heq
    omega
  · rw [hword] at hword'
    exact Option.some.inj hword'
  · have := countP_take_lt persistentSlot hslot' rfl hlt
    rw [renewSlot, renewSlot] at heq
    omega

end BoxedTable

/-- The renaming of persistent words to the words under which their values have been wrapped
again. -/
def Renaming.renewal (P : Platform) (table : BoxedTable) : Renaming where
  rel v w := (∃ value, table.entry P v = some ⟨value, .persistent⟩) ∧ table.renewWord P v = w
  tagged := by
    rintro v w ⟨⟨value, hv⟩, rfl⟩
    obtain ⟨slot, hword, -, hrenew⟩ := BoxedTable.renewWord_spec hv
    exact ⟨P.tagOf_encodeBoxed _ _ hword, P.tagOf_encodeBoxed _ _ hrenew⟩
  right_unique := by
    rintro v w w' ⟨-, rfl⟩ ⟨-, rfl⟩
    rfl
  left_unique := by
    rintro v v' w ⟨⟨value, hv⟩, rfl⟩ ⟨⟨value', hv'⟩, h⟩
    exact (BoxedTable.renewWord_inj hv' hv h).symm

/-- **A persistent value is in both tables**, under the two words. -/
theorem joins_renew (P : Platform) (table : BoxedTable) :
    (Renaming.renewal P table).Joins P table table.renew where
  resolves := by
    rintro v w ⟨⟨value, hv⟩, rfl⟩
    obtain ⟨slot, -, hslot, hrenew⟩ := BoxedTable.renewWord_spec hv
    refine ⟨_, hv, ?_⟩
    rw [BoxedTable.entry_of_encodeBoxed hrenew, BoxedTable.renew, BoxedTable.renewSlot,
      getElem?_filter_countP _ hslot rfl]
    rfl
  length_le := List.length_filter_le _ _

/-! ### Fresh sessions -/

section Fresh

variable {σ : Type} {P : Platform}

/-- A word that survives a call: a fixnum, `()`, `t`, or the word of a persistent value. -/
inductive Durable (P : Platform) (table : BoxedTable) : Word → Prop
  | fixnum {word : Word} (h : tagOf word = tagFixnum) : Durable P table word
  | nil : Durable P table wordNil
  | t : Durable P table symTWord
  | persistent {word : Word} {value : BoxedValue}
      (h : table.entry P word = some ⟨value, .persistent⟩) : Durable P table word

/-- A word that lasts does so in a table that has grown. -/
theorem Durable.mono {a b : BoxedTable} (hab : a ≤ b) {word : Word} (h : Durable P a word) :
    Durable P b word := by
  cases h with
  | fixnum h => exact .fixnum h
  | nil => exact .nil
  | t => exact .t
  | persistent h => exact .persistent (BoxedTable.entry_mono hab h)

/-- And in one that was cleared. -/
theorem Durable.clearTransient {table : BoxedTable} {word : Word} (h : Durable P table word) :
    Durable P table.clearTransient word := by
  cases h with
  | fixnum h => exact .fixnum h
  | nil => exact .nil
  | t => exact .t
  | @persistent word value h =>
      have hentry : table.clearTransient.entry P word = some ⟨value, .persistent⟩ := by
        rw [BoxedTable.entry_clearTransient, h]
        rfl
      exact .persistent hentry

/-- A word that lasts is no pair. -/
theorem Durable.tagOf_ne {table : BoxedTable} {word : Word} (h : Durable P table word) :
    tagOf word ≠ tagCons := by
  cases h with
  | fixnum h => simp [h, tagFixnum, tagCons]
  | nil => simp [tagNil, tagCons]
  | t => simp [tagSymbol, tagCons]
  | persistent h => simp [BoxedTable.tagOf_of_entry h, tagBoxed, tagCons]

/-- A durable word and the one it is renewed to are alike, under all symbol tables. -/
theorem Durable.alike {table : BoxedTable} {word : Word} (h : Durable P table word)
    (left right : SymbolTable) :
    HostAlike left right (.renewal P table) word (table.renewWord P word) := by
  refine ⟨?_, h.tagOf_ne⟩
  have hself : tagOf word ≠ tagSymbol → tagOf word ≠ tagBoxed →
      Alike left right (.renewal P table) word (table.renewWord P word) := by
    intro hsymbol hboxed
    rw [BoxedTable.renewWord_of_tagOf_ne hboxed]
    exact .same hsymbol hboxed
  cases h with
  | fixnum h =>
      exact hself (by simp [h, tagFixnum, tagSymbol]) (by simp [h, tagFixnum, tagBoxed])
  | nil => exact hself (by simp [tagNil, tagSymbol]) (by simp [tagNil, tagBoxed])
  | t =>
      rw [BoxedTable.renewWord_of_tagOf_ne (by simp [tagSymbol, tagBoxed])]
      exact .symbol tagOf_symTWord tagOf_symTWord left.nameOf_symTWord right.nameOf_symTWord
  | persistent h => exact .boxed ⟨⟨_, h⟩, rfl⟩

/-- Every name is bound to a word that survives a call. -/
def Bindings.Durable (P : Platform) (table : BoxedTable) (bindings : Bindings) : Prop :=
  ∀ name word, bindings.value name = some word → LispHost.Durable P table word

/-- The session made anew: no symbol is interned, the persistent values have been wrapped
again, and the names are bound to their new words. -/
def Session.renew (P : Platform) (session : Session σ) : Session σ where
  primitives := session.primitives
  bindings := session.bindings.map fun binding =>
    (binding.1, session.boxed.renewWord P binding.2)
  symbols := .new
  boxed := session.boxed.renew

/-- What a name is bound to in a list of renamed bindings. -/
theorem Bindings.value_map (bindings : Bindings) (f : Word → Word) (name : String) :
    Bindings.value (bindings.map fun binding => (binding.1, f binding.2)) name =
      (bindings.value name).map f := by
  induction bindings with
  | nil => rfl
  | cons binding bindings ih =>
      obtain ⟨name', word⟩ := binding
      rw [Bindings.value, Bindings.value, List.map_cons, List.lookup_cons, List.lookup_cons]
      by_cases hname : name == name'
      · simp only [hname]
        rfl
      · simp only [hname]
        exact ih

/-- A session with durable bindings is like the one made anew. -/
theorem Session.renew_alike {R : Renaming → σ → σ → Prop} {session : Session σ}
    (hbindings : session.bindings.Durable P session.boxed)
    (hequivariant : session.primitives.Equivariant P R) {host host' : σ}
    (hhost : R (.renewal P session.boxed) host host') (arena : Arena) (calls : List HostCall) :
    Machine.AlikeAt P R calls [] (.renewal P session.boxed) ⟨arena, session, host, calls⟩
      (.init (session.renew P) host') where
  names := List.nil_subset _
  persistent h := h.1
  state :=
    { world :=
        { boxed := joins_renew P session.boxed
          bindings := fun name => by
            change Option.Rel _ (session.bindings.value name)
              (Bindings.value (session.bindings.map _) name)
            rw [Bindings.value_map]
            cases hname : session.bindings.value name with
            | none => exact .none
            | some word => exact .some ((hbindings name word hname).alike _ _)
          host := hhost }
      calls := ⟨[], [], (List.append_nil _).symm, rfl, .nil⟩ }
  primitives := rfl
  equivariant := hequivariant

/-- What is assumed of a session and its host: the primitives hand out no pairs and do not look
at ids and handle numbers, and names are bound to durable words, now and by every primitive. -/
structure Session.Isolated (P : Platform) (R : Renaming → σ → σ → Prop) (session : Session σ) :
    Prop where
  nonCons : session.primitives.NonCons
  equivariant : session.primitives.Equivariant P R
  keep : ∀ {name primitive}, session.primitives name = some primitive → ∀ args {world},
    world.bindings.Durable P world.boxed →
    (primitive.call args world).2.bindings.Durable P (primitive.call args world).2.boxed
  bindings : session.bindings.Durable P session.boxed

/-- **Bindings stay durable** through every call. -/
theorem Session.Isolated.wsmEvalString {R : Renaming → σ → σ → Prop} {m : Machine σ}
    (h : m.session.Isolated P R) (source : SourceArg) :
    (LispHost.wsmEvalString P source m).2.session.Isolated P R := by
  have hinvariant : WorldInvariant (fun world => world.bindings.Durable P world.boxed)
      m.session.primitives :=
    { grow := fun hworld hle name word hname => (hworld name word hname).mono hle
      clear := fun hworld name word hname => (hworld name word hname).clearTransient
      call := fun hname args _ hworld => h.keep hname args hworld }
  obtain ⟨hprimitives, hbindings⟩ := hinvariant.wsmEvalString (P := P) h.bindings source
  exact
    { nonCons := hprimitives ▸ h.nonCons
      equivariant := hprimitives ▸ h.equivariant
      keep := fun hname => h.keep (hprimitives ▸ hname)
      bindings := hbindings }

end Fresh

/-! ### Processes -/

/-- A process: its arena, its sessions, the host's state, and the record of the primitive
calls made so far. -/
structure Process (ι σ : Type) where
  arena : Arena
  sessions : ι → Session σ
  host : σ
  calls : List HostCall

namespace Process

variable {ι σ : Type} [DecidableEq ι] (P : Platform)

/-- What a call on the session runs on. -/
def machine (p : Process ι σ) (id : ι) : Machine σ := ⟨p.arena, p.sessions id, p.host, p.calls⟩

/-- What a call on the session leaves behind. -/
def store (p : Process ι σ) (id : ι) (m : Machine σ) : Process ι σ where
  arena := m.arena
  sessions := Function.update p.sessions id m.session
  host := m.host
  calls := m.calls

/-- The process after a call of `wsm_eval_string` on the session. -/
def evalString (p : Process ι σ) (id : ι) (source : SourceArg) : Process ι σ :=
  p.store id (wsmEvalString P source (p.machine id)).2

/-- The process after a sequence of calls on its sessions. -/
def after (history : List (ι × SourceArg)) (p : Process ι σ) : Process ι σ :=
  history.foldl (fun p call => p.evalString P call.1 call.2) p

/-- Every session of the process is isolated. -/
def Isolated (R : Renaming → σ → σ → Prop) (p : Process ι σ) : Prop :=
  ∀ id, (p.sessions id).Isolated P R

variable {P} {R : Renaming → σ → σ → Prop}

/-- A call of one session leaves all sessions isolated. -/
theorem Isolated.evalString {p : Process ι σ} (h : p.Isolated P R) (id : ι)
    (source : SourceArg) : (p.evalString P id source).Isolated P R := by
  intro id'
  change (Function.update p.sessions id _ id').Isolated P R
  by_cases hid : id' = id
  · subst hid
    rw [Function.update_self]
    exact (h id').wsmEvalString (m := p.machine id') source
  · rw [Function.update_of_ne hid]
    exact h id'

/-- Sessions stay isolated, whatever they evaluate. -/
theorem Isolated.after {p : Process ι σ} (h : p.Isolated P R)
    (history : List (ι × SourceArg)) : (p.after P history).Isolated P R := by
  induction history generalizing p with
  | nil => exact h
  | cons call history ih => exact ih (h.evalString call.1 call.2)

end Process

section Independence

variable {ι σ : Type} [DecidableEq ι] {P : Platform} {R : Renaming → σ → σ → Prop}

/-- **History and the other sessions are unobservable.** After any sequence of calls on the
sessions of a process, a call that does not end the process returns the text that it returns in
the session made anew, where the host's state may be renamed with the words; and it makes the
same host calls, up to a renaming of words. -/
theorem wsmEvalString_eq_renew {p : Process ι σ} (h : p.Isolated P R)
    (history : List (ι × SourceArg)) (id : ι) (source : SourceArg) {host' : σ}
    (hhost : R (.renewal P ((p.after P history).sessions id).boxed) (p.after P history).host host')
    (hreturns : ∀ r,
      (wsmEvalString P source ((p.after P history).machine id)).1 ≠ .abort r) :
    let run := wsmEvalString P source ((p.after P history).machine id)
    let fresh := wsmEvalString P source (.init (((p.after P history).sessions id).renew P) host')
    (∃ text, run.1 = .ok text ∧ fresh.1 = .ok text) ∧
      ∃ k, Renaming.renewal P ((p.after P history).sessions id).boxed ≤ k ∧
        List.Forall₂
          (HostCall.AlikeAt run.2.session.symbols fresh.2.session.symbols k)
          (run.2.calls.drop (p.after P history).calls.length) fresh.2.calls := by
  have hq := h.after history
  generalize p.after P history = q at hq hhost hreturns ⊢
  intro run fresh
  have hsession : (q.machine id).session.Isolated P R := hq id
  have halike : Machine.AlikeAt P R q.calls [] (.renewal P (q.sessions id).boxed)
      (q.machine id) (.init ((q.sessions id).renew P) host') :=
    Session.renew_alike hsession.bindings hsession.equivariant hhost q.arena q.calls
  have hbindings : (q.machine id).session.bindings.NonCons :=
    fun name word hname => (hsession.bindings name word hname).tagOf_ne
  have htext := (wsmEvalString_returns (P := P) hsession.nonCons hbindings source).resolve_right
    fun ⟨r, hr⟩ => hreturns r hr
  rcases callSim_alike.wsmEvalString halike source with ⟨r, hr, -⟩ | ⟨k, hk, hcalls, hsame⟩
  · exact absurd hr (hreturns r)
  · obtain ⟨text, htext⟩ := htext
    obtain ⟨new, new', hnew, hnew', halike⟩ := hcalls
    refine ⟨⟨text, htext, hsame.symm.trans htext⟩, k, hk, ?_⟩
    rw [show run.2.calls = q.calls ++ new from hnew, show fresh.2.calls = new' from hnew',
      List.drop_left]
    exact halike

/-- A session whose only binding is to a game handle, and whose only primitive does nothing. -/
theorem isolated_playerMachine (token : Word) :
    (playerMachine token).session.Isolated .standard fun _ => Eq := by
  have hf : ∀ {name primitive}, (playerMachine token).session.primitives name = some primitive →
      primitive = .returning (.ok wordNil) := by
    intro name primitive hname
    simp only [playerMachine, Machine.init, Primitives.single, Option.ite_none_right_eq_some,
      Option.some.injEq] at hname
    exact hname.2.symm
  exact
    { nonCons := .single "f" (by decide)
      equivariant :=
        { mono := fun _ h => h
          primitive := by
            intro name primitive hname left right k args args' world world' _ hworld
            rw [hf hname]
            exact .inr ⟨k, le_rfl, .ok ⟨.same (by decide) (by decide), by decide⟩, hworld⟩ }
      keep := by
        intro name primitive hname args world hworld
        rw [hf hname]
        exact hworld
      bindings := by
        intro name word hname
        have hmem := Bindings.mem_of_value hname
        obtain ⟨-, rfl⟩ : name = "player" ∧ word = 15 := by
          simpa [playerMachine, Machine.init] using hmem
        have hentry : (playerMachine token).session.boxed.entry .standard 15 =
            some ⟨.gameHandle token, .persistent⟩ := rfl
        exact .persistent hentry }

/-- Calls that fail in both sessions: a form with another one behind it, and a text that never
closes its string. -/
def failedCalls : List (Bool × SourceArg) :=
  [(false, .text "(g \"x\" 1) 2"), (true, .text "\"open")]

/-- Two sessions with a handle each, of which one uses it after calls that failed. -/
theorem wsmEvalString_eq_renew_player :
    let p : Process Bool Unit := ⟨ReaderState.new.arena, fun _ => (playerMachine 1).session, (), []⟩
    let q := p.after .standard failedCalls
    ∃ text, (wsmEvalString .standard (.text "(f player)") (q.machine true)).1 = .ok text ∧
      (wsmEvalString .standard (.text "(f player)")
        (.init ((q.sessions true).renew .standard) ())).1 = .ok text := by
  intro p q
  have hp : p.Isolated .standard fun _ => Eq := fun _ => isolated_playerMachine 1
  have hsession : (q.machine true).session = (playerMachine 1).session := rfl
  have htokens : tokenize "(f player)" = .ok [.open, .atom "f", .atom "player", .close] := by
    decide
  have hparses : Parses .form [.open, .atom "f", .atom "player", .close] _ [] :=
    .list (.item (.atom "f" _) (.item (.atom "player" _) (.close [])))
  have hreturn : (q.machine true).session.primitives.Return := by
    rw [hsession]
    exact .single "f" (by rintro ⟨⟩)
  have hroom : (q.machine true).reader.Room 4 := by
    rw [Machine.reader, hsession]
    exact ⟨by decide, by decide⟩
  have hisolated := isolated_playerMachine 1
  obtain ⟨result, hresult⟩ := wsmEvalString_returns_text (P := .standard)
    (hsession ▸ hisolated.nonCons)
    (fun name word hname => (hisolated.bindings name word (hsession ▸ hname)).tagOf_ne)
    hreturn htokens hparses hroom
  have hreturns : ∀ r,
      (wsmEvalString .standard (.text "(f player)") (q.machine true)).1 ≠ .abort r := by
    intro r hr
    rw [hresult] at hr
    cases hr
  have hhost : (p.after .standard failedCalls).host = () := Subsingleton.elim _ _
  exact (wsmEvalString_eq_renew hp failedCalls true (.text "(f player)") hhost hreturns).1

end Independence

end LispHost
