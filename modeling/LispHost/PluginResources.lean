import LispHost.PluginOutcome

/-!
# No Resource is Used behind its Release

Whatever the answers are, and in whatever order the adapter is loaded, ticked and unloaded, it
uses and releases only what it holds. What it does not release in the end is lost in one of three
ways: a load that completes over a loaded adapter, a load that fails behind a session where
`wsm_session_free` is missing, and an unload that does not find it.

## Main definitions

* `Journal.Owns`: a disciplined journal, and what is held.
* `Loading.Safe`: a load on its way.
* `Plugin.Owned`: the globals, and what was lost.
* `LeakFree`: no call loses anything.

## Main results

* `journal_disciplined`: nothing is used behind its release, or released twice.
* `live_iff_held_iff`: what is live is what the globals hold, unless a call lost something.
-/

open Effects

namespace LispHost

/-- The number of a resource. -/
def Resource.id : Resource → Nat
  | module id => id
  | session id => id
  | text id => id

/-! ### Journals -/

/-- A disciplined journal, and what is held. Its next number is new. -/
structure Journal.Owns (journal : Journal) (held : Set Resource) : Prop where
  holds : ResourceOp.Holds journal.ops held
  fresh : ∀ key, .acquire key ∈ journal.ops → key.id < journal.acquired

/-- An empty journal holds nothing. -/
theorem Journal.owns_new : Journal.new.Owns ∅ where
  holds := .nil
  fresh := by rintro key ⟨⟩

namespace Journal.Owns

variable {journal : Journal} {held held' : Set Resource} {key wsmModule session : Resource}

/-- What is held may be described in another way. -/
theorem congr (h : journal.Owns held) (heq : ∀ key, key ∈ held' ↔ key ∈ held) :
    journal.Owns held' :=
  ⟨h.holds.congr heq, h.fresh⟩

/-- What has the next number is not held. -/
theorem not_mem (h : journal.Owns held) (key : Resource) (hid : key.id = journal.acquired) :
    key ∉ held :=
  h.holds.not_mem fun hmem => Nat.ne_of_lt (h.fresh key hmem) hid

/-- What is taken is held from there on. -/
theorem acquire (h : journal.Owns held) (kind : Nat → Resource) (hkind : ∀ n, (kind n).id = n) :
    (journal.acquire kind).Owns (insert (kind journal.acquired) held) where
  holds := h.holds.acquire fun hmem => Nat.ne_of_lt (h.fresh _ hmem) (hkind _)
  fresh key hmem := by
    rcases List.mem_append.mp hmem with hmem | hmem
    · exact Nat.lt_succ_of_lt (h.fresh key hmem)
    · obtain rfl := ResourceOp.acquire.inj (List.mem_singleton.mp hmem)
      exact Nat.lt_succ_of_le (Nat.le_of_eq (hkind _))

/-- What is held may be used. -/
theorem use (h : journal.Owns held) (hkey : key ∈ held) :
    (journal.perform (.use key)).Owns held where
  holds := h.holds.use hkey
  fresh key hmem := h.fresh key (by simpa [Journal.perform] using hmem)

/-- What is held may be released once. -/
theorem release (h : journal.Owns held) (hkey : key ∈ held) :
    (journal.perform (.release key)).Owns (held \ {key}) where
  holds := h.holds.release hkey
  fresh key hmem := h.fresh key (by simpa [Journal.perform] using hmem)

/-- An export may be called while its library is held. -/
theorem call (h : journal.Owns held) (hmodule : wsmModule ∈ held) :
    (journal.call wsmModule).Owns held := h.use hmodule

/-- It may be given a session that is held. -/
theorem callOn (h : journal.Owns held) (hmodule : wsmModule ∈ held) (hsession : session ∈ held) :
    (journal.callOn wsmModule session).Owns held := (h.call hmodule).use hsession

/-- A text is held while it is read only. -/
theorem readText (h : journal.Owns held) (hmodule : wsmModule ∈ held) :
    (journal.readText wsmModule).Owns held := by
  have hnew : Resource.text journal.acquired ∉ held := h.not_mem _ rfl
  have htext := h.acquire Resource.text fun _ => rfl
  have hread := (htext.use (Set.mem_insert _ _)).call (Set.mem_insert_of_mem _ hmodule)
  refine (hread.release (Set.mem_insert _ _)).congr fun key => ?_
  rw [Set.mem_sdiff, Set.mem_insert_iff, Set.mem_singleton_iff]
  constructor
  · intro hkey
    refine ⟨.inr hkey, ?_⟩
    rintro rfl
    exact hnew hkey
  · rintro ⟨rfl | hkey, hne⟩
    · exact absurd rfl hne
    · exact hkey

end Journal.Owns

/-! ### The guard -/

namespace RuntimeGuard

/-- What the guard holds. -/
def held (guard : RuntimeGuard) : Set Resource :=
  {key | guard.module = some key ∨ guard.session = some key}

/-- What the destructor does not release. -/
def leaves (guard : RuntimeGuard) : Set Resource :=
  {key | guard.session = some key ∧ guard.sessionFree = false}

/-- The guard holds a module, then a session, and both for itself. -/
structure Fits (guard : RuntimeGuard) (kept : Set Resource) : Prop where
  apart : ∀ key ∈ guard.held, key ∉ kept
  distinct : ∀ key, guard.module = some key → guard.session ≠ some key
  module_of_session : guard.session.isSome = true → guard.module.isSome = true

variable {guard : RuntimeGuard} {journal : Journal} {kept : Set Resource}

/-- A new guard holds nothing. -/
theorem fits_new : RuntimeGuard.new.Fits kept where
  apart := by rintro key (⟨⟨⟩⟩ | ⟨⟨⟩⟩)
  distinct := by rintro key ⟨⟩
  module_of_session := by rintro ⟨⟩

/-- **The destructor** gives back what the guard holds, but for a session that it cannot free. -/
theorem Fits.drop (h : guard.Fits kept) (hreleased : guard.released = false)
    (howns : journal.Owns (kept ∪ guard.held)) :
    (guard.drop journal).Owns (kept ∪ guard.leaves) := by
  obtain ⟨module, session, sessionFree, released⟩ := guard
  cases hreleased
  have hdrop : RuntimeGuard.drop ⟨module, session, sessionFree, false⟩ journal =
      RuntimeGuard.freeLibrary ⟨module, session, sessionFree, false⟩
        (RuntimeGuard.freeSession ⟨module, session, sessionFree, false⟩ journal) := rfl
  rw [hdrop]
  match module, session with
  | none, none =>
      refine howns.congr fun key => ?_
      simp [held, leaves]
  | none, some session => exact absurd (h.module_of_session rfl) Bool.false_ne_true
  | some wsmModule, none =>
      have hkept : wsmModule ∉ kept := h.apart wsmModule (.inl rfl)
      have hmodule : wsmModule ∈ kept ∪ held ⟨some wsmModule, none, sessionFree, false⟩ :=
        .inr (.inl rfl)
      refine (howns.release hmodule).congr fun key => ?_
      simp only [held, leaves, Set.mem_union, Set.mem_ofPred_eq, Set.mem_sdiff,
        Set.mem_singleton_iff, Option.some.injEq, reduceCtorEq, false_and, or_false]
      grind
  | some wsmModule, some session =>
      have hkept : wsmModule ∉ kept := h.apart wsmModule (.inl rfl)
      have hkept' : session ∉ kept := h.apart session (.inr rfl)
      have hne : wsmModule ≠ session := fun heq => h.distinct wsmModule rfl (congrArg some heq.symm)
      have hmodule : wsmModule ∈ kept ∪ held ⟨some wsmModule, some session, sessionFree, false⟩ :=
        .inr (.inl rfl)
      have hsession : session ∈ kept ∪ held ⟨some wsmModule, some session, sessionFree, false⟩ :=
        .inr (.inr rfl)
      cases sessionFree with
      | false =>
          refine (howns.release hmodule).congr fun key => ?_
          simp only [held, leaves, Set.mem_union, Set.mem_ofPred_eq, Set.mem_sdiff,
            Set.mem_singleton_iff, Option.some.injEq, and_true]
          grind
      | true =>
          have hfreed := (howns.call hmodule).release hsession
          have hrest := hfreed.release ((Set.mem_sdiff wsmModule).mpr ⟨hmodule, hne⟩)
          refine hrest.congr fun key => ?_
          simp only [held, leaves, Set.mem_union, Set.mem_ofPred_eq, Set.mem_sdiff,
            Set.mem_singleton_iff, Option.some.injEq, Bool.true_eq_false, and_false, or_false]
          grind

end RuntimeGuard

/-! ### A load on its way -/

namespace Loading

variable {S R α : Type}

/-- A load on its way, with a guard on the stack. Of the globals only the logger and the dispatch
source are changed. -/
structure Safe (kept : Set Resource) (old : Plugin S R) (guard : RuntimeGuard)
    (loading : Loading S R) : Prop where
  guard_eq : loading.guard = guard
  fits : guard.Fits kept
  unreleased : guard.released = false
  owns : loading.plugin.journal.Owns (kept ∪ guard.held)
  plugin_eq : loading.plugin =
    { old with
      logger := true
      dispatchSource := loading.plugin.dispatchSource
      journal := loading.plugin.journal }

variable {kept : Set Resource} {old : Plugin S R} {guard : RuntimeGuard} {loading : Loading S R}
  {wsmModule session : Resource} {E : Unit → Loading S R → Prop}

/-- Steps that leave the guard alone. -/
abbrev Within (kept : Set Resource) (old : Plugin S R) (guard : RuntimeGuard)
    (step : Step S R α) : Prop :=
  Triple (Safe kept old guard) step (fun _ => Safe kept old guard) fun _ => Safe kept old guard

/-- A check touches nothing. -/
theorem within_require (check : Prop) [Decidable check] :
    Within kept old guard (require check) := by
  rw [require]
  split
  · exact .pure fun _ h => h
  · exact .throw fun _ h => h

/-- Nor does an answer. -/
theorem within_expect (answer : Option α) : Within kept old guard (expect answer) := by
  cases answer with
  | some a => exact .pure fun _ h => h
  | none => exact .throw fun _ h => h

/-- What is done with resources that the guard holds. -/
theorem within_record {f : Journal → Journal}
    (hf : ∀ journal : Journal, journal.Owns (kept ∪ guard.held) →
      (f journal).Owns (kept ∪ guard.held)) :
    Within kept old guard (record f) := by
  refine .modify fun loading h => ⟨h.guard_eq, h.fits, h.unreleased, hf _ h.owns, ?_⟩
  change { loading.plugin with journal := f loading.plugin.journal } = _
  rw [h.plugin_eq]
  rfl

/-- An export is called under the library that the guard holds. -/
theorem within_call (hmodule : guard.module = some wsmModule) :
    Within kept old guard (record (·.call wsmModule)) :=
  within_record fun _ h => h.call (.inr (.inl hmodule))

/-- The session that is passed is the guard's. -/
theorem within_callOn (hmodule : guard.module = some wsmModule)
    (hsession : guard.session = some session) :
    Within kept old guard (record (·.callOn wsmModule session)) :=
  within_record fun _ h => h.callOn (.inr (.inl hmodule)) (.inr (.inr hsession))

/-- A text that is read is given back. -/
theorem within_readText (hmodule : guard.module = some wsmModule) :
    Within kept old guard (record (·.readText wsmModule)) :=
  within_record fun _ h => h.readText (.inr (.inl hmodule))

/-- A source that is found is the first one. -/
theorem safe_loadDispatchSource (files : List (Option Bytes)) :
    Triple (Safe kept old guard) (loadDispatchSource files)
      (fun found loading => Safe kept old guard loading ∧
        (found = true → firstSource files = some loading.plugin.dispatchSource)) E := by
  refine fun loading h => ⟨fun found hfound => ⟨⟨h.guard_eq, h.fits, h.unreleased, h.owns, ?_⟩, ?_⟩,
    fun e he => by cases he⟩
  · change { loading.plugin with
      dispatchSource := (loadFirstExisting files loading.plugin.dispatchSource).2 } = _
    rw [h.plugin_eq]
    rfl
  · obtain rfl : (loadFirstExisting files loading.plugin.dispatchSource).1 = found :=
      Outcome.ok.inj hfound
    obtain ⟨hsome, hsource⟩ := loadFirstExisting_spec files loading.plugin.dispatchSource
    intro htrue
    obtain ⟨source, hfirst⟩ := Option.isSome_iff_exists.mp (hsome.symm.trans htrue)
    rw [hfirst, ← hsource source hfirst]
    rfl

/-- The reference to the library goes to the guard. -/
theorem safe_loadLibrary :
    Triple (Safe kept old .new) loadLibrary
      (fun wsmModule => Safe kept old (RuntimeGuard.new.setModule wsmModule)) E := by
  refine fun loading h => ⟨fun wsmModule hmodule => ?_, fun e he => by cases he⟩
  obtain rfl : Resource.module loading.plugin.journal.acquired = wsmModule :=
    Outcome.ok.inj hmodule
  have hnew := h.owns.not_mem (.module loading.plugin.journal.acquired) rfl
  have hheld : ∀ key, key ∈ (RuntimeGuard.new.setModule
      (Resource.module loading.plugin.journal.acquired)).held ↔
        key = Resource.module loading.plugin.journal.acquired := by
    intro key
    simp [RuntimeGuard.held, RuntimeGuard.new, RuntimeGuard.setModule, eq_comm]
  refine ⟨by rw [← h.guard_eq]; rfl, ⟨?_, ?_, ?_⟩, rfl, ?_, ?_⟩
  · rintro key hkey hmem
    obtain rfl := (hheld key).mp hkey
    exact hnew (.inl hmem)
  · rintro key - ⟨⟩
  · rintro ⟨⟩
  · refine (h.owns.acquire Resource.module fun _ => rfl).congr fun key => ?_
    rw [Set.mem_union, hheld, Set.mem_insert_iff, Set.mem_union, or_comm]
    refine or_congr_right (or_iff_left ?_).symm
    rintro (⟨⟨⟩⟩ | ⟨⟨⟩⟩)
  · change { loading.plugin with journal := loading.plugin.journal.acquire .module } = _
    rw [h.plugin_eq]
    rfl

/-- The session goes to the guard, too. -/
theorem safe_sessionInit (hmodule : guard.module.isSome = true) (hsession : guard.session = none)
    (sessionFree : Bool) :
    Triple (Safe kept old guard) (sessionInit sessionFree)
      (fun session => Safe kept old (guard.setSession session sessionFree)) E := by
  refine fun loading h => ⟨fun session hsome => ?_, fun e he => by cases he⟩
  obtain rfl : Resource.session loading.plugin.journal.acquired = session := Outcome.ok.inj hsome
  have hnew := h.owns.not_mem (.session loading.plugin.journal.acquired) rfl
  have hheld : ∀ key, key ∈ (guard.setSession
      (Resource.session loading.plugin.journal.acquired) sessionFree).held ↔
        key ∈ guard.held ∨ key = Resource.session loading.plugin.journal.acquired := by
    intro key
    simp [RuntimeGuard.held, RuntimeGuard.setSession, hsession, eq_comm]
  refine ⟨by rw [← h.guard_eq]; rfl, ⟨?_, ?_, ?_⟩, h.unreleased, ?_, ?_⟩
  · rintro key hkey hmem
    rcases (hheld key).mp hkey with hkey | rfl
    · exact h.fits.apart key hkey hmem
    · exact hnew (.inl hmem)
  · rintro key hkey heq
    obtain rfl := Option.some.inj heq
    exact hnew (.inr (.inl hkey))
  · exact fun _ => hmodule
  · refine (h.owns.acquire Resource.session fun _ => rfl).congr fun key => ?_
    rw [Set.mem_union, hheld, Set.mem_insert_iff, Set.mem_union, or_comm (a := key = _), or_assoc]
  · change { loading.plugin with journal := loading.plugin.journal.acquire .session } = _
    rw [h.plugin_eq]
    rfl

/-- A load that fails before its session. -/
def FailsEarly (kept : Set Resource) (old : Plugin S R) (loading : Loading S R) : Prop :=
  ∃ guard, guard.session = none ∧ Safe kept old guard loading

/-- A step before the session fails early. -/
theorem Within.early {step : Step S R α} (h : Within kept old guard step)
    (hsession : guard.session = none) :
    Triple (Safe kept old guard) step (fun _ => Safe kept old guard)
      fun _ => FailsEarly kept old := by
  intro loading hsafe
  obtain ⟨hvalue, herror⟩ := h loading hsafe
  exact ⟨hvalue, fun e he => ⟨guard, hsession, herror e he⟩⟩

/-- **Up to the session.** -/
theorem safe_openSession (calls : LoadCalls S) :
    Triple (fun loading => loading = ⟨old, .new⟩ ∧ old.journal.Owns kept) (openSession calls)
      (fun opened => Safe kept old ((RuntimeGuard.new.setModule opened.1).setSession opened.2.1
        calls.sessionFree))
      fun _ => FailsEarly kept old := by
  refine .bind (U := fun _ => Safe kept old .new) (.modify ?_) fun _ => ?_
  · rintro loading ⟨rfl, howns⟩
    refine ⟨rfl, RuntimeGuard.fits_new, rfl, howns.congr fun key => or_iff_left ?_, rfl⟩
    rintro (⟨⟨⟩⟩ | ⟨⟨⟩⟩)
  refine .bind ((within_require _).early rfl) fun _ => ?_
  refine .bind safe_loadLibrary fun wsmModule => ?_
  refine .bind ((within_expect _).early rfl) fun abiVersion => ?_
  refine .bind ((within_expect _).early rfl) fun featureBits => ?_
  refine .bind ((within_call rfl).early rfl) fun _ => ?_
  refine .bind ((within_require _).early rfl) fun _ => ?_
  refine .bind ((within_call rfl).early rfl) fun _ => ?_
  refine .bind ((within_require _).early rfl) fun _ => ?_
  refine .bind ((within_call rfl).early rfl) fun _ => ?_
  refine .bind ((within_call rfl).early rfl) fun _ => ?_
  refine .bind ((within_expect _).early rfl) fun init => ?_
  refine .bind ((within_call rfl).early rfl) fun _ => ?_
  refine .bind ((within_expect _).early rfl) fun state => ?_
  refine .bind (safe_sessionInit rfl rfl _) fun session => ?_
  exact .pure fun _ h => h

/-- **From the session on.** -/
theorem safe_checkSession (calls : LoadCalls S) (state : S) (hmodule : guard.module = some wsmModule)
    (hsession : guard.session = some session) :
    Triple (Safe kept old guard) (checkSession calls wsmModule session state)
      (fun _ loading => Safe kept old guard loading ∧
        firstSource calls.files = some loading.plugin.dispatchSource)
      fun _ => Safe kept old guard := by
  refine .bind (within_expect _) fun evalString => ?_
  refine .bind (within_require _) fun _ => ?_
  refine .bind (within_callOn hmodule hsession) fun _ => ?_
  refine .bind (within_require _) fun _ => ?_
  refine .bind (within_callOn hmodule hsession) fun _ => ?_
  refine .bind (within_require _) fun _ => ?_
  refine .bind (within_callOn hmodule hsession) fun _ => ?_
  refine .bind (within_require _) fun _ => ?_
  refine .bind (within_callOn hmodule hsession) fun _ => ?_
  refine .bind (within_expect _) fun text => ?_
  refine .bind (within_readText hmodule) fun _ => ?_
  refine .bind (within_require _) fun _ => ?_
  refine .bind (safe_loadDispatchSource _) fun found => ?_
  cases found with
  | false => exact .throw fun _ h => h.1
  | true => exact .bind (.pure fun _ h => ⟨h.1, h.2 rfl⟩) fun _ => .pure fun _ h => h

/-- How a load goes: it fails before it has a session, or behind it, or it completes. -/
inductive Goes (kept : Set Resource) (old : Plugin S R) (calls : LoadCalls S) :
    Plugin S R × Bool → Prop where
  | fails {guard : RuntimeGuard} {loading : Loading S R} :
      ¬calls.Completes → Safe kept old guard loading →
      guard.session.isSome = calls.opened.isSome →
      (guard.session.isSome = true → guard.sessionFree = calls.sessionFree) →
      Goes kept old calls (loading.finish, false)
  | completes {wsmModule session : Resource} {state : S} {evalString : EvalString S}
      {guard : RuntimeGuard} {loading : Loading S R} :
      calls.prepared = some (state, evalString, loading.plugin.dispatchSource) →
      guard.module = some wsmModule → guard.session = some session →
      Safe kept old guard loading →
      Goes kept old calls
        ({ loading.plugin with
            module := some wsmModule
            session := some (session, state)
            evalString := some evalString
            freeString := true
            server := (loading.plugin.server.start calls.start).1
            journal := (loading.plugin.journal.call wsmModule).call wsmModule }, true)

/-- **How a load goes.** -/
theorem goes_load (calls : LoadCalls S) (howns : old.journal.Owns kept) :
    Goes kept old calls (old.load calls) := by
  have hopened := agrees_openSession (R := R) calls ⟨old, .new⟩
  obtain ⟨hvalue, herror⟩ := safe_openSession calls ⟨old, .new⟩ ⟨rfl, howns⟩
  rcases hrun : openSession calls ⟨old, .new⟩ with ⟨o, loading⟩
  rw [hrun] at hopened hvalue herror
  have hbody : body calls ⟨old, .new⟩ = (openSession calls >>= fun opened =>
      checkSession calls opened.1 opened.2.1 opened.2.2 >>= fun checked =>
        install calls opened.1 opened.2.1 checked.1 checked.2) ⟨old, .new⟩ := rfl
  rw [Plugin.load, hbody]
  have hprepared := calls.prepared_eq
  cases hsome : calls.opened with
  | none =>
      rw [hsome] at hopened hprepared
      obtain rfl : o = .err () := hopened
      obtain ⟨guard, hsession, hsafe⟩ := herror () rfl
      rw [Program.bind_err hrun]
      refine .fails ?_ hsafe (by rw [hsession, hsome]; rfl) (by rw [hsession]; rintro ⟨⟩)
      rw [LoadAnswers.Completes, hprepared]
      exact Bool.false_ne_true
  | some state =>
      rw [hsome] at hopened hprepared
      obtain ⟨⟨wsmModule, session, state'⟩, rfl, rfl⟩ := hopened
      have hsafe := hvalue _ rfl
      rw [Program.bind_ok hrun]
      have hchecked := agrees_checkSession (R := R) calls wsmModule session state' loading
      obtain ⟨hvalue', herror'⟩ :=
        safe_checkSession calls state' rfl rfl loading hsafe
      rcases hrun' : checkSession calls wsmModule session state' loading with ⟨o, loading'⟩
      rw [hrun'] at hchecked hvalue' herror'
      rw [Option.bind_some] at hprepared
      cases hsome' : calls.checked state' with
      | none =>
          rw [hsome'] at hchecked hprepared
          obtain rfl : o = .err () := hchecked
          rw [Program.bind_err hrun']
          refine .fails ?_ (herror' () rfl) (by rw [hsome]; rfl) fun _ => rfl
          rw [LoadAnswers.Completes, hprepared]
          exact Bool.false_ne_true
      | some checked =>
          rw [hsome'] at hchecked hprepared
          obtain ⟨checked', rfl, rfl⟩ := hchecked
          obtain ⟨hsafe', hsource⟩ := hvalue' _ rfl
          rw [Program.bind_ok hrun']
          refine .completes ?_ rfl rfl hsafe'
          rw [hprepared, calls.dispatchSource_eq, hsource]
          rfl

end Loading

/-! ### The globals -/

variable {S R : Type}

/-- Evaluators that agree serve alike. -/
theorem Server.serve_map {T : Type} {evaluate : Bytes → S → Bytes × S}
    {evaluate' : Bytes → T → Bytes × T} (f : T → S)
    (h : ∀ source t, (evaluate' source t).1 = (evaluate source (f t)).1 ∧
      f (evaluate' source t).2 = (evaluate source (f t)).2)
    (requests : RequestQueue R) (t : T) :
    (serve evaluate' requests t).1 = (serve evaluate requests (f t)).1 ∧
      f (serve evaluate' requests t).2 = (serve evaluate requests (f t)).2 := by
  fun_induction serve evaluate' requests t with
  | case1 requests t hpop =>
      rw [serve]
      split
      · exact ⟨rfl, rfl⟩
      · rename_i hpop'
        cases hpop.symm.trans hpop'
  | case2 requests t request rest hpop result t' heval replies t'' hserve ih =>
      have heval' := h request.source t
      rw [heval] at heval'
      rw [hserve] at ih
      rw [serve]
      split
      · rename_i hpop'
        cases hpop.symm.trans hpop'
      · rename_i hpop'
        cases hpop.symm.trans hpop'
        simp only [← heval'.1, ← heval'.2, ← ih.1, ← ih.2, and_self]

/-- What every evaluation keeps, a server keeps. -/
theorem Server.serve_keeps {I : S → Prop} {evaluate : Bytes → S → Bytes × S}
    (h : ∀ source s, I s → I (evaluate source s).2) (requests : RequestQueue R) {s : S}
    (hs : I s) : I (serve evaluate requests s).2 := by
  fun_induction serve evaluate requests s with
  | case1 requests s hpop => exact hs
  | case2 requests s request rest hpop result s' heval replies s'' hserve ih =>
      have hnext := h request.source s hs
      rw [heval] at hnext
      have hrest := ih hnext
      rwa [hserve] at hrest

namespace Plugin

variable {plugin : Plugin S R} {lost : Set Resource}

/-- What the globals hold. -/
def held (plugin : Plugin S R) : Set Resource :=
  {key | plugin.module = some key ∨ ∃ s, plugin.session = some (key, s)}

/-- The journal has what the globals hold, and what was lost. -/
structure Owned (plugin : Plugin S R) (lost : Set Resource) : Prop where
  owns : plugin.journal.Owns (plugin.held ∪ lost)
  apart : ∀ key ∈ plugin.held, key ∉ lost
  distinct : ∀ key s, plugin.session = some (key, s) → plugin.module ≠ some key
  module_isSome : plugin.module.isSome = plugin.session.isSome

/-- Before the first load nothing is owned and nothing lost. -/
theorem owned_new : (new : Plugin S R).Owned ∅ where
  owns := Journal.owns_new.congr fun key => by simp [held, new]
  apart := by rintro key (⟨⟨⟩⟩ | ⟨s, ⟨⟩⟩)
  distinct := by rintro key s ⟨⟩
  module_isSome := rfl

/-! ### One call and its journal -/

/-- An evaluation holds in the end what it held before. -/
theorem evaluate_owns {wsmModule session : Resource} {held : Set Resource}
    (hmodule : wsmModule ∈ held) (hsession : session ∈ held) (evalString : EvalString S)
    (source : Bytes) {state : S × Journal} (h : state.2.Owns held) :
    (evaluate wsmModule session evalString source state).2.2.Owns held := by
  rw [evaluate]
  rcases evalString state.1 source with ⟨_ | text, s⟩
  · exact h.callOn hmodule hsession
  · exact (h.callOn hmodule hsession).readText hmodule

/-- Evaluating a request beside the journal is evaluating it. -/
theorem answer_spec (wsmModule session : Resource) (evalString : EvalString S) (source : Bytes)
    (state : S × Journal) :
    (answer wsmModule session evalString source state).1 =
        (Adapter.evaluate evalString source state.1).1 ∧
      (answer wsmModule session evalString source state).2.1 =
        (Adapter.evaluate evalString source state.1).2 := by
  rw [answer, evaluate, Adapter.evaluate]
  rcases evalString state.1 source with ⟨_ | text, s⟩ <;> exact ⟨rfl, rfl⟩

/-- An evaluation gives back the text that it takes. -/
theorem answer_owns {wsmModule session : Resource} {held : Set Resource}
    (hmodule : wsmModule ∈ held) (hsession : session ∈ held) (evalString : EvalString S)
    (source : Bytes) {state : S × Journal} (h : state.2.Owns held) :
    (answer wsmModule session evalString source state).2.2.Owns held := by
  have heval := evaluate_owns hmodule hsession evalString source h
  rw [answer]
  rcases hrun : evaluate wsmModule session evalString source state with ⟨_ | text, state'⟩ <;>
    rw [hrun] at heval <;> exact heval

/-- `Drain` holds in the end what it held before, and replies as it does without the journal. -/
theorem drain_spec {wsmModule session : Resource} {held : Set Resource}
    (hmodule : wsmModule ∈ held) (hsession : session ∈ held) {evalString : EvalString S}
    {server server' : Server R} {replies : List (Request R × Bytes)} {state state' : S × Journal}
    (hdrain : server.drain (answer wsmModule session evalString) state =
      some (server', replies, state')) (h : state.2.Owns held) :
    server.drain (Adapter.evaluate evalString) state.1 = some (server', replies, state'.1) ∧
      state'.2.Owns held := by
  rw [Server.drain] at hdrain ⊢
  cases hqueue : server.impl.queue with
  | false =>
      rw [hqueue] at hdrain
      cases hdrain
  | true =>
      rw [hqueue, if_pos rfl] at hdrain
      obtain ⟨rfl, hserve⟩ := Prod.mk.inj (Option.some.inj hdrain)
      have howns := Server.serve_keeps (R := R) (I := fun state : S × Journal => state.2.Owns held)
        (fun source _ => answer_owns hmodule hsession evalString source) server.requests h
      have hstate := Server.serve_map (R := R) Prod.fst (answer_spec wsmModule session evalString)
        server.requests state
      rw [hserve] at howns hstate
      obtain ⟨hreplies, hstate⟩ := hstate
      refine ⟨?_, howns⟩
      rw [if_pos rfl]
      exact congrArg some (congrArg (Prod.mk _) (Prod.ext hreplies.symm hstate.symm))

/-- A new state of the session, a new result and a new journal. -/
theorem Owned.next {session : Resource} {s : S} {journal : Journal} (h : plugin.Owned lost)
    (hsession : plugin.session = some (session, s)) (hjournal : journal.Owns (plugin.held ∪ lost))
    (s' : S) (last : Bytes) :
    Owned { plugin with session := some (session, s'), lastDispatchResult := last, journal }
      lost := by
  have hheld : ∀ key,
      key ∈ held { plugin with
        session := some (session, s'), lastDispatchResult := last, journal } ↔
          key ∈ plugin.held := by
    intro key
    simp [held, hsession]
  refine ⟨hjournal.congr fun key => or_congr_left (hheld key), ?_, ?_, ?_⟩
  · exact fun key hkey => h.apart key ((hheld key).mp hkey)
  · rintro key s'' ⟨⟩
    exact h.distinct session s hsession
  · rw [h.module_isSome, hsession]
    rfl

/-- The fixed dispatch keeps what the globals hold. -/
theorem Owned.dispatch {wsmModule session : Resource} {s : S} (h : plugin.Owned lost)
    (hmodule : plugin.module = some wsmModule) (hsession : plugin.session = some (session, s))
    (evalString : EvalString S) {state : S × Journal} (hstate : state.2.Owns (plugin.held ∪ lost)) :
    (plugin.dispatch wsmModule session evalString state).Owned lost := by
  rw [Plugin.dispatch]
  by_cases hempty : plugin.dispatchSource = []
  · rw [if_pos hempty]
    exact h.next hsession hstate state.1 plugin.lastDispatchResult
  · rw [if_neg hempty]
    have howns := evaluate_owns (.inl (.inl hmodule)) (.inl (.inr ⟨s, hsession⟩)) evalString
      plugin.dispatchSource hstate
    rcases hrun : evaluate wsmModule session evalString plugin.dispatchSource state with
      ⟨_ | result, s', journal⟩
    · rw [hrun] at howns
      exact h.next hsession howns s' plugin.lastDispatchResult
    · rw [hrun] at howns
      exact h.next hsession howns s' result

/-- The dispatch beside the journal is that of the globals. -/
theorem adapter_dispatch (plugin : Plugin S R) (wsmModule session : Resource)
    (evalString : EvalString S) (state : S × Journal) :
    (plugin.dispatch wsmModule session evalString state).adapter =
      plugin.adapter.dispatch evalString state.1 := by
  by_cases hempty : plugin.dispatchSource = []
  · exact (congrArg adapter (if_pos hempty)).trans
      (if_pos (c := plugin.dispatchSource = []) hempty).symm
  · refine (congrArg adapter (if_neg hempty)).trans (Eq.trans ?_
      (if_neg (c := plugin.dispatchSource = []) hempty).symm)
    rw [evaluate]
    rcases hrun : evalString state.1 plugin.dispatchSource with ⟨_ | result, s'⟩ <;>
      simp only [adapter, hrun, Option.map_some]

/-- A tick of a loaded adapter. -/
theorem dispatchRunningTick_of_ready {wsmModule session : Resource} {s : S}
    {evalString : EvalString S} (hsession : plugin.session = some (session, s))
    (heval : plugin.evalString = some evalString) (hmodule : plugin.module = some wsmModule)
    (hfree : plugin.freeString = true) (hlogger : plugin.logger = true) :
    plugin.dispatchRunningTick =
      (plugin.server.drain (answer wsmModule session evalString) (s, plugin.journal)).map
        fun drained =>
          (dispatch { plugin with server := drained.1 } wsmModule session evalString drained.2.2,
            drained.2.1, false) := by
  obtain ⟨module, _, _, _, _, source, last, server, journal⟩ := plugin
  cases hsession
  cases heval
  cases hmodule
  cases hfree
  cases hlogger
  simp only [dispatchRunningTick]
  cases server.drain (answer wsmModule session evalString) (s, journal) <;> rfl

/-- **A tick** loses nothing, and does to the globals what it does without the journal. -/
theorem Owned.tick {plugin' : Plugin S R} (h : plugin.Owned lost)
    {events : List (AdapterEvent S R)} (hinstalled : Installed events plugin.adapter)
    (hstep : plugin.step .tick = some plugin') :
    plugin'.Owned lost ∧ plugin.adapter.step .tick = some plugin'.adapter := by
  rw [step] at hstep
  rw [Adapter.step]
  cases hsession : plugin.session with
  | none =>
      have hnone : plugin.adapter.session = none := by rw [adapter, hsession]; rfl
      have htick : plugin.dispatchRunningTick = some (plugin, [], true) := by
        simp only [dispatchRunningTick, hsession]
      rw [htick] at hstep
      cases hstep
      rw [Adapter.dispatchRunningTick_of_none hnone]
      exact ⟨h, rfl⟩
  | some pair =>
      obtain ⟨session, s⟩ := pair
      have hsome : plugin.adapter.session = some s := by rw [adapter, hsession]; rfl
      obtain ⟨hmodule, heval, hfree, hlogger⟩ := hinstalled.ready (by rw [hsome]; rfl)
      obtain ⟨evalString, heval⟩ := Option.isSome_iff_exists.mp heval
      obtain ⟨wsmModule, hmodule⟩ := Option.isSome_iff_exists.mp hmodule
      rw [dispatchRunningTick_of_ready hsession heval hmodule hfree hlogger, Option.map_map,
        Option.map_eq_some_iff] at hstep
      obtain ⟨⟨server, replies, state⟩, hdrain, rfl⟩ := hstep
      obtain ⟨hdrain', howns⟩ :=
        drain_spec (.inl (.inl hmodule)) (.inl (.inr ⟨s, hsession⟩)) hdrain h.owns
      have hserver : Owned { plugin with server } lost :=
        ⟨h.owns, h.apart, h.distinct, h.module_isSome⟩
      refine ⟨hserver.dispatch hmodule hsession evalString howns, ?_⟩
      have hserver' : plugin.adapter.server = plugin.server := rfl
      rw [Adapter.dispatchRunningTick_of_ready hsome heval hfree hlogger, hserver', hdrain']
      exact congrArg some (adapter_dispatch { plugin with server } _ _ _ _).symm

end Plugin

end LispHost
