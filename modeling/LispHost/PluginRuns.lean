import LispHost.PluginResources
import Mathlib.Data.List.Induction

/-!
# What the Adapter Leaks

Over any number of loads, ticks and unloads the journal stays disciplined, and what is live is
what the globals hold and what was lost. Three kinds of calls lose something, and no call finds
again what was lost.

## Main definitions

* `PluginEvent.Leaks`, `LeakFree`: the calls that lose something, and runs without them.

## Main results

* `journal_disciplined`: nothing is used behind its release, or released twice.
* `live_iff_held_iff`: what is live is what the globals hold, unless a call lost something.
-/

open Effects

namespace LispHost

variable {S R : Type}

/-- The calls that lose something: a load that completes over a loaded adapter, a load that fails
with a session that it cannot free, and an unload that cannot free the session. -/
def PluginEvent.Leaks (past : List (AdapterEvent S R)) : PluginEvent S R → Prop
  | load calls => (calls.Completes ∧ Loaded past) ∨
      (¬calls.Completes ∧ calls.opened.isSome = true ∧ calls.sessionFree = false)
  | unload sessionFree => Loaded past ∧ sessionFree = false
  | tick => False
  | request _ _ => False

/-- The calls since the last unload. -/
def loadedPast (events : List (PluginEvent S R)) : List (AdapterEvent S R) :=
  sinceUnload (events.map PluginEvent.adapterEvent)

/-- No call loses anything. -/
def LeakFree (events : List (PluginEvent S R)) : Prop :=
  ∀ before event after, events = before ++ event :: after → ¬event.Leaks (loadedPast before)

/-- The calls since the last unload, with one more call. -/
theorem loadedPast_snoc (events : List (PluginEvent S R)) (event : PluginEvent S R) :
    loadedPast (events ++ [event]) = event.adapterEvent.since (loadedPast events) := by
  rw [loadedPast, List.map_append]
  exact sinceUnload_snoc _ _

/-- Without calls nothing leaks. -/
theorem leakFree_nil : LeakFree ([] : List (PluginEvent S R)) := by
  intro before event after h
  cases before <;> cases h

/-- A run leaks nothing if its calls do not, up to the last. -/
theorem leakFree_snoc {events : List (PluginEvent S R)} {event : PluginEvent S R} :
    LeakFree (events ++ [event]) ↔ LeakFree events ∧ ¬event.Leaks (loadedPast events) := by
  constructor
  · intro h
    constructor
    · rintro before event' after rfl
      exact h before event' (after ++ [event]) (by simp)
    · exact h events event [] rfl
  · rintro ⟨h, hlast⟩ before event' after heq
    rcases after.eq_nil_or_concat' with rfl | ⟨after', last, rfl⟩
    · obtain ⟨rfl, hevent⟩ := List.append_inj' heq rfl
      rwa [← List.singleton_inj.mp hevent]
    · rw [← List.cons_append, ← List.append_assoc] at heq
      obtain ⟨rfl, -⟩ := List.append_inj' heq rfl
      exact h before event' after' rfl

/-- The dispatch source says nothing about the calls. -/
theorem Installed.withSource {events : List (AdapterEvent S R)} {adapter : Adapter S R}
    (h : Installed events adapter) (dispatchSource : Bytes) :
    Installed events { adapter with dispatchSource } :=
  ⟨h.session, h.queue, h.running, h.ready⟩

namespace Plugin

variable {plugin plugin' : Plugin S R} {lost : Set Resource} {past : List (AdapterEvent S R)}

/-- What a call does to what is owned. -/
structure Follows (past : List (AdapterEvent S R)) (lost : Set Resource)
    (event : PluginEvent S R) (plugin' : Plugin S R) (more : Set Resource) : Prop where
  owned : plugin'.Owned (lost ∪ more)
  installed : Installed (event.adapterEvent.since past) plugin'.adapter
  leaks : more = ∅ ↔ ¬event.Leaks past

/-- A load has completed exactly if there is a session. -/
theorem loaded_iff (h : Installed past plugin.adapter) :
    Loaded past ↔ plugin.session.isSome = true := by
  rw [← h.session, adapter, Option.isSome_map]

/-- Whoever has no session holds nothing. -/
theorem held_eq_empty_iff (howned : plugin.Owned lost) :
    plugin.held = ∅ ↔ ¬plugin.session.isSome = true := by
  rw [Set.eq_empty_iff_forall_notMem]
  constructor
  · intro h hsome
    obtain ⟨⟨key, s⟩, hsession⟩ := Option.isSome_iff_exists.mp hsome
    exact h key (.inr ⟨s, hsession⟩)
  · rintro h key (hmodule | ⟨s, hsession⟩)
    · exact h (by rw [← howned.module_isSome, hmodule]; rfl)
    · exact h (by rw [hsession]; rfl)

/-- **A load** loses what a loaded adapter held if it completes, and its session if it fails and
cannot free it. -/
theorem follows_load (howned : plugin.Owned lost) (h : Installed past plugin.adapter)
    (calls : LoadCalls S) :
    ∃ more, Follows past lost (.load calls) (plugin.load calls).1 more := by
  have hinstalled := h.load calls.toLoadAnswers
  have hgoes : Loading.Goes (plugin.held ∪ lost) plugin calls (plugin.load calls) :=
    Loading.goes_load calls howned.owns
  generalize plugin.load calls = result at hgoes
  rw [Adapter.load] at hinstalled
  cases hgoes with
  | @fails guard loading hfails hsafe hsession hfree =>
      have hprepared : calls.prepared = none := by
        rwa [LoadAnswers.Completes, Bool.not_eq_true, Option.isSome_eq_false_iff,
          Option.isNone_iff_eq_none] at hfails
      rw [hprepared] at hinstalled
      have hplugin : loading.finish =
          { plugin with
            logger := true
            dispatchSource := loading.plugin.dispatchSource
            journal := guard.drop loading.plugin.journal } := by
        rw [Loading.finish, hsafe.plugin_eq, hsafe.guard_eq]
      refine ⟨guard.leaves, ?_, ?_, ?_⟩
      · have hdrop := hsafe.fits.drop hsafe.unreleased hsafe.owns
        rw [hplugin]
        refine ⟨hdrop.congr fun key => ?_, ?_, howned.distinct, howned.module_isSome⟩
        · exact iff_of_eq (congrArg (key ∈ ·) (Set.union_assoc plugin.held lost guard.leaves).symm)
        · rintro key hkey (hlost | ⟨hsome, -⟩)
          · exact howned.apart key hkey hlost
          · exact hsafe.fits.apart key (.inr hsome) (.inl hkey)
      · rw [hplugin]
        exact hinstalled.withSource _
      · change _ ↔ ¬((calls.Completes ∧ _) ∨ (¬calls.Completes ∧ _))
        rw [← hsession, Set.eq_empty_iff_forall_notMem]
        constructor
        · rintro hnone (⟨hcompletes, -⟩ | ⟨-, hsome, hmissing⟩)
          · exact hfails hcompletes
          · obtain ⟨key, hkey⟩ := Option.isSome_iff_exists.mp hsome
            exact hnone key ⟨hkey, (hfree hsome).trans hmissing⟩
        · rintro hnone key ⟨hkey, hmissing⟩
          have hsome : guard.session.isSome = true := by rw [hkey]; rfl
          exact hnone (.inr ⟨hfails, hsome, (hfree hsome).symm.trans hmissing⟩)
  | @completes wsmModule session state evalString guard loading hprepared hmodule hsession hsafe =>
      rw [hprepared] at hinstalled
      have hcompletes : calls.Completes := by
        rw [LoadAnswers.Completes, hprepared]
        rfl
      have hheld : ∀ key, key ∈ guard.held ↔ key = wsmModule ∨ key = session := by
        intro key
        simp [RuntimeGuard.held, hmodule, hsession, eq_comm]
      have howns := (hsafe.owns.call (.inr (.inl hmodule))).call (.inr (.inl hmodule))
      refine ⟨plugin.held, ⟨howns.congr fun key => ?_, ?_, ?_, rfl⟩, ?_, ?_⟩
      · rw [Set.mem_union, Set.mem_union, Set.mem_union, Set.mem_union, hheld]
        simp only [held, Set.mem_ofPred_eq, Option.some.injEq, Prod.mk.injEq, exists_and_left,
          exists_eq', and_true]
        grind
      · intro key hkey hlost
        have hguard : key ∈ guard.held := by
          rcases hkey with hkey | ⟨s, hkey⟩
          · exact .inl (hmodule.trans hkey)
          · cases hkey
            exact .inr hsession
        exact hsafe.fits.apart key hguard hlost.symm
      · rintro key s hkey hkey'
        cases hkey
        cases hkey'
        exact hsafe.fits.distinct _ hmodule hsession
      · have hlogger : loading.plugin.logger = true := by rw [hsafe.plugin_eq]
        have hserver : loading.plugin.server = plugin.server := by rw [hsafe.plugin_eq]
        have hlast : loading.plugin.lastDispatchResult = plugin.lastDispatchResult := by
          rw [hsafe.plugin_eq]
        rw [adapter, hlogger, hserver, hlast]
        exact hinstalled
      · change _ ↔ ¬((calls.Completes ∧ _) ∨ (¬calls.Completes ∧ _))
        rw [held_eq_empty_iff howned, loaded_iff h, not_or, not_and, not_and]
        exact ⟨fun hnone => ⟨fun _ => hnone, fun hfails => absurd hcompletes hfails⟩,
          fun hnone => hnone.1 hcompletes⟩

/-- An unload beside the journal is that of the globals. -/
theorem adapter_unload (howned : plugin.Owned lost) (sessionFree : Bool) :
    (plugin.unload sessionFree).adapter = plugin.adapter.unload := by
  have hboth := howned.module_isSome
  rw [unload, Adapter.unload, adapter, adapter]
  cases hmodule : plugin.module with
  | none =>
      rw [hmodule] at hboth
      have hnone : plugin.session = none := Option.isNone_iff_eq_none.mp (by simpa using hboth)
      simp [hnone]
  | some wsmModule =>
      cases plugin.session <;> simp

/-- **An unload** loses the session if it cannot free it. -/
theorem follows_unload (howned : plugin.Owned lost) (h : Installed past plugin.adapter)
    (sessionFree : Bool) :
    ∃ more, Follows past lost (.unload sessionFree) (plugin.unload sessionFree) more := by
  have hinstalled : Installed [] (plugin.unload sessionFree).adapter := by
    rw [adapter_unload howned]
    exact h.unload
  have hleaks : ¬(PluginEvent.unload sessionFree).Leaks past ↔
      ¬(plugin.session.isSome = true ∧ sessionFree = false) := by
    rw [← loaded_iff h]
    rfl
  have hboth := howned.module_isSome
  have howns := howned.owns
  cases hsession : plugin.session with
  | none =>
      have hmodule : plugin.module = none := by
        rw [hsession] at hboth
        simpa using hboth
      have hheld : ∀ key, key ∉ plugin.held := by
        rintro key (hkey | ⟨s, hkey⟩)
        · rw [hmodule] at hkey
          cases hkey
        · rw [hsession] at hkey
          cases hkey
      have hjournal : plugin.unloadJournal sessionFree = plugin.journal := by
        rw [unloadJournal, hmodule]
      refine ⟨∅, ⟨?_, ?_, ?_, ?_⟩, hinstalled, iff_of_true rfl (hleaks.mpr ?_)⟩
      · rw [unload, hjournal]
        refine howns.congr fun key => ?_
        simp [held, hmodule, hsession]
      · rintro key (⟨⟨⟩⟩ | ⟨s, hkey⟩)
        rw [unload, hmodule] at hkey
        exact absurd (.inr ⟨s, hkey⟩) (hheld key)
      · rintro key s - ⟨⟩
      · rw [unload, hmodule, hsession]
        rfl
      · rw [hsession]
        rintro ⟨⟨⟩, -⟩
  | some pair =>
      obtain ⟨session, s⟩ := pair
      rw [hsession] at hboth
      obtain ⟨wsmModule, hmodule⟩ := Option.isSome_iff_exists.mp hboth
      have hne : wsmModule ≠ session := by
        rintro rfl
        exact howned.distinct wsmModule s hsession hmodule
      have hheld : ∀ key, key ∈ plugin.held ↔ key = wsmModule ∨ key = session := by
        intro key
        simp [held, hmodule, hsession, eq_comm]
      have hlost : wsmModule ∉ lost ∧ session ∉ lost :=
        ⟨howned.apart _ ((hheld _).mpr (.inl rfl)), howned.apart _ ((hheld _).mpr (.inr rfl))⟩
      have hmem : wsmModule ∈ plugin.held ∪ lost := .inl ((hheld _).mpr (.inl rfl))
      have hmem' : session ∈ plugin.held ∪ lost := .inl ((hheld _).mpr (.inr rfl))
      have hnone : (plugin.unload sessionFree).module = none ∧
          (plugin.unload sessionFree).session = none := by
        rw [unload, hmodule]
        exact ⟨rfl, rfl⟩
      have hempty : ∀ key, key ∉ (plugin.unload sessionFree).held := by
        intro key
        rw [held, Set.mem_ofPred_eq, hnone.1, hnone.2]
        rintro (⟨⟨⟩⟩ | ⟨s, ⟨⟩⟩)
      have hrest : ∀ more : Set Resource,
          (plugin.unloadJournal sessionFree).Owns (lost ∪ more) →
          (plugin.unload sessionFree).Owned (lost ∪ more) := by
        intro more hmore
        refine ⟨hmore.congr fun key => or_iff_right (hempty key), ?_, ?_, ?_⟩
        · exact fun key hkey => absurd hkey (hempty key)
        · intro key s' hkey
          rw [hnone.2] at hkey
          cases hkey
        · rw [hnone.1, hnone.2]
          rfl
      cases sessionFree with
      | false =>
          have hjournal : plugin.unloadJournal false = plugin.journal.perform (.release wsmModule) := by
            simp only [unloadJournal, hmodule, hsession, if_neg Bool.false_ne_true]
          refine ⟨{session}, hrest _ ?_, hinstalled, iff_of_false ?_ ?_⟩
          · rw [hjournal]
            refine (howns.release hmem).congr fun key => ?_
            rw [Set.mem_union, Set.mem_sdiff, Set.mem_union, hheld, Set.mem_singleton_iff,
              Set.mem_singleton_iff]
            grind
          · exact (Set.singleton_nonempty session).ne_empty
          · rw [hleaks, hsession]
            simp
      | true =>
          have hjournal : plugin.unloadJournal true =
              ((plugin.journal.call wsmModule).perform (.release session)).perform
                (.release wsmModule) := by
            simp only [unloadJournal, hmodule, hsession, if_pos]
          refine ⟨∅, hrest _ ?_, hinstalled, iff_of_true rfl ?_⟩
          · rw [hjournal]
            have hfreed := (howns.call hmem).release hmem'
            have hrest := hfreed.release ((Set.mem_sdiff wsmModule).mpr ⟨hmem, hne⟩)
            refine hrest.congr fun key => ?_
            rw [Set.mem_union, Set.mem_sdiff, Set.mem_sdiff, Set.mem_union, hheld,
              Set.mem_singleton_iff, Set.mem_singleton_iff]
            have := Set.notMem_empty key
            grind
          · rw [hleaks]
            simp

/-- A request changes the queue only. -/
theorem follows_request (howned : plugin.Owned lost) (h : Installed past plugin.adapter)
    (source : Bytes) (reply : R) (hstep : plugin.step (.request source reply) = some plugin') :
    ∃ more, Follows past lost (.request source reply) plugin' more := by
  have hserver : plugin.adapter.server = plugin.server := rfl
  rw [step] at hstep
  cases hpush : plugin.server.requests.push source (some reply) with
  | none =>
      rw [hpush] at hstep
      cases hstep
      have hadapter : plugin.adapter.step (.request source reply) = some plugin.adapter := by
        rw [Adapter.step, hserver, hpush]
      refine ⟨∅, ?_, installed_step h hadapter, iff_of_true rfl id⟩
      rwa [Set.union_empty]
  | some requests =>
      rw [hpush] at hstep
      cases hstep
      have hadapter : plugin.adapter.step (.request source reply) =
          some (adapter { plugin with server := { plugin.server with requests } }) := by
        rw [Adapter.step, hserver, hpush]
        rfl
      refine ⟨∅, ?_, installed_step h hadapter, iff_of_true rfl id⟩
      rw [Set.union_empty]
      exact ⟨howned.owns, howned.apart, howned.distinct, howned.module_isSome⟩

/-- **What one call does** to what is owned. -/
theorem follows_step (howned : plugin.Owned lost) (h : Installed past plugin.adapter)
    {event : PluginEvent S R} (hstep : plugin.step event = some plugin') :
    ∃ more, Follows past lost event plugin' more := by
  match event with
  | .load calls =>
      cases hstep
      exact follows_load howned h calls
  | .tick =>
      obtain ⟨howned', hadapter⟩ := howned.tick h hstep
      refine ⟨∅, ?_, installed_step h hadapter, iff_of_true rfl id⟩
      rwa [Set.union_empty]
  | .unload sessionFree =>
      cases hstep
      exact follows_unload howned h sessionFree
  | .request source reply => exact follows_request howned h source reply hstep

/-! ### Runs -/

/-- A run with one more call. -/
theorem run_snoc (plugin : Plugin S R) (events : List (PluginEvent S R))
    (event : PluginEvent S R) :
    plugin.run (events ++ [event]) = (plugin.run events).bind fun plugin =>
      plugin.step event := by
  rw [run, List.foldlM_append]
  cases h : events.foldlM step plugin <;> simp [run, h]

/-- **What is owned** behind any number of calls. -/
theorem owned_run {events : List (PluginEvent S R)} (h : new.run events = some plugin) :
    ∃ lost, plugin.Owned lost ∧ Installed (loadedPast events) plugin.adapter ∧
      (lost = ∅ ↔ LeakFree events) := by
  induction events using List.reverseRecOn generalizing plugin with
  | nil =>
      cases h
      exact ⟨∅, owned_new, installed_new, iff_of_true rfl leakFree_nil⟩
  | append_singleton events event ih =>
      rw [run_snoc, Option.bind_eq_some_iff] at h
      obtain ⟨before, hrun, hstep⟩ := h
      obtain ⟨lost, howned, hinstalled, hlost⟩ := ih hrun
      obtain ⟨more, howned', hinstalled', hmore⟩ := follows_step howned hinstalled hstep
      refine ⟨lost ∪ more, howned', ?_, ?_⟩
      · rwa [loadedPast_snoc]
      · rw [Set.union_empty_iff, hlost, hmore, leakFree_snoc]

end Plugin

/-- **No use behind a release.** Whatever the calls and the answers are, a reference to the
library, a session or a text is used only while it is held, and released at most once. -/
theorem journal_disciplined {events : List (PluginEvent S R)} {plugin : Plugin S R}
    (h : Plugin.new.run events = some plugin) :
    ResourceOp.Disciplined plugin.journal.ops := by
  obtain ⟨lost, howned, -⟩ := Plugin.owned_run h
  exact howned.owns.holds.disciplined

/-- A load that completes, from a directory with an empty file before the source. -/
def fullLoad : LoadCalls Unit where
  toLoadAnswers :=
    { portTaken with
      start := { wsaStartup := true, socket := true, bind := true, listen := true } }
  sessionFree := true
  files := [none, some [], some [40, 41]]
  sessionFree_of_otherExports _ := rfl
  dispatchSource_eq := rfl

/-- A load and an unload. -/
theorem journal_disciplined_unload : ∃ plugin,
    (Plugin.new : Plugin Unit Unit).run [.load fullLoad, .unload true] = some plugin ∧
      ResourceOp.Disciplined plugin.journal.ops := by
  obtain ⟨plugin, h⟩ : ∃ plugin,
      (Plugin.new : Plugin Unit Unit).run [.load fullLoad, .unload true] = some plugin := ⟨_, rfl⟩
  exact ⟨plugin, h, journal_disciplined h⟩

/-- **What is lost.** What is live is what the globals hold, exactly if no call lost anything. -/
theorem live_iff_held_iff {events : List (PluginEvent S R)} {plugin : Plugin S R}
    (h : Plugin.new.run events = some plugin) :
    (∀ key, ResourceOp.Live plugin.journal.ops key ↔ key ∈ plugin.held) ↔ LeakFree events := by
  obtain ⟨lost, howned, -, hlost⟩ := Plugin.owned_run h
  rw [← hlost, Set.eq_empty_iff_forall_notMem]
  constructor
  · intro hlive key hkey
    have hheld := (hlive key).mp ((howned.owns.holds.live key).mpr (.inr hkey))
    exact howned.apart key hheld hkey
  · intro hnone key
    rw [howned.owns.holds.live key, Set.mem_union, or_iff_left (hnone key)]

/-- An unload without `wsm_session_free`, which loses the session. -/
theorem live_iff_held_iff_unload : ∃ plugin,
    (Plugin.new : Plugin Unit Unit).run [.load fullLoad, .unload false] = some plugin ∧
      ((∀ key, ResourceOp.Live plugin.journal.ops key ↔ key ∈ plugin.held) ↔
        LeakFree ([.load fullLoad, .unload false] : List (PluginEvent Unit Unit))) := by
  obtain ⟨plugin, h⟩ : ∃ plugin,
      (Plugin.new : Plugin Unit Unit).run [.load fullLoad, .unload false] = some plugin := ⟨_, rfl⟩
  exact ⟨plugin, h, live_iff_held_iff h⟩

end LispHost
