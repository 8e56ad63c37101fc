import LispHost.NucleusCalls

/-!
# Runs of the Nucleus

Any number of calls of the assembly routines, made by code that leaves their data alone and may do
anything else in between. Each such run is a run of the arena model, with the same values and the
same failures; so the model is what the machine code does, and what it says of pairs is so of the
machine.

The accessors check the tag of their argument and nothing else. On a word with the tag of a pair
that is no place of the arena they read what is there, or fault; of the value that they read then
nothing is known, but the arena is as before. `ArenaStep` has these calls too, and what is said of
pairs is so of runs with any of them.

A routine that fails ends the process. A run in which the calls go on is none of the process, and
the results hold of it all the same.

## Main definitions

* `MachineStep`: a call, from any state in which it can be made.
* `ArenaStep`: what a call does to an arena, wherever an accessor reads.
* `Arena.Has`: a word is that of a pair of two words.

## Main results

* `nucleus_refines`: runs of the machine are runs of the arena; behind each, every call ends, keeps
  the calling convention and changes nothing that is not the nucleus's.
* `pairs_last`: a pair is kept, apart from all others, up to the next reset.
* `cons_fails_iff`: the 257th pair since a reset fails, and no other.
-/

namespace LispHost

open Effects

variable {P : Platform} {L : DataLayout P}

/-- A call, from a state whose memory has the same data. -/
inductive MachineStep (L : DataLayout P) (m : Memory) :
    NucleusCall × NucleusOutcome → Memory → Prop where
  | call {call : NucleusCall} {outcome : NucleusOutcome} {s : CpuState} {fuel : Nat}
      {ended : Ended NucleusSymbol} {m' : Memory} (same : Memory.SameOn L.Owned m s.memory)
      (entered : Entered L call s)
      (run : runCode nucleus L.link fuel (lineOf nucleus call.label) s = some ended)
      (yields : Yields s ended outcome m') : MachineStep L m (call, outcome) m'

/-! ### Refinement -/

/-- Different errors have different codes. -/
theorem ErrorCode.number_inj {code code' : ErrorCode} (h : code.number = code'.number) :
    code = code' := by
  cases code <;> cases code' <;> first | rfl | exact absurd h (by decide)

/-- An end has one outcome and one memory. -/
theorem Yields.unique {s : CpuState} {ended : Ended NucleusSymbol} {outcome outcome' : NucleusOutcome}
    {m m' : Memory} (h : Yields s ended outcome m) (h' : Yields s ended outcome' m') :
    outcome = outcome' ∧ m = m' := by
  cases h with
  | returned hrax _ _ hmemory =>
      cases h' with
      | returned hrax' _ _ hmemory' =>
          exact ⟨congrArg NucleusOutcome.value (hrax.symm.trans hrax'), hmemory.symm.trans hmemory'⟩
  | failed hrcx _ _ _ _ hmemory =>
      cases h' with
      | failed hrcx' _ _ _ _ hmemory' =>
          exact ⟨congrArg NucleusOutcome.failed (ErrorCode.number_inj (hrcx.symm.trans hrcx')),
            hmemory.symm.trans hmemory'⟩

/-- **One call** of the machine is one of the arena. -/
theorem MachineStep.refines {step : NucleusCall × NucleusOutcome} {m m' : Memory} {arena : Arena}
    (h : MachineStep L m step m') (hholds : HoldsArena L m arena) (hinside : step.1.Inside P) :
    ∃ arena', NucleusStep P arena step arena' ∧ HoldsArena L m' arena' := by
  obtain ⟨hsame, hentered, hrun, hyields⟩ := h
  obtain ⟨ended', outcome', m'', arena', hrun', hyields', -, hstep, hholds'⟩ :=
    nucleus_step (hholds.congr hsame) hentered hinside
  -- both runs end, so they end alike
  cases runCode_unique hrun hrun'
  obtain ⟨rfl, rfl⟩ := hyields.unique hyields'
  exact ⟨arena', hstep, hholds'⟩

/-- Runs of the machine are runs of the arena. -/
theorem arena_of_run {steps : List (NucleusCall × NucleusOutcome)} {m m' : Memory}
    {arena : Arena} (hholds : HoldsArena L m arena) (hinside : ∀ step ∈ steps, step.1.Inside P)
    (hrun : Run (MachineStep L) m steps m') :
    ∃ arena', Run (NucleusStep P) arena steps arena' ∧ HoldsArena L m' arena' := by
  induction hrun generalizing arena with
  | nil => exact ⟨arena, .nil _, hholds⟩
  | cons hstep _ ih =>
      obtain ⟨hfirst, hrest⟩ := List.forall_mem_cons.mp hinside
      obtain ⟨arena₁, hstep', hholds₁⟩ := hstep.refines hholds hfirst
      obtain ⟨arena', hrun', hholds'⟩ := ih hholds₁ hrest
      exact ⟨arena', .cons hstep' hrun', hholds'⟩

/-! ### Reads outside of the arena -/

/-- What a call does to an arena, wherever an accessor reads. -/
inductive ArenaStep (P : Platform) (arena : Arena) :
    NucleusCall × NucleusOutcome → Arena → Prop where
  | inside {step : NucleusCall × NucleusOutcome} {arena' : Arena} :
      NucleusStep P arena step arena' → ArenaStep P arena step arena'
  | outside {call : NucleusCall} {word : Word} : ¬call.Inside P →
      ArenaStep P arena (call, .value word) arena

/-- An accessor that ends on a word with the tag of a pair has read a value. -/
theorem AccessorLines.reads {call : NucleusCall} {line fails fuel : Nat} {disp : Quad}
    {s : CpuState} {ended : Ended NucleusSymbol} {outcome : NucleusOutcome} {m' : Memory}
    (hlines : AccessorLines line fails disp) (hin : Entered L call s)
    (htag : tagOf (s.regs .rdx) = tagCons)
    (hrun : runCode nucleus L.link fuel line s = some ended) (hyields : Yields s ended outcome m') :
    (∃ word, outcome = .value word) ∧ m' = s.memory := by
  cases hload : s.memory.load (s.regs .rdx + disp) with
  | none =>
      cases runCode_unique hrun (run_accessor_faults hlines htag hload)
      cases hyields
  | some word =>
      obtain ⟨ended', hrun', hyields'⟩ := run_accessor hlines hin htag hload
      cases runCode_unique hrun hrun'
      obtain ⟨rfl, rfl⟩ := hyields.unique hyields'
      exact ⟨⟨word, rfl⟩, rfl⟩

/-- A call that reads outside of the arena is an accessor's, and changes nothing. -/
theorem Yields.of_not_inside {call : NucleusCall} {fuel : Nat} {s : CpuState}
    {ended : Ended NucleusSymbol} {outcome : NucleusOutcome} {m' : Memory}
    (hyields : Yields s ended outcome m') (hin : Entered L call s) (hinside : ¬call.Inside P)
    (hrun : runCode nucleus L.link fuel (lineOf nucleus call.label) s = some ended) :
    (∃ word, outcome = .value word) ∧ m' = s.memory := by
  cases call with
  | car pair =>
      obtain ⟨htag, -⟩ := Classical.not_imp.mp hinside
      have hpassed : s.regs .rdx = pair := hin.passed
      exact accessorLines_car.reads hin (by rwa [hpassed]) hrun hyields
  | cdr pair =>
      obtain ⟨htag, -⟩ := Classical.not_imp.mp hinside
      have hpassed : s.regs .rdx = pair := hin.passed
      exact accessorLines_cdr.reads hin (by rwa [hpassed]) hrun hyields
  | _ => exact absurd trivial hinside

/-- **One call** of the machine, wherever it reads. -/
theorem MachineStep.arenaStep {step : NucleusCall × NucleusOutcome} {m m' : Memory} {arena : Arena}
    (h : MachineStep L m step m') (hholds : HoldsArena L m arena) :
    ∃ arena', ArenaStep P arena step arena' ∧ HoldsArena L m' arena' := by
  by_cases hinside : step.1.Inside P
  · obtain ⟨arena', hstep, hholds'⟩ := h.refines hholds hinside
    exact ⟨arena', .inside hstep, hholds'⟩
  · obtain ⟨hsame, hentered, hrun, hyields⟩ := h
    obtain ⟨⟨word, rfl⟩, rfl⟩ := hyields.of_not_inside hentered hinside hrun
    exact ⟨arena, .outside hinside, hholds.congr hsame⟩

/-- Runs of the machine, wherever the accessors read. -/
theorem arenaRun_of_run {steps : List (NucleusCall × NucleusOutcome)} {m m' : Memory}
    {arena : Arena} (hholds : HoldsArena L m arena) (hrun : Run (MachineStep L) m steps m') :
    ∃ arena', Run (ArenaStep P) arena steps arena' ∧ HoldsArena L m' arena' := by
  induction hrun generalizing arena with
  | nil => exact ⟨arena, .nil _, hholds⟩
  | cons hstep _ ih =>
      obtain ⟨arena₁, hstep', hholds₁⟩ := hstep.arenaStep hholds
      obtain ⟨arena', hrun', hholds'⟩ := ih hholds₁
      exact ⟨arena', .cons hstep' hrun', hholds'⟩

/-! ### Calls can be made -/

/-- The first argument of a call. -/
def NucleusCall.first : NucleusCall → Word
  | cons first _ => first
  | car pair => pair
  | cdr pair => pair
  | eq left _ => left
  | atom value => value
  | _ => 0

/-- The second argument of a call. -/
def NucleusCall.second : NucleusCall → Word
  | cons _ second => second
  | eq _ right => right
  | _ => 0

/-- A state in which a call is made, with the return address at `rsp`. -/
def callState (m : Memory) (rsp : Quad) (call : NucleusCall) : CpuState where
  regs
    | .rdx => call.first
    | .r8 => call.second
    | .rsp => rsp
    | _ => 0
  zero := false
  carry := false
  memory := m

/-- **A call can be made** wherever there is a stack. -/
theorem exists_machineStep {m : Memory} {arena : Arena} (hholds : HoldsArena L m arena) {rsp : Quad}
    (hmapped : Memory.Spans (m.mapped · = true) rsp)
    (hapart : Memory.Spans (fun x => ¬L.Owned x) rsp) (haligned : rsp.toNat % 16 = 8)
    (call : NucleusCall) (hcall : call.Inside P) :
    ∃ outcome m' arena', MachineStep L m (call, outcome) m' ∧
      NucleusStep P arena (call, outcome) arena' ∧ HoldsArena L m' arena' ∧
      Memory.Spans (m'.mapped · = true) rsp := by
  have hentered : Entered L call (callState m rsp call) := by
    refine ⟨?_, hmapped, hapart, haligned⟩
    cases call <;> trivial
  obtain ⟨ended, outcome, m', arena', hrun, hyields, hframe, hstep, hholds'⟩ :=
    nucleus_step hholds hentered hcall
  refine ⟨outcome, m', arena', .call (fun _ _ => ⟨rfl, rfl⟩) hentered hrun hyields, hstep, hholds',
    fun i hi => ?_⟩
  change m'.mapped _ = true
  rw [(hframe _ (hapart i hi)).1]
  exact hmapped i hi

/-- A layout at fixed addresses. -/
def DataLayout.standard : DataLayout .standard where
  link
    | .wsmArena => 0x140000000
    | .wsmArenaNext => 0x140001000
    | .wsmArenaEnd => 0x140001008
    | .wsmFailWin64 => 0x140002000
  link_arena := rfl
  link_end := rfl
  arena_fits := by decide
  data_fits := by decide
  apart := .inr (by decide)

/-- A call on the standard layout, with the stack at the start of memory. -/
theorem exists_standardStep {m : Memory} {arena : Arena} (hholds : HoldsArena .standard m arena)
    (hmapped : Memory.Spans (m.mapped · = true) 8) (call : NucleusCall)
    (hcall : call.Inside .standard) :
    ∃ outcome m' arena', MachineStep .standard m (call, outcome) m' ∧
      NucleusStep .standard arena (call, outcome) arena' ∧ HoldsArena .standard m' arena' ∧
      Memory.Spans (m'.mapped · = true) 8 := by
  refine exists_machineStep hholds hmapped ?_ rfl call hcall
  intro i hi howned
  have hnext : (DataLayout.standard.link .wsmArenaNext).toNat = 0x140001000 := rfl
  have hbase : Platform.standard.arenaBase = 0x140000000 := rfl
  rw [DataLayout.Owned, hnext, hbase] at howned
  bv_omega

/-! ### Runs -/

/-- **The machine code refines the arena.** A run from the data as they are laid out is a run of
the empty arena. Behind it every call that can be made ends within eleven lines, by the calling
convention, and changes nothing but the data of the nucleus. -/
theorem nucleus_refines {steps : List (NucleusCall × NucleusOutcome)} {m m' : Memory}
    (himage : Memory.SameOn L.Owned L.image m) (hinside : ∀ step ∈ steps, step.1.Inside P)
    (hrun : Run (MachineStep L) m steps m') :
    (∃ arena', Run (NucleusStep P) ReaderState.new.arena steps arena' ∧
        HoldsArena L m' arena') ∧
      ∀ call s, Memory.SameOn L.Owned m' s.memory → Entered L call s → call.Inside P →
        ∃ ended outcome m'',
          runCode nucleus L.link 11 (lineOf nucleus call.label) s = some ended ∧
          Yields s ended outcome m'' ∧ Memory.SameOn (fun x => ¬L.Owned x) m'' s.memory := by
  obtain ⟨arena', hrun', hholds⟩ :=
    arena_of_run ((HoldsArena.image L).congr himage) hinside hrun
  refine ⟨⟨arena', hrun', hholds⟩, fun call s hsame hentered hcall => ?_⟩
  obtain ⟨ended, outcome, m'', -, hends, hyields, hframe, -⟩ :=
    nucleus_step (hholds.congr hsame) hentered hcall
  exact ⟨ended, outcome, m'', hends, hyields, hframe⟩

/-- The run that makes one pair, and what any call does behind it. -/
theorem nucleus_refines_cons :
    ∃ outcome m', (∃ arena', Run (NucleusStep .standard) ReaderState.new.arena
        [(.cons 11 19, outcome)] arena' ∧ HoldsArena .standard m' arena') ∧
      ∀ call s, Memory.SameOn DataLayout.standard.Owned m' s.memory →
        Entered DataLayout.standard call s → call.Inside .standard →
        ∃ ended outcome m'',
          runCode nucleus DataLayout.standard.link 11 (lineOf nucleus call.label) s = some ended ∧
          Yields s ended outcome m'' ∧
          Memory.SameOn (fun x => ¬DataLayout.standard.Owned x) m'' s.memory := by
  obtain ⟨outcome, m', -, hstep, -⟩ := exists_standardStep (HoldsArena.image _)
    (fun _ _ => rfl) (.cons 11 19) trivial
  refine ⟨outcome, m', nucleus_refines (fun _ _ => ⟨rfl, rfl⟩) ?_ (.single hstep)⟩
  rintro step hmem
  cases List.mem_singleton.mp hmem
  trivial

/-! ### Pairs -/

/-- The word is that of a pair of two words. -/
def Arena.Has (P : Platform) (arena : Arena) (word car cdr : Word) : Prop :=
  ∃ k < arena.next, word = cellWord P k ∧ arena.memory (2 * k) = car ∧
    arena.memory (2 * k + 1) = cdr

/-- What a call says of a pair of two words. -/
structure RespectsPair (word car cdr : Word) (step : NucleusCall × NucleusOutcome) : Prop where
  car : step.1 = .car word → step.2 = .value car
  cdr : step.1 = .cdr word → step.2 = .value cdr
  atom : step.1 = .atom word → step.2 = .value wordNil
  fresh : ∀ first second other, step = (.cons first second, .value other) → other ≠ word

/-- A pair that was just made has its parts. -/
theorem Arena.has_of_cons {arena arena' : Arena} {first second word : Word}
    (h : arena.cons P first second = some (word, arena')) : arena'.Has P word first second := by
  obtain ⟨-, hword, hnext, hcar, hcdr, -⟩ := Arena.cons_spec h
  exact ⟨arena.next, by omega, hword, hcar, hcdr⟩

/-- Another pair is another word, and it leaves the parts of this one alone. -/
theorem Arena.Has.cons {arena arena' : Arena} {word car cdr first second other : Word}
    (h : arena.Has P word car cdr) (hcons : arena.cons P first second = some (other, arena')) :
    arena'.Has P word car cdr ∧ other ≠ word := by
  obtain ⟨k, hk, rfl, hcar, hcdr⟩ := h
  obtain ⟨hroom, rfl, hnext, -, -, hold⟩ := Arena.cons_spec hcons
  refine ⟨⟨k, by omega, rfl, by rw [hold _ (by omega), hcar], by rw [hold _ (by omega), hcdr]⟩, ?_⟩
  intro heq
  have haddress := congrArg BitVec.toNat heq
  rw [toNat_cellWord hroom, toNat_cellWord (by omega)] at haddress
  omega

/-- **One call** keeps a pair, unless it is a reset, and respects it. -/
theorem NucleusStep.has {arena arena' : Arena} {step : NucleusCall × NucleusOutcome}
    {word car cdr : Word} (hstep : NucleusStep P arena step arena') (h : arena.Has P word car cdr)
    (hreset : step.1 ≠ .reset) : arena'.Has P word car cdr ∧ RespectsPair word car cdr step := by
  obtain ⟨k, hk, hword, hcar, hcdr⟩ := id h
  have hcell : k < arenaCells := hk.trans_le arena.next_le
  have htag : tagOf word = tagCons := hword ▸ tagOf_cellWord hcell
  have hread : wsmCar P arena word = .ok car := by
    rw [hword, wsmCar_cellWord arena hcell, hcar]
  have hread' : wsmCdr P arena word = .ok cdr := by
    rw [hword, wsmCdr_cellWord arena hcell, hcdr]
  cases hstep with
  | cons hcons =>
      obtain ⟨hkept, hne⟩ := h.cons hcons
      refine ⟨hkept, by rintro ⟨⟩, by rintro ⟨⟩, by rintro ⟨⟩, ?_⟩
      rintro _ _ _ ⟨⟩
      exact hne
  | consFails => exact ⟨h, by rintro ⟨⟩, by rintro ⟨⟩, by rintro ⟨⟩, by rintro _ _ _ ⟨⟩⟩
  | car hload =>
      refine ⟨h, ?_, by rintro ⟨⟩, by rintro ⟨⟩, by rintro _ _ _ ⟨⟩⟩
      rintro ⟨⟩
      cases hload.symm.trans hread
      rfl
  | carFails hload =>
      refine ⟨h, ?_, by rintro ⟨⟩, by rintro ⟨⟩, by rintro _ _ _ ⟨⟩⟩
      rintro ⟨⟩
      cases hload.symm.trans hread
  | cdr hload =>
      refine ⟨h, by rintro ⟨⟩, ?_, by rintro ⟨⟩, by rintro _ _ _ ⟨⟩⟩
      rintro ⟨⟩
      cases hload.symm.trans hread'
      rfl
  | cdrFails hload =>
      refine ⟨h, by rintro ⟨⟩, ?_, by rintro ⟨⟩, by rintro _ _ _ ⟨⟩⟩
      rintro ⟨⟩
      cases hload.symm.trans hread'
  | eq => exact ⟨h, by rintro ⟨⟩, by rintro ⟨⟩, by rintro ⟨⟩, by rintro _ _ _ ⟨⟩⟩
  | atom =>
      refine ⟨h, by rintro ⟨⟩, by rintro ⟨⟩, ?_, by rintro _ _ _ ⟨⟩⟩
      rintro ⟨⟩
      rw [if_pos htag]
  | reset => exact absurd rfl hreset
  | capacity => exact ⟨h, by rintro ⟨⟩, by rintro ⟨⟩, by rintro ⟨⟩, by rintro _ _ _ ⟨⟩⟩

/-- The places of a pair are in the arena. -/
theorem Arena.Has.inside {arena : Arena} {word car cdr : Word} (h : arena.Has P word car cdr) :
    (NucleusCall.car word).Inside P ∧ (NucleusCall.cdr word).Inside P := by
  obtain ⟨k, hk, rfl, -⟩ := h
  have hcell : k < arenaCells := hk.trans_le arena.next_le
  have hcells : arenaCells = 256 := rfl
  have haddress := toNat_cellWord (P := P) hcell
  constructor <;> intro _ <;> omega

/-- **One call**, wherever it reads, keeps a pair, unless it is a reset, and respects it. -/
theorem ArenaStep.has {arena arena' : Arena} {step : NucleusCall × NucleusOutcome}
    {word car cdr : Word} (hstep : ArenaStep P arena step arena') (h : arena.Has P word car cdr)
    (hreset : step.1 ≠ .reset) : arena'.Has P word car cdr ∧ RespectsPair word car cdr step := by
  cases hstep with
  | inside hstep => exact hstep.has h hreset
  | outside hinside =>
      obtain ⟨hcar, hcdr⟩ := h.inside
      refine ⟨h, ?_, ?_, ?_, ?_⟩
      · rintro rfl
        exact absurd hcar hinside
      · rintro rfl
        exact absurd hcdr hinside
      · rintro rfl
        exact absurd trivial hinside
      · rintro _ _ _ ⟨⟩
        exact absurd trivial hinside

/-- **A pair lasts** up to the next reset. From the call of `wsm_cons` that returns it on, the
accessors return its two words, `wsm_atom` says that it is no atom, and no other call of
`wsm_cons` returns it. -/
theorem pairs_last {before after : List (NucleusCall × NucleusOutcome)} {m m' : Memory}
    {car cdr word : Word} (himage : Memory.SameOn L.Owned L.image m)
    (hrun : Run (MachineStep L) m (before ++ (.cons car cdr, .value word) :: after) m')
    (hreset : ∀ step ∈ after, step.1 ≠ .reset) :
    ∀ step ∈ after, RespectsPair word car cdr step := by
  obtain ⟨arena', hrun', -⟩ := arenaRun_of_run ((HoldsArena.image L).congr himage) hrun
  obtain ⟨arena₁, arena₂, -, hcons, hafter⟩ := hrun'.split
  cases hcons with
  | outside hinside => exact absurd trivial hinside
  | inside hcons =>
      cases hcons with
      | cons hcons =>
          exact (hafter.restrict hreset).labels (fun _ _ _ hhas hstep => hstep.1.has hhas hstep.2)
            (Arena.has_of_cons hcons)

/-- A pair that is read right behind its making. -/
theorem pairs_last_twice :
    ∃ word outcome m', Run (MachineStep .standard) DataLayout.standard.image
        ([] ++ (.cons 11 19, .value word) :: [(.car word, outcome)]) m' ∧
      RespectsPair word 11 19 (.car word, outcome) := by
  obtain ⟨outcome, m₁, arena₁, hstep, hcons, hholds, hmapped⟩ :=
    exists_standardStep (HoldsArena.image _) (fun _ _ => rfl) (.cons 11 19) trivial
  cases hcons with
  | consFails hcons => cases Arena.cons_eq_none_iff.mp hcons
  | @cons _ _ word _ hcons =>
      have hinside : NucleusCall.Inside .standard (.car word) := by
        obtain ⟨-, rfl, -⟩ := Arena.cons_spec hcons
        exact fun _ => by decide
      obtain ⟨outcome', m₂, -, hstep', -⟩ := exists_standardStep hholds hmapped (.car word) hinside
      have hrun : Run (MachineStep .standard) DataLayout.standard.image
          ([] ++ (.cons 11 19, .value word) :: [(.car word, outcome')]) m₂ :=
        .cons hstep (.single hstep')
      refine ⟨word, outcome', m₂, hrun, ?_⟩
      exact pairs_last (fun _ _ => ⟨rfl, rfl⟩) hrun
        (List.forall_mem_singleton.mpr (by rintro ⟨⟩)) _ (List.mem_singleton_self _)

/-! ### The capacity -/

/-- The call returns a new pair. -/
def makesPair : NucleusCall × NucleusOutcome → Bool
  | (.cons _ _, .value _) => true
  | _ => false

/-- A step of the arena takes the next pair or none. -/
theorem NucleusStep.next {arena arena' : Arena} {step : NucleusCall × NucleusOutcome}
    (hstep : NucleusStep P arena step arena') (hreset : step.1 ≠ .reset) :
    arena'.next = arena.next + if makesPair step then 1 else 0 := by
  cases hstep with
  | cons hcons => exact (Arena.cons_spec hcons).2.2.1
  | reset => exact absurd rfl hreset
  | _ => rfl

/-- So does a step that also knows of accesses outside of it. -/
theorem ArenaStep.next {arena arena' : Arena} {step : NucleusCall × NucleusOutcome}
    (hstep : ArenaStep P arena step arena') (hreset : step.1 ≠ .reset) :
    arena'.next = arena.next + if makesPair step then 1 else 0 := by
  cases hstep with
  | inside hstep => exact hstep.next hreset
  | @outside call word hinside =>
      cases call with
      | cons first second => exact absurd trivial hinside
      | _ => rfl

/-- A run without a reset takes as many pairs as it makes. -/
theorem next_of_run {steps : List (NucleusCall × NucleusOutcome)} {arena arena' : Arena}
    (hrun : Run (ArenaStep P) arena steps arena') (hreset : ∀ step ∈ steps, step.1 ≠ .reset) :
    arena'.next = arena.next + steps.countP makesPair := by
  induction hrun with
  | nil => rfl
  | cons hstep _ ih =>
      obtain ⟨hfirst, hrest⟩ := List.forall_mem_cons.mp hreset
      rw [ih hrest, hstep.next hfirst, List.countP_cons]
      omega

/-- **`wsm_cons` fails** exactly if it has returned 256 pairs since the last reset. -/
theorem cons_fails_iff {before between : List (NucleusCall × NucleusOutcome)} {m m' : Memory}
    {last outcome : NucleusOutcome} {car cdr : Word}
    (himage : Memory.SameOn L.Owned L.image m)
    (hrun : Run (MachineStep L) m
      (before ++ (.reset, last) :: (between ++ [(.cons car cdr, outcome)])) m')
    (hreset : ∀ step ∈ between, step.1 ≠ .reset) :
    outcome = .failed .outOfMemory ↔ between.countP makesPair = 256 := by
  obtain ⟨arena', hrun', -⟩ := arenaRun_of_run ((HoldsArena.image L).congr himage) hrun
  obtain ⟨arena₁, arena₂, -, hstep, hafter⟩ := hrun'.split
  obtain ⟨arena₃, hbetween, hlast⟩ := Run.append_iff.mp hafter
  obtain ⟨arena₄, hcons, -⟩ := Run.cons_iff.mp hlast
  have hempty : arena₂.next = 0 := by
    cases hstep with
    | outside hinside => exact absurd trivial hinside
    | inside hstep =>
        cases hstep
        rfl
  have hnext : arena₃.next = between.countP makesPair := by
    rw [next_of_run hbetween hreset, hempty, Nat.zero_add]
  have hcells : arenaCells = 256 := rfl
  rw [← hnext, ← hcells]
  cases hcons with
  | outside hinside => exact absurd trivial hinside
  | inside hcons =>
      cases hcons with
      | cons hcons =>
          refine iff_of_false (by rintro ⟨⟩) fun hfull => ?_
          rw [Arena.cons_eq_none_iff.mpr hfull] at hcons
          cases hcons
      | consFails hcons => exact iff_of_true rfl (Arena.cons_eq_none_iff.mp hcons)

/-- The second pair behind a reset is made. -/
theorem cons_fails_iff_second :
    ∃ last word outcome m', Run (MachineStep .standard) DataLayout.standard.image
        ([] ++ (.reset, last) :: ([(.cons 1 1, .value word)] ++ [(.cons 11 19, outcome)])) m' ∧
      (outcome = .failed .outOfMemory ↔
        [(.cons 1 1, .value word)].countP makesPair = 256) := by
  obtain ⟨last, m₁, arena₁, hstep₁, hreset, hholds₁, hmapped₁⟩ :=
    exists_standardStep (HoldsArena.image _) (fun _ _ => rfl) .reset trivial
  obtain ⟨made, m₂, arena₂, hstep₂, hcons, hholds₂, hmapped₂⟩ :=
    exists_standardStep hholds₁ hmapped₁ (.cons 1 1) trivial
  obtain ⟨outcome, m₃, -, hstep₃, -⟩ :=
    exists_standardStep hholds₂ hmapped₂ (.cons 11 19) trivial
  cases hcons with
  | consFails hcons =>
      have hfull := Arena.cons_eq_none_iff.mp hcons
      cases hreset
      cases hfull
  | @cons _ _ word _ hcons =>
      have hrun : Run (MachineStep .standard) DataLayout.standard.image
          ([] ++ (.reset, last) :: ([(.cons 1 1, .value word)] ++ [(.cons 11 19, outcome)])) m₃ :=
        .cons hstep₁ (.cons hstep₂ (.single hstep₃))
      refine ⟨last, word, outcome, m₃, hrun, cons_fails_iff (fun _ _ => ⟨rfl, rfl⟩) hrun ?_⟩
      exact List.forall_mem_singleton.mpr (by rintro ⟨⟩)

end LispHost
