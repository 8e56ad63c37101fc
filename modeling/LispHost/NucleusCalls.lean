import LispHost.Nucleus

/-!
# The Routines of the Nucleus

What each routine does from any state in which it can be entered: the lines that it runs, the
registers it leaves and the bytes it writes. The routines are run one instruction after the other;
the two accessors differ in their lines only, and all failures end in the same six.

## Main results

* `run_cons`, `run_cons_fails`, `run_accessor`, `run_accessor_faults`, `run_accessor_fails`,
  `run_eq`, `run_atom`, `run_reset`, `run_capacity`: the routines.
* `nucleus_step`: every call ends, and does to the data what `NucleusStep` says.
-/

namespace LispHost

open Effects Instr Operand

variable {P : Platform} {L : DataLayout P} {m : Memory} {arena : Arena} {s : CpuState}

/-- A pair is the address of its first word. -/
theorem cellWord_eq_wordAddress (k : Nat) : cellWord P k = wordAddress P (2 * k) := by
  rw [cellWord, wordAddress]
  congr 1
  omega

/-- Its second word is eight bytes behind. -/
theorem cellWord_add_eight (k : Nat) : cellWord P k + 8 = wordAddress P (2 * k + 1) := by
  rw [cellWord, wordAddress]
  bv_omega

/-- The next pair is sixteen bytes behind. -/
theorem cellWord_add_sixteen (k : Nat) : cellWord P k + 16 = cellWord P (k + 1) := by
  rw [cellWord, cellWord]
  bv_omega

namespace DataLayout

/-- The addresses of the arena do not wrap. -/
theorem toNat_wordAddress (L : DataLayout P) {i : Nat} (hi : i < 2 * arenaCells) :
    (wordAddress P i).toNat = P.arenaBase + 8 * i := by
  have hfits := L.arena_fits
  have hcells : arenaCells = 256 := rfl
  rw [wordAddress, BitVec.toNat_ofNat]
  omega

/-- The two variables lie side by side. -/
theorem toNat_end (L : DataLayout P) :
    (L.link .wsmArenaEnd).toNat = (L.link .wsmArenaNext).toNat + 8 := by
  have hfits := L.data_fits
  rw [L.link_end]
  bv_omega

/-- The first variable is the nucleus's own. -/
theorem owned_next (L : DataLayout P) : Memory.Spans L.Owned (L.link .wsmArenaNext) := by
  intro i hi
  have hfits := L.data_fits
  right
  bv_omega

/-- So is the second. -/
theorem owned_end (L : DataLayout P) : Memory.Spans L.Owned (L.link .wsmArenaEnd) := by
  intro i hi
  have hfits := L.data_fits
  have hend := L.toNat_end
  right
  bv_omega

/-- So is every word of the arena. -/
theorem owned_word (L : DataLayout P) {i : Nat} (hi : i < 2 * arenaCells) :
    Memory.Spans L.Owned (wordAddress P i) := by
  intro j hj
  have hfits := L.arena_fits
  have hcells : arenaCells = 256 := rfl
  have haddress := L.toNat_wordAddress hi
  left
  bv_omega

/-- The variables do not overlap. -/
theorem apart_next_end (L : DataLayout P) :
    Memory.Apart (L.link .wsmArenaNext) (L.link .wsmArenaEnd) := by
  have hfits := L.data_fits
  have hend := L.toNat_end
  exact Memory.apart_of_toNat (by omega) (by omega) (by omega)

/-- The first variable is not in the arena. -/
theorem apart_next_word (L : DataLayout P) {i : Nat} (hi : i < 2 * arenaCells) :
    Memory.Apart (L.link .wsmArenaNext) (wordAddress P i) := by
  have hdata := L.data_fits
  have hfits := L.arena_fits
  have hcells : arenaCells = 256 := rfl
  have haddress := L.toNat_wordAddress hi
  have hapart := L.apart
  exact Memory.apart_of_toNat (by omega) (by omega) (by omega)

/-- Neither is the second. -/
theorem apart_end_word (L : DataLayout P) {i : Nat} (hi : i < 2 * arenaCells) :
    Memory.Apart (L.link .wsmArenaEnd) (wordAddress P i) := by
  have hdata := L.data_fits
  have hfits := L.arena_fits
  have hcells : arenaCells = 256 := rfl
  have haddress := L.toNat_wordAddress hi
  have hend := L.toNat_end
  have hapart := L.apart
  exact Memory.apart_of_toNat (by omega) (by omega) (by omega)

/-- Different words of the arena do not overlap. -/
theorem apart_words (L : DataLayout P) {i j : Nat} (hi : i < 2 * arenaCells)
    (hj : j < 2 * arenaCells) (hne : i ≠ j) :
    Memory.Apart (wordAddress P i) (wordAddress P j) := by
  have hfits := L.arena_fits
  have hcells : arenaCells = 256 := rfl
  have hi' := L.toNat_wordAddress hi
  have hj' := L.toNat_wordAddress hj
  exact Memory.apart_of_toNat (by omega) (by omega) (by omega)

end DataLayout

namespace HoldsArena

/-- What the nucleus owns is mapped. -/
theorem spans (h : HoldsArena L m arena) {a : Quad} (ha : Memory.Spans L.Owned a) :
    Memory.Spans (m.mapped · = true) a := fun i hi => h.mapped _ (ha i hi)

/-- The first variable has the next pair. -/
theorem load_next (h : HoldsArena L m arena) :
    m.load (L.link .wsmArenaNext) = some (cellWord P arena.next) :=
  Memory.load_eq_some_iff.mpr ⟨h.spans L.owned_next, h.next⟩

/-- The second one has the end of the arena. -/
theorem load_end (h : HoldsArena L m arena) :
    m.load (L.link .wsmArenaEnd) = some (cellWord P arenaCells) :=
  Memory.load_eq_some_iff.mpr ⟨h.spans L.owned_end, h.fin⟩

/-- The arena has the words of the model. -/
theorem load_word (h : HoldsArena L m arena) {i : Nat} (hi : i < 2 * arenaCells) :
    m.load (wordAddress P i) = some (arena.memory i) :=
  Memory.load_eq_some_iff.mpr ⟨h.spans (L.owned_word hi), h.words i hi⟩

/-- The data are all that matters. -/
theorem congr {m' : Memory} (h : HoldsArena L m arena) (hsame : Memory.SameOn L.Owned m m') :
    HoldsArena L m' arena where
  mapped x hx := by rw [← (hsame x hx).1]; exact h.mapped x hx
  next := by
    rw [← Memory.quadAt_congr fun i hi => (hsame _ (L.owned_next i hi)).2]
    exact h.next
  fin := by
    rw [← Memory.quadAt_congr fun i hi => (hsame _ (L.owned_end i hi)).2]
    exact h.fin
  words i hi := by
    rw [← Memory.quadAt_congr fun j hj => (hsame _ (L.owned_word hi j hj)).2]
    exact h.words i hi

/-- A store to the data keeps what is mapped. -/
theorem store_data (h : ∀ x, L.Owned x → m.mapped x = true) {a : Quad}
    (ha : Memory.Spans L.Owned a) (value : Quad) :
    ∃ m', m.store a value = some m' ∧ (∀ x, L.Owned x → m'.mapped x = true) ∧
      Memory.SameOn (fun x => ¬L.Owned x) m' m := by
  have hstore := Memory.store_eq_some (fun i hi => h _ (ha i hi)) value
  exact ⟨_, hstore, by rwa [Memory.mapped_store hstore],
    Memory.sameOn_store hstore fun x hx => Memory.le_of_spans ha hx⟩

/-- The arena is empty at first. -/
theorem image (L : DataLayout P) : HoldsArena L L.image ReaderState.new.arena := by
  let zeros : Memory := { mapped := fun _ => true, byte := fun _ => 0 }
  have hnext : zeros.store (L.link .wsmArenaNext) (L.link .wsmArena) = some _ :=
    Memory.store_eq_some (fun _ _ => rfl) _
  have hend : (zeros.put (L.link .wsmArenaNext) (L.link .wsmArena)).store (L.link .wsmArenaEnd)
      (L.link .wsmArena + 4096) = some L.image := Memory.store_eq_some (fun _ _ => rfl) _
  refine ⟨fun _ _ => rfl, ?_, ?_, fun i hi => ?_⟩
  · rw [Memory.quadAt_store_of_apart hend L.apart_next_end.symm, Memory.quadAt_store hnext,
      L.link_arena]
    rfl
  · rw [Memory.quadAt_store hend, L.link_arena, cellWord]
    have hcells : arenaCells = 256 := rfl
    bv_omega
  · rw [Memory.quadAt_store_of_apart hend (L.apart_end_word hi),
      Memory.quadAt_store_of_apart hnext (L.apart_next_word hi)]
    refine BitVec.eq_of_getLsbD_eq fun j hj => ?_
    rw [Memory.getLsbD_quadAt hj]
    exact (BitVec.getLsbD_zero).trans BitVec.getLsbD_zero.symm

end HoldsArena

/-- The words of an arena behind `wsm_cons`. -/
theorem Arena.memory_cons {arena' : Arena} {first second word : Word}
    (h : arena.cons P first second = some (word, arena')) (i : Nat) :
    arena'.memory i = if i = 2 * arena.next then first
      else if i = 2 * arena.next + 1 then second else arena.memory i := by
  rw [Arena.cons] at h
  split at h <;> cases h
  rfl

/-! ### The routines -/

/-- `wsm_cons` is the first routine. -/
theorem lineOf_wsmCons : lineOf nucleus .wsmCons = 0 := by decide

/-- The return address can be loaded. -/
theorem Entered.load_return {call : NucleusCall} (h : Entered L call s) :
    s.memory.load (s.regs .rsp) = some (s.memory.quadAt (s.regs .rsp)) :=
  Memory.load_eq_some h.mapped

/-- The return address is still there behind stores to the data. -/
theorem Entered.load_return_of_sameOn {call : NucleusCall} (h : Entered L call s) {m' : Memory}
    (hsame : Memory.SameOn (fun x => ¬L.Owned x) m' s.memory) :
    m'.load (s.regs .rsp) = some (s.memory.quadAt (s.regs .rsp)) :=
  (Memory.load_congr hsame h.apart).trans h.load_return

/-- The lines from which on `wsm_fail_win64` is called with a code. -/
structure FailLines (line : Nat) (code : ErrorCode) (number : BitVec 32) : Prop where
  label : ∃ name, nucleus[line]? = some (.label name)
  subq : nucleus[line + 1]? = some (.instr (subq 40 .rsp))
  movl : nucleus[line + 2]? = some (.instr (movl number .rcx))
  xorl_rdx : nucleus[line + 3]? = some (.instr (xorl .rdx .rdx))
  xorl_r8 : nucleus[line + 4]? = some (.instr (xorl .r8 .r8))
  call : nucleus[line + 5]? = some (.instr (call .wsmFailWin64))
  number_eq : number.setWidth 64 = code.number

/-- **A routine fails** with the stack and the memory as they were on entry. -/
theorem run_fail {call : NucleusCall} {line : Nat} {code : ErrorCode} {number : BitVec 32}
    (hlines : FailLines line code number) (hin : Entered L call s) {t : CpuState}
    (hrsp : t.regs .rsp = s.regs .rsp) (hmemory : t.memory = s.memory) :
    ∃ ended, runCode nucleus L.link 6 line t = some ended ∧
      Yields s ended (.failed code) s.memory := by
  obtain ⟨name, hlabel⟩ := hlines.label
  let difference := t.regs .rsp - 40
  let s₁ := (t.setReg .rsp difference).setFlags (difference == 0) ((t.regs .rsp).ult 40)
  let s₂ := s₁.setReg .rcx (number.setWidth 64)
  let zero₂ := (s₂.regs .rdx ^^^ s₂.regs .rdx) &&& 0xFFFFFFFF
  let s₃ := (s₂.setReg .rdx zero₂).setFlags (zero₂ == 0) false
  let zero₃ := (s₃.regs .r8 ^^^ s₃.regs .r8) &&& 0xFFFFFFFF
  let s₄ := (s₃.setReg .r8 zero₃).setFlags (zero₃ == 0) false
  have h₁ : (subq (σ := NucleusSymbol) (ℓ := NucleusLabel) 40 .rsp).exec L.link t = .next s₁ :=
    rfl
  have h₂ : (movl (σ := NucleusSymbol) (ℓ := NucleusLabel) number .rcx).exec L.link s₁ =
      .next s₂ := rfl
  have h₃ : (xorl (σ := NucleusSymbol) (ℓ := NucleusLabel) .rdx .rdx).exec L.link s₂ =
      .next s₃ := rfl
  have h₄ : (xorl (σ := NucleusSymbol) (ℓ := NucleusLabel) .r8 .r8).exec L.link s₃ =
      .next s₄ := rfl
  have h₅ : (Instr.call (ℓ := NucleusLabel) NucleusSymbol.wsmFailWin64).exec L.link s₄ =
      .calls .wsmFailWin64 s₄ := rfl
  have hrsp₄ : s₄.regs .rsp = s.regs .rsp - 40 := by
    rw [← hrsp]
    simp [s₄, s₃, s₂, s₁, difference]
  have haligned := hin.aligned
  refine ⟨.called .wsmFailWin64 s₄, ?_, .failed ?_ ?_ ?_ hrsp₄ ?_ ?_⟩
  · rw [runCode_label hlabel, runCode_next hlines.subq h₁, runCode_next hlines.movl h₂,
      runCode_next hlines.xorl_rdx h₃, runCode_next hlines.xorl_r8 h₄,
      runCode_calls hlines.call h₅]
  · rw [← hlines.number_eq]
    simp [s₄, s₃, s₂]
  · simp [s₄, s₃, zero₂]
  · simp [s₄, zero₃]
  · rw [hrsp₄]
    bv_omega
  · simp [s₄, s₃, s₂, s₁, hmemory]

/-- `wsm_cons` with room for a pair. -/
theorem run_cons {first second word : Word} {arena' : Arena} (h : HoldsArena L s.memory arena)
    (hin : Entered L (.cons first second) s)
    (hcons : arena.cons P first second = some (word, arena')) :
    ∃ ended m', runCode nucleus L.link 9 (lineOf nucleus .wsmCons) s = some ended ∧
      Yields s ended (.value word) m' ∧ Memory.SameOn (fun x => ¬L.Owned x) m' s.memory ∧
      HoldsArena L m' arena' := by
  obtain ⟨hroom, rfl, hnext', hcar, hcdr, hold⟩ := Arena.cons_spec hcons
  obtain ⟨rfl, rfl⟩ := hin.passed
  have hcells : arenaCells = 256 := rfl
  have hfits := L.arena_fits
  obtain ⟨m₁, hm₁, hmapped₁, hsame₁⟩ := HoldsArena.store_data h.mapped
    (L.owned_word (show 2 * arena.next < 2 * arenaCells by omega)) (s.regs .rdx)
  obtain ⟨m₂, hm₂, hmapped₂, hsame₂⟩ := HoldsArena.store_data hmapped₁
    (L.owned_word (show 2 * arena.next + 1 < 2 * arenaCells by omega)) (s.regs .r8)
  obtain ⟨m₃, hm₃, hmapped₃, hsame₃⟩ := HoldsArena.store_data hmapped₂ L.owned_next
    (cellWord P (arena.next + 1))
  have hsame := hsame₃.trans (hsame₂.trans hsame₁)
  -- the comparison: there is room for the cell
  have habove : (cellWord P (arena.next + 1)).ult (cellWord P arenaCells) = true ∨
      (cellWord P (arena.next + 1) == cellWord P arenaCells) = true := by
    rw [BitVec.ult_eq_decide, decide_eq_true_eq, beq_iff_eq]
    have hlast : arena.next + 1 < arenaCells ∨ arena.next + 1 = arenaCells := by omega
    rcases hlast with hlast | hlast
    · left
      rw [cellWord, cellWord]
      bv_omega
    · right
      rw [hlast]
  let s₁ := s.setReg .rax (cellWord P arena.next)
  let s₂ := s₁.setReg .r9 (cellWord P (arena.next + 1))
  let s₃ := s₂.setFlags (cellWord P (arena.next + 1) == cellWord P arenaCells)
    ((cellWord P (arena.next + 1)).ult (cellWord P arenaCells))
  let s₄ := s₃.setMemory m₁
  let s₅ := s₄.setMemory m₂
  let s₆ := s₅.setMemory m₃
  have hrax : s₃.regs .rax = cellWord P arena.next := by simp [s₃, s₂, s₁]
  have hr9 : s₃.regs .r9 = cellWord P (arena.next + 1) := by simp [s₃, s₂]
  have hkept : ∀ r, r ≠ .rax → r ≠ .r9 → s₃.regs r = s.regs r := by
    intro r hrax hr9
    simp [s₃, s₂, s₁, hrax, hr9]
  have h₁ : (movq (ℓ := NucleusLabel) (rip .wsmArenaNext) (reg .rax)).exec L.link s = .next s₁ :=
    exec_movq (read_rip h.load_next) rfl
  have h₂ : (leaq (ℓ := NucleusLabel) (mem 16 .rax) .r9).exec L.link s₁ = .next s₂ :=
    exec_leaq (congrArg some ((congrArg (· + 16) (s.regs_setReg_self .rax _)).trans
      (cellWord_add_sixteen _)))
  have h₃ : (cmpq (ℓ := NucleusLabel) (rip .wsmArenaEnd) (reg .r9)).exec L.link s₂ = .next s₃ :=
    exec_cmpq (read_rip h.load_end) (read_reg .r9 (by simp [s₂]))
  have hflags : s₃.carry = true ∨ s₃.zero = true := by
    simpa only [s₃, CpuState.carry_setFlags, CpuState.zero_setFlags] using habove
  have h₄ : (ja NucleusLabel.wsmConsOom).exec L.link s₃ = .next s₃ := exec_ja_next hflags
  have h₅ : (movq (ℓ := NucleusLabel) (reg .rdx) (mem 0 .rax)).exec L.link s₃ = .next s₄ :=
    exec_movq (read_reg .rdx (hkept .rdx (by decide) (by decide)))
      (write_mem (by simp [hrax, cellWord_eq_wordAddress]) hm₁)
  have h₆ : (movq (ℓ := NucleusLabel) (reg .r8) (mem 8 .rax)).exec L.link s₄ = .next s₅ :=
    exec_movq (read_reg .r8 (hkept .r8 (by decide) (by decide)))
      (write_mem (by rw [← cellWord_add_eight, ← hrax]; rfl) hm₂)
  have h₇ : (movq (ℓ := NucleusLabel) (reg .r9) (rip .wsmArenaNext)).exec L.link s₅ =
      .next s₆ := exec_movq (read_reg .r9 hr9) (write_rip hm₃)
  have hrsp : s₆.regs .rsp = s.regs .rsp := hkept .rsp (by decide) (by decide)
  have h₈ : (ret (ℓ := NucleusLabel)).exec L.link s₆ =
      .returns (s.memory.quadAt (s.regs .rsp)) (s₆.setReg .rsp (s₆.regs .rsp + 8)) :=
    exec_ret (by rw [hrsp]; exact hin.load_return_of_sameOn hsame)
  refine ⟨_, m₃, ?_, .returned (t := s₆.setReg .rsp (s₆.regs .rsp + 8)) ?_ ?_ ?_ rfl, hsame, ?_⟩
  · rw [lineOf_wsmCons, runCode_label rfl, runCode_next rfl h₁, runCode_next rfl h₂,
      runCode_next rfl h₃, runCode_next rfl h₄, runCode_next rfl h₅, runCode_next rfl h₆,
      runCode_next rfl h₇, runCode_returns rfl h₈]
  · simpa [s₆, s₅, s₄] using hrax
  · simp [hrsp]
  · intro r hr₁ hr₂ hr₃
    rw [CpuState.regs_setReg_of_ne _ _ _ _ hr₃]
    exact hkept r hr₁ hr₂
  · refine ⟨hmapped₃, ?_, ?_, fun i hi => ?_⟩
    · rw [Memory.quadAt_store hm₃, hnext']
    · rw [Memory.quadAt_store_of_apart hm₃ L.apart_next_end,
        Memory.quadAt_store_of_apart hm₂ (L.apart_end_word (by omega)).symm,
        Memory.quadAt_store_of_apart hm₁ (L.apart_end_word (by omega)).symm, h.fin]
    · rw [Memory.quadAt_store_of_apart hm₃ (L.apart_next_word hi), Arena.memory_cons hcons]
      by_cases hsecond : i = 2 * arena.next + 1
      · rw [hsecond, Memory.quadAt_store hm₂, if_neg (by omega), if_pos rfl]
      · rw [Memory.quadAt_store_of_apart hm₂ (L.apart_words (by omega) hi (Ne.symm hsecond)),
          if_neg hsecond]
        by_cases hfirst : i = 2 * arena.next
        · rw [hfirst, Memory.quadAt_store hm₁, if_pos rfl]
        · rw [Memory.quadAt_store_of_apart hm₁ (L.apart_words (by omega) hi (Ne.symm hfirst)),
            if_neg hfirst, h.words i hi]

/-- Where `wsm_cons` fails. -/
theorem failLines_cons : FailLines 9 .outOfMemory 1 := by
  refine ⟨⟨_, rfl⟩, rfl, rfl, rfl, rfl, rfl, rfl⟩

/-- Where `wsm_car` fails. -/
theorem failLines_car : FailLines 23 .type 2 := by
  refine ⟨⟨_, rfl⟩, rfl, rfl, rfl, rfl, rfl, rfl⟩

/-- Where `wsm_cdr` fails. -/
theorem failLines_cdr : FailLines 37 .type 2 := by
  refine ⟨⟨_, rfl⟩, rfl, rfl, rfl, rfl, rfl, rfl⟩

/-- `wsm_cons` without room. -/
theorem run_cons_fails {first second : Word} (h : HoldsArena L s.memory arena)
    (hin : Entered L (.cons first second) s) (hcons : arena.cons P first second = none) :
    ∃ ended, runCode nucleus L.link 11 (lineOf nucleus .wsmCons) s = some ended ∧
      Yields s ended (.failed .outOfMemory) s.memory := by
  have hfull : arena.next = arenaCells := Arena.cons_eq_none_iff.mp hcons
  have hfits := L.arena_fits
  have hcells : arenaCells = 256 := rfl
  have haligned := P.arenaBase_aligned
  let s₁ := s.setReg .rax (cellWord P arena.next)
  let s₂ := s₁.setReg .r9 (cellWord P (arena.next + 1))
  let s₃ := s₂.setFlags (cellWord P (arena.next + 1) == cellWord P arenaCells)
    ((cellWord P (arena.next + 1)).ult (cellWord P arenaCells))
  have h₁ : (movq (ℓ := NucleusLabel) (rip .wsmArenaNext) (reg .rax)).exec L.link s = .next s₁ :=
    exec_movq (read_rip h.load_next) rfl
  have h₂ : (leaq (ℓ := NucleusLabel) (mem 16 .rax) .r9).exec L.link s₁ = .next s₂ :=
    exec_leaq (congrArg some ((congrArg (· + 16) (s.regs_setReg_self .rax _)).trans
      (cellWord_add_sixteen _)))
  have h₃ : (cmpq (ℓ := NucleusLabel) (rip .wsmArenaEnd) (reg .r9)).exec L.link s₂ = .next s₃ :=
    exec_cmpq (read_rip h.load_end) (read_reg .r9 (by simp [s₂]))
  have hcarry : s₃.carry = false := by
    simp only [s₃, CpuState.carry_setFlags, hfull, BitVec.ult_eq_decide, decide_eq_false_iff_not]
    rw [cellWord, cellWord]
    bv_omega
  have hzero : s₃.zero = false := by
    simp only [s₃, CpuState.zero_setFlags, hfull, beq_eq_false_iff_ne]
    rw [cellWord, cellWord]
    bv_omega
  have h₄ : (ja (σ := NucleusSymbol) NucleusLabel.wsmConsOom).exec L.link s₃ =
      .jump .wsmConsOom s₃ := exec_ja hcarry hzero
  obtain ⟨ended, hrun, hyields⟩ := run_fail failLines_cons hin (t := s₃)
    (by simp [s₃, s₂, s₁]) rfl
  refine ⟨ended, ?_, hyields⟩
  rw [lineOf_wsmCons, runCode_label rfl, runCode_next rfl h₁, runCode_next rfl h₂,
    runCode_next rfl h₃, runCode_jump rfl h₄]
  exact hrun

/-- The lines of an accessor, which loads the word that is `disp` bytes behind a pair's address. -/
structure AccessorLines (line fails : Nat) (disp : Quad) : Prop where
  label : ∃ name, nucleus[line]? = some (.label name)
  testq : nucleus[line + 1]? = some (.instr (testq tagMask .rdx))
  jnz : ∃ target, nucleus[line + 2]? = some (.instr (jnz target)) ∧ lineOf nucleus target = fails
  move : nucleus[line + 3]? = some (.instr (movq (reg .rdx) (reg .rax)))
  load : nucleus[line + 4]? = some (.instr (movq (mem disp .rax) (reg .rax)))
  ret : nucleus[line + 5]? = some (.instr ret)
  fail : FailLines fails .type 2

/-- The lines of `wsm_car`. -/
theorem accessorLines_car : AccessorLines (lineOf nucleus .wsmCar) 23 0 := by
  have hline : lineOf nucleus .wsmCar = 17 := by decide
  rw [hline]
  exact ⟨⟨_, rfl⟩, rfl, ⟨_, rfl, by decide⟩, rfl, rfl, rfl, failLines_car⟩

/-- The lines of `wsm_cdr`. -/
theorem accessorLines_cdr : AccessorLines (lineOf nucleus .wsmCdr) 37 8 := by
  have hline : lineOf nucleus .wsmCdr = 31 := by decide
  rw [hline]
  exact ⟨⟨_, rfl⟩, rfl, ⟨_, rfl, by decide⟩, rfl, rfl, rfl, failLines_cdr⟩

section Accessors

variable {call : NucleusCall} {line fails : Nat} {disp : Quad}

/-- An accessor on a pair. -/
theorem run_accessor (hlines : AccessorLines line fails disp) (hin : Entered L call s)
    (htag : tagOf (s.regs .rdx) = tagCons) {word : Word}
    (hload : s.memory.load (s.regs .rdx + disp) = some word) :
    ∃ ended, runCode nucleus L.link 6 line s = some ended ∧
      Yields s ended (.value word) s.memory := by
  obtain ⟨name, hlabel⟩ := hlines.label
  obtain ⟨target, hjnz, -⟩ := hlines.jnz
  let s₁ := s.setFlags (s.regs .rdx &&& tagMask == 0) false
  let s₂ := s₁.setReg .rax (s.regs .rdx)
  let s₃ := s₂.setReg .rax word
  have h₁ : (testq (σ := NucleusSymbol) (ℓ := NucleusLabel) tagMask .rdx).exec L.link s =
      .next s₁ := rfl
  have h₂ : (jnz (σ := NucleusSymbol) target).exec L.link s₁ = .next s₁ :=
    exec_jnz_next (beq_iff_eq.mpr htag)
  have h₃ : (movq (ℓ := NucleusLabel) (reg .rdx) (reg .rax)).exec L.link s₁ = .next s₂ :=
    exec_movq (read_reg .rdx rfl) rfl
  have h₄ : (movq (ℓ := NucleusLabel) (mem disp .rax) (reg .rax)).exec L.link s₂ = .next s₃ :=
    exec_movq (read_mem (congrArg (· + disp) (s₁.regs_setReg_self .rax _)) hload) rfl
  have hrsp : s₃.regs .rsp = s.regs .rsp := by simp [s₃, s₂, s₁]
  have h₅ : (Instr.ret (σ := NucleusSymbol) (ℓ := NucleusLabel)).exec L.link s₃ =
      .returns (s.memory.quadAt (s.regs .rsp)) (s₃.setReg .rsp (s₃.regs .rsp + 8)) :=
    exec_ret (by rw [hrsp]; exact hin.load_return)
  refine ⟨_, ?_, .returned (t := s₃.setReg .rsp (s₃.regs .rsp + 8)) ?_ ?_ ?_ rfl⟩
  · rw [runCode_label hlabel, runCode_next hlines.testq h₁, runCode_next hjnz h₂,
      runCode_next hlines.move h₃, runCode_next hlines.load h₄, runCode_returns hlines.ret h₅]
  · simp [s₃]
  · simp [hrsp]
  · intro r hr₁ hr₂ hr₃
    simp [s₃, s₂, s₁, hr₁, hr₃]

/-- An accessor on a pair that is in no memory. -/
theorem run_accessor_faults (hlines : AccessorLines line fails disp)
    (htag : tagOf (s.regs .rdx) = tagCons) (hload : s.memory.load (s.regs .rdx + disp) = none) :
    runCode nucleus L.link 5 line s = some .faulted := by
  obtain ⟨name, hlabel⟩ := hlines.label
  obtain ⟨target, hjnz, -⟩ := hlines.jnz
  let s₁ := s.setFlags (s.regs .rdx &&& tagMask == 0) false
  let s₂ := s₁.setReg .rax (s.regs .rdx)
  have h₁ : (testq (σ := NucleusSymbol) (ℓ := NucleusLabel) tagMask .rdx).exec L.link s =
      .next s₁ := rfl
  have h₂ : (jnz (σ := NucleusSymbol) target).exec L.link s₁ = .next s₁ :=
    exec_jnz_next (beq_iff_eq.mpr htag)
  have h₃ : (movq (ℓ := NucleusLabel) (reg .rdx) (reg .rax)).exec L.link s₁ = .next s₂ :=
    exec_movq (read_reg .rdx rfl) rfl
  have hread : (mem (σ := NucleusSymbol) disp .rax).read L.link s₂ = none := by
    rw [← hload, ← s₁.regs_setReg_self .rax (s.regs .rdx)]
    rfl
  have h₄ : (movq (ℓ := NucleusLabel) (mem disp .rax) (reg .rax)).exec L.link s₂ = .faults :=
    exec_movq_faults hread
  rw [runCode_label hlabel, runCode_next hlines.testq h₁, runCode_next hjnz h₂,
    runCode_next hlines.move h₃, runCode_faults hlines.load h₄]

/-- An accessor on a word that is no pair. -/
theorem run_accessor_fails (hlines : AccessorLines line fails disp) (hin : Entered L call s)
    (htag : tagOf (s.regs .rdx) ≠ tagCons) :
    ∃ ended, runCode nucleus L.link 9 line s = some ended ∧
      Yields s ended (.failed .type) s.memory := by
  obtain ⟨name, hlabel⟩ := hlines.label
  obtain ⟨target, hjnz, hfails⟩ := hlines.jnz
  let s₁ := s.setFlags (s.regs .rdx &&& tagMask == 0) false
  have h₁ : (testq (σ := NucleusSymbol) (ℓ := NucleusLabel) tagMask .rdx).exec L.link s =
      .next s₁ := rfl
  have h₂ : (jnz (σ := NucleusSymbol) target).exec L.link s₁ = .jump target s₁ :=
    exec_jnz (beq_eq_false_iff_ne.mpr htag)
  obtain ⟨ended, hrun, hyields⟩ := run_fail hlines.fail hin (t := s₁) rfl rfl
  refine ⟨ended, ?_, hyields⟩
  rw [runCode_label hlabel, runCode_next hlines.testq h₁, runCode_jump hjnz h₂, hfails]
  exact hrun

end Accessors

/-- A routine that has put its value into `rax` returns. -/
theorem yields_ret {call : NucleusCall} {word : Word} (hin : Entered L call s) {t : CpuState}
    (hrax : t.regs .rax = word) (hkept : ∀ r, r ≠ .rax → t.regs r = s.regs r)
    (hsame : Memory.SameOn (fun x => ¬L.Owned x) t.memory s.memory) :
    (Instr.ret (σ := NucleusSymbol) (ℓ := NucleusLabel)).exec L.link t =
        .returns (s.memory.quadAt (s.regs .rsp)) (t.setReg .rsp (s.regs .rsp + 8)) ∧
      Yields s (.returned (s.memory.quadAt (s.regs .rsp)) (t.setReg .rsp (s.regs .rsp + 8)))
        (.value word) t.memory := by
  have hrsp : t.regs .rsp = s.regs .rsp := hkept .rsp (by decide)
  refine ⟨?_, .returned ?_ ?_ ?_ rfl⟩
  · rw [← hrsp]
    exact exec_ret (by rw [hrsp]; exact hin.load_return_of_sameOn hsame)
  · rw [CpuState.regs_setReg_of_ne _ _ _ _ (by decide), hrax]
  · rw [CpuState.regs_setReg_self]
  · intro r hr₁ hr₂ hr₃
    rw [CpuState.regs_setReg_of_ne _ _ _ _ hr₃, hkept r hr₁]

/-- `wsm_eq` compares two words. -/
theorem run_eq {left right : Word} (hin : Entered L (.eq left right) s) :
    ∃ ended, runCode nucleus L.link 7 (lineOf nucleus .wsmEq) s = some ended ∧
      Yields s ended (.value (if left = right then symTWord else wordNil)) s.memory := by
  obtain ⟨rfl, rfl⟩ := hin.passed
  have hline : lineOf nucleus .wsmEq = 45 := by decide
  have hdone : lineOf nucleus .wsmEqDone = 50 := by decide
  let s₁ := s.setReg .rax 1
  let s₂ := s₁.setFlags (s.regs .rdx == s.regs .r8) ((s.regs .rdx).ult (s.regs .r8))
  have h₁ : (movl (σ := NucleusSymbol) (ℓ := NucleusLabel) 1 .rax).exec L.link s = .next s₁ := rfl
  have h₂ : (cmpq (σ := NucleusSymbol) (ℓ := NucleusLabel) (reg .r8) (reg .rdx)).exec L.link s₁ =
      .next s₂ := rfl
  by_cases heq : s.regs .rdx = s.regs .r8
  · let s₃ := s₂.setReg .rax symTWord
    have h₃ : (jnz (σ := NucleusSymbol) NucleusLabel.wsmEqDone).exec L.link s₂ = .next s₂ :=
      exec_jnz_next (beq_iff_eq.mpr heq)
    have h₄ : (movabsq (σ := NucleusSymbol) (ℓ := NucleusLabel) symTWord .rax).exec L.link s₂ =
        .next s₃ := rfl
    obtain ⟨hret, hyields⟩ := yields_ret hin (t := s₃) (s₂.regs_setReg_self .rax symTWord)
      (fun r hr => by simp [s₃, s₂, s₁, hr]) fun _ _ => ⟨rfl, rfl⟩
    rw [if_pos heq]
    refine ⟨_, ?_, hyields⟩
    rw [hline, runCode_label rfl, runCode_next rfl h₁, runCode_next rfl h₂, runCode_next rfl h₃,
      runCode_next rfl h₄, runCode_label rfl, runCode_returns rfl hret]
  · have h₃ : (jnz (σ := NucleusSymbol) NucleusLabel.wsmEqDone).exec L.link s₂ =
        .jump .wsmEqDone s₂ := exec_jnz (beq_eq_false_iff_ne.mpr heq)
    obtain ⟨hret, hyields⟩ := yields_ret hin (t := s₂) (s.regs_setReg_self .rax 1)
      (fun r hr => by simp [s₂, s₁, hr]) fun _ _ => ⟨rfl, rfl⟩
    rw [if_neg heq]
    refine ⟨_, ?_, hyields⟩
    rw [hline, runCode_label rfl, runCode_next rfl h₁, runCode_next rfl h₂, runCode_jump rfl h₃,
      hdone, runCode_label rfl, runCode_returns rfl hret]

/-- `wsm_atom` looks at the tag. -/
theorem run_atom {value : Word} (hin : Entered L (.atom value) s) :
    ∃ ended, runCode nucleus L.link 7 (lineOf nucleus .wsmAtom) s = some ended ∧
      Yields s ended (.value (if tagOf value = tagCons then wordNil else symTWord)) s.memory := by
  obtain rfl := hin.passed
  have hline : lineOf nucleus .wsmAtom = 52 := by decide
  have hdone : lineOf nucleus .wsmAtomDone = 57 := by decide
  let s₁ := s.setReg .rax symTWord
  let s₂ := s₁.setFlags (s.regs .rdx &&& tagMask == 0) false
  have h₁ : (movabsq (σ := NucleusSymbol) (ℓ := NucleusLabel) symTWord .rax).exec L.link s =
      .next s₁ := rfl
  have h₂ : (testq (σ := NucleusSymbol) (ℓ := NucleusLabel) tagMask .rdx).exec L.link s₁ =
      .next s₂ := rfl
  by_cases htag : tagOf (s.regs .rdx) = tagCons
  · let s₃ := s₂.setReg .rax 1
    have h₃ : (jnz (σ := NucleusSymbol) NucleusLabel.wsmAtomDone).exec L.link s₂ = .next s₂ :=
      exec_jnz_next (beq_iff_eq.mpr htag)
    have h₄ : (movl (σ := NucleusSymbol) (ℓ := NucleusLabel) 1 .rax).exec L.link s₂ = .next s₃ :=
      rfl
    obtain ⟨hret, hyields⟩ := yields_ret hin (t := s₃) (s₂.regs_setReg_self .rax 1)
      (fun r hr => by simp [s₃, s₂, s₁, hr]) fun _ _ => ⟨rfl, rfl⟩
    rw [if_pos htag]
    refine ⟨_, ?_, hyields⟩
    rw [hline, runCode_label rfl, runCode_next rfl h₁, runCode_next rfl h₂, runCode_next rfl h₃,
      runCode_next rfl h₄, runCode_label rfl, runCode_returns rfl hret]
  · have h₃ : (jnz (σ := NucleusSymbol) NucleusLabel.wsmAtomDone).exec L.link s₂ =
        .jump .wsmAtomDone s₂ := exec_jnz (beq_eq_false_iff_ne.mpr htag)
    obtain ⟨hret, hyields⟩ := yields_ret hin (t := s₂) (s.regs_setReg_self .rax symTWord)
      (fun r hr => by simp [s₂, s₁, hr]) fun _ _ => ⟨rfl, rfl⟩
    rw [if_neg htag]
    refine ⟨_, ?_, hyields⟩
    rw [hline, runCode_label rfl, runCode_next rfl h₁, runCode_next rfl h₂, runCode_jump rfl h₃,
      hdone, runCode_label rfl, runCode_returns rfl hret]

/-- `wsm_arena_reset` frees all pairs, and it does not clear their words. -/
theorem run_reset (h : HoldsArena L s.memory arena) (hin : Entered L .reset s) :
    ∃ ended word m', runCode nucleus L.link 4 (lineOf nucleus .wsmArenaReset) s = some ended ∧
      Yields s ended (.value word) m' ∧ Memory.SameOn (fun x => ¬L.Owned x) m' s.memory ∧
      HoldsArena L m' arena.reset := by
  have hline : lineOf nucleus .wsmArenaReset = 59 := by decide
  obtain ⟨m', hstore, hmapped, hsame⟩ := HoldsArena.store_data h.mapped L.owned_next
    (L.link .wsmArena)
  let s₁ := s.setReg .rax (L.link .wsmArena)
  let s₂ := s₁.setMemory m'
  have h₁ : (leaq (ℓ := NucleusLabel) (rip .wsmArena) .rax).exec L.link s = .next s₁ :=
    exec_leaq rfl
  have h₂ : (movq (ℓ := NucleusLabel) (reg .rax) (rip .wsmArenaNext)).exec L.link s₁ =
      .next s₂ := exec_movq (read_reg .rax (s.regs_setReg_self .rax _)) (write_rip hstore)
  obtain ⟨hret, hyields⟩ := yields_ret hin (t := s₂) (s.regs_setReg_self .rax _)
    (fun r hr => by simp [s₂, s₁, hr]) hsame
  refine ⟨_, _, m', ?_, hyields, hsame, hmapped, ?_, ?_, fun i hi => ?_⟩
  · rw [hline, runCode_label rfl, runCode_next rfl h₁, runCode_next rfl h₂, runCode_returns rfl hret]
  · rw [Memory.quadAt_store hstore, L.link_arena]
    rfl
  · rw [Memory.quadAt_store_of_apart hstore L.apart_next_end, h.fin]
  · rw [Memory.quadAt_store_of_apart hstore (L.apart_next_word hi), h.words i hi]
    rfl

/-- `wsm_arena_capacity` returns a constant. -/
theorem run_capacity (hin : Entered L .capacity s) :
    ∃ ended, runCode nucleus L.link 3 (lineOf nucleus .wsmArenaCapacity) s = some ended ∧
      Yields s ended (.value (BitVec.ofNat 64 wsmArenaCapacity)) s.memory := by
  have hline : lineOf nucleus .wsmArenaCapacity = 63 := by decide
  let s₁ := s.setReg .rax (BitVec.ofNat 64 wsmArenaCapacity)
  have h₁ : (movl (σ := NucleusSymbol) (ℓ := NucleusLabel) 256 .rax).exec L.link s = .next s₁ :=
    rfl
  obtain ⟨hret, hyields⟩ := yields_ret hin (t := s₁) (s.regs_setReg_self .rax _)
    (fun r hr => by simp [s₁, hr]) fun _ _ => ⟨rfl, rfl⟩
  refine ⟨_, ?_, hyields⟩
  rw [hline, runCode_label rfl, runCode_next rfl h₁, runCode_returns rfl hret]

/-- The word that an accessor reads in the arena. -/
theorem HoldsArena.load_pair (h : HoldsArena L m arena) {pair d : Word}
    (htag : tagOf pair = tagCons) (haligned : d.toNat % 8 = 0)
    (hlow : P.arenaBase ≤ pair.toNat + d.toNat)
    (hhigh : pair.toNat + d.toNat + 8 ≤ P.arenaBase + 4096) :
    ∃ word, m.load (pair + d) = some word ∧
      arena.load P (pair.toNat + d.toNat) = .ok word := by
  have hmod : pair.toNat % 8 = 0 := tagOf_eq_iff.mp htag
  have hbase := P.arenaBase_aligned
  have hfits := L.arena_fits
  have hcells : arenaCells = 256 := rfl
  have haddress : pair + d = wordAddress P ((pair.toNat + d.toNat - P.arenaBase) / 8) := by
    rw [wordAddress]
    bv_omega
  refine ⟨_, by rw [haddress]; exact h.load_word (by omega), ?_⟩
  rw [Arena.load, if_pos ⟨hlow, by omega⟩]

/-- **What a call of a routine does.** It ends; what it changes in memory outside of the registers
are data of the nucleus, and these are then as `NucleusStep` says. -/
theorem nucleus_step {call : NucleusCall} (h : HoldsArena L s.memory arena)
    (hin : Entered L call s) (hinside : call.Inside P) :
    ∃ ended outcome m' arena',
      runCode nucleus L.link 11 (lineOf nucleus call.label) s = some ended ∧
      Yields s ended outcome m' ∧ Memory.SameOn (fun x => ¬L.Owned x) m' s.memory ∧
      NucleusStep P arena (call, outcome) arena' ∧ HoldsArena L m' arena' := by
  have hsame : Memory.SameOn (fun x => ¬L.Owned x) s.memory s.memory := fun _ _ => ⟨rfl, rfl⟩
  cases call with
  | cons first second =>
      cases hcons : arena.cons P first second with
      | none =>
          obtain ⟨ended, hrun, hyields⟩ := run_cons_fails h hin hcons
          exact ⟨ended, _, _, arena, hrun, hyields, hsame, .consFails hcons, h⟩
      | some result =>
          obtain ⟨word, arena'⟩ := result
          obtain ⟨ended, m', hrun, hyields, hsame', hholds⟩ := run_cons h hin hcons
          exact ⟨ended, _, m', arena', runCode_mono hrun 2, hyields, hsame', .cons hcons, hholds⟩
  | car pair =>
      have hpassed : s.regs .rdx = pair := hin.passed
      by_cases htag : tagOf pair = tagCons
      · obtain ⟨hlow, hhigh⟩ := hinside htag
        obtain ⟨word, hload, hmodel⟩ := h.load_pair (d := 0) htag rfl hlow hhigh
        obtain ⟨ended, hrun, hyields⟩ := run_accessor accessorLines_car hin
          (by rw [hpassed, htag]) (by rw [hpassed]; exact hload)
        exact ⟨ended, _, _, arena, runCode_mono hrun 5, hyields, hsame,
          .car ((if_pos htag).trans hmodel), h⟩
      · obtain ⟨ended, hrun, hyields⟩ := run_accessor_fails accessorLines_car hin
          (by rwa [hpassed])
        exact ⟨ended, _, _, arena, runCode_mono hrun 2, hyields, hsame,
          .carFails (if_neg htag), h⟩
  | cdr pair =>
      have hpassed : s.regs .rdx = pair := hin.passed
      by_cases htag : tagOf pair = tagCons
      · obtain ⟨hlow, hhigh⟩ := hinside htag
        obtain ⟨word, hload, hmodel⟩ := h.load_pair (d := 8) htag rfl hlow hhigh
        obtain ⟨ended, hrun, hyields⟩ := run_accessor accessorLines_cdr hin
          (by rw [hpassed, htag]) (by rw [hpassed]; exact hload)
        exact ⟨ended, _, _, arena, runCode_mono hrun 5, hyields, hsame,
          .cdr ((if_pos htag).trans hmodel), h⟩
      · obtain ⟨ended, hrun, hyields⟩ := run_accessor_fails accessorLines_cdr hin
          (by rwa [hpassed])
        exact ⟨ended, _, _, arena, runCode_mono hrun 2, hyields, hsame,
          .cdrFails (if_neg htag), h⟩
  | eq left right =>
      obtain ⟨ended, hrun, hyields⟩ := run_eq hin
      exact ⟨ended, _, _, arena, runCode_mono hrun 4, hyields, hsame, .eq, h⟩
  | atom value =>
      obtain ⟨ended, hrun, hyields⟩ := run_atom hin
      exact ⟨ended, _, _, arena, runCode_mono hrun 4, hyields, hsame, .atom, h⟩
  | reset =>
      obtain ⟨ended, word, m', hrun, hyields, hsame', hholds⟩ := run_reset h hin
      exact ⟨ended, _, m', arena.reset, runCode_mono hrun 7, hyields, hsame', .reset word, hholds⟩
  | capacity =>
      obtain ⟨ended, hrun, hyields⟩ := run_capacity hin
      exact ⟨ended, _, _, arena, runCode_mono hrun 8, hyields, hsame, .capacity, h⟩

end LispHost
