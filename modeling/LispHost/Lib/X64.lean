import Mathlib.Data.List.Basic
import Mathlib.Data.Nat.Bitwise

/-!
# A Machine for Leaf Routines

A fragment of the 64-bit x86 machine, enough for routines that call nothing of their own: sixteen
registers, the two flags that unsigned comparisons use, and byte-addressed memory, parts of which
may be unmapped. Code is a list of labels and instructions, in which operands are written source
first. A routine runs until it returns, calls out, or faults.

Where the linker puts a symbol is a parameter. Code is not in memory, and is not written.

## Main definitions

* `Memory`, `Memory.load`, `Memory.store`: memory, eight bytes at a time, lowest byte first.
* `CpuState`, `Operand`, `Instr`: the machine and its instructions.
* `Instr.exec`: what one instruction does.
* `runCode`: the run of a routine.

## Main results

* `Memory.load_store`, `Memory.quadAt_store_of_apart`: what a store changes.
* `runCode_next`, `runCode_jump`, `runCode_returns`, `runCode_faults`: one step of a run.
* `runCode_unique`: a routine ends in one way.
-/

namespace Effects

/-- Eight bytes, and an address. -/
abbrev Quad : Type := BitVec 64

/-! ### Memory -/

/-- Which addresses are mapped, and the byte at each. -/
structure Memory where
  mapped : Quad → Bool
  byte : Quad → BitVec 8

namespace Memory

/-- The eight addresses from `a` on. -/
def Spans (R : Quad → Prop) (a : Quad) : Prop := ∀ i < 8, R (a + BitVec.ofNat 64 i)

instance (R : Quad → Prop) [DecidablePred R] (a : Quad) : Decidable (Spans R a) :=
  inferInstanceAs (Decidable (∀ i < 8, R (a + BitVec.ofNat 64 i)))

/-- The eight bytes from `a` on as a number. Bit `i` is in byte `i / 8`. -/
def quadAt (m : Memory) (a : Quad) : Quad :=
  (BitVec.ofBoolListLE ((List.range 64).map fun i =>
    (m.byte (a + BitVec.ofNat 64 (i / 8))).getLsbD (i % 8))).setWidth 64

/-- Load eight bytes; `none` is an access violation. -/
def load (m : Memory) (a : Quad) : Option Quad :=
  if Spans (m.mapped · = true) a then some (m.quadAt a) else none

/-- The memory with eight bytes replaced. -/
def put (m : Memory) (a value : Quad) : Memory :=
  { m with
    byte := fun x =>
      if (x - a).toNat < 8 then value.extractLsb' (8 * (x - a).toNat) 8 else m.byte x }

/-- Store eight bytes; `none` is an access violation. -/
def store (m : Memory) (a value : Quad) : Option Memory :=
  if Spans (m.mapped · = true) a then some (m.put a value) else none

/-- Two blocks of eight bytes have no byte in common. -/
def Apart (a b : Quad) : Prop := 8 ≤ (b - a).toNat ∧ 8 ≤ (a - b).toNat

/-- Two memories have the same bytes in a region. -/
def SameOn (R : Quad → Prop) (m m' : Memory) : Prop :=
  ∀ x, R x → m.mapped x = m'.mapped x ∧ m.byte x = m'.byte x

variable {m m' m'' : Memory} {a b x value : Quad} {R : Quad → Prop}

/-- Each bit of the eight bytes is one of the byte it is in. -/
theorem getLsbD_quadAt {i : Nat} (hi : i < 64) :
    (m.quadAt a).getLsbD i = (m.byte (a + BitVec.ofNat 64 (i / 8))).getLsbD (i % 8) := by
  rw [quadAt, BitVec.getLsbD_setWidth, BitVec.getLsbD_ofBoolListLE, decide_eq_true hi,
    Bool.true_and, List.getD_eq_getElem?_getD, List.getElem?_map, List.getElem?_range hi]
  rfl

/-- What is eight bytes from a place on depends on these bytes only. -/
theorem quadAt_congr
    (h : Spans (fun x => m.byte x = m'.byte x) a) : m.quadAt a = m'.quadAt a := by
  refine BitVec.eq_of_getLsbD_eq fun i hi => ?_
  rw [getLsbD_quadAt hi, getLsbD_quadAt hi, h (i / 8) (by omega)]

/-- A load of mapped bytes succeeds. -/
theorem load_eq_some (h : Spans (m.mapped · = true) a) : m.load a = some (m.quadAt a) :=
  if_pos h

/-- A load succeeds exactly where its bytes are mapped, with the number that they are. -/
theorem load_eq_some_iff {v : Quad} :
    m.load a = some v ↔ Spans (m.mapped · = true) a ∧ m.quadAt a = v := by
  rw [load]
  split
  · rename_i h
    rw [Option.some.injEq, and_iff_right h]
  · rename_i h
    exact iff_of_false (by rintro ⟨⟩) fun hload => h hload.1

/-- **A load** reads its eight bytes only. -/
theorem load_congr (hsame : SameOn R m m') (ha : Spans R a) : m.load a = m'.load a := by
  have hmapped : Spans (m.mapped · = true) a ↔ Spans (m'.mapped · = true) a :=
    forall₂_congr fun i hi => by simp only [(hsame _ (ha i hi)).1]
  rw [load, load, quadAt_congr fun i hi => (hsame _ (ha i hi)).2]
  exact if_congr hmapped rfl rfl

/-- A store to mapped bytes succeeds. -/
theorem store_eq_some (h : Spans (m.mapped · = true) a) (value : Quad) :
    m.store a value = some (m.put a value) := if_pos h

/-- A store maps nothing, and unmaps nothing. -/
theorem mapped_store (h : m.store a value = some m') : m'.mapped = m.mapped := by
  rw [store] at h
  split at h <;> cases h
  rfl

/-- A byte outside of the eight is not changed by a store. -/
theorem byte_store (h : m.store a value = some m') (hx : 8 ≤ (x - a).toNat) :
    m'.byte x = m.byte x := by
  rw [store] at h
  split at h <;> cases h
  exact if_neg (by omega)

/-- What is not in a region is not in a block of the region. -/
theorem le_of_spans (h : Spans R a) (hx : ¬R x) : 8 ≤ (x - a).toNat := by
  by_contra hlt
  have hx' : x = a + BitVec.ofNat 64 (x - a).toNat := by bv_omega
  exact hx (hx' ▸ h _ (by omega))

/-- The memory outside of the eight bytes of a store is the same. -/
theorem sameOn_store (h : m.store a value = some m') (hR : ∀ x, R x → 8 ≤ (x - a).toNat) :
    SameOn R m' m := fun x hx => ⟨by rw [mapped_store h], byte_store h (hR x hx)⟩

/-- Being the same in a region is transitive. -/
theorem SameOn.trans (h : SameOn R m m') (h' : SameOn R m' m'') : SameOn R m m'' := fun x hx =>
  ⟨(h x hx).1.trans (h' x hx).1, (h x hx).2.trans (h' x hx).2⟩

/-- Being the same in a region is symmetric. -/
theorem SameOn.symm (h : SameOn R m m') : SameOn R m' m := fun x hx =>
  ⟨(h x hx).1.symm, (h x hx).2.symm⟩

/-- Memories that are the same in a region are so in a part of it. -/
theorem SameOn.mono {R' : Quad → Prop} (h : SameOn R m m') (hR : ∀ x, R' x → R x) :
    SameOn R' m m' := fun x hx => h x (hR x hx)

/-- Byte `i` of what was stored. -/
theorem byte_store_add (h : m.store a value = some m') {i : Nat} (hi : i < 8) :
    m'.byte (a + BitVec.ofNat 64 i) = value.extractLsb' (8 * i) 8 := by
  have hoffset : (a + BitVec.ofNat 64 i - a).toNat = i := by
    bv_omega
  rw [store] at h
  split at h <;> cases h
  change (if (a + BitVec.ofNat 64 i - a).toNat < 8 then _ else _) = _
  rw [hoffset, if_pos hi]

/-- A store succeeds where its bytes are mapped. -/
theorem spans_of_store (h : m.store a value = some m') : Spans (m.mapped · = true) a := by
  rw [store] at h
  split at h
  · assumption
  · cases h

/-- **A load behind a store** of the same place. -/
theorem load_store (h : m.store a value = some m') : m'.load a = some value := by
  rw [load_eq_some_iff, mapped_store h]
  refine ⟨spans_of_store h, BitVec.eq_of_getLsbD_eq fun i hi => ?_⟩
  rw [getLsbD_quadAt hi, byte_store_add h (by omega), BitVec.getLsbD_extractLsb', Nat.div_add_mod,
    decide_eq_true (by omega), Bool.true_and]

/-- What was stored is there. -/
theorem quadAt_store (h : m.store a value = some m') : m'.quadAt a = value :=
  (load_eq_some_iff.mp (load_store h)).2

/-- Being apart is symmetric. -/
theorem Apart.symm (h : Apart a b) : Apart b a := ⟨h.2, h.1⟩

/-- Every byte of a block is outside of a block apart from it. -/
theorem Apart.spans (h : Apart a b) : Spans (fun x => 8 ≤ (x - a).toNat) b := by
  intro i hi
  obtain ⟨hba, hab⟩ := h
  bv_omega

/-- What is in a block apart from a store does not change. -/
theorem quadAt_store_of_apart (h : m.store a value = some m') (hapart : Apart a b) :
    m'.quadAt b = m.quadAt b :=
  quadAt_congr fun i hi => byte_store h (hapart.spans i hi)

/-- Blocks whose addresses are that far apart, and do not wrap around. -/
theorem apart_of_toNat (h : a.toNat + 8 ≤ b.toNat ∨ b.toNat + 8 ≤ a.toNat)
    (ha : a.toNat + 8 ≤ 2 ^ 64) (hb : b.toNat + 8 ≤ 2 ^ 64) : Apart a b := by
  constructor <;> bv_omega

end Memory

/-! ### The machine -/

/-- The general registers. -/
inductive Reg where
  | rax
  | rcx
  | rdx
  | rbx
  | rsp
  | rbp
  | rsi
  | rdi
  | r8
  | r9
  | r10
  | r11
  | r12
  | r13
  | r14
  | r15
deriving DecidableEq, Repr

/-- The registers, the zero and the carry flag, and the memory. -/
structure CpuState where
  regs : Reg → Quad
  zero : Bool
  carry : Bool
  memory : Memory

/-- An operand: a register, a number, a place in memory, or the place of a symbol. -/
inductive Operand (σ : Type) where
  | reg (r : Reg)
  | imm (value : Quad)
  | mem (disp : Quad) (base : Reg)
  | rip (symbol : σ)
deriving DecidableEq, Repr

/-- The instructions. `movl` and `xorl` clear the upper half of the register. -/
inductive Instr (σ ℓ : Type) where
  | movq (src dst : Operand σ)
  | movabsq (value : Quad) (dst : Reg)
  | movl (value : BitVec 32) (dst : Reg)
  | xorl (src dst : Reg)
  | leaq (src : Operand σ) (dst : Reg)
  | addq (value : Quad) (dst : Reg)
  | subq (value : Quad) (dst : Reg)
  | cmpq (src dst : Operand σ)
  | testq (mask : Quad) (dst : Reg)
  | ja (target : ℓ)
  | jnz (target : ℓ)
  | call (target : σ)
  | ret
deriving DecidableEq, Repr

/-- A line of code. -/
inductive Line (σ ℓ : Type) where
  | label (name : ℓ)
  | instr (i : Instr σ ℓ)
deriving DecidableEq, Repr

/-- Where control goes behind an instruction. A call outside pushes no return address yet. -/
inductive Control (σ ℓ : Type) where
  | next (s : CpuState)
  | jump (target : ℓ) (s : CpuState)
  | calls (target : σ) (s : CpuState)
  | returns (address : Quad) (s : CpuState)
  | faults

/-- How a routine ends. `lost` is a jump to nowhere, or the end of the code. -/
inductive Ended (σ : Type) where
  | returned (address : Quad) (s : CpuState)
  | called (target : σ) (s : CpuState)
  | faulted
  | lost

namespace CpuState

/-- Put a value into a register. -/
def setReg (s : CpuState) (r : Reg) (value : Quad) : CpuState :=
  { s with regs := fun r' => if r' = r then value else s.regs r' }

/-- Set both flags. -/
def setFlags (s : CpuState) (zero carry : Bool) : CpuState := { s with zero, carry }

/-- Replace the memory. -/
def setMemory (s : CpuState) (memory : Memory) : CpuState := { s with memory }

variable (s : CpuState) (r r' : Reg) (value : Quad) (zero carry : Bool) (memory : Memory)

@[simp] theorem regs_setReg_self : (s.setReg r value).regs r = value := if_pos rfl

/-- The other registers keep their values. -/
@[simp] theorem regs_setReg_of_ne (h : r' ≠ r) : (s.setReg r value).regs r' = s.regs r' :=
  if_neg h

@[simp] theorem regs_setFlags : (s.setFlags zero carry).regs = s.regs := rfl

@[simp] theorem regs_setMemory : (s.setMemory memory).regs = s.regs := rfl

@[simp] theorem memory_setReg : (s.setReg r value).memory = s.memory := rfl

@[simp] theorem memory_setFlags : (s.setFlags zero carry).memory = s.memory := rfl

@[simp] theorem memory_setMemory : (s.setMemory memory).memory = memory := rfl

@[simp] theorem zero_setFlags : (s.setFlags zero carry).zero = zero := rfl

@[simp] theorem carry_setFlags : (s.setFlags zero carry).carry = carry := rfl

@[simp] theorem zero_setReg : (s.setReg r value).zero = s.zero := rfl

@[simp] theorem carry_setReg : (s.setReg r value).carry = s.carry := rfl

end CpuState

variable {σ ℓ : Type}

/-- Where an operand is, if it is in memory. -/
def Operand.address (link : σ → Quad) (s : CpuState) : Operand σ → Option Quad
  | mem disp base => some (s.regs base + disp)
  | rip symbol => some (link symbol)
  | _ => none

/-- The value of an operand; `none` is an access violation. -/
def Operand.read (link : σ → Quad) (s : CpuState) : Operand σ → Option Quad
  | reg r => some (s.regs r)
  | imm value => some value
  | mem disp base => s.memory.load (s.regs base + disp)
  | rip symbol => s.memory.load (link symbol)

/-- Write to an operand; `none` is an access violation, or a number as destination. -/
def Operand.write (link : σ → Quad) (s : CpuState) (value : Quad) : Operand σ → Option CpuState
  | reg r => some (s.setReg r value)
  | imm _ => none
  | mem disp base => (s.memory.store (s.regs base + disp) value).map s.setMemory
  | rip symbol => (s.memory.store (link symbol) value).map s.setMemory

/-- What an instruction does. -/
def Instr.exec (link : σ → Quad) (s : CpuState) : Instr σ ℓ → Control σ ℓ
  | movq src dst =>
      match (src.read link s).bind (dst.write link s) with
      | some s => .next s
      | none => .faults
  | movabsq value dst => .next (s.setReg dst value)
  | movl value dst => .next (s.setReg dst (value.setWidth 64))
  | xorl src dst =>
      let value := (s.regs dst ^^^ s.regs src) &&& 0xFFFFFFFF
      .next ((s.setReg dst value).setFlags (value == 0) false)
  | leaq src dst =>
      match src.address link s with
      | some address => .next (s.setReg dst address)
      | none => .faults
  | addq value dst =>
      let sum := s.regs dst + value
      .next ((s.setReg dst sum).setFlags (sum == 0) (sum.ult value))
  | subq value dst =>
      let difference := s.regs dst - value
      .next ((s.setReg dst difference).setFlags (difference == 0) ((s.regs dst).ult value))
  | cmpq src dst =>
      match src.read link s, dst.read link s with
      | some b, some a => .next (s.setFlags (a == b) (a.ult b))
      | _, _ => .faults
  | testq mask dst => .next (s.setFlags (s.regs dst &&& mask == 0) false)
  | ja target => if !s.carry && !s.zero then .jump target s else .next s
  | jnz target => if !s.zero then .jump target s else .next s
  | call target => .calls target s
  | ret =>
      match s.memory.load (s.regs .rsp) with
      | some address => .returns address (s.setReg .rsp (s.regs .rsp + 8))
      | none => .faults

section Exec

variable {link : σ → Quad} {s s' : CpuState} {src dst : Operand σ} {value : Quad}

/-- Reading a place in memory is a load. -/
theorem read_mem {disp address : Quad} {base : Reg} (haddress : s.regs base + disp = address)
    (h : s.memory.load address = some value) :
    (Operand.mem (σ := σ) disp base).read link s = some value := by
  subst haddress
  exact h

/-- Reading a register always succeeds. -/
theorem read_reg (r : Reg) (h : s.regs r = value) :
    (Operand.reg (σ := σ) r).read link s = some value := congrArg some h

/-- Reading a symbol is a load from its place. -/
theorem read_rip {symbol : σ} (h : s.memory.load (link symbol) = some value) :
    (Operand.rip symbol).read link s = some value := h

/-- Writing to a place in memory is a store. -/
theorem write_mem {disp address : Quad} {base : Reg} {memory : Memory}
    (haddress : s.regs base + disp = address) (h : s.memory.store address value = some memory) :
    (Operand.mem (σ := σ) disp base).write link s value = some (s.setMemory memory) := by
  subst haddress
  exact congrArg (Option.map s.setMemory) h

/-- Writing to a symbol is a store to its place. -/
theorem write_rip {symbol : σ} {memory : Memory}
    (h : s.memory.store (link symbol) value = some memory) :
    (Operand.rip symbol).write link s value = some (s.setMemory memory) :=
  congrArg (Option.map s.setMemory) h

/-- A move whose read and write both succeed. -/
theorem exec_movq (hread : src.read link s = some value) (hwrite : dst.write link s value = some s') :
    (Instr.movq (ℓ := ℓ) src dst).exec link s = .next s' := by
  rw [Instr.exec, hread, Option.bind_some, hwrite]

/-- An access violation in the operand that is read. -/
theorem exec_movq_faults (hread : src.read link s = none) :
    (Instr.movq (ℓ := ℓ) src dst).exec link s = .faults := by
  rw [Instr.exec, hread, Option.bind_none]

/-- An address is computed without access to memory. -/
theorem exec_leaq {r : Reg} (h : src.address link s = some value) :
    (Instr.leaq (ℓ := ℓ) src r).exec link s = .next (s.setReg r value) := by
  simp only [Instr.exec, h]

/-- A comparison sets the flags from the two values, the destination first. -/
theorem exec_cmpq {a b : Quad} (hsrc : src.read link s = some b) (hdst : dst.read link s = some a) :
    (Instr.cmpq (ℓ := ℓ) src dst).exec link s = .next (s.setFlags (a == b) (a.ult b)) := by
  simp only [Instr.exec, hsrc, hdst]

/-- `ja` jumps where neither flag is set. -/
theorem exec_ja {target : ℓ} (hcarry : s.carry = false) (hzero : s.zero = false) :
    (Instr.ja (σ := σ) target).exec link s = .jump target s :=
  if_pos (by rw [hcarry, hzero]; rfl)

/-- Where one of the flags is set, `ja` does not jump. -/
theorem exec_ja_next {target : ℓ} (h : s.carry = true ∨ s.zero = true) :
    (Instr.ja (σ := σ) target).exec link s = .next s :=
  if_neg (by rcases h with h | h <;> simp [h])

/-- Where the zero flag is not set, `jnz` jumps. -/
theorem exec_jnz {target : ℓ} (h : s.zero = false) :
    (Instr.jnz (σ := σ) target).exec link s = .jump target s :=
  if_pos (by rw [h]; rfl)

/-- Where the zero flag is set, `jnz` does not jump. -/
theorem exec_jnz_next {target : ℓ} (h : s.zero = true) :
    (Instr.jnz (σ := σ) target).exec link s = .next s :=
  if_neg (by simp [h])

/-- A return loads the address at the stack pointer and pops it. -/
theorem exec_ret {address : Quad} (h : s.memory.load (s.regs .rsp) = some address) :
    (Instr.ret (σ := σ) (ℓ := ℓ)).exec link s =
      .returns address (s.setReg .rsp (s.regs .rsp + 8)) := by
  simp only [Instr.exec, h]

end Exec

/-- The line of a label. -/
def lineOf [DecidableEq σ] [DecidableEq ℓ] (code : List (Line σ ℓ)) (name : ℓ) : Nat :=
  code.idxOf (.label name)

/-- The run of a routine from a line on; `none` is not enough fuel. -/
def runCode [DecidableEq σ] [DecidableEq ℓ] (code : List (Line σ ℓ)) (link : σ → Quad) :
    Nat → Nat → CpuState → Option (Ended σ)
  | 0, _, _ => none
  | fuel + 1, line, s =>
      match code[line]? with
      | none => some .lost
      | some (.label _) => runCode code link fuel (line + 1) s
      | some (.instr i) =>
          match i.exec link s with
          | .next s => runCode code link fuel (line + 1) s
          | .jump target s => runCode code link fuel (lineOf code target) s
          | .calls target s => some (.called target s)
          | .returns address s => some (.returned address s)
          | .faults => some .faulted

section Steps

variable [DecidableEq σ] [DecidableEq ℓ] {code : List (Line σ ℓ)} {link : σ → Quad}
  {fuel line : Nat} {s s' : CpuState} {i : Instr σ ℓ}

/-- One line of a run. -/
theorem runCode_succ :
    runCode code link (fuel + 1) line s =
      match code[line]? with
      | none => some .lost
      | some (.label _) => runCode code link fuel (line + 1) s
      | some (.instr i) =>
          match i.exec link s with
          | .next s => runCode code link fuel (line + 1) s
          | .jump target s => runCode code link fuel (lineOf code target) s
          | .calls target s => some (.called target s)
          | .returns address s => some (.returned address s)
          | .faults => some .faulted := rfl

/-- A label does nothing. -/
theorem runCode_label {name : ℓ} (h : code[line]? = some (.label name)) :
    runCode code link (fuel + 1) line s = runCode code link fuel (line + 1) s := by
  simp only [runCode_succ, h]

/-- An instruction behind which control goes on. -/
theorem runCode_next (h : code[line]? = some (.instr i)) (hexec : i.exec link s = .next s') :
    runCode code link (fuel + 1) line s = runCode code link fuel (line + 1) s' := by
  simp only [runCode_succ, h, hexec]

/-- A jump that is taken. -/
theorem runCode_jump {target : ℓ} (h : code[line]? = some (.instr i))
    (hexec : i.exec link s = .jump target s') :
    runCode code link (fuel + 1) line s = runCode code link fuel (lineOf code target) s' := by
  simp only [runCode_succ, h, hexec]

/-- A call outside ends the run. -/
theorem runCode_calls {target : σ} (h : code[line]? = some (.instr i))
    (hexec : i.exec link s = .calls target s') :
    runCode code link (fuel + 1) line s = some (.called target s') := by
  simp only [runCode_succ, h, hexec]

/-- The return to the caller. -/
theorem runCode_returns {address : Quad} (h : code[line]? = some (.instr i))
    (hexec : i.exec link s = .returns address s') :
    runCode code link (fuel + 1) line s = some (.returned address s') := by
  simp only [runCode_succ, h, hexec]

/-- An access violation ends the run. -/
theorem runCode_faults (h : code[line]? = some (.instr i)) (hexec : i.exec link s = .faults) :
    runCode code link (fuel + 1) line s = some .faulted := by
  simp only [runCode_succ, h, hexec]

/-- More fuel changes no run that ends. -/
theorem runCode_mono {ended : Ended σ} (h : runCode code link fuel line s = some ended)
    (extra : Nat) : runCode code link (fuel + extra) line s = some ended := by
  induction fuel generalizing line s with
  | zero => cases h
  | succ fuel ih =>
      rw [Nat.succ_add]
      rw [runCode_succ] at h ⊢
      cases hline : code[line]? with
      | none => rwa [hline] at h
      | some current =>
          rw [hline] at h
          cases current with
          | label name => exact ih h
          | instr i =>
              simp only at h ⊢
              cases hexec : i.exec link s with
              | next s' =>
                  rw [hexec] at h
                  exact ih h
              | jump target s' =>
                  rw [hexec] at h
                  exact ih h
              | calls target s' => rwa [hexec] at h
              | returns address s' => rwa [hexec] at h
              | faults => rwa [hexec] at h

/-- Two runs of one routine end alike. -/
theorem runCode_unique {fuel' : Nat} {ended ended' : Ended σ}
    (h : runCode code link fuel line s = some ended)
    (h' : runCode code link fuel' line s = some ended') : ended = ended' := by
  have hmore := runCode_mono h fuel'
  rw [Nat.add_comm, runCode_mono h' fuel] at hmore
  exact (Option.some.inj hmore).symm

end Steps

end Effects
