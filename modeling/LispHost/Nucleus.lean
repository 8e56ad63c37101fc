import LispHost.Lib.X64
import LispHost.Lib.Transition
import LispHost.Reader

/-!
# The Nucleus

The arena, its allocator and its accessors are assembly code: seven leaf routines over a block of
4096 bytes and two variables. This module has their code, as it stands, and what each routine does
from any state in which it can be entered, down to the registers and the bytes that it changes.
`wsm_fail_win64`, which does not return, is the one thing they call.

## Main definitions

* `nucleus`: the code.
* `DataLayout`, `DataLayout.image`: where the linker puts the data, and what they are at first.
* `HoldsArena`: the memory of the machine is that of an `Arena`.
* `NucleusCall`, `Entered`, `Yields`: a call, how it is made, and how it ends.
* `NucleusStep`: what a call does to an `Arena`.
-/

namespace LispHost

open Effects Instr Operand

/-! ### The code -/

/-- The symbols of the data section, and the one that is defined elsewhere. -/
inductive NucleusSymbol where
  | wsmArena
  | wsmArenaNext
  | wsmArenaEnd
  | wsmFailWin64
deriving DecidableEq, Repr

/-- The labels. The local label `1` of `wsm_eq` and that of `wsm_atom` get names. -/
inductive NucleusLabel where
  | wsmCons
  | wsmConsOom
  | wsmCar
  | wsmCarTypeError
  | wsmCdr
  | wsmCdrTypeError
  | wsmEq
  | wsmEqDone
  | wsmAtom
  | wsmAtomDone
  | wsmArenaReset
  | wsmArenaCapacity
deriving DecidableEq, Repr

/-- `nucleus-win64.s`. -/
def nucleus : List (Line NucleusSymbol NucleusLabel) :=
  [ .label .wsmCons,
    .instr (movq (rip .wsmArenaNext) (reg .rax)),
    .instr (leaq (mem 16 .rax) .r9),
    .instr (cmpq (rip .wsmArenaEnd) (reg .r9)),
    .instr (ja .wsmConsOom),
    .instr (movq (reg .rdx) (mem 0 .rax)),
    .instr (movq (reg .r8) (mem 8 .rax)),
    .instr (movq (reg .r9) (rip .wsmArenaNext)),
    .instr ret,
    .label .wsmConsOom,
    .instr (subq 40 .rsp),
    .instr (movl 1 .rcx),
    .instr (xorl .rdx .rdx),
    .instr (xorl .r8 .r8),
    .instr (call .wsmFailWin64),
    .instr (addq 40 .rsp),
    .instr ret,
    .label .wsmCar,
    .instr (testq tagMask .rdx),
    .instr (jnz .wsmCarTypeError),
    .instr (movq (reg .rdx) (reg .rax)),
    .instr (movq (mem 0 .rax) (reg .rax)),
    .instr ret,
    .label .wsmCarTypeError,
    .instr (subq 40 .rsp),
    .instr (movl 2 .rcx),
    .instr (xorl .rdx .rdx),
    .instr (xorl .r8 .r8),
    .instr (call .wsmFailWin64),
    .instr (addq 40 .rsp),
    .instr ret,
    .label .wsmCdr,
    .instr (testq tagMask .rdx),
    .instr (jnz .wsmCdrTypeError),
    .instr (movq (reg .rdx) (reg .rax)),
    .instr (movq (mem 8 .rax) (reg .rax)),
    .instr ret,
    .label .wsmCdrTypeError,
    .instr (subq 40 .rsp),
    .instr (movl 2 .rcx),
    .instr (xorl .rdx .rdx),
    .instr (xorl .r8 .r8),
    .instr (call .wsmFailWin64),
    .instr (addq 40 .rsp),
    .instr ret,
    .label .wsmEq,
    .instr (movl 1 .rax),
    .instr (cmpq (reg .r8) (reg .rdx)),
    .instr (jnz .wsmEqDone),
    .instr (movabsq symTWord .rax),
    .label .wsmEqDone,
    .instr ret,
    .label .wsmAtom,
    .instr (movabsq symTWord .rax),
    .instr (testq tagMask .rdx),
    .instr (jnz .wsmAtomDone),
    .instr (movl 1 .rax),
    .label .wsmAtomDone,
    .instr ret,
    .label .wsmArenaReset,
    .instr (leaq (rip .wsmArena) .rax),
    .instr (movq (reg .rax) (rip .wsmArenaNext)),
    .instr ret,
    .label .wsmArenaCapacity,
    .instr (movl 256 .rax),
    .instr ret ]

/-! ### The data -/

/-- Where the linker puts the data, in the half of the address space that user memory is in. The
arena is in `.bss`, and the two variables, one behind the other, are in `.data`. -/
structure DataLayout (P : Platform) where
  link : NucleusSymbol → Quad
  link_arena : link .wsmArena = BitVec.ofNat 64 P.arenaBase
  link_end : link .wsmArenaEnd = link .wsmArenaNext + 8
  arena_fits : P.arenaBase + 4096 ≤ 2 ^ 47
  data_fits : (link .wsmArenaNext).toNat + 16 ≤ 2 ^ 47
  apart : (link .wsmArenaNext).toNat + 16 ≤ P.arenaBase ∨
    P.arenaBase + 4096 ≤ (link .wsmArenaNext).toNat

variable {P : Platform}

/-- The bytes of the arena and of the two variables. -/
def DataLayout.Owned (L : DataLayout P) (x : Quad) : Prop :=
  (P.arenaBase ≤ x.toNat ∧ x.toNat < P.arenaBase + 4096) ∨
    ((L.link .wsmArenaNext).toNat ≤ x.toNat ∧ x.toNat < (L.link .wsmArenaNext).toNat + 16)

/-- The data as the assembler lays them out: zeros, and the bounds of the arena. -/
def DataLayout.image (L : DataLayout P) : Memory :=
  let zeros : Memory := { mapped := fun _ => true, byte := fun _ => 0 }
  (zeros.put (L.link .wsmArenaNext) (L.link .wsmArena)).put (L.link .wsmArenaEnd)
    (L.link .wsmArena + 4096)

/-- The address of word `i` of the arena. -/
def wordAddress (P : Platform) (i : Nat) : Quad := BitVec.ofNat 64 (P.arenaBase + 8 * i)

/-- The memory is that of the arena. -/
structure HoldsArena (L : DataLayout P) (m : Memory) (arena : Arena) : Prop where
  mapped : ∀ x, L.Owned x → m.mapped x = true
  next : m.quadAt (L.link .wsmArenaNext) = cellWord P arena.next
  fin : m.quadAt (L.link .wsmArenaEnd) = cellWord P arenaCells
  words : ∀ i < 2 * arenaCells, m.quadAt (wordAddress P i) = arena.memory i

/-! ### Calls -/

/-- A call of one of the routines, with its arguments. -/
inductive NucleusCall where
  | cons (car cdr : Word)
  | car (pair : Word)
  | cdr (pair : Word)
  | eq (left right : Word)
  | atom (value : Word)
  | reset
  | capacity
deriving DecidableEq, Repr

/-- What comes of a call: the word in `rax`, or the call of `wsm_fail_win64`. -/
inductive NucleusOutcome where
  | value (word : Word)
  | failed (code : ErrorCode)
deriving DecidableEq, Repr

/-- The routine that is called. -/
def NucleusCall.label : NucleusCall → NucleusLabel
  | cons _ _ => .wsmCons
  | car _ => .wsmCar
  | cdr _ => .wsmCdr
  | eq _ _ => .wsmEq
  | atom _ => .wsmAtom
  | reset => .wsmArenaReset
  | capacity => .wsmArenaCapacity

/-- The arguments are in their registers; the context in `rcx` is ignored. -/
def NucleusCall.Passed (s : CpuState) : NucleusCall → Prop
  | cons first second => s.regs .rdx = first ∧ s.regs .r8 = second
  | car pair => s.regs .rdx = pair
  | cdr pair => s.regs .rdx = pair
  | eq left right => s.regs .rdx = left ∧ s.regs .r8 = right
  | atom value => s.regs .rdx = value
  | reset => True
  | capacity => True

/-- An accessor is called on a word that is no pair, or reads in the arena. -/
def NucleusCall.Inside (P : Platform) : NucleusCall → Prop
  | car pair => tagOf pair = tagCons → P.arenaBase ≤ pair.toNat ∧
      pair.toNat + 8 ≤ P.arenaBase + 4096
  | cdr pair => tagOf pair = tagCons → P.arenaBase ≤ pair.toNat + 8 ∧
      pair.toNat + 16 ≤ P.arenaBase + 4096
  | _ => True

/-- A state behind a `call` of a routine: the arguments are passed, and the return address is on
the stack, which is somewhere else than the data and one word off a multiple of 16. -/
structure Entered (L : DataLayout P) (call : NucleusCall) (s : CpuState) : Prop where
  passed : call.Passed s
  mapped : Memory.Spans (s.memory.mapped · = true) (s.regs .rsp)
  apart : Memory.Spans (fun x => ¬L.Owned x) (s.regs .rsp)
  aligned : (s.regs .rsp).toNat % 16 = 8

/-- The code that is passed to `wsm_fail_win64`. -/
def ErrorCode.number : ErrorCode → Quad
  | outOfMemory => 1
  | type => 2

/-- How a call ends. A routine returns to its caller, with the value in `rax` and `r9` for
scratch; all other registers are kept. Or it calls `wsm_fail_win64`, with the stack pointer on a
multiple of 16 and the 32 bytes of shadow space above it. -/
inductive Yields (s : CpuState) : Ended NucleusSymbol → NucleusOutcome → Memory → Prop where
  | returned {t : CpuState} {word : Word} {m' : Memory} (rax : t.regs .rax = word)
      (rsp : t.regs .rsp = s.regs .rsp + 8)
      (kept : ∀ r, r ≠ .rax → r ≠ .r9 → r ≠ .rsp → t.regs r = s.regs r)
      (memory : t.memory = m') :
      Yields s (.returned (s.memory.quadAt (s.regs .rsp)) t) (.value word) m'
  | failed {t : CpuState} {code : ErrorCode} {m' : Memory} (rcx : t.regs .rcx = code.number)
      (rdx : t.regs .rdx = 0) (r8 : t.regs .r8 = 0) (rsp : t.regs .rsp = s.regs .rsp - 40)
      (aligned : (t.regs .rsp).toNat % 16 = 0) (memory : t.memory = m') :
      Yields s (.called .wsmFailWin64 t) (.failed code) m'

/-- What a call does to an arena. What `wsm_arena_reset` leaves in `rax` is no result. -/
inductive NucleusStep (P : Platform) (arena : Arena) :
    NucleusCall × NucleusOutcome → Arena → Prop where
  | cons {car cdr word : Word} {arena' : Arena} :
      arena.cons P car cdr = some (word, arena') →
      NucleusStep P arena (.cons car cdr, .value word) arena'
  | consFails {car cdr : Word} : arena.cons P car cdr = none →
      NucleusStep P arena (.cons car cdr, .failed .outOfMemory) arena
  | car {pair word : Word} : wsmCar P arena pair = .ok word →
      NucleusStep P arena (.car pair, .value word) arena
  | carFails {pair : Word} {code : ErrorCode} : wsmCar P arena pair = .error (.wsmFail code) →
      NucleusStep P arena (.car pair, .failed code) arena
  | cdr {pair word : Word} : wsmCdr P arena pair = .ok word →
      NucleusStep P arena (.cdr pair, .value word) arena
  | cdrFails {pair : Word} {code : ErrorCode} : wsmCdr P arena pair = .error (.wsmFail code) →
      NucleusStep P arena (.cdr pair, .failed code) arena
  | eq {left right : Word} : NucleusStep P arena
      (.eq left right, .value (if left = right then symTWord else wordNil)) arena
  | atom {value : Word} : NucleusStep P arena
      (.atom value, .value (if tagOf value = tagCons then wordNil else symTWord)) arena
  | reset (word : Word) : NucleusStep P arena (.reset, .value word) arena.reset
  | capacity : NucleusStep P arena
      (.capacity, .value (BitVec.ofNat 64 wsmArenaCapacity)) arena

end LispHost
