import Mathlib.Data.Nat.Bitwise

/-!
# Machine Words

The runtime represents every Lisp value by one 64-bit word: three tag bits at the bottom
and a 61-bit payload above them. This module has the tags, the encodings of fixnums and
symbols, and `Platform`, which collects what the runtime takes from outside the
repository: where the arena is linked, the codec for boxed handles, and the surface
spellings that the build generates from the semantic registry.

## Main definitions

* `tagOf`, `isTruthy`, `encodeFixnum`, `decodeFixnum`, `symbolWord`.
* `Exit`: the ways in which a call can end the process.
* `Platform`: the external codec, addresses and spellings, with what they guarantee.

## Main results

* `toNat_tagged`: a tagged payload as a number, from which `tagOf_tagged` and
  `payload_symbolWord` read the two halves back.
-/

namespace LispHost

/-- A 64-bit word. The same bits serve as `u64` and, where the code casts, as `i64`. -/
abbrev Word : Type := BitVec 64

/-- The low three bits of a word are its tag. -/
def tagMask : Word := 7
/-- The tag of a pair; the word is the address of its cell. -/
def tagCons : Word := 0
/-- The tag of the empty list. -/
def tagNil : Word := 1
/-- The tag of a small integer. -/
def tagFixnum : Word := 3
/-- The tag of a symbol. -/
def tagSymbol : Word := 4
/-- The tag of a handle into the table of boxed values. -/
def tagBoxed : Word := 7

/-- The empty list. -/
def wordNil : Word := tagNil

/-- The tag of a word. -/
def tagOf (word : Word) : Word := word &&& tagMask

/-- Every word but `()` counts as true in a `cond` test. -/
def isTruthy (word : Word) : Bool := word != wordNil

/-- The word of an `i64`. The shift drops the three top bits of the value. -/
def encodeFixnum (value : Word) : Word := (value <<< 3) ||| tagFixnum

/-- The integer of a fixnum; the shift keeps its sign. -/
def decodeFixnum (word : Word) : Word := word.sshiftRight 3

/-- The word of the symbol with the given id. -/
def symbolWord (id : Nat) : Word := (BitVec.ofNat 64 id <<< 3) ||| tagSymbol

/-- The id reserved for the canonical `t`. -/
def symTId : Nat := 0x1FFFFFFFFFFFFFFF

/-- The word of the symbol `t`. -/
def symTWord : Word := symbolWord symTId

/-- A bound on everything the process can hold: linear addresses of the target have at
most 57 bits, so no string and no table has this many entries. -/
def addressSpace : Nat := 2 ^ 57

/-- The codes `wsm_fail_win64` is called with. -/
inductive ErrorCode where
  | outOfMemory
  | type
deriving DecidableEq, Repr

/-- How a call can end the process. -/
inductive Exit where
  /-- The nucleus called `wsm_fail_win64`, which exits. -/
  | wsmFail (code : ErrorCode)
  /-- A growing table could not be allocated, which aborts. -/
  | allocation
  /-- A load outside the arena. -/
  | accessViolation
  /-- A host primitive ended the process. -/
  | host
deriving DecidableEq, Repr

/-! ### Tags and payloads -/

/-- **A tagged payload as a number.** -/
theorem toNat_tagged (payload tag : Word) (htag : tag.toNat < 8) :
    ((payload <<< 3) ||| tag).toNat = 8 * (payload.toNat % 2 ^ 61) + tag.toNat := by
  rw [BitVec.toNat_or, BitVec.toNat_shiftLeft, Nat.shiftLeft_eq]
  have hshift : payload.toNat * 2 ^ 3 % 2 ^ 64 = 2 ^ 3 * (payload.toNat % 2 ^ 61) := by
    omega
  rw [hshift, ← Nat.two_pow_add_eq_or_of_lt htag]

/-- The tag as a number is the word modulo eight. -/
theorem toNat_tagOf (word : Word) : (tagOf word).toNat = word.toNat % 8 := by
  rw [tagOf, BitVec.toNat_and]
  exact Nat.and_two_pow_sub_one_eq_mod _ 3

/-- A word has a tag exactly if they agree modulo eight. -/
theorem tagOf_eq_iff {word tag : Word} : tagOf word = tag ↔ word.toNat % 8 = tag.toNat := by
  rw [← toNat_tagOf, BitVec.toNat_inj]

/-- The tag of a tagged payload is the tag. -/
theorem tagOf_tagged (payload tag : Word) (htag : tag.toNat < 8) :
    tagOf ((payload <<< 3) ||| tag) = tag := by
  rw [tagOf_eq_iff, toNat_tagged payload tag htag]
  omega

@[simp] theorem tagOf_wordNil : tagOf wordNil = tagNil := rfl

/-- An encoded integer has the tag of a fixnum. -/
@[simp] theorem tagOf_encodeFixnum (value : Word) : tagOf (encodeFixnum value) = tagFixnum :=
  tagOf_tagged value tagFixnum (by decide)

/-- The word of a symbol has the tag of one. -/
@[simp] theorem tagOf_symbolWord (id : Nat) : tagOf (symbolWord id) = tagSymbol :=
  tagOf_tagged _ tagSymbol (by decide)

/-- So has the word of `t`. -/
@[simp] theorem tagOf_symTWord : tagOf symTWord = tagSymbol := tagOf_symbolWord _

/-- The payload of a symbol word is the id. -/
theorem payload_symbolWord {id : Nat} (hid : id < 2 ^ 61) :
    (symbolWord id >>> 3).toNat = id := by
  have hword : (symbolWord id).toNat = 8 * id + 4 := by
    rw [symbolWord, toNat_tagged _ _ (by decide), BitVec.toNat_ofNat]
    have : tagSymbol.toNat = 4 := rfl
    omega
  rw [BitVec.toNat_ushiftRight, Nat.shiftRight_eq_div_pow, hword]
  omega

/-- A symbol word is the word of its payload. -/
theorem symbolWord_payload {word : Word} (h : tagOf word = tagSymbol) :
    symbolWord (word >>> 3).toNat = word := by
  have hmod : word.toNat % 8 = 4 := tagOf_eq_iff.mp h
  have hlt := word.isLt
  have htag : tagSymbol.toNat = 4 := rfl
  apply BitVec.eq_of_toNat_eq
  rw [symbolWord, toNat_tagged _ _ (by decide), BitVec.toNat_ofNat, BitVec.toNat_ushiftRight,
    Nat.shiftRight_eq_div_pow]
  omega

/-- Distinct ids in range have distinct words. -/
theorem symbolWord_inj {id id' : Nat} (hid : id < 2 ^ 61) (hid' : id' < 2 ^ 61)
    (h : symbolWord id = symbolWord id') : id = id' := by
  rw [← payload_symbolWord hid, h, payload_symbolWord hid']

/-! ### The platform -/

/-- What the runtime takes from outside the repository. The arena is a 4096-byte block
that the linker places on a 16-byte boundary. `encodeBoxed` and `decodeBoxed` are the
external codec for boxed handles; they are inverse to each other on non-zero 61-bit
handles and the tag `tagBoxed`. The spellings are generated from the registry.
`debugEscapes` says which characters the standard library's Unicode tables make its debug
formatting write as an escape. -/
structure Platform where
  arenaBase : Nat
  arenaBase_aligned : arenaBase % 16 = 0
  arenaBase_fits : arenaBase + 4096 ≤ 2 ^ 64
  encodeBoxed : Nat → Option Word
  decodeBoxed : Word → Option Nat
  encodeBoxed_zero : encodeBoxed 0 = none
  encodeBoxed_isSome : ∀ handle, 0 < handle → handle < 2 ^ 61 → (encodeBoxed handle).isSome
  tagOf_encodeBoxed : ∀ handle word, encodeBoxed handle = some word → tagOf word = tagBoxed
  decodeBoxed_encodeBoxed : ∀ handle word, encodeBoxed handle = some word →
    decodeBoxed word = some handle
  encodeBoxed_decodeBoxed : ∀ word handle, decodeBoxed word = some handle →
    encodeBoxed handle = some word
  quoteSpellings : List String
  carSpellings : List String
  cdrSpellings : List String
  condSpellings : List String
  debugEscapes : Char → Bool

namespace Platform

variable (P : Platform)

/-- Only words with the boxed tag decode. -/
theorem tagOf_of_decodeBoxed {word : Word} {handle : Nat}
    (h : P.decodeBoxed word = some handle) : tagOf word = tagBoxed :=
  P.tagOf_encodeBoxed handle word (P.encodeBoxed_decodeBoxed word handle h)

/-- A word with another tag is no handle. -/
theorem decodeBoxed_eq_none {word : Word} (h : tagOf word ≠ tagBoxed) :
    P.decodeBoxed word = none := by
  cases hdec : P.decodeBoxed word with
  | none => rfl
  | some handle => exact absurd (P.tagOf_of_decodeBoxed hdec) h

/-- Handles are counted from one. -/
theorem decodeBoxed_pos {word : Word} {handle : Nat}
    (h : P.decodeBoxed word = some handle) : 0 < handle := by
  rcases Nat.eq_zero_or_pos handle with rfl | hpos
  · have henc := P.encodeBoxed_decodeBoxed word 0 h
    rw [P.encodeBoxed_zero] at henc
    exact absurd henc (by simp)
  · exact hpos

/-- Distinct handles have distinct words. -/
theorem encodeBoxed_inj {handle handle' : Nat} {word : Word}
    (h : P.encodeBoxed handle = some word) (h' : P.encodeBoxed handle' = some word) :
    handle = handle' := by
  have hdec := P.decodeBoxed_encodeBoxed handle word h
  rw [P.decodeBoxed_encodeBoxed handle' word h'] at hdec
  exact (Option.some.inj hdec).symm

end Platform

/-- A platform with the arena at a fixed address, the tag-and-shift codec, and the
spellings that the runtime's own tests use. -/
def Platform.standard : Platform where
  arenaBase := 0x140000000
  arenaBase_aligned := by decide
  arenaBase_fits := by decide
  encodeBoxed handle :=
    if 0 < handle ∧ handle < 2 ^ 61 then some ((BitVec.ofNat 64 handle <<< 3) ||| tagBoxed)
    else none
  decodeBoxed word :=
    if tagOf word = tagBoxed ∧ word.toNat / 8 ≠ 0 then some (word.toNat / 8) else none
  encodeBoxed_zero := by decide
  encodeBoxed_isSome := fun handle h₀ h₁ => by
    rw [if_pos ⟨h₀, h₁⟩]
    rfl
  tagOf_encodeBoxed := fun handle word h => by
    simp only [Option.ite_none_right_eq_some, Option.some.injEq] at h
    obtain ⟨-, rfl⟩ := h
    exact tagOf_tagged _ tagBoxed (by decide)
  decodeBoxed_encodeBoxed := fun handle word h => by
    simp only [Option.ite_none_right_eq_some, Option.some.injEq] at h
    obtain ⟨⟨hpos, hlt⟩, rfl⟩ := h
    have htag : tagBoxed.toNat = 7 := rfl
    rw [tagOf_tagged _ tagBoxed (by decide), toNat_tagged _ tagBoxed (by decide),
      BitVec.toNat_ofNat, if_pos ⟨rfl, by omega⟩]
    exact congrArg some (by omega)
  encodeBoxed_decodeBoxed := fun word handle h => by
    simp only [Option.ite_none_right_eq_some, Option.some.injEq] at h
    obtain ⟨⟨htag, hne⟩, rfl⟩ := h
    have hlt := word.isLt
    have hmod : word.toNat % 8 = 7 := tagOf_eq_iff.mp htag
    rw [if_pos ⟨by omega, by omega⟩, Option.some.injEq]
    apply BitVec.eq_of_toNat_eq
    have htag : tagBoxed.toNat = 7 := rfl
    rw [toNat_tagged _ tagBoxed (by decide), BitVec.toNat_ofNat]
    omega
  quoteSpellings := ["quote", "як-є", "svarūpa", "'"]
  carSpellings := ["car", "перше"]
  cdrSpellings := ["cdr", "решта"]
  condSpellings := ["cond", "за-умовою"]
  debugEscapes c := c.toNat < 0x20 || c.toNat == 0x7F

end LispHost
