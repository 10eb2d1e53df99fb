import Mathlib
import Moonfort.SecureHash

/-!
# The C implementations of SHA-256

The state machine that `secure_fs.c`, `secure_snapshot.c` and `runtime.c` carry in three
copies. Words and counters wrap around as in C; an access outside the block or the input
answers `none`.

The implementations compute SHA-256: the state after some calls holds the hash value of the
whole blocks taken up so far, and the block buffer starts with the bytes behind them.
-/

namespace Moonfort.Sha256

/-- `uint32_t`. -/
abbrev Word := BitVec 32

/-- `unsigned char block[64]`. -/
structure Block where
  bytes : List UInt8
  length_bytes : bytes.length = 64

/-- `struct sha256_state`. -/
structure State where
  words : Vector Word 8
  bytes : BitVec 64
  block : Block
  used : BitVec 64

namespace Block

/-- `block[index]`. -/
def get (block : Block) (index : Fin 64) : UInt8 :=
  block.bytes.get (index.cast block.length_bytes.symm)

/-- Storing bytes from an index on, inside the block only. -/
def store? (block : Block) (start : ℕ) (data : List UInt8) : Option Block :=
  if h : start + data.length ≤ 64 then
    some {
      bytes := block.bytes.take start ++ data ++ block.bytes.drop (start + data.length)
      length_bytes := by
        have := block.length_bytes
        simp only [List.length_append, List.length_take, List.length_drop]
        omega }
  else none

/-- `memcpy(block + start, input, count)`. -/
def copy? (block : Block) (start : BitVec 64) (input : List UInt8) (count : BitVec 64) :
    Option Block :=
  if count.toNat ≤ input.length then block.store? start.toNat (input.take count.toNat) else none

/-- `memset(block + start, 0, count)`. -/
def clear? (block : Block) (start count : BitVec 64) : Option Block :=
  block.store? start.toNat (List.replicate count.toNat 0)

end Block

/-- `rotate_right(value, amount)`. -/
def rotateRight (value : Word) (amount : ℕ) : Word :=
  value >>> amount ||| value <<< (32 - amount)

/-- `(uint32_t)byte`. -/
def widen (byte : UInt8) : Word := byte.toBitVec.setWidth 32

/-- `(unsigned char)value`. -/
def narrow {w : ℕ} (value : BitVec w) : UInt8 := UInt8.ofBitVec (value.setWidth 8)

/-- The word at `block + index * 4`. -/
def inputWord (block : Block) (index : Fin 16) : Word :=
  widen (block.get ⟨index * 4, by omega⟩) <<< 24 |||
    widen (block.get ⟨index * 4 + 1, by omega⟩) <<< 16 |||
      widen (block.get ⟨index * 4 + 2, by omega⟩) <<< 8 |||
        widen (block.get ⟨index * 4 + 3, by omega⟩)

/-- The schedule after its first 16 words and `count` turns of the second loop, at
`index = 16 + count`. -/
def schedule : (block : Block) → (count : ℕ) → Vector Word (16 + count)
  | block, 0 => Vector.ofFn (inputWord block)
  | block, count + 1 =>
    let schedule := schedule block count
    let s0 :=
      rotateRight schedule[16 + count - 15] 7 ^^^ rotateRight schedule[16 + count - 15] 18 ^^^
      schedule[16 + count - 15] >>> 3
    let s1 :=
      rotateRight schedule[16 + count - 2] 17 ^^^ rotateRight schedule[16 + count - 2] 19 ^^^
      schedule[16 + count - 2] >>> 10
    schedule.push (schedule[16 + count - 16] + s0 + schedule[16 + count - 7] + s1)

/-- The local variables of the compression loop. -/
structure Locals where
  a : Word
  b : Word
  c : Word
  d : Word
  e : Word
  f : Word
  g : Word
  h : Word

/-- One turn of the compression loop. -/
def turn (constant word : Word) (l : Locals) : Locals :=
  let upper := rotateRight l.e 6 ^^^ rotateRight l.e 11 ^^^ rotateRight l.e 25
  let choice := (l.e &&& l.f) ^^^ (~~~l.e &&& l.g)
  let first := l.h + upper + choice + constant + word
  let lower := rotateRight l.a 2 ^^^ rotateRight l.a 13 ^^^ rotateRight l.a 22
  let majority := (l.a &&& l.b) ^^^ (l.a &&& l.c) ^^^ (l.b &&& l.c)
  let second := lower + majority
  { h := l.g, g := l.f, f := l.e, e := l.d + first, d := l.c, c := l.b, b := l.a,
    a := first + second }

/-- `sha256_transform(state)`, with the table of constants of its file. -/
def transform (constants : Vector Word 64) (state : State) : State :=
  let schedule := schedule state.block 48
  let words := state.words
  let l := (List.finRange 64).foldl
    (fun l index => turn constants[index] schedule[index] l)
    { a := words[0], b := words[1], c := words[2], d := words[3], e := words[4], f := words[5],
      g := words[6], h := words[7] }
  { state with
    words := #v[words[0] + l.a, words[1] + l.b, words[2] + l.c, words[3] + l.d, words[4] + l.e,
      words[5] + l.f, words[6] + l.g, words[7] + l.h] }

/-- `sha256_init(state)`, which leaves the block as it is. -/
def init (initial : Vector Word 8) (state : State) : State :=
  { state with words := initial, bytes := 0, used := 0 }

/-- The loop of `sha256_update`. -/
def updateLoop (constants : Vector Word 64) : ℕ → State → List UInt8 → BitVec 64 → Option State
  | 0, state, _, length => if length = 0 then some state else none
  | fuel + 1, state, input, length =>
    if 0 < length then do
      let available := 64 - state.used
      let take := if length < available then length else available
      let block ← state.block.copy? state.used input take
      let state := { state with block, used := state.used + take }
      let input := input.drop take.toNat
      let length := length - take
      if state.used = 64 then
        updateLoop constants fuel { transform constants state with used := 0 } input length
      else updateLoop constants fuel state input length
    else some state

/-- `sha256_update(state, input, length)`. -/
def update (constants : Vector Word 64) (state : State) (input : List UInt8) (length : BitVec 64) :
    Option State :=
  updateLoop constants length.toNat { state with bytes := state.bytes + length } input length

/-- The bytes that `sha256_finish` writes to its output. -/
def output (words : Vector Word 8) : List UInt8 :=
  (List.finRange 8).flatMap fun index =>
    let word : Word := words[index]
    [narrow (word >>> 24), narrow (word >>> 16), narrow (word >>> 8), narrow word]

/-- The mark that `sha256_finish` puts behind the data, and the block it starts where the
length has no place behind the mark. -/
def appendMark (constants : Vector Word 64) (state : State) : Option State := do
  let block ← state.block.store? state.used.toNat [0x80]
  let state := { state with block, used := state.used + 1 }
  if 56 < state.used then do
    let block ← state.block.clear? state.used (64 - state.used)
    some { transform constants { state with block } with used := 0 }
  else some state

/-- The bit length at the end of the block. -/
def storeBitLength (block : Block) (bitLength : BitVec 64) (count : ℕ) : Option Block :=
  (List.range count).foldlM
    (fun (block : Block) index => block.store? (63 - index) [narrow (bitLength >>> (index * 8))])
    block

/-- `sha256_finish(state, output)`. -/
def finish (constants : Vector Word 64) (state : State) : Option (State × List UInt8) := do
  let bitLength := state.bytes * 8
  let state ← appendMark constants state
  let block ← state.block.clear? state.used (56 - state.used)
  let block ← storeBitLength block bitLength 8
  let state := transform constants { state with block }
  some (state, output state.words)

/-! ## The three copies -/

namespace SecureFs

/-- The constants of `secure_fs.c`. -/
def constants : Vector Word 64 := #v[
  0x428a2f98, 0x71374491, 0xb5c0fbcf, 0xe9b5dba5,
  0x3956c25b, 0x59f111f1, 0x923f82a4, 0xab1c5ed5,
  0xd807aa98, 0x12835b01, 0x243185be, 0x550c7dc3,
  0x72be5d74, 0x80deb1fe, 0x9bdc06a7, 0xc19bf174,
  0xe49b69c1, 0xefbe4786, 0x0fc19dc6, 0x240ca1cc,
  0x2de92c6f, 0x4a7484aa, 0x5cb0a9dc, 0x76f988da,
  0x983e5152, 0xa831c66d, 0xb00327c8, 0xbf597fc7,
  0xc6e00bf3, 0xd5a79147, 0x06ca6351, 0x14292967,
  0x27b70a85, 0x2e1b2138, 0x4d2c6dfc, 0x53380d13,
  0x650a7354, 0x766a0abb, 0x81c2c92e, 0x92722c85,
  0xa2bfe8a1, 0xa81a664b, 0xc24b8b70, 0xc76c51a3,
  0xd192e819, 0xd6990624, 0xf40e3585, 0x106aa070,
  0x19a4c116, 0x1e376c08, 0x2748774c, 0x34b0bcb5,
  0x391c0cb3, 0x4ed8aa4a, 0x5b9cca4f, 0x682e6ff3,
  0x748f82ee, 0x78a5636f, 0x84c87814, 0x8cc70208,
  0x90befffa, 0xa4506ceb, 0xbef9a3f7, 0xc67178f2]

/-- The initial words of `secure_fs.c`. -/
def initial : Vector Word 8 := #v[
  0x6a09e667, 0xbb67ae85, 0x3c6ef372, 0xa54ff53a,
  0x510e527f, 0x9b05688c, 0x1f83d9ab, 0x5be0cd19]

/-- `sha256_init`. -/
def sha256Init : State → State := init initial

/-- `sha256_update`. -/
def sha256Update : State → List UInt8 → BitVec 64 → Option State := update constants

/-- `sha256_finish`. -/
def sha256Finish : State → Option (State × List UInt8) := finish constants

end SecureFs

namespace SecureSnapshot

/-- The constants of `secure_snapshot.c`. -/
def constants : Vector Word 64 := #v[
  0x428a2f98, 0x71374491, 0xb5c0fbcf, 0xe9b5dba5,
  0x3956c25b, 0x59f111f1, 0x923f82a4, 0xab1c5ed5,
  0xd807aa98, 0x12835b01, 0x243185be, 0x550c7dc3,
  0x72be5d74, 0x80deb1fe, 0x9bdc06a7, 0xc19bf174,
  0xe49b69c1, 0xefbe4786, 0x0fc19dc6, 0x240ca1cc,
  0x2de92c6f, 0x4a7484aa, 0x5cb0a9dc, 0x76f988da,
  0x983e5152, 0xa831c66d, 0xb00327c8, 0xbf597fc7,
  0xc6e00bf3, 0xd5a79147, 0x06ca6351, 0x14292967,
  0x27b70a85, 0x2e1b2138, 0x4d2c6dfc, 0x53380d13,
  0x650a7354, 0x766a0abb, 0x81c2c92e, 0x92722c85,
  0xa2bfe8a1, 0xa81a664b, 0xc24b8b70, 0xc76c51a3,
  0xd192e819, 0xd6990624, 0xf40e3585, 0x106aa070,
  0x19a4c116, 0x1e376c08, 0x2748774c, 0x34b0bcb5,
  0x391c0cb3, 0x4ed8aa4a, 0x5b9cca4f, 0x682e6ff3,
  0x748f82ee, 0x78a5636f, 0x84c87814, 0x8cc70208,
  0x90befffa, 0xa4506ceb, 0xbef9a3f7, 0xc67178f2]

/-- The initial words of `secure_snapshot.c`. -/
def initial : Vector Word 8 := #v[
  0x6a09e667, 0xbb67ae85, 0x3c6ef372, 0xa54ff53a,
  0x510e527f, 0x9b05688c, 0x1f83d9ab, 0x5be0cd19]

/-- `sha256_init`. -/
def sha256Init : State → State := init initial

/-- `sha256_update`. -/
def sha256Update : State → List UInt8 → BitVec 64 → Option State := update constants

/-- `sha256_finish`. -/
def sha256Finish : State → Option (State × List UInt8) := finish constants

end SecureSnapshot

namespace GuestRuntime

/-- The constants of `runtime.c`. -/
def constants : Vector Word 64 := #v[
  0x428a2f98, 0x71374491, 0xb5c0fbcf, 0xe9b5dba5, 0x3956c25b, 0x59f111f1, 0x923f82a4, 0xab1c5ed5,
  0xd807aa98, 0x12835b01, 0x243185be, 0x550c7dc3, 0x72be5d74, 0x80deb1fe, 0x9bdc06a7, 0xc19bf174,
  0xe49b69c1, 0xefbe4786, 0x0fc19dc6, 0x240ca1cc, 0x2de92c6f, 0x4a7484aa, 0x5cb0a9dc, 0x76f988da,
  0x983e5152, 0xa831c66d, 0xb00327c8, 0xbf597fc7, 0xc6e00bf3, 0xd5a79147, 0x06ca6351, 0x14292967,
  0x27b70a85, 0x2e1b2138, 0x4d2c6dfc, 0x53380d13, 0x650a7354, 0x766a0abb, 0x81c2c92e, 0x92722c85,
  0xa2bfe8a1, 0xa81a664b, 0xc24b8b70, 0xc76c51a3, 0xd192e819, 0xd6990624, 0xf40e3585, 0x106aa070,
  0x19a4c116, 0x1e376c08, 0x2748774c, 0x34b0bcb5, 0x391c0cb3, 0x4ed8aa4a, 0x5b9cca4f, 0x682e6ff3,
  0x748f82ee, 0x78a5636f, 0x84c87814, 0x8cc70208, 0x90befffa, 0xa4506ceb, 0xbef9a3f7, 0xc67178f2]

/-- The initial words of `runtime.c`. -/
def initial : Vector Word 8 := #v[
  0x6a09e667, 0xbb67ae85, 0x3c6ef372, 0xa54ff53a,
  0x510e527f, 0x9b05688c, 0x1f83d9ab, 0x5be0cd19]

/-- `mf_sha256_init`. -/
def mfSha256Init : State → State := init initial

/-- `mf_sha256_update`. -/
def mfSha256Update : State → List UInt8 → BitVec 64 → Option State := update constants

/-- `mf_sha256_finish`. -/
def mfSha256Finish : State → Option (State × List UInt8) := finish constants

end GuestRuntime

/-- The files that carry a copy. -/
inductive Copy where
  | secureFs
  | secureSnapshot
  | guestRuntime
  deriving DecidableEq, Repr

namespace Copy

/-- The `init` of a copy. -/
def init : Copy → State → State
  | secureFs => SecureFs.sha256Init
  | secureSnapshot => SecureSnapshot.sha256Init
  | guestRuntime => GuestRuntime.mfSha256Init

/-- The `update` of a copy. -/
def update : Copy → State → List UInt8 → BitVec 64 → Option State
  | secureFs => SecureFs.sha256Update
  | secureSnapshot => SecureSnapshot.sha256Update
  | guestRuntime => GuestRuntime.mfSha256Update

/-- The `finish` of a copy. -/
def finish : Copy → State → Option (State × List UInt8)
  | secureFs => SecureFs.sha256Finish
  | secureSnapshot => SecureSnapshot.sha256Finish
  | guestRuntime => GuestRuntime.mfSha256Finish

/-- The state after taking up pieces of a message one after the other. -/
def updates (copy : Copy) (state : State) (pieces : List (List UInt8)) : Option State :=
  pieces.foldlM (fun state piece => copy.update state piece (BitVec.ofNat 64 piece.length)) state

/-- The digest of a message that comes in pieces, from an uninitialised state. -/
def digest (copy : Copy) (uninitialised : State) (pieces : List (List UInt8)) :
    Option (List UInt8) := do
  let state ← copy.updates (copy.init uninitialised) pieces
  let (_, output) ← copy.finish state
  some output

end Copy

/-- The digest of "abc" in two pieces. -/
example : (Copy.secureFs.digest ⟨#v[0, 0, 0, 0, 0, 0, 0, 0], 0, ⟨List.replicate 64 255, rfl⟩, 7⟩
    [[97], [98, 99]]) =
      some [0xba, 0x78, 0x16, 0xbf, 0x8f, 0x01, 0xcf, 0xea, 0x41, 0x41, 0x40, 0xde, 0x5d, 0xae,
        0x22, 0x23, 0xb0, 0x03, 0x61, 0xa3, 0x96, 0x17, 0x7a, 0x9c, 0xb4, 0x10, 0xff, 0x61, 0xf2,
        0x00, 0x15, 0xad] := by
  decide +kernel

open SecureHash

/-! ## The compression function -/

/-- The source's rotation is that of bit vectors. -/
theorem rotateRight_eq (value : Word) {amount : ℕ} (hamount : amount < 32) :
    rotateRight value amount = value.rotateRight amount := by
  rw [BitVec.rotateRight_eq_rotateRightAux_of_lt hamount]
  rfl

/-- Shifting four bytes to their places puts them side by side. -/
theorem shifted_eq_wordOfBytes (b₀ b₁ b₂ b₃ : UInt8) :
    widen b₀ <<< 24 ||| widen b₁ <<< 16 ||| widen b₂ <<< 8 ||| widen b₃ =
      wordOfBytes b₀ b₁ b₂ b₃ := by
  apply BitVec.eq_of_getLsbD_eq
  intro i hi
  simp only [widen, wordOfBytes, BitVec.getLsbD_or, BitVec.getLsbD_shiftLeft,
    BitVec.getLsbD_setWidth, BitVec.getLsbD_append]
  have hbyte (b : UInt8) {j : ℕ} (hj : 8 ≤ j) : b.toBitVec.getLsbD j = false :=
    BitVec.getLsbD_of_ge _ _ hj
  rcases (by omega : i < 8 ∨ 8 ≤ i ∧ i < 16 ∨ 16 ≤ i ∧ i < 24 ∨ 24 ≤ i) with
    h | ⟨h, hlt⟩ | ⟨h, hlt⟩ | h
  · simp [h, hi, show i < 16 by omega, show i < 24 by omega]
  · simp [hi, hlt, hbyte b₃ h, show ¬i < 8 by omega, show i < 24 by omega, show i - 8 < 8 by omega,
      show i - 8 < 32 by omega]
  · simp [hi, hlt, hbyte b₃ (show 8 ≤ i by omega), hbyte b₂ (show 8 ≤ i - 8 by omega),
      show ¬i < 8 by omega, show ¬i < 16 by omega, show i - 16 < 8 by omega,
      show ¬i - 8 < 8 by omega, show i - 8 - 8 = i - 16 by omega, show i - 16 < 32 by omega]
  · simp [hi, hbyte b₃ (show 8 ≤ i by omega), hbyte b₂ (show 8 ≤ i - 8 by omega),
      hbyte b₁ (show 8 ≤ i - 16 by omega), show ¬i < 8 by omega, show ¬i < 16 by omega,
      show ¬i < 24 by omega, show ¬i - 8 < 8 by omega, show ¬i - 8 - 8 < 8 by omega,
      show i - 8 - 8 - 8 = i - 24 by omega, show i - 24 < 32 by omega]

/-- A byte of a block is the one of its list. -/
theorem get_eq_getD (block : Block) (index : Fin 64) :
    block.get index = block.bytes.getD index 0 := by
  have hlt : (index : ℕ) < block.bytes.length := by
    rw [block.length_bytes]
    exact index.isLt
  rw [List.getD_eq_getElem _ _ hlt]
  rfl

/-- A word of the input is that of the message. -/
theorem inputWord_eq (block : Block) (index : Fin 16) :
    inputWord block index = messageWord block.bytes index := by
  rw [inputWord, shifted_eq_wordOfBytes, messageWord]
  simp only [get_eq_getD, Nat.mul_comm]

/-- The first small sigma function. -/
theorem small_sigma0_eq (x : Word) :
    rotateRight x 7 ^^^ rotateRight x 18 ^^^ x >>> 3 = smallSigma0 x := by
  rw [rotateRight_eq x (by omega), rotateRight_eq x (by omega), smallSigma0]

/-- The second small sigma function. -/
theorem small_sigma1_eq (x : Word) :
    rotateRight x 17 ^^^ rotateRight x 19 ^^^ x >>> 10 = smallSigma1 x := by
  rw [rotateRight_eq x (by omega), rotateRight_eq x (by omega), smallSigma1]

/-- The second loop extends the schedule by its recursion. -/
theorem schedule_getElem (block : Block) {count t : ℕ} (ht : t < 16 + count) :
    (schedule block count)[t] = scheduleWord block.bytes t := by
  induction count generalizing t with
  | zero =>
    rw [scheduleWord, if_pos (by omega)]
    simp only [schedule, Vector.getElem_ofFn, inputWord_eq]
  | succ count ih =>
    simp only [schedule, small_sigma0_eq, small_sigma1_eq, Vector.getElem_push]
    split
    · exact ih (by assumption)
    · have heq : t = 16 + count := by omega
      subst heq
      rw [scheduleWord, if_neg (by omega), ih (by omega), ih (by omega), ih (by omega),
        ih (by omega)]
      ac_rfl

/-- The working variables that the local variables hold. -/
def Locals.registers (l : Locals) : Registers := ⟨l.a, l.b, l.c, l.d, l.e, l.f, l.g, l.h⟩

/-- A turn of the loop is a round. -/
theorem registers_turn (constant word : Word) (l : Locals) :
    (turn constant word l).registers = round constant word l.registers := by
  simp (disch := omega) only [turn, SecureHash.round, Locals.registers, rotateRight_eq, bigSigma0,
    bigSigma1, choose, majority]

/-- A table that holds the round constants. -/
def IsStandard (constants : Vector Word 64) : Prop :=
  ∀ t : Fin 64, constants[t] = roundConstant t

/-- The local variables after the compression loop. -/
def finalLocals (constants : Vector Word 64) (state : State) : Locals :=
  (List.finRange 64).foldl (fun l index => turn constants[index] (schedule state.block 48)[index] l)
    { a := state.words[0], b := state.words[1], c := state.words[2], d := state.words[3],
      e := state.words[4], f := state.words[5], g := state.words[6], h := state.words[7] }

variable {constants : Vector Word 64}

/-- The loop makes all rounds. -/
theorem registers_finalLocals (hconstants : IsStandard constants)
    (state : State) :
    (finalLocals constants state).registers = rounds state.words state.block.bytes := by
  have hstep (l : Locals) (t : Fin 64) :
      round (roundConstant t) (scheduleWord state.block.bytes t) l.registers =
        (turn constants[t] (schedule state.block 48)[t] l).registers := by
    rw [registers_turn, hconstants t, Fin.getElem_fin (schedule state.block 48), schedule_getElem]
  rw [rounds, ← List.map_coe_finRange_eq_range, List.foldl_map]
  exact (List.foldl_hom Locals.registers hstep).symm

/-- The source's transformation is the compression of its block. -/
theorem words_transform (hconstants : IsStandard constants)
    (state : State) :
    (transform constants state).words = compress state.words state.block.bytes := by
  have hwords (l : Locals) (words : Vector Word 8) :
      #v[words[0] + l.a, words[1] + l.b, words[2] + l.c, words[3] + l.d, words[4] + l.e,
        words[5] + l.f, words[6] + l.g, words[7] + l.h] =
      #v[l.a + words[0], l.b + words[1], l.c + words[2], l.d + words[3], l.e + words[4],
        l.f + words[5], l.g + words[6], l.h + words[7]] := by
    simp only [BitVec.add_comm]
  rw [compress_of_rounds (registers_finalLocals hconstants state).symm]
  exact hwords (finalLocals constants state) state.words

/-- The transformation leaves the block. -/
@[simp] theorem block_transform (constants : Vector Word 64) (state : State) :
    (transform constants state).block = state.block := rfl

/-- The transformation leaves the number of bytes. -/
@[simp] theorem bytes_transform (constants : Vector Word 64) (state : State) :
    (transform constants state).bytes = state.bytes := rfl

/-! ## Bytes of numbers -/

/-- A shifted word is narrowed to the byte at that place. -/
theorem narrow_shift {w : ℕ} (x : BitVec w) (amount : ℕ) :
    narrow (x >>> amount) = UInt8.ofBitVec (x.extractLsb' amount 8) := by
  rw [narrow]
  congr 1
  apply BitVec.eq_of_toNat_eq
  simp

/-- The output holds the bytes of the words. -/
theorem output_eq (words : Vector Word 8) : output words = words.toList.flatMap (bytesOf 4) := by
  have hlist : words.toList = (List.finRange 8).map fun index => words[index] := by
    apply List.ext_getElem
    · simp
    · intro i hi hi'
      simp
  have hbytes (word : Word) :
      [narrow (word >>> 24), narrow (word >>> 16), narrow (word >>> 8), narrow word] =
        bytesOf 4 word := by
    have hlast : narrow word = narrow (word >>> 0) := by simp
    rw [hlast]
    simp only [narrow_shift, bytesOf, List.range_succ, List.range_zero, List.nil_append,
      List.cons_append, List.map_cons, List.map_nil]
  rw [hlist, List.flatMap_map, output]
  simp only [hbytes]

/-! ## The block buffer -/

/-- Storing inside the block succeeds. -/
theorem store?_of_le (block : Block) {start : ℕ} {data : List UInt8}
    (hfit : start + data.length ≤ 64) :
    ∃ result, block.store? start data = some result ∧
      result.bytes = block.bytes.take start ++ data ++ block.bytes.drop (start + data.length) := by
  rw [Block.store?, dif_pos hfit]
  exact ⟨_, rfl, rfl⟩

/-- The last eight bytes take the length, one byte after the other from the end. -/
theorem storeBitLength_eq (block : Block) (bits : BitVec 64) {count : ℕ} (hcount : count ≤ 8) :
    ∃ result, storeBitLength block bits count = some result ∧
      result.bytes = block.bytes.take (64 - count) ++ (bytesOf 8 bits).drop (8 - count) := by
  induction count with
  | zero =>
    refine ⟨block, rfl, ?_⟩
    rw [List.take_of_length_le (by rw [block.length_bytes]),
      List.drop_of_length_le (by rw [length_bytesOf]), List.append_nil]
  | succ count ih =>
    obtain ⟨before, hbefore, hbytes⟩ := ih (by omega)
    have hfit : 63 - count + [narrow (bits >>> (count * 8))].length ≤ 64 := by
      rw [List.length_singleton]
      omega
    obtain ⟨result, hresult, hstored⟩ := store?_of_le before hfit
    refine ⟨result, ?_, ?_⟩
    · rw [storeBitLength] at hbefore ⊢
      rw [List.range_succ, List.foldlM_append, hbefore]
      simpa using hresult
    · have htake : (block.bytes.take (64 - count)).length = 64 - count := by
        rw [List.length_take, block.length_bytes]
        omega
      have hdigit : (bytesOf 8 bits).drop (8 - (count + 1)) =
          narrow (bits >>> (count * 8)) :: (bytesOf 8 bits).drop (8 - count) := by
        have hlt : 8 - (count + 1) < (bytesOf 8 bits).length := by
          rw [length_bytesOf]
          omega
        rw [List.drop_eq_getElem_cons hlt, narrow_shift]
        congr 2
        · simp only [bytesOf, List.getElem_map, List.getElem_range]
          congr 2
          omega
        · omega
      rw [hstored, hbytes, List.length_singleton, List.take_append_of_le_length (by omega),
        List.take_take, show 63 - count + 1 = (block.bytes.take (64 - count)).length by omega,
        List.drop_left, hdigit, show min (63 - count) (64 - count) = 64 - (count + 1) by omega,
        List.append_assoc, List.singleton_append]

/-- Storing behind the bytes that wait in a block. -/
theorem store?_behind {block : Block} {waiting piece : List UInt8}
    (hwaiting : waiting <+: block.bytes) (hfit : waiting.length + piece.length ≤ 64) :
    ∃ result, block.store? waiting.length piece = some result ∧
      waiting ++ piece <+: result.bytes := by
  obtain ⟨result, hresult, hbytes⟩ := store?_of_le block hfit
  refine ⟨result, hresult, ?_⟩
  rw [hbytes, ← List.prefix_iff_eq_take.mp hwaiting]
  exact List.prefix_append _ _

/-! ## Updates -/

/-- The bytes behind the whole blocks of some data. -/
def tailOf (data : List UInt8) : List UInt8 := data.drop (64 * (data.length / 64))

/-- What is left behind the full blocks. -/
@[simp] theorem length_tailOf (data : List UInt8) : (tailOf data).length = data.length % 64 := by
  rw [tailOf, List.length_drop]
  omega

/-- A piece that fills no block is put behind what is left. -/
theorem tailOf_append {data piece : List UInt8} (hpart : data.length % 64 + piece.length < 64) :
    tailOf (data ++ piece) = tailOf data ++ piece := by
  rw [tailOf, tailOf, List.length_append,
    show (data.length + piece.length) / 64 = data.length / 64 by omega,
    List.drop_append_of_le_length (by omega)]

/-- A state that has taken up some data. -/
structure Absorbed (state : State) (data : List UInt8) : Prop where
  words : state.words = hashAfter (data.length / 64) data
  used : state.used.toNat = data.length % 64
  block : tailOf data <+: state.block.bytes

/-- The used bytes of a block are what is left. -/
theorem Absorbed.length_tail {state : State} {data : List UInt8} (habsorbed : Absorbed state data) :
    (tailOf data).length = state.used.toNat := by
  rw [length_tailOf, habsorbed.used]

/-- The block behind a piece that does not fill it. -/
theorem Absorbed.waiting {state : State} {data piece : List UInt8} {block : Block}
    (habsorbed : Absorbed state data) (hpart : data.length % 64 + piece.length < 64)
    (hblock : tailOf data ++ piece <+: block.bytes) {used : BitVec 64}
    (hused : used.toNat = data.length % 64 + piece.length) :
    Absorbed { state with block, used } (data ++ piece) := by
  constructor
  · rw [show (data ++ piece).length / 64 = data.length / 64 by rw [List.length_append]; omega,
      hashAfter_append (by omega)]
    exact habsorbed.words
  · rw [hused, List.length_append]
    omega
  · rw [tailOf_append hpart]
    exact hblock

/-- The hash value behind a piece that fills the block. -/
theorem Absorbed.transformed (hconstants : IsStandard constants)
    {state : State} {data piece : List UInt8} {block : Block}
    (habsorbed : Absorbed state data) (hfull : data.length % 64 + piece.length = 64)
    (hblock : tailOf data ++ piece <+: block.bytes) (used : BitVec 64) :
    (transform constants { state with block, used }).words =
      hashAfter ((data ++ piece).length / 64) (data ++ piece) := by
  have hwhole : block.bytes = blockAt (data ++ piece) (data.length / 64) := by
    have hlength : (tailOf data ++ piece).length = block.bytes.length := by
      rw [List.length_append, length_tailOf, block.length_bytes, hfull]
    rw [← hblock.eq_of_length hlength, blockAt, List.drop_append_of_le_length (by omega)]
    exact (List.take_of_length_le (by rw [hlength, block.length_bytes])).symm
  rw [words_transform hconstants, hwhole,
    show (data ++ piece).length / 64 = data.length / 64 + 1 by rw [List.length_append]; omega,
    hashAfter_succ, hashAfter_append (by omega), ← habsorbed.words]

/-- The state behind a piece that fills the block. -/
theorem Absorbed.full (hconstants : IsStandard constants)
    {state : State} {data piece : List UInt8} {block : Block}
    (habsorbed : Absorbed state data) (hfull : data.length % 64 + piece.length = 64)
    (hblock : tailOf data ++ piece <+: block.bytes) (used : BitVec 64) :
    Absorbed { transform constants { state with block, used } with used := 0 } (data ++ piece) := by
  have hmod : (data ++ piece).length % 64 = 0 := by
    rw [List.length_append]
    omega
  constructor
  · exact habsorbed.transformed hconstants hfull hblock used
  · rw [hmod]
    rfl
  · have hnil : tailOf (data ++ piece) = [] :=
      List.length_eq_zero_iff.mp (by rw [length_tailOf, hmod])
    rw [hnil]
    exact List.nil_prefix

/-- One turn of the loop, with the number of bytes it takes. -/
theorem updateLoop_turn (constants : Vector Word 64) {fuel : ℕ} {state : State}
    {input : List UInt8} {length take : BitVec 64} (hpos : 0 < length)
    (htake : (if length < 64 - state.used then length else 64 - state.used) = take) {block : Block}
    (hcopy : state.block.copy? state.used input take = some block) :
    updateLoop constants (fuel + 1) state input length =
      if state.used + take = 64 then
        updateLoop constants fuel
          { transform constants { state with block, used := state.used + take } with used := 0 }
          (input.drop take.toNat) (length - take)
      else
        updateLoop constants fuel { state with block, used := state.used + take }
          (input.drop take.toNat) (length - take) := by
  subst htake
  rw [updateLoop, if_pos hpos]
  simp only [hcopy, Option.bind_eq_bind, Option.bind_some]

/-- The loop takes up its whole input. -/
theorem updateLoop_absorbs (hconstants : IsStandard constants)
    {fuel : ℕ} {state : State} {data input : List UInt8} {length : BitVec 64}
    (habsorbed : Absorbed state data) (hlength : length.toNat = input.length)
    (hfuel : input.length ≤ fuel) :
    ∃ result, updateLoop constants fuel state input length = some result ∧
      Absorbed result (data ++ input) ∧ result.bytes = state.bytes := by
  induction fuel generalizing state data input length with
  | zero =>
    have hnil : input = [] := List.length_eq_zero_iff.mp (by omega)
    subst hnil
    have hzero : length = 0 := BitVec.eq_of_toNat_eq hlength
    rw [updateLoop, if_pos hzero, List.append_nil]
    exact ⟨state, rfl, habsorbed, rfl⟩
  | succ fuel ih =>
    by_cases hnil : input = []
    · subst hnil
      have hzero : length = 0 := BitVec.eq_of_toNat_eq hlength
      rw [updateLoop, if_neg (by simp [hzero]), List.append_nil]
      exact ⟨state, rfl, habsorbed, rfl⟩
    · have hpos : 0 < input.length := List.length_pos_iff.mpr hnil
      have hused := habsorbed.used
      have hlengthPos : 0 < length := by
        rw [BitVec.lt_def, hlength]
        exact hpos
      have havailable : (64 - state.used).toNat = 64 - data.length % 64 := by
        rw [BitVec.toNat_sub_of_le (by rw [BitVec.le_def]; simp; omega), hused]
        rfl
      -- the piece that goes into the block now
      generalize htake : (if length < 64 - state.used then length else 64 - state.used) = take
      have htakeNat : take.toNat = min input.length (64 - data.length % 64) := by
        subst htake
        split
        · rename_i hlt
          rw [BitVec.lt_def, havailable] at hlt
          omega
        · rename_i hge
          rw [BitVec.lt_def, havailable] at hge
          omega
      have hpiece : (input.take take.toNat).length = take.toNat := by
        rw [List.length_take]
        omega
      have hfits : (tailOf data).length + (input.take take.toNat).length ≤ 64 := by
        rw [length_tailOf, hpiece]
        omega
      obtain ⟨block, hstore, hblock⟩ := store?_behind habsorbed.block hfits
      rw [habsorbed.length_tail] at hstore
      have hcopy : state.block.copy? state.used input take = some block := by
        rw [Block.copy?, if_pos (by omega), hstore]
      have hnewUsed : (state.used + take).toNat = data.length % 64 + take.toNat := by
        rw [BitVec.toNat_add_of_lt (by omega), hused]
      have hrest : (length - take).toNat = (input.drop take.toNat).length := by
        rw [BitVec.toNat_sub_of_le (by rw [BitVec.le_def]; omega), List.length_drop, hlength]
      have hshort : (input.drop take.toNat).length ≤ fuel := by
        rw [List.length_drop]
        omega
      have hsplit : data ++ input.take take.toNat ++ input.drop take.toNat = data ++ input := by
        rw [List.append_assoc, List.take_append_drop]
      rw [updateLoop_turn constants hlengthPos htake hcopy]
      by_cases hfull : data.length % 64 + take.toNat = 64
      · have hfilled : state.used + take = 64 :=
          BitVec.eq_of_toNat_eq (by rw [hnewUsed, hfull]; rfl)
        obtain ⟨result, hresult, hdone, hbytes⟩ :=
          ih (habsorbed.full hconstants (by rw [hpiece, hfull]) hblock _) hrest hshort
        rw [if_pos hfilled]
        exact ⟨result, hresult, hsplit ▸ hdone, hbytes⟩
      · have hunfilled : state.used + take ≠ 64 := fun h => hfull (by rw [← hnewUsed, h]; rfl)
        obtain ⟨result, hresult, hdone, hbytes⟩ :=
          ih (habsorbed.waiting (by rw [hpiece]; omega) hblock (by rw [hnewUsed, hpiece])) hrest
            hshort
        rw [if_neg hunfilled]
        exact ⟨result, hresult, hsplit ▸ hdone, hbytes⟩

/-! ## The digest -/

/-- The last block takes zeros and the length. -/
theorem lastBlock (hconstants : IsStandard constants) {state : State}
    {data : List UInt8} (habsorbed : Absorbed state data) (hroom : data.length % 64 ≤ 56)
    (bits : BitVec 64) :
    ∃ cleared block, state.block.clear? state.used (56 - state.used) = some cleared ∧
      storeBitLength cleared bits 8 = some block ∧
      ∀ padded, data ++ (List.replicate (56 - data.length % 64) 0 ++ bytesOf 8 bits) = padded →
        (transform constants { state with block }).words =
          hashAfter (padded.length / 64) padded := by
  have hzeros : (56 - state.used).toNat = 56 - data.length % 64 := by
    rw [BitVec.toNat_sub_of_le (by rw [BitVec.le_def, habsorbed.used]; exact hroom), habsorbed.used]
    rfl
  have hfits : (tailOf data).length + (List.replicate (56 - data.length % 64) (0 : UInt8)).length ≤
      64 := by
    rw [length_tailOf, List.length_replicate]
    omega
  obtain ⟨cleared, hclear, hprefixed⟩ := store?_behind habsorbed.block hfits
  obtain ⟨block, hblock, hbytes⟩ := storeBitLength_eq cleared bits (le_refl 8)
  refine ⟨cleared, block, ?_, hblock, ?_⟩
  · rw [Block.clear?, hzeros, ← habsorbed.length_tail]
    exact hclear
  · rintro padded rfl
    have hfull : data.length % 64 +
        (List.replicate (56 - data.length % 64) 0 ++ bytesOf 8 bits).length = 64 := by
      rw [List.length_append, List.length_replicate, length_bytesOf]
      omega
    refine habsorbed.transformed hconstants hfull ?_ state.used
    have hstart : cleared.bytes.take 56 =
        tailOf data ++ List.replicate (56 - data.length % 64) 0 := by
      rw [List.prefix_iff_eq_take.mp hprefixed, List.length_append, length_tailOf,
        List.length_replicate]
      congr 1
      omega
    rw [hbytes, hstart, ← List.append_assoc]
    exact List.prefix_refl _

/-- The zeros that fill the block behind the mark where the length has no place. -/
def fillCount (n : ℕ) : ℕ := if 56 ≤ n % 64 then 63 - n % 64 else 0

/-- The mark leaves a state with room for the length. -/
theorem appendMark_absorbs (hconstants : IsStandard constants)
    {state : State} {data : List UInt8} (habsorbed : Absorbed state data) :
    ∃ marked, appendMark constants state = some marked ∧
      Absorbed marked (data ++ 0x80 :: List.replicate (fillCount data.length) 0) := by
  have hrange : data.length % 64 < 64 := Nat.mod_lt _ (by omega)
  have hfits : (tailOf data).length + [(0x80 : UInt8)].length ≤ 64 := by
    rw [length_tailOf, List.length_singleton]
    omega
  obtain ⟨block, hstore, hprefixed⟩ := store?_behind habsorbed.block hfits
  rw [habsorbed.length_tail] at hstore
  have hused : (state.used + 1).toNat = data.length % 64 + 1 := by
    rw [BitVec.toNat_add_of_lt (by rw [habsorbed.used]; simp; omega), habsorbed.used]
    rfl
  have hlong : 56 < state.used + 1 ↔ 56 ≤ data.length % 64 := by
    have hbound : (56 : BitVec 64).toNat = 56 := rfl
    rw [BitVec.lt_def, hused, hbound]
    omega
  rw [appendMark, hstore]
  simp only [Option.bind_eq_bind, Option.bind_some]
  by_cases hcase : 56 ≤ data.length % 64
  · have hzeros : (64 - (state.used + 1)).toNat = 63 - data.length % 64 := by
      rw [BitVec.toNat_sub_of_le (by rw [BitVec.le_def, hused]; simp; omega), hused]
      have hsize : (64 : BitVec 64).toNat = 64 := rfl
      omega
    have hroom : (tailOf data ++ [0x80]).length +
        (List.replicate (63 - data.length % 64) (0 : UInt8)).length ≤ 64 := by
      rw [List.length_append, length_tailOf, List.length_singleton, List.length_replicate]
      omega
    obtain ⟨filled, hclear, hfilled⟩ := store?_behind hprefixed hroom
    have hmark : (tailOf data ++ [0x80]).length = (state.used + 1).toNat := by
      rw [List.length_append, length_tailOf, List.length_singleton, hused]
    rw [if_pos (hlong.mpr hcase), Block.clear?, hzeros, ← hmark, hclear, Option.bind_some,
      fillCount, if_pos hcase]
    refine ⟨_, rfl, habsorbed.full hconstants ?_ ?_ _⟩
    · rw [List.length_cons, List.length_replicate]
      omega
    · rw [← List.append_cons] at hfilled
      exact hfilled
  · rw [if_neg (fun h => hcase (hlong.mp h)), fillCount, if_neg hcase, List.replicate_zero]
    refine ⟨_, rfl, habsorbed.waiting ?_ hprefixed ?_⟩
    · rw [List.length_singleton]
      omega
    · rw [hused, List.length_singleton]

/-- The padding is the mark, the zeros of both blocks and the length. -/
theorem padding_eq (n : ℕ) :
    padding n = 0x80 :: List.replicate (fillCount n) 0 ++
      (List.replicate (56 - (n + (fillCount n + 1)) % 64) 0 ++
        bytesOf 8 (BitVec.ofNat 64 (8 * n))) := by
  have hcount : zeroCount n = fillCount n + (56 - (n + (fillCount n + 1)) % 64) := by
    rw [zeroCount, fillCount]
    split <;> omega
  rw [padding, hcount, List.replicate_add]
  simp only [List.cons_append, List.append_assoc]

/-- The digest of the data that a state has taken up. -/
theorem finish_of_absorbed (hconstants : IsStandard constants)
    {state : State} {data : List UInt8} (habsorbed : Absorbed state data)
    (hbytes : state.bytes = BitVec.ofNat 64 data.length) :
    ∃ final, finish constants state = some (final, sha256 data) := by
  obtain ⟨marked, hmarked, hmarkedData⟩ := appendMark_absorbs hconstants habsorbed
  have hlength : (data ++ 0x80 :: List.replicate (fillCount data.length) 0).length =
      data.length + (fillCount data.length + 1) := by
    rw [List.length_append, List.length_cons, List.length_replicate]
  have hroom : (data ++ 0x80 :: List.replicate (fillCount data.length) 0).length % 64 ≤ 56 := by
    rw [hlength, fillCount]
    split <;> omega
  obtain ⟨cleared, block, hclear, hblock, hwords⟩ :=
    lastBlock hconstants hmarkedData hroom (state.bytes * 8)
  have hbits : state.bytes * 8 = BitVec.ofNat 64 (8 * data.length) := by
    rw [hbytes, Nat.mul_comm, BitVec.ofNat_mul]
    rfl
  have hfinal := hwords (data ++ padding data.length) (by
    rw [padding_eq, hbits, hlength, List.append_assoc])
  have hfinish : finish constants state =
      some (transform constants { marked with block },
        output (transform constants { marked with block }).words) := by
    rw [finish]
    exact Option.bind_eq_some_iff.mpr ⟨marked, hmarked, Option.bind_eq_some_iff.mpr
      ⟨cleared, hclear, Option.bind_eq_some_iff.mpr ⟨block, hblock, rfl⟩⟩⟩
  rw [hfinish, output_eq, hfinal]
  exact ⟨_, rfl⟩

/-- One call of `update`. -/
theorem update_absorbs (hconstants : IsStandard constants)
    {state : State} {data piece : List UInt8} (habsorbed : Absorbed state data)
    (hbytes : state.bytes = BitVec.ofNat 64 data.length) (hpiece : piece.length < 2 ^ 64) :
    ∃ result, update constants state piece (BitVec.ofNat 64 piece.length) = some result ∧
      Absorbed result (data ++ piece) ∧
        result.bytes = BitVec.ofNat 64 (data ++ piece).length := by
  have hlength : (BitVec.ofNat 64 piece.length).toNat = piece.length := by
    rw [BitVec.toNat_ofNat, Nat.mod_eq_of_lt hpiece]
  have hcounted : Absorbed { state with bytes := state.bytes + BitVec.ofNat 64 piece.length }
      data :=
    ⟨habsorbed.words, habsorbed.used, habsorbed.block⟩
  obtain ⟨result, hresult, hdone, hsame⟩ :=
    updateLoop_absorbs hconstants hcounted hlength (le_refl _)
  refine ⟨result, ?_, hdone, ?_⟩
  · rw [update, hlength]
    exact hresult
  · rw [hsame, hbytes, List.length_append, BitVec.ofNat_add]

/-- A fresh state has taken up nothing. -/
theorem init_absorbs {initial : Vector Word 8} (hinitial : initial = initialHash) (state : State) :
    Absorbed (init initial state) [] := by
  constructor
  · exact hinitial
  · rfl
  · exact List.nil_prefix

/-! ## The three copies -/

/-- A table with the roots of the first prime numbers is standard. -/
theorem isStandard_of_table
    (htable : firstPrimes.map (fractionalBits 3) = constants.toList) : IsStandard constants := by
  intro t
  have ht : (t : ℕ) < constants.toList.length := by simp
  rw [roundConstant_of_table htable ht]
  rfl

/-- Words that are the square roots of the first eight primes are the initial hash value. -/
theorem initial_of_table {initial : Vector Word 8}
    (htable : (firstPrimes.take 8).map (fractionalBits 2) = initial.toList) :
    initial = initialHash := by
  apply Vector.ext
  intro j hj
  have hlt : j < initial.toList.length := by simpa using hj
  have hlist : initial[j] = initial.toList[j] := by simp
  have hprimes : j < firstPrimes.length := by
    have : firstPrimes.length = 64 := rfl
    omega
  simp only [hlist, ← htable, List.getElem_map, List.getElem_take, initialHash, Vector.getElem_ofFn,
    nth_prime_eq_getElem hprimes]

/-- Every copy is the state machine with the constants of the standard. -/
theorem Copy.standard (copy : Copy) :
    ∃ constants initial, IsStandard constants ∧ initial = initialHash ∧
      copy.init = Sha256.init initial ∧ copy.update = Sha256.update constants ∧
        copy.finish = Sha256.finish constants := by
  cases copy with
  | secureFs =>
    exact ⟨SecureFs.constants, SecureFs.initial, isStandard_of_table (by decide),
      initial_of_table (by decide), rfl, rfl, rfl⟩
  | secureSnapshot =>
    exact ⟨SecureSnapshot.constants, SecureSnapshot.initial, isStandard_of_table (by decide),
      initial_of_table (by decide), rfl, rfl, rfl⟩
  | guestRuntime =>
    exact ⟨GuestRuntime.constants, GuestRuntime.initial, isStandard_of_table (by decide),
      initial_of_table (by decide), rfl, rfl, rfl⟩

/-- Calls of `update` take up the pieces in order. -/
theorem updates_absorb {copy : Copy}
    (hconstants : IsStandard constants) (hupdate : copy.update = Sha256.update constants)
    {state : State} {data : List UInt8} (habsorbed : Absorbed state data)
    (hbytes : state.bytes = BitVec.ofNat 64 data.length) {pieces : List (List UInt8)}
    (hpieces : ∀ piece ∈ pieces, piece.length < 2 ^ 64) :
    ∃ result, copy.updates state pieces = some result ∧ Absorbed result (data ++ pieces.flatten) ∧
      result.bytes = BitVec.ofNat 64 (data ++ pieces.flatten).length := by
  induction pieces generalizing state data with
  | nil =>
    rw [List.flatten_nil, List.append_nil]
    exact ⟨state, rfl, habsorbed, hbytes⟩
  | cons piece pieces ih =>
    obtain ⟨next, hnext, hnextData, hnextBytes⟩ :=
      update_absorbs hconstants habsorbed hbytes (hpieces piece List.mem_cons_self)
    obtain ⟨result, hresult, hdone, hcount⟩ := ih hnextData hnextBytes
      (fun piece' hmem => hpieces piece' (List.mem_cons_of_mem _ hmem))
    rw [List.flatten_cons, ← List.append_assoc]
    refine ⟨result, ?_, hdone, hcount⟩
    rw [Copy.updates, List.foldlM_cons, hupdate, hnext, ← hupdate]
    exact hresult

/-- A new context has taken up nothing. -/
theorem Copy.init_absorbs (copy : Copy) (uninitialised : State) :
    Absorbed (copy.init uninitialised) [] ∧
      (copy.init uninitialised).bytes = BitVec.ofNat 64 ([] : List UInt8).length := by
  obtain ⟨_, initial, _, hinitial, hinit, _, _⟩ := copy.standard
  rw [hinit]
  exact ⟨Sha256.init_absorbs hinitial uninitialised, rfl⟩

/-- No piece is longer than the message. -/
theorem length_piece_lt {pieces : List (List UInt8)} (hlength : pieces.flatten.length < 2 ^ 61) :
    ∀ piece ∈ pieces, piece.length < 2 ^ 64 := by
  intro piece hmem
  have hsub := (List.sublist_flatten_of_mem hmem).length_le
  omega

/-- A copy answers the SHA-256 of the pieces that it is given. -/
theorem Copy.digest_eq (copy : Copy) (uninitialised : State) {pieces : List (List UInt8)}
    (hlength : pieces.flatten.length < 2 ^ 61) :
    copy.digest uninitialised pieces = some (sha256 pieces.flatten) := by
  obtain ⟨constants, _, hconstants, _, _, hupdate, hfinish⟩ := copy.standard
  obtain ⟨hstart, hbytes⟩ := copy.init_absorbs uninitialised
  obtain ⟨state, hstate, hdone, hcount⟩ :=
    updates_absorb hconstants hupdate hstart hbytes (length_piece_lt hlength)
  rw [List.nil_append] at hdone hcount
  obtain ⟨final, hfinal⟩ := finish_of_absorbed hconstants hdone hcount
  rw [← hfinish] at hfinal
  exact Option.bind_eq_some_iff.mpr
    ⟨state, hstate, Option.bind_eq_some_iff.mpr ⟨(final, _), hfinal, rfl⟩⟩

/-- For every way of splitting a message shorter than 2⁶¹ bytes into calls of `update`, each copy
ends with the SHA-256 of the message, without an access outside the block, and the buffer index
is below 64 after every call. -/
theorem sha256_correct (copy : Copy) (uninitialised : State) (pieces : List (List UInt8))
    (hlength : pieces.flatten.length < 2 ^ 61) :
    copy.digest uninitialised pieces = some (sha256 pieces.flatten) ∧
      ∀ calls, calls <+: pieces → ∃ state,
        copy.updates (copy.init uninitialised) calls = some state ∧ state.used.toNat < 64 := by
  refine ⟨copy.digest_eq uninitialised hlength, fun calls hcalls => ?_⟩
  obtain ⟨constants, _, hconstants, _, _, hupdate, _⟩ := copy.standard
  obtain ⟨hstart, hbytes⟩ := copy.init_absorbs uninitialised
  obtain ⟨state, hstate, hdone, _⟩ := updates_absorb hconstants hupdate hstart hbytes
    (fun piece hmem => length_piece_lt hlength piece (hcalls.subset hmem))
  refine ⟨state, hstate, ?_⟩
  rw [hdone.used]
  omega

/-- A state with arbitrary contents. -/
def sampleState : State := ⟨#v[1, 2, 3, 4, 5, 6, 7, 8], 77, ⟨List.replicate 64 9, rfl⟩, 900⟩

/-- The copy of the guest on a message in three pieces. -/
theorem sha256_correct_sample :
    Copy.guestRuntime.digest sampleState [[97], [], [98, 99]] = some (sha256 [97, 98, 99]) ∧
      ∀ calls, calls <+: [[97], [], [98, 99]] → ∃ state,
        Copy.guestRuntime.updates (Copy.guestRuntime.init sampleState) calls = some state ∧
          state.used.toNat < 64 :=
  sha256_correct Copy.guestRuntime sampleState [[97], [], [98, 99]] (by decide)

end Moonfort.Sha256
