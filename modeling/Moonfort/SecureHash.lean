import Mathlib

/-!
# The secure hash algorithm with 256 bits

The hash function of FIPS 180-4 on strings of bytes. The constants are the fractional parts
of the roots of the first prime numbers; a message is padded to blocks of 64 bytes, and the
compression function takes up one block after the other.
-/

namespace SecureHash

/-- A word of the algorithm. -/
abbrev Word := BitVec 32

/-! ## Constants -/

/-- The first 32 bits of the fractional part of a root. -/
def fractionalBits (degree n : ℕ) : Word :=
  BitVec.ofNat 32 (Nat.nthRoot degree (n * 2 ^ (32 * degree)))

/-- `K_t`, from the cube root of a prime number. -/
noncomputable def roundConstant (t : ℕ) : Word := fractionalBits 3 (Nat.nth Nat.Prime t)

/-- The initial hash value, from the square roots of the first eight prime numbers. -/
noncomputable def initialHash : Vector Word 8 :=
  Vector.ofFn fun j : Fin 8 => fractionalBits 2 (Nat.nth Nat.Prime j)

/-! ## Compression -/

/-- `Ch(x, y, z)`. -/
def choose (x y z : Word) : Word := (x &&& y) ^^^ (~~~x &&& z)

/-- `Maj(x, y, z)`. -/
def majority (x y z : Word) : Word := (x &&& y) ^^^ (x &&& z) ^^^ (y &&& z)

/-- `Σ₀`. -/
def bigSigma0 (x : Word) : Word := x.rotateRight 2 ^^^ x.rotateRight 13 ^^^ x.rotateRight 22

/-- `Σ₁`. -/
def bigSigma1 (x : Word) : Word := x.rotateRight 6 ^^^ x.rotateRight 11 ^^^ x.rotateRight 25

/-- `σ₀`. -/
def smallSigma0 (x : Word) : Word := x.rotateRight 7 ^^^ x.rotateRight 18 ^^^ x >>> 3

/-- `σ₁`. -/
def smallSigma1 (x : Word) : Word := x.rotateRight 17 ^^^ x.rotateRight 19 ^^^ x >>> 10

/-- The word of four bytes, the first of them highest. -/
def wordOfBytes (b₀ b₁ b₂ b₃ : UInt8) : Word :=
  b₀.toBitVec ++ b₁.toBitVec ++ b₂.toBitVec ++ b₃.toBitVec

/-- The words of a block. -/
def messageWord (block : List UInt8) (t : ℕ) : Word :=
  wordOfBytes (block.getD (4 * t) 0) (block.getD (4 * t + 1) 0) (block.getD (4 * t + 2) 0)
    (block.getD (4 * t + 3) 0)

/-- `W_t`, the message schedule of a block. -/
def scheduleWord (block : List UInt8) (t : ℕ) : Word :=
  if t < 16 then messageWord block t
  else
    smallSigma1 (scheduleWord block (t - 2)) + scheduleWord block (t - 7) +
      smallSigma0 (scheduleWord block (t - 15)) + scheduleWord block (t - 16)
termination_by t

/-- The eight working variables. -/
@[ext] structure Registers where
  a : Word
  b : Word
  c : Word
  d : Word
  e : Word
  f : Word
  g : Word
  h : Word

/-- One round with its constant and its word of the schedule. -/
def round (k w : Word) (r : Registers) : Registers :=
  let t₁ := r.h + bigSigma1 r.e + choose r.e r.f r.g + k + w
  let t₂ := bigSigma0 r.a + majority r.a r.b r.c
  ⟨t₁ + t₂, r.a, r.b, r.c, r.d + t₁, r.e, r.f, r.g⟩

/-- The working variables at the start of a block. -/
def load (hash : Vector Word 8) : Registers :=
  ⟨hash.get 0, hash.get 1, hash.get 2, hash.get 3, hash.get 4, hash.get 5, hash.get 6, hash.get 7⟩

/-- The 64 rounds of a block. -/
noncomputable def rounds (hash : Vector Word 8) (block : List UInt8) : Registers :=
  (List.range 64).foldl (fun r t => round (roundConstant t) (scheduleWord block t) r) (load hash)

/-- The hash value after a block. -/
noncomputable def compress (hash : Vector Word 8) (block : List UInt8) : Vector Word 8 :=
  let r := rounds hash block
  #v[r.a + hash.get 0, r.b + hash.get 1, r.c + hash.get 2, r.d + hash.get 3, r.e + hash.get 4,
    r.f + hash.get 5, r.g + hash.get 6, r.h + hash.get 7]

/-- A compression adds the registers behind the rounds to the hash. -/
theorem compress_of_rounds {hash : Vector Word 8} {block : List UInt8} {r : Registers}
    (hr : rounds hash block = r) :
    compress hash block = #v[r.a + hash.get 0, r.b + hash.get 1, r.c + hash.get 2,
      r.d + hash.get 3, r.e + hash.get 4, r.f + hash.get 5, r.g + hash.get 6,
      r.h + hash.get 7] := by
  subst hr
  rfl

/-! ## Messages -/

/-- The bytes of a number, the highest first. -/
def bytesOf {w : ℕ} (count : ℕ) (x : BitVec w) : List UInt8 :=
  (List.range count).map fun i => UInt8.ofBitVec (x.extractLsb' (8 * (count - 1 - i)) 8)

/-- The number of zero bytes behind the mark of a message of `n` bytes. -/
def zeroCount (n : ℕ) : ℕ := (119 - n % 64) % 64

/-- The padding of a message of `n` bytes: one bit, zeros and the length in bits. -/
def padding (n : ℕ) : List UInt8 :=
  128 :: (List.replicate (zeroCount n) 0 ++ bytesOf 8 (BitVec.ofNat 64 (8 * n)))

/-- Block `i` of a string. -/
def blockAt (data : List UInt8) (i : ℕ) : List UInt8 := (data.drop (64 * i)).take 64

/-- The hash value after the first blocks of a string. -/
noncomputable def hashAfter (count : ℕ) (data : List UInt8) : Vector Word 8 :=
  (List.range count).foldl (fun hash i => compress hash (blockAt data i)) initialHash

/-- The hash of a message. -/
noncomputable def sha256 (message : List UInt8) : List UInt8 :=
  let padded := message ++ padding message.length
  (hashAfter (padded.length / 64) padded).toList.flatMap (bytesOf 4)

/-- The key of a message code as a block: a key that is too long is hashed first. -/
noncomputable def keyBlock (key : List UInt8) : List UInt8 :=
  let short := if 64 < key.length then sha256 key else key
  short ++ List.replicate (64 - short.length) 0

/-- The message authentication code over the hash. -/
noncomputable def hmac (key message : List UInt8) : List UInt8 :=
  sha256 ((keyBlock key).map (· ^^^ 0x5c) ++
    sha256 ((keyBlock key).map (· ^^^ 0x36) ++ message))

/-! ## Padding and blocks -/

/-- A word is written in as many bytes as asked for. -/
@[simp] theorem length_bytesOf {w : ℕ} (count : ℕ) (x : BitVec w) :
    (bytesOf count x).length = count := by
  simp [bytesOf]

/-- A hash has 32 bytes. -/
@[simp] theorem length_sha256 (message : List UInt8) : (sha256 message).length = 32 := by
  simp [sha256, List.length_flatMap]

/-- Before any block the hash is the initial one. -/
@[simp] theorem hashAfter_zero (data : List UInt8) : hashAfter 0 data = initialHash := by
  simp [hashAfter]

/-- One more block compresses the hash. -/
theorem hashAfter_succ (count : ℕ) (data : List UInt8) :
    hashAfter (count + 1) data = compress (hashAfter count data) (blockAt data count) := by
  simp [hashAfter, List.range_succ, List.foldl_append]

/-- A full block does not depend on what comes behind it. -/
theorem blockAt_append {data : List UInt8} {i : ℕ} (hi : 64 * i + 64 ≤ data.length)
    (rest : List UInt8) : blockAt (data ++ rest) i = blockAt data i := by
  rw [blockAt, blockAt, List.drop_append_of_le_length (by omega),
    List.take_append_of_le_length (by rw [List.length_drop]; omega)]

/-- The hash value after some blocks depends on these blocks only. -/
theorem hashAfter_append {count : ℕ} {data : List UInt8} (hcount : 64 * count ≤ data.length)
    (rest : List UInt8) : hashAfter count (data ++ rest) = hashAfter count data := by
  induction count with
  | zero => simp
  | succ count ih =>
    rw [hashAfter_succ, hashAfter_succ, ih (by omega), blockAt_append (by omega)]

/-! ## The first prime numbers -/

/-- The first 64 prime numbers. -/
def firstPrimes : List ℕ :=
  [2, 3, 5, 7, 11, 13, 17, 19, 23, 29, 31, 37, 41, 43, 47, 53, 59, 61, 67, 71, 73, 79, 83, 89, 97,
    101, 103, 107, 109, 113, 127, 131, 137, 139, 149, 151, 157, 163, 167, 173, 179, 181, 191, 193,
    197, 199, 211, 223, 227, 229, 233, 239, 241, 251, 257, 263, 269, 271, 277, 281, 283, 293, 307,
    311]

/-- Trial division by the numbers below 18. -/
def passesTrial (n : ℕ) : Bool :=
  2 ≤ n && (List.range 18).all fun m => m < 2 || n ≤ m || n % m != 0

/-- Below the square of 18, trial division finds the prime numbers. -/
theorem passesTrial_iff {n : ℕ} (hn : n < 324) : passesTrial n = true ↔ n.Prime := by
  simp only [passesTrial, Bool.and_eq_true, decide_eq_true_eq, List.all_eq_true, List.mem_range,
    Bool.or_eq_true, bne_iff_ne]
  constructor
  · rintro ⟨htwo, htrial⟩
    refine Nat.prime_def_le_sqrt.mpr ⟨htwo, fun m hm hsqrt => ?_⟩
    have hsquare : m * m ≤ n := Nat.le_sqrt.mp hsqrt
    have hdouble : 2 * m ≤ m * m := Nat.mul_le_mul hm (le_refl m)
    have hsmall : m < 18 := by
      by_contra hlarge
      have : 18 * 18 ≤ m * m := Nat.mul_le_mul (by omega) (by omega)
      omega
    rcases htrial m hsmall with (hlow | hhigh) | hmod
    · omega
    · omega
    · exact fun hdvd => hmod (Nat.mod_eq_zero_of_dvd hdvd)
  · intro hprime
    refine ⟨hprime.two_le, fun m _ => ?_⟩
    by_contra hcontra
    push Not at hcontra
    obtain ⟨⟨hm, hlt⟩, hmod⟩ := hcontra
    rcases (Nat.dvd_prime hprime).mp (Nat.dvd_of_mod_eq_zero hmod) with hone | hself <;> omega

/-- The prime numbers below 312. -/
theorem filter_prime_range :
    (List.range 312).filter (fun n => decide n.Prime) = firstPrimes := by
  have htrial : (List.range 312).filter (fun n => decide n.Prime) =
      (List.range 312).filter passesTrial := by
    apply List.filter_congr
    intro n hn
    have hlt := List.mem_range.mp hn
    rw [Bool.eq_iff_iff, decide_eq_true_eq, passesTrial_iff (by omega)]
  rw [htrial]
  decide

/-- The members of a predicate below a bound start its enumeration. -/
theorem filter_range_eq_map_nth (p : ℕ → Prop) [DecidablePred p] (bound : ℕ) :
    (List.range bound).filter (fun n => decide (p n)) =
      (List.range (Nat.count p bound)).map (Nat.nth p) := by
  induction bound with
  | zero => simp
  | succ bound ih =>
    rw [List.range_succ, List.filter_append, ih, Nat.count_succ]
    by_cases hp : p bound
    · rw [if_pos hp, List.range_succ, List.map_append, List.map_singleton, Nat.nth_count hp]
      simp [hp]
    · simp [hp]

/-- The first prime numbers in order. -/
theorem firstPrimes_eq_map_nth : firstPrimes = (List.range 64).map (Nat.nth Nat.Prime) := by
  have hmap := filter_range_eq_map_nth Nat.Prime 312
  rw [filter_prime_range] at hmap
  have hcount : Nat.count Nat.Prime 312 = 64 := by
    have hlength := congrArg List.length hmap
    rw [List.length_map, List.length_range] at hlength
    exact hlength.symm
  rw [hmap, hcount]

/-- The first primes are those of the list. -/
theorem nth_prime_eq_getElem {i : ℕ} (hi : i < firstPrimes.length) :
    Nat.nth Nat.Prime i = firstPrimes[i] := by
  simp [firstPrimes_eq_map_nth]

/-- A table of 64 words that are the roots of the listed primes holds the round constants. -/
theorem roundConstant_of_table {table : List Word}
    (htable : firstPrimes.map (fractionalBits 3) = table) {t : ℕ} (ht : t < table.length) :
    roundConstant t = table[t] := by
  subst htable
  have hprimes : t < firstPrimes.length := by simpa using ht
  rw [roundConstant, nth_prime_eq_getElem hprimes, List.getElem_map]

end SecureHash
