import Moonfort.Leb128
import Moonfort.AenBackend.Protobuf

/-!
# Varints

`write_varint` and `read_varint` against base-128 numbers. The writer writes the
shortest spelling of a nonnegative `Int`, and the reader reads it back. The reader
collects up to ten bytes in 32 bits, so a number of 32 bits or more comes out
changed instead of being refused.
-/

namespace Moonfort.AenBackend

open MoonBit

/-! ## The writer -/

/-- `n.to_byte()`. -/
def toByte (n : Int32) : UInt8 := n.toUInt32.toUInt8

/-- The loop of `write_varint`. A nonnegative `Int` is written in at most five rounds. -/
def writeVarintFrom : (rounds : ℕ) → (remaining : Int32) → List UInt8
  | 0, _ => []
  | rounds + 1, remaining =>
    if remaining < 0x80 then [toByte remaining]
    else toByte ((remaining &&& 0x7f) ||| 0x80) :: writeVarintFrom rounds (remaining >>> 7)

/-- `write_varint`. -/
def writeVarint (value : Int32) : List UInt8 := writeVarintFrom 5 value

/-! ## Bits of an `Int` -/

/-- A small number keeps its value in 32 bits. -/
theorem toNat_toBitVec_ofNat {n : ℕ} (h : n < 2 ^ 31) : (Int32.ofNat n).toBitVec.toNat = n := by
  have hle : (0 : Int32) ≤ Int32.ofNat n := by
    rw [Int32.le_iff_toInt_le, Int32.toInt_ofNat_of_lt h, Int32.toInt_zero]
    omega
  rw [Int32.toNat_toBitVec_of_le hle, Int32.toNatClampNeg_ofNat_of_lt h]

/-- The low byte of a small number. -/
theorem toByte_ofNat {n : ℕ} (h : n < 2 ^ 31) : toByte (Int32.ofNat n) = UInt8.ofNat n := by
  apply UInt8.toNat_inj.mp
  rw [toByte, UInt32.toNat_toUInt8, ← Int32.toNat_toBitVec, toNat_toBitVec_ofNat h,
    UInt8.toNat_ofNat']

/-- Or-ing in bits above those collected adds them. -/
theorem or_shiftLeft {a p s : ℕ} (ha : a < 2 ^ s) (hsum : a + p * 2 ^ s < 2 ^ 31) :
    Int32.ofNat a ||| (Int32.ofNat p <<< Int32.ofNat s) = Int32.ofNat (a + p * 2 ^ s) := by
  by_cases hp : p = 0
  · subst hp
    simp
  · have hle : 2 ^ s ≤ p * 2 ^ s := Nat.le_mul_of_pos_left _ (by omega)
    have hs : s < 31 := (Nat.pow_lt_pow_iff_right (by omega : 1 < 2)).mp (by omega)
    have hple : p ≤ p * 2 ^ s := Nat.le_mul_of_pos_right _ (Nat.two_pow_pos s)
    have hsmod : ∀ s < 31, ((Int32.ofNat s).toBitVec.smod 32).toNat = s := by decide
    apply Int32.toBitVec_inj.mp
    apply BitVec.eq_of_toNat_eq
    rw [Int32.toBitVec_or, Int32.toBitVec_shiftLeft, BitVec.toNat_or, BitVec.shiftLeft_eq',
      BitVec.toNat_shiftLeft, hsmod s hs, toNat_toBitVec_ofNat (by omega),
      toNat_toBitVec_ofNat (by omega), toNat_toBitVec_ofNat hsum, Nat.shiftLeft_eq,
      Nat.mod_eq_of_lt (by omega), Nat.or_comm, Nat.mul_comm, ← Nat.two_pow_add_eq_or_of_lt ha,
      Nat.mul_comm, Nat.add_comm]

/-- A mask of low bits is a remainder. -/
theorem ofNat_and {n k : ℕ} (h : n < 2 ^ 31) (hk : k < 31) :
    Int32.ofNat n &&& Int32.ofNat (2 ^ k - 1) = Int32.ofNat (n % 2 ^ k) := by
  have hpow : 2 ^ k < 2 ^ 31 := Nat.pow_lt_pow_right (by omega) hk
  have hmod : n % 2 ^ k ≤ n := Nat.mod_le _ _
  apply Int32.toBitVec_inj.mp
  apply BitVec.eq_of_toNat_eq
  rw [Int32.toBitVec_and, BitVec.toNat_and, toNat_toBitVec_ofNat h,
    toNat_toBitVec_ofNat (by omega), toNat_toBitVec_ofNat (by omega),
    Nat.and_two_pow_sub_one_eq_mod]

/-- A shift to the right is a quotient. -/
theorem ofNat_shiftRight {n k : ℕ} (h : n < 2 ^ 31) (hk : k < 31) :
    Int32.ofNat n >>> Int32.ofNat k = Int32.ofNat (n / 2 ^ k) := by
  have hsmod : ∀ s < 31, ((Int32.ofNat s).toBitVec.smod 32).toNat = s := by decide
  have hdiv : n / 2 ^ k ≤ n := Nat.div_le_self _ _
  have hmsb : (Int32.ofNat n).toBitVec.msb = false := by
    rw [BitVec.msb_eq_false_iff_two_mul_lt, toNat_toBitVec_ofNat h]
    omega
  apply Int32.toBitVec_inj.mp
  apply BitVec.eq_of_toNat_eq
  rw [Int32.toBitVec_shiftRight, BitVec.sshiftRight_eq', BitVec.toNat_sshiftRight_of_msb_false hmsb,
    hsmod k hk, toNat_toBitVec_ofNat h, toNat_toBitVec_ofNat (by omega), Nat.shiftRight_eq_div_pow]

/-- The top bit tells the bytes below 128 from the others. -/
theorem continues_iff (byte : UInt8) : byte &&& 0x80 = 0 ↔ byte.toNat < 128 := by
  have h : ∀ n < 256, (UInt8.ofNat n &&& 0x80 = 0 ↔ n < 128) := by decide +kernel
  simpa using h _ byte.toNat_lt

/-! ## Writing -/

/-- The writer writes the shortest spelling. -/
theorem writeVarintFrom_eq {rounds n : ℕ} (h : n < 2 ^ 31) (hrounds : n < 128 ^ rounds)
    (hpos : 0 < rounds) : writeVarintFrom rounds (Int32.ofNat n) = Leb128.encode n := by
  induction rounds generalizing n with
  | zero => omega
  | succ rounds ih =>
    have hlt : Int32.ofNat n < 0x80 ↔ n < 128 := 
      Int32.ofNat_lt_iff_lt (b := 128) h (by omega)
    rw [writeVarintFrom, Leb128.encode]
    by_cases hsmall : n < 128
    · rw [if_pos (hlt.mpr hsmall), if_pos hsmall, toByte_ofNat h]
    · have hrest : n / 128 < 128 ^ rounds := by
        rw [Nat.div_lt_iff_lt_mul (by omega), ← Nat.pow_succ]
        exact hrounds
      have hpos' : 0 < rounds := by
        rcases Nat.eq_zero_or_pos rounds with rfl | hpos'
        · omega
        · exact hpos'
      have hand : Int32.ofNat n &&& 0x7f = Int32.ofNat (n % 128) := ofNat_and h (k := 7) (by omega)
      have hor : Int32.ofNat (n % 128) ||| 0x80 = Int32.ofNat (n % 128 + 128) :=
        or_shiftLeft (p := 1) (s := 7) (by omega) (by omega)
      have hshift : Int32.ofNat n >>> 7 = Int32.ofNat (n / 128) :=
        ofNat_shiftRight (k := 7) h (by omega)
      rw [if_neg (mt hlt.mp hsmall), if_neg hsmall, hand, hor, toByte_ofNat (by omega), hshift,
        ih (by omega) hrest hpos']

/-- A number that is not negative is written as its LEB128 form. -/
theorem writeVarint_ofNat {n : ℕ} (h : n < 2 ^ 31) :
    writeVarint (Int32.ofNat n) = Leb128.encode n :=
  writeVarintFrom_eq h (by omega) (by omega)

/-! ## Reading -/

variable {data : Bytes}

/-- One round of the loop, at an offset where a byte stands. -/
theorem readVarintFrom_round (rounds k : ℕ) (value : Int32) {index : Int32}
    (hk : k < 10) (hindex : 0 ≤ index.toInt) {byte : UInt8} {rest : List UInt8}
    (h : data.data.drop index.toInt.toNat = byte :: rest) :
    (index + 1).toInt = index.toInt + 1 ∧ data.data.drop (index + 1).toInt.toNat = rest ∧
      readVarintFrom data (rounds + 1) value (Int32.ofNat (7 * k)) index =
        if byte.toNat < 128 then
          .ok (value ||| (Int32.ofNat (byte.toNat % 128) <<< Int32.ofNat (7 * k)), index + 1)
        else
          readVarintFrom data rounds
            (value ||| (Int32.ofNat (byte.toNat % 128) <<< Int32.ofNat (7 * k)))
            (Int32.ofNat (7 * (k + 1))) (index + 1) := by
  have hlt : index.toInt.toNat < data.data.length := by
    have hlength := congrArg List.length h
    rw [List.length_drop, List.length_cons] at hlength
    omega
  have hlength := data.length_lt
  have hnext : (index + 1).toInt = index.toInt + 1 :=
    toInt_add_of_lt hindex (by decide) (by change index.toInt + 1 < _; omega)
  have hbyte : data.data[index.toInt.toNat]? = some byte := by
    rw [← List.head?_drop, h, List.head?_cons]
  have hrest : data.data.drop (index.toInt.toNat + 1) = rest := by
    rw [← List.tail_drop, h, List.tail_cons]
  have hguard : index < data.length ∧ Int32.ofNat (7 * k) ≤ 63 := by
    rw [Int32.lt_iff_toInt_lt, Bytes.toInt_length, Int32.le_iff_toInt_le,
      Int32.toInt_ofNat_of_lt (by omega)]
    refine ⟨by omega, ?_⟩
    change (↑(7 * k) : ℤ) ≤ 63
    omega
  have hread : readByte data index = .ok byte := by
    have hle : (0 : Int32) ≤ index := by
      rw [Int32.le_iff_toInt_le, Int32.toInt_zero]
      exact hindex
    rw [readByte, Bytes.get?, if_pos hle, hbyte]
  have hpayload : Int32.ofNat byte.toNat &&& 0x7f = Int32.ofNat (byte.toNat % 128) :=
    ofNat_and (k := 7) (by have := byte.toNat_lt; omega) (by omega)
  have hshift : Int32.ofNat (7 * k) + 7 = Int32.ofNat (7 * (k + 1)) := by
    rw [Nat.mul_add, Int32.ofNat_add]
    rfl
  refine ⟨hnext, ?_, ?_⟩
  · rw [hnext, ← hrest]
    congr 1
    omega
  · rw [readVarintFrom, if_pos hguard, hread]
    simp only [bind, Except.bind, hpayload, hshift, continues_iff]

/-- What the loop of `read_varint` makes of the bytes ahead: the number of ten bytes at
most that stands there, added to what is collected where the sum is an `Int`. -/
theorem readVarintFrom_decode {rounds k : ℕ} (value : Int32) {index : Int32}
    (hrounds : rounds + k = 11) (hindex : 0 ≤ index.toInt) {number size : ℕ}
    (h : Leb128.decode (data.data.drop index.toInt.toNat) = some (number, size))
    (hsize : size + k ≤ 10) :
    ∃ w next, readVarintFrom data rounds value (Int32.ofNat (7 * k)) index = .ok (w, next) ∧
      next.toInt = index.toInt + size ∧
        ∀ a, value = Int32.ofNat a → a < 2 ^ (7 * k) → a + number * 2 ^ (7 * k) < 2 ^ 31 →
          w = Int32.ofNat (a + number * 2 ^ (7 * k)) := by
  induction rounds generalizing value index k number size with
  | zero => omega
  | succ rounds ih =>
    have hpos := (Leb128.size_of_decode h).1
    cases hbytes : data.data.drop index.toInt.toNat with
    | nil =>
      rw [hbytes] at h
      cases h
    | cons byte rest =>
      obtain ⟨hnext, hrest, hround⟩ :=
        readVarintFrom_round rounds k value (by omega) hindex hbytes
      rw [hbytes, Leb128.decode] at h
      rw [hround]
      by_cases hlast : byte.toNat < 128
      · rw [if_pos hlast] at h
        obtain ⟨rfl, rfl⟩ := Prod.mk.inj (Option.some.inj h)
        rw [if_pos hlast, Nat.mod_eq_of_lt hlast]
        refine ⟨_, _, rfl, hnext, ?_⟩
        rintro a rfl ha hsum
        exact or_shiftLeft ha hsum
      · rw [if_neg hlast] at h
        obtain ⟨⟨number', size'⟩, hdecode, heq⟩ := Option.map_eq_some_iff.mp h
        obtain ⟨rfl, rfl⟩ := Prod.mk.inj heq
        rw [if_neg hlast]
        have hindex' : 0 ≤ (index + 1).toInt := by omega
        have hrounds' : rounds + (k + 1) = 11 := by omega
        obtain ⟨w, next, hread, hend, hvalue⟩ := ih
          (value ||| (Int32.ofNat (byte.toNat % 128) <<< Int32.ofNat (7 * k))) hrounds' hindex'
          (by rw [hrest]; exact hdecode) (by omega)
        refine ⟨w, next, hread, by omega, ?_⟩
        rintro a rfl ha hsum
        have hpow : 2 ^ (7 * (k + 1)) = 128 * 2 ^ (7 * k) := by
          rw [Nat.mul_add, Nat.pow_add, Nat.mul_comm]
        have hpart : a + byte.toNat % 128 * 2 ^ (7 * k) < 2 ^ (7 * (k + 1)) := by
          have hpayload : byte.toNat % 128 ≤ 127 := by omega
          have hmul := Nat.mul_le_mul_right (2 ^ (7 * k)) hpayload
          omega
        have hsplit : a + (byte.toNat % 128 + 128 * number') * 2 ^ (7 * k) =
            a + byte.toNat % 128 * 2 ^ (7 * k) + number' * 2 ^ (7 * (k + 1)) := by
          rw [hpow]
          ring
        rw [hsplit] at hsum ⊢
        exact hvalue _ (or_shiftLeft ha (by omega)) hpart hsum

/-- Where no number of ten bytes at most stands, the loop raises. -/
theorem readVarintFrom_raises {rounds k : ℕ} (value : Int32) {index : Int32}
    (hrounds : rounds + k = 11) (hk : k ≤ 10) (hindex : 0 ≤ index.toInt)
    (h : ∀ number size, Leb128.decode (data.data.drop index.toInt.toNat) = some (number, size) →
      10 < size + k) :
    readVarintFrom data rounds value (Int32.ofNat (7 * k)) index =
      protocolFailure "truncated or oversized protobuf varint" := by
  induction rounds generalizing value index k with
  | zero => omega
  | succ rounds ih =>
    by_cases hlast : k = 10
    · subst hlast
      rw [readVarintFrom, if_neg]
      rintro ⟨-, hshift⟩
      exact absurd hshift (by decide)
    · cases hbytes : data.data.drop index.toInt.toNat with
      | nil =>
        have hend : data.data.length ≤ index.toInt.toNat := List.drop_eq_nil_iff.mp hbytes
        rw [readVarintFrom, if_neg]
        rintro ⟨hlt, -⟩
        rw [Int32.lt_iff_toInt_lt, Bytes.toInt_length] at hlt
        omega
      | cons byte rest =>
        obtain ⟨hnext, hrest, hround⟩ :=
          readVarintFrom_round rounds k value (by omega) hindex hbytes
        rw [hbytes, Leb128.decode] at h
        rw [hround]
        by_cases hlow : byte.toNat < 128
        · rw [if_pos hlow] at h
          have := h _ _ rfl
          omega
        · rw [if_neg hlow] at h
          rw [if_neg hlow]
          apply ih _ (by omega) (by omega) (by omega)
          intro number size hdecode
          rw [hrest] at hdecode
          have := h _ _ (by rw [hdecode, Option.map_some])
          omega

/-! ## What the reader says -/

/-- Exactness at one offset: a value that is returned is the number whose bytes stand
between the offset and the one returned, and where no number that is an `Int` stands in ten
bytes at most, the reader raises. -/
structure ReadsExactly (data : Bytes) (start : Int32) : Prop where
  sound : ∀ value next, readVarint data start = .ok (value, next) →
    0 ≤ start.toInt ∧ 0 ≤ value.toInt ∧ start.toInt ≤ next.toInt ∧
      Leb128.decode (data.data.drop start.toInt.toNat) =
        some (value.toInt.toNat, (next.toInt - start.toInt).toNat)
  raises : (∀ number size, 0 ≤ start.toInt →
      Leb128.decode (data.data.drop start.toInt.toNat) = some (number, size) → size ≤ 10 →
        2 ^ 31 ≤ number) → ∃ message, readVarint data start = protocolFailure message

/-- Ten bytes at the offset spell a number that is read as far as it is an `Int`. -/
theorem readVarint_of_decode {start : Int32} (hstart : 0 ≤ start.toInt)
    {number size : ℕ} (h : Leb128.decode (data.data.drop start.toInt.toNat) = some (number, size))
    (hsize : size ≤ 10) :
    ∃ w next, readVarint data start = .ok (w, next) ∧ next.toInt = start.toInt + size ∧
      (number < 2 ^ 31 → w = Int32.ofNat number) := by
  obtain ⟨w, next, hread, hnext, hvalue⟩ :=
    readVarintFrom_decode 0 (by omega : 11 + 0 = 11) hstart h hsize
  refine ⟨w, next, hread, hnext, fun hlt => ?_⟩
  have hw := hvalue 0 rfl (by omega) (by omega)
  simpa using hw

/-- The reader is exact at an offset where no number that is not an `Int` stands. -/
theorem readsExactly_iff {start : Int32} :
    ReadsExactly data start ↔ 0 ≤ start.toInt ∧ ∀ number size,
      Leb128.decode (data.data.drop start.toInt.toNat) = some (number, size) → size ≤ 10 →
        number < 2 ^ 31 := by
  constructor
  · intro hexact
    have hstart : 0 ≤ start.toInt := by
      by_contra hneg
      obtain ⟨message, hraised⟩ := hexact.raises fun _ _ hstart => absurd hstart hneg
      rw [readVarint_of_neg (by omega)] at hraised
      cases hraised
    refine ⟨hstart, ?_⟩
    intro number size hdecode hsize
    obtain ⟨w, next, hread, -, -⟩ := readVarint_of_decode hstart hdecode hsize
    obtain ⟨-, -, -, hsound⟩ := hexact.sound w next hread
    rw [hdecode] at hsound
    obtain ⟨hnumber, -⟩ := Prod.mk.inj (Option.some.inj hsound)
    have hw := w.toInt_lt
    omega
  · rintro ⟨hstart, hsmall⟩
    have hnone : (¬ ∃ number size,
        Leb128.decode (data.data.drop start.toInt.toNat) = some (number, size) ∧ size ≤ 10) →
        readVarint data start = protocolFailure "truncated or oversized protobuf varint" := by
      intro hno
      apply readVarintFrom_raises (k := 0) 0 rfl (by omega) hstart
      intro number size hdecode
      by_contra hle
      exact hno ⟨number, size, hdecode, by omega⟩
    constructor
    · intro value next hread
      by_cases hex : ∃ number size,
          Leb128.decode (data.data.drop start.toInt.toNat) = some (number, size) ∧ size ≤ 10
      · obtain ⟨number, size, hdecode, hsize⟩ := hex
        have hlt := hsmall number size hdecode hsize
        obtain ⟨w, next', hread', hnext, hvalue⟩ := readVarint_of_decode hstart hdecode hsize
        rw [hread] at hread'
        obtain ⟨rfl, rfl⟩ := Prod.mk.inj (Except.ok.inj hread')
        have hint : value.toInt = number := by
          rw [hvalue hlt, Int32.toInt_ofNat_of_lt hlt]
        refine ⟨hstart, by omega, by omega, ?_⟩
        rw [hdecode, hint, hnext]
        congr 2
        omega
      · rw [hnone hex] at hread
        cases hread
    · intro hlarge
      refine ⟨_, hnone ?_⟩
      rintro ⟨number, size, hdecode, hsize⟩
      have hlt := hsmall number size hdecode hsize
      have hge := hlarge number size hstart hdecode hsize
      omega

/-- What the writer wrote is read at any position. -/
theorem readVarint_writeVarint {value : Int32} {before after : List UInt8}
    (hvalue : 0 ≤ value.toInt) (hdata : data.data = before ++ (writeVarint value ++ after)) :
    readVarint data (Int32.ofNat before.length) =
      .ok (value, Int32.ofNat (before.length + (writeVarint value).length)) := by
  have hlength := data.length_lt
  rw [hdata, List.length_append] at hlength
  have hstart : (Int32.ofNat before.length).toInt = before.length :=
    Int32.toInt_ofNat_of_lt (by omega)
  have hlt : value.toNatClampNeg < 2 ^ 31 := value.toNatClampNeg_lt
  have hofNat : Int32.ofNat value.toNatClampNeg = value := by
    apply Int32.ofNat_toNatClampNeg
    rw [Int32.le_iff_toInt_le, Int32.toInt_zero]
    exact hvalue
  have hwritten : writeVarint value = Leb128.encode value.toNatClampNeg := by
    rw [← writeVarint_ofNat hlt, hofNat]
  have hsize : (writeVarint value).length ≤ 10 := by
    have h := Leb128.length_encode_le (n := value.toNatClampNeg) (k := 4) (by omega)
    rw [hwritten]
    omega
  have hdecode : Leb128.decode (data.data.drop (Int32.ofNat before.length).toInt.toNat) =
      some (value.toNatClampNeg, (writeVarint value).length) := by
    rw [hstart, hdata, Int.toNat_natCast, List.drop_left, hwritten, Leb128.decode_encode]
  obtain ⟨w, next, hread, hnext, hw⟩ := readVarint_of_decode (by omega) hdecode hsize
  have hnext' : next = Int32.ofNat (before.length + (writeVarint value).length) := by
    apply Int32.toInt_inj.mp
    rw [List.length_append] at hlength
    rw [hnext, hstart, Int32.toInt_ofNat_of_lt (by omega)]
    omega
  rw [hread, hw hlt, hofNat, hnext']

/-- The reader is exact at an offset if and only if the offset is not negative and no
number of `2 ^ 31` or more stands there in ten bytes at most. And it reads what the writer
wrote, at any position. -/
theorem varint_exact_iff (data : Bytes) (start : Int32) :
    (ReadsExactly data start ↔ 0 ≤ start.toInt ∧ ∀ number size,
      Leb128.decode (data.data.drop start.toInt.toNat) = some (number, size) → size ≤ 10 →
        number < 2 ^ 31) ∧
    ∀ (value : Int32) (before after : List UInt8), 0 ≤ value.toInt →
      data.data = before ++ (writeVarint value ++ after) →
        readVarint data (Int32.ofNat before.length) =
          .ok (value, Int32.ofNat (before.length + (writeVarint value).length)) :=
  ⟨readsExactly_iff, fun _ _ _ hvalue hdata => readVarint_writeVarint hvalue hdata⟩

/-- The two bytes of 300 between two others are read exactly, as they were written. -/
theorem varint_exact_sample :
    ReadsExactly ⟨[0x07, 0xAC, 0x02, 0x09], by decide⟩ 1 ∧
      readVarint ⟨[0x07, 0xAC, 0x02, 0x09], by decide⟩ 1 = .ok (300, 3) := by
  constructor
  · rw [(varint_exact_iff _ _).1]
    refine ⟨by decide, ?_⟩
    intro number size hdecode hsize
    have hnumber : Leb128.decode [0xAC, 0x02, 0x09] = some (300, 2) := by decide
    have heq := hdecode.symm.trans hnumber
    obtain ⟨rfl, rfl⟩ := Prod.mk.inj (Option.some.inj heq)
    omega
  · exact (varint_exact_iff ⟨[0x07, 0xAC, 0x02, 0x09], by decide⟩ 1).2 300 [0x07] [0x09]
      (by decide) (by decide)

/-- Five bytes that spell `2 ^ 32` are read as zero. -/
theorem varint_truncated_sample :
    ¬ReadsExactly ⟨[0x80, 0x80, 0x80, 0x80, 0x10], by decide⟩ 0 := by
  intro hexact
  obtain ⟨-, -, -, hdecode⟩ := hexact.sound 0 5 (by decide)
  exact absurd hdecode (by decide)

end Moonfort.AenBackend
