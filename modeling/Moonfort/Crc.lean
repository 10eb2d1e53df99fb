import Mathlib

/-!
# Cyclic redundancy checks

A reflected check register of `w` bits as a polynomial over the field with two
elements, and the polynomial that a message leaves. The register holds the highest
coefficient in its lowest bit; a message is read bit by bit, the lowest bit of each
byte first.
-/

namespace Moonfort.Crc

open Polynomial

variable {w : ℕ}

/-- The coefficient of a bit. -/
def coefficient (b : Bool) : ZMod 2 := if b then 1 else 0

/-- The polynomial that a register holds. -/
noncomputable def register (c : BitVec w) : (ZMod 2)[X] :=
  ∑ i ∈ Finset.range w, C (coefficient (c.getLsbD i)) * X ^ (w - 1 - i)

/-- The generator whose lower coefficients a register holds. -/
noncomputable def generator (poly : BitVec w) : (ZMod 2)[X] := X ^ w + register poly

/-- One bit of the division. -/
def stepBit (poly c : BitVec w) : BitVec w :=
  if c.getLsbD 0 then (c >>> 1) ^^^ poly else c >>> 1

/-- One byte of the division. -/
def stepByte (poly c : BitVec w) (byte : BitVec 8) : BitVec w :=
  (stepBit poly)^[8] (c ^^^ byte.setWidth w)

/-- The polynomial of a byte. -/
noncomputable def bytePolynomial (byte : BitVec 8) : (ZMod 2)[X] := register byte

/-- The polynomial of a message. -/
noncomputable def messagePolynomial (bytes : List (BitVec 8)) : (ZMod 2)[X] :=
  bytes.foldl (fun p byte => X ^ 8 * p + bytePolynomial byte) 0

/-- The check of a message: its remainder behind a register of ones, complemented. -/
noncomputable def check (poly : BitVec w) (bytes : List (BitVec 8)) : (ZMod 2)[X] :=
  (X ^ (8 * bytes.length) * register (BitVec.allOnes w) + messagePolynomial bytes * X ^ w) %ₘ
    generator poly + register (BitVec.allOnes w)

/-! ## Registers -/

/-- Exclusive or adds coefficients over two elements. -/
theorem coefficient_xor (a b : Bool) :
    coefficient (a ^^ b) = coefficient a + coefficient b := by
  cases a <;> cases b <;> decide

/-- Exclusive or adds registers as polynomials. -/
theorem register_xor (a b : BitVec w) : register (a ^^^ b) = register a + register b := by
  rw [register, register, register, ← Finset.sum_add_distrib]
  apply Finset.sum_congr rfl
  intro i _
  rw [BitVec.getLsbD_xor, coefficient_xor, C_add, add_mul]

/-- A register of `w` bits has a degree below `w`. -/
theorem degree_register_lt (hw : 0 < w) (c : BitVec w) : (register c).degree < w := by
  rw [degree_lt_iff_coeff_zero]
  intro k hk
  rw [register, finsetSum_coeff]
  apply Finset.sum_eq_zero
  intro i hi
  rw [coeff_C_mul_X_pow, if_neg (by omega)]

/-- Shifting the register multiplies its polynomial by `X`, up to the bit that leaves. -/
theorem X_mul_register (hw : 0 < w) (c : BitVec w) :
    X * register c = C (coefficient (c.getLsbD 0)) * X ^ w + register (c >>> 1) := by
  obtain ⟨n, rfl⟩ : ∃ n, w = n + 1 := ⟨w - 1, by omega⟩
  have hlast : (c >>> 1).getLsbD n = false := by
    rw [BitVec.getLsbD_ushiftRight]
    exact BitVec.getLsbD_of_ge c (1 + n) (by omega)
  have hshift : register (c >>> 1) =
      ∑ i ∈ Finset.range n, C (coefficient (c.getLsbD (i + 1))) * X ^ (n - i) := by
    rw [register, Finset.sum_range_succ, hlast, coefficient, if_neg Bool.false_ne_true, C_0,
      zero_mul, add_zero]
    apply Finset.sum_congr rfl
    intro i _
    rw [BitVec.getLsbD_ushiftRight, Nat.add_comm 1 i, Nat.add_sub_cancel]
  rw [hshift, register, Finset.sum_range_succ', mul_add, Finset.mul_sum, add_comm]
  refine congrArg₂ (· + ·) ?_ ?_
  · rw [Nat.add_sub_cancel, Nat.sub_zero, mul_left_comm, ← pow_succ']
  · apply Finset.sum_congr rfl
    intro i hi
    rw [Finset.mem_range] at hi
    have hexponent : n - i = n + 1 - 1 - (i + 1) + 1 := by omega
    rw [mul_left_comm, ← pow_succ', ← hexponent]

/-- One bit of the division multiplies by `X` up to a multiple of the generator. -/
theorem generator_dvd_stepBit (hw : 0 < w) (poly c : BitVec w) :
    generator poly ∣ X * register c - register (stepBit poly c) := by
  rw [X_mul_register hw, stepBit]
  cases c.getLsbD 0 with
  | false => simp [coefficient]
  | true =>
    rw [if_pos rfl, register_xor, coefficient, if_pos rfl, C_1, one_mul]
    have htwo : register poly + register poly = 0 := CharTwo.add_self_eq_zero _
    refine ⟨1, ?_⟩
    rw [generator]
    linear_combination -htwo

/-- `n` bits of the division multiply by `X ^ n` up to a multiple of the generator. -/
theorem generator_dvd_iterate (hw : 0 < w) (poly c : BitVec w) (n : ℕ) :
    generator poly ∣ X ^ n * register c - register ((stepBit poly)^[n] c) := by
  induction n generalizing c with
  | zero => simp
  | succ n ih =>
    rw [Function.iterate_succ_apply]
    have hstep := (generator_dvd_stepBit hw poly c).mul_left (X ^ n)
    have hsum := dvd_add hstep (ih (stepBit poly c))
    have heq : X ^ n * (X * register c - register (stepBit poly c)) +
        (X ^ n * register (stepBit poly c) - register ((stepBit poly)^[n] (stepBit poly c))) =
        X ^ (n + 1) * register c - register ((stepBit poly)^[n] (stepBit poly c)) := by ring
    rwa [heq] at hsum

/-- A byte takes the place of the highest coefficients of a register. -/
theorem register_setWidth (hw : 8 ≤ w) (byte : BitVec 8) :
    register (byte.setWidth w) = bytePolynomial byte * X ^ (w - 8) := by
  obtain ⟨n, rfl⟩ : ∃ n, w = 8 + n := ⟨w - 8, by omega⟩
  have hhigh : ∑ i ∈ Finset.range n, C (coefficient ((byte.setWidth (8 + n)).getLsbD (8 + i))) *
      X ^ (8 + n - 1 - (8 + i)) = 0 := by
    apply Finset.sum_eq_zero
    intro i _
    rw [BitVec.getLsbD_setWidth, BitVec.getLsbD_of_ge byte (8 + i) (by omega), Bool.and_false,
      coefficient, if_neg Bool.false_ne_true, C_0, zero_mul]
  rw [register, Finset.sum_range_add, hhigh, add_zero, bytePolynomial, register, Finset.sum_mul]
  apply Finset.sum_congr rfl
  intro i hi
  rw [Finset.mem_range] at hi
  have hexponent : 8 + n - 1 - i = 8 - 1 - i + (8 + n - 8) := by omega
  rw [BitVec.getLsbD_setWidth, decide_eq_true (show i < 8 + n by omega), Bool.true_and, mul_assoc,
    ← pow_add, hexponent]

/-- One byte of the division appends the byte to the message, up to a multiple of the
generator. -/
theorem generator_dvd_stepByte (hw : 8 ≤ w) (poly c : BitVec w) (byte : BitVec 8) :
    generator poly ∣
      X ^ 8 * register c + bytePolynomial byte * X ^ w - register (stepByte poly c byte) := by
  have h := generator_dvd_iterate (by omega) poly (c ^^^ byte.setWidth w) 8
  have hpower : (X ^ w : (ZMod 2)[X]) = X ^ 8 * X ^ (w - 8) := by
    rw [← pow_add, Nat.add_sub_cancel' hw]
  have heq : X ^ 8 * (register c + bytePolynomial byte * X ^ (w - 8)) =
      X ^ 8 * register c + bytePolynomial byte * X ^ w := by
    rw [hpower]
    ring
  rw [register_xor, register_setWidth hw, heq] at h
  exact h

/-- The polynomial of a message behind the polynomial of what comes before it. -/
theorem foldl_messagePolynomial (bytes : List (BitVec 8)) (p : (ZMod 2)[X]) :
    bytes.foldl (fun p byte => X ^ 8 * p + bytePolynomial byte) p =
      X ^ (8 * bytes.length) * p + messagePolynomial bytes := by
  induction bytes generalizing p with
  | nil => simp [messagePolynomial]
  | cons byte rest ih =>
    rw [messagePolynomial, List.foldl_cons, List.foldl_cons, ih, ih (X ^ 8 * 0 + _),
      List.length_cons, Nat.mul_succ, pow_add]
    ring

/-- The division of a message behind the polynomial of a register. -/
theorem generator_dvd_foldl (hw : 8 ≤ w) (poly c : BitVec w) (bytes : List (BitVec 8)) :
    generator poly ∣ X ^ (8 * bytes.length) * register c + messagePolynomial bytes * X ^ w -
      register (bytes.foldl (stepByte poly) c) := by
  induction bytes generalizing c with
  | nil => simp [messagePolynomial]
  | cons byte rest ih =>
    have hstep := (generator_dvd_stepByte hw poly c byte).mul_left (X ^ (8 * rest.length))
    have hsum := dvd_add hstep (ih (stepByte poly c byte))
    have hmessage : messagePolynomial (byte :: rest) =
        X ^ (8 * rest.length) * bytePolynomial byte + messagePolynomial rest := by
      rw [messagePolynomial, List.foldl_cons, foldl_messagePolynomial]
      ring
    rw [List.foldl_cons, hmessage, List.length_cons, Nat.mul_succ, pow_add]
    have heq : X ^ (8 * rest.length) *
          (X ^ 8 * register c + bytePolynomial byte * X ^ w - register (stepByte poly c byte)) +
        (X ^ (8 * rest.length) * register (stepByte poly c byte) + messagePolynomial rest * X ^ w -
          register (rest.foldl (stepByte poly) (stepByte poly c byte))) =
        X ^ (8 * rest.length) * X ^ 8 * register c +
          (X ^ (8 * rest.length) * bytePolynomial byte + messagePolynomial rest) * X ^ w -
          register (rest.foldl (stepByte poly) (stepByte poly c byte)) := by ring
    rwa [heq] at hsum

/-- The generator polynomial is monic. -/
theorem monic_generator (hw : 0 < w) (poly : BitVec w) : (generator poly).Monic :=
  monic_X_pow_add (degree_register_lt hw poly)

/-- The generator polynomial of `w` bits has degree `w`. -/
theorem degree_generator (hw : 0 < w) (poly : BitVec w) : (generator poly).degree = w := by
  rw [generator, degree_add_eq_left_of_degree_lt, degree_X_pow]
  rw [degree_X_pow]
  exact degree_register_lt hw poly

/-- The register that the division of a message leaves, complemented, is its check. -/
theorem register_not_foldl (hw : 8 ≤ w) (poly : BitVec w) (bytes : List (BitVec 8)) :
    register (bytes.foldl (stepByte poly) (BitVec.allOnes w) ^^^ BitVec.allOnes w) =
      check poly bytes := by
  have hpos : 0 < w := by omega
  have hmonic := monic_generator hpos poly
  have hdvd := generator_dvd_foldl hw poly (BitVec.allOnes w) bytes
  have hself : register (bytes.foldl (stepByte poly) (BitVec.allOnes w)) %ₘ generator poly =
      register (bytes.foldl (stepByte poly) (BitVec.allOnes w)) := by
    rw [modByMonic_eq_self_iff hmonic, degree_generator hpos]
    exact degree_register_lt hpos _
  rw [register_xor, check, modByMonic_eq_of_dvd_sub hmonic hdvd, hself]

end Moonfort.Crc
