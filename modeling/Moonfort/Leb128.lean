import Mathlib.Data.List.Basic
import Mathlib.Tactic.Ring

/-!
# Base-128 numbers

A natural number as bytes of seven bits each, the least significant first. Every
byte but the last has its highest bit set. A number has many spellings, since the
last bytes may be zero; `encode` writes the shortest.
-/

namespace Leb128

/-- Write a number. -/
def encode (n : ℕ) : List UInt8 :=
  if n < 128 then [UInt8.ofNat n] else UInt8.ofNat (n % 128 + 128) :: encode (n / 128)

/-- Read a number from the front of the bytes: its value and the number of its bytes. -/
def decode : List UInt8 → Option (ℕ × ℕ)
  | [] => none
  | byte :: rest =>
    if byte.toNat < 128 then some (byte.toNat, 1)
    else (decode rest).map fun (value, size) => (byte.toNat % 128 + 128 * value, size + 1)

/-- A number takes at least one byte, and no more than there are. -/
theorem size_of_decode {bytes : List UInt8} {value size : ℕ}
    (h : decode bytes = some (value, size)) :
    0 < size ∧ size ≤ bytes.length := by
  induction bytes generalizing value size with
  | nil => cases h
  | cons byte rest ih =>
    rw [decode] at h
    split at h
    · obtain ⟨rfl, rfl⟩ := Prod.mk.inj (Option.some.inj h)
      simp
    · obtain ⟨⟨value', size'⟩, hrest, heq⟩ := Option.map_eq_some_iff.mp h
      obtain ⟨rfl, rfl⟩ := Prod.mk.inj heq
      have hsize := (ih hrest).2
      rw [List.length_cons]
      omega

/-- An encoded number has a byte at least. -/
theorem length_encode_pos (n : ℕ) : 0 < (encode n).length := by
  unfold encode
  split <;> simp

/-- What is written is read back, whatever follows. -/
theorem decode_encode (n : ℕ) (rest : List UInt8) :
    decode (encode n ++ rest) = some (n, (encode n).length) := by
  induction n using encode.induct with
  | case1 n hlt =>
    have hbyte : (UInt8.ofNat n).toNat = n := by
      rw [UInt8.toNat_ofNat']
      omega
    rw [encode, if_pos hlt, List.singleton_append, decode, hbyte, if_pos hlt]
    rfl
  | case2 n hge ih =>
    have hbyte : (UInt8.ofNat (n % 128 + 128)).toNat = n % 128 + 128 := by
      rw [UInt8.toNat_ofNat']
      omega
    rw [encode, if_neg hge, List.cons_append, decode, hbyte, if_neg (by omega), ih,
      Option.map_some, List.length_cons]
    have hvalue : (n % 128 + 128) % 128 + 128 * (n / 128) = n := by omega
    dsimp only
    rw [hvalue]

/-- A number below a power of 128 takes at most so many bytes. -/
theorem length_encode_le {n k : ℕ} (h : n < 128 ^ (k + 1)) : (encode n).length ≤ k + 1 := by
  induction k generalizing n with
  | zero =>
    rw [encode, if_pos (by omega)]
    simp
  | succ k ih =>
    rw [encode]
    split
    · simp
    · rw [List.length_cons]
      have hlt : n / 128 < 128 ^ (k + 1) := by
        rw [Nat.div_lt_iff_lt_mul (by omega), ← Nat.pow_succ]
        exact h
      have := ih hlt
      omega

end Leb128
