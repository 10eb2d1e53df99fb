import Mathlib

/-!
# Integers of a fixed width

Computations with `Int` and `Int64`. A result that leaves the range of its type ends the
computation here with an outcome of its own, where the language wraps it around.
-/

namespace Moonfort.MoonBit

/-- How a computation fails. -/
inductive Fault where
  /-- `fail(message)`. -/
  | refused (message : String)
  /-- A result that does not fit its type. -/
  | overflow
  deriving DecidableEq

/-- A result of type `Int64`. -/
def int64 (n : ℤ) : Except Fault ℤ :=
  if -2 ^ 63 ≤ n ∧ n < 2 ^ 63 then .ok n else .error .overflow

/-- A result of type `Int`. -/
def int32 (n : ℤ) : Except Fault ℤ :=
  if -2 ^ 31 ≤ n ∧ n < 2 ^ 31 then .ok n else .error .overflow

/-- A number in the range of `Int64` is kept. -/
theorem int64_of_mem {n : ℤ} (hlow : -2 ^ 63 ≤ n) (hhigh : n < 2 ^ 63) : int64 n = .ok n :=
  if_pos ⟨hlow, hhigh⟩

/-- A number in the range of `Int` is kept. -/
theorem int32_of_mem {n : ℤ} (hlow : -2 ^ 31 ≤ n) (hhigh : n < 2 ^ 31) : int32 n = .ok n :=
  if_pos ⟨hlow, hhigh⟩

/-- A computation goes on behind a result in the range of `Int64`. -/
theorem int64_bind {α : Type} {n : ℤ} (hlow : -2 ^ 63 ≤ n) (hhigh : n < 2 ^ 63)
    (f : ℤ → Except Fault α) : (int64 n >>= f) = f n := by
  rw [int64_of_mem hlow hhigh]
  rfl

/-- A computation goes on behind a result in the range of `Int`. -/
theorem int32_bind {α : Type} {n : ℤ} (hlow : -2 ^ 31 ≤ n) (hhigh : n < 2 ^ 31)
    (f : ℤ → Except Fault α) : (int32 n >>= f) = f n := by
  rw [int32_of_mem hlow hhigh]
  rfl

end Moonfort.MoonBit
