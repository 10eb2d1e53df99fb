import Mathlib.Tactic.Ring
import Mathlib.Data.Int.Basic
import Mathlib.Data.List.Basic

/-!
# Fixed-width integers and byte strings

MoonBit's `Int` is a 32-bit two's complement number, here Lean's `Int32`. Byte
strings carry the bound that their length is itself an `Int`, and indexing and
slicing answer `none` where the program would abort.
-/

namespace Moonfort.MoonBit

/-- Adding nonnegative numbers whose exact sum fits is exact. -/
theorem toInt_add_of_lt {a b : Int32} (ha : 0 ≤ a.toInt) (hb : 0 ≤ b.toInt)
    (hsum : a.toInt + b.toInt < 2 ^ 31) : (a + b).toInt = a.toInt + b.toInt := by
  rw [Int32.toInt_add, Int.bmod_eq_of_le (by omega) (by omega)]

/-- Adding nonnegative numbers whose exact sum does not fit gives a negative number. -/
theorem toInt_add_of_le {a b : Int32} (hb : 0 ≤ b.toInt)
    (hsum : 2 ^ 31 ≤ a.toInt + b.toInt) : (a + b).toInt < 0 := by
  have ha' := a.toInt_lt
  have hb' := b.toInt_lt
  rw [Int32.toInt_add, Int.bmod_eq_emod]
  split <;> omega

/-- A byte string, whose length is an `Int` of the program. -/
structure Bytes where
  /-- The bytes in order. -/
  data : List UInt8
  /-- The length is representable. -/
  length_lt : data.length < 2 ^ 31
  deriving DecidableEq

namespace Bytes

/-- The empty byte string. -/
def empty : Bytes := ⟨[], by decide⟩

/-- The length of a byte string as the program reads it. -/
def length (b : Bytes) : Int32 := Int32.ofNat b.data.length

/-- The program's length is the exact length. -/
@[simp] theorem toInt_length (b : Bytes) : b.length.toInt = b.data.length :=
  Int32.toInt_ofNat_of_lt b.length_lt

/-- `b[i]`, which aborts outside the byte string. -/
def get? (b : Bytes) (i : Int32) : Option UInt8 :=
  if 0 ≤ i then b.data[i.toInt.toNat]? else none

/-- `b[start:stop].to_owned()`, which aborts unless
`0 ≤ start ≤ stop ≤ b.length()`. -/
def slice? (b : Bytes) (start stop : Int32) : Option Bytes :=
  if 0 ≤ start ∧ start ≤ stop ∧ stop ≤ b.length then
    some ⟨(b.data.drop start.toInt.toNat).take (stop.toInt - start.toInt).toNat, by
      have := b.length_lt
      simp only [List.length_take, List.length_drop]
      omega⟩
  else none

/-- An index inside the byte string reads a byte. -/
theorem get?_isSome {b : Bytes} {i : Int32} (hi : 0 ≤ i.toInt) (hlt : i < b.length) :
    ∃ byte, b.get? i = some byte := by
  rw [Int32.lt_iff_toInt_lt, toInt_length] at hlt
  have hi' : (0 : Int32) ≤ i := Int32.le_iff_toInt_le.mpr hi
  refine ⟨b.data[i.toInt.toNat], ?_⟩
  rw [get?, if_pos hi', List.getElem?_eq_getElem]

/-- A negative index reads nothing. -/
theorem get?_of_neg {b : Bytes} {i : Int32} (hi : i.toInt < 0) : b.get? i = none := by
  have hi' : ¬ (0 : Int32) ≤ i := by
    rw [Int32.le_iff_toInt_le]
    exact not_le.mpr hi
  rw [get?, if_neg hi']

/-- Slicing succeeds exactly between ordered offsets inside the byte string. -/
theorem slice?_isSome_iff {b : Bytes} {start stop : Int32} :
    (b.slice? start stop).isSome ↔
      0 ≤ start.toInt ∧ start.toInt ≤ stop.toInt ∧ stop.toInt ≤ b.data.length := by
  have hbounds : (0 ≤ start ∧ start ≤ stop ∧ stop ≤ b.length) ↔
      0 ≤ start.toInt ∧ start.toInt ≤ stop.toInt ∧ stop.toInt ≤ b.data.length := by
    simp only [Int32.le_iff_toInt_le, toInt_length, Int32.toInt_zero]
  rw [← hbounds, slice?]
  split <;> simp_all

end Bytes

end Moonfort.MoonBit
