import Mathlib

/-!
# Little-endian fields

Records that are a sequence of unsigned fields of fixed widths, least byte first,
and the reader that takes such a record from the front of a byte string.
-/

namespace Moonfort.Fields

/-- A number in `width` bytes, least byte first. -/
def leBytes : ℕ → ℕ → List UInt8
  | 0, _ => []
  | width + 1, n => UInt8.ofNat n :: leBytes width (n / 256)

/-- The number that bytes stand for, least byte first. -/
def leValue : List UInt8 → ℕ
  | [] => 0
  | byte :: rest => byte.toNat + 256 * leValue rest

/-- A number of fixed width has that width. -/
@[simp]
theorem length_leBytes (width n : ℕ) : (leBytes width n).length = width := by
  induction width generalizing n with
  | zero => rfl
  | succ width ih => rw [leBytes, List.length_cons, ih]

/-- A number that fits in its field is read back. -/
theorem leValue_leBytes {width n : ℕ} (h : n < 256 ^ width) : leValue (leBytes width n) = n := by
  induction width generalizing n with
  | zero =>
    rw [Nat.pow_zero] at h
    rw [leBytes, leValue]
    omega
  | succ width ih =>
    rw [Nat.pow_succ] at h
    have hbyte : (UInt8.ofNat n).toNat = n % 256 := UInt8.toNat_ofNat'
    rw [leBytes, leValue, hbyte, ih (by omega)]
    omega

/-- A field: its width in bytes and its value. -/
abbrev Field : Type := ℕ × ℕ

/-- The value fits in the width. -/
def Field.Fits (field : Field) : Prop := field.2 < 256 ^ field.1

/-- The bytes of a record. -/
def writeFields (fields : List Field) : List UInt8 := fields.flatMap fun field =>
  leBytes field.1 field.2

/-- The values of a record with these widths, and the bytes behind it. -/
def readFields : List ℕ → List UInt8 → Option (List ℕ × List UInt8)
  | [], bytes => some ([], bytes)
  | width :: widths, bytes =>
    if bytes.length < width then none
    else
      match readFields widths (bytes.drop width) with
      | none => none
      | some (values, rest) => some (leValue (bytes.take width) :: values, rest)

/-- Written fields are as long as their widths. -/
theorem length_writeFields (fields : List Field) :
    (writeFields fields).length = (fields.map Prod.fst).sum := by
  induction fields with
  | nil => rfl
  | cons field fields ih =>
    rw [writeFields, List.flatMap_cons, List.length_append, length_leBytes, List.map_cons,
      List.sum_cons, ← ih, writeFields]

/-- A record whose values fit is read back from the front of a byte string. -/
theorem readFields_writeFields {fields : List Field} (h : ∀ field ∈ fields, field.Fits)
    (rest : List UInt8) :
    readFields (fields.map Prod.fst) (writeFields fields ++ rest) =
      some (fields.map Prod.snd, rest) := by
  induction fields with
  | nil => rfl
  | cons field fields ih =>
    have hfield := h field (List.mem_cons_self ..)
    have hrest := ih fun other hother => h other (List.mem_cons_of_mem _ hother)
    have hlength : (leBytes field.1 field.2).length = field.1 := length_leBytes _ _
    have hlong : ¬ (writeFields (field :: fields) ++ rest).length < field.1 := by
      rw [List.length_append, length_writeFields, List.map_cons, List.sum_cons]
      omega
    have hsplit : writeFields (field :: fields) ++ rest =
        leBytes field.1 field.2 ++ (writeFields fields ++ rest) := by
      rw [writeFields, List.flatMap_cons, List.append_assoc, writeFields]
    rw [List.map_cons, readFields, if_neg hlong, hsplit, List.drop_left' hlength, hrest,
      List.take_left' hlength, leValue_leBytes hfield]
    rfl

end Moonfort.Fields
