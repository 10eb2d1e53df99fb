import Moonfort.MoonBit.Crypto
import Moonfort.MoonBit.JsonSize

/-!
# Plain texts

Texts whose characters are all written as they are, among them the numbers and the
hexadecimal digests of the program.
-/

namespace Moonfort.MoonBit

/-- A number that is not negative is written in plain characters. -/
theorem plain_intText {n : ℤ} (hn : 0 ≤ n) : ∀ c ∈ (intText n).toList, IsPlain c := by
  intro c hc
  rw [intText, String.toList_ofList, intChars, if_neg (not_lt.mpr hn)] at hc
  exact isPlain_of_isDigit (toDigits_isDigit c hc)

/-- A hexadecimal text is plain. -/
theorem plain_bytesToHexString (bytes : List UInt8) :
    ∀ c ∈ (bytesToHexString bytes).toList, IsPlain c := by
  have hdigit : ∀ n < 16, IsPlain (Nat.digitChar n) := by decide
  intro c hc
  rw [bytesToHexString, String.toList_ofList] at hc
  obtain ⟨byte, _, hmem⟩ := List.mem_flatMap.mp hc
  have hbyte := byte.toNat_lt
  rw [hexPair, List.mem_cons, List.mem_singleton] at hmem
  obtain rfl | rfl := hmem
  · exact hdigit _ (by omega)
  · exact hdigit _ (by omega)

/-- Every byte has two hexadecimal digits. -/
theorem length_bytesToHexString (bytes : List UInt8) :
    (bytesToHexString bytes).toList.length = 2 * bytes.length := by
  rw [bytesToHexString, String.toList_ofList, List.length_flatMap]
  simp [hexPair, Nat.mul_comm]

/-- A plain text has one code unit for each character. -/
theorem utf16Length_of_plain {s : String} (h : ∀ c ∈ s.toList, IsPlain c) :
    utf16Length s = s.toList.length := by
  have hunit : ∀ c ∈ s.toList, (if c.toNat < 0x10000 then 1 else 2) = 1 := by
    intro c hc
    have hascii := (h c hc).2.1
    exact if_pos (by omega)
  rw [utf16Length, List.map_congr_left hunit]
  simp

/-- A plain text has a byte for each character. -/
theorem utf8Length_of_plain {s : String} (h : ∀ c ∈ s.toList, IsPlain c) :
    utf8Length s = s.toList.length := by
  rw [utf8Length, List.map_congr_left fun c hc => utf8Size_of_isPlain (h c hc)]
  simp

/-- A size of 63 bits has at most 19 digits. -/
theorem utf8Length_intText_le {n : ℤ} (hn : 0 ≤ n) (hlt : n < 2 ^ 63) :
    utf8Length (intText n) ≤ 19 := by
  rw [utf8Length_of_plain (plain_intText hn), intText, String.toList_ofList, intChars,
    if_neg (not_lt.mpr hn), Nat.length_toDigits_le_iff (by decide) (by decide)]
  have habs : (n.natAbs : ℤ) = n := Int.natAbs_of_nonneg hn
  omega

/-- No character has more code units than bytes. -/
theorem utf16Length_le_utf8Length (s : String) : utf16Length s ≤ utf8Length s := by
  have hchar : ∀ c : Char, (if c.toNat < 0x10000 then 1 else 2) ≤ c.utf8Size := by
    intro c
    have hpos := c.utf8Size_pos
    split
    · exact hpos
    next hlarge =>
      by_contra hone
      have hsize : c.utf8Size = 1 := by omega
      have hval : c.toNat ≤ 127 := Char.utf8Size_eq_one_iff.mp hsize
      omega
  rw [utf16Length, utf8Length]
  induction s.toList with
  | nil => exact le_refl _
  | cons c chars ih =>
    have hc := hchar c
    rw [List.map_cons, List.map_cons, List.sum_cons, List.sum_cons]
    omega

end Moonfort.MoonBit
