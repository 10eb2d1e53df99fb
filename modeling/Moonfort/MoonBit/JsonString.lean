import Moonfort.MoonBit.Json

/-!
# Reading JSON strings

What the library's parser makes of the characters between two quotation marks. A string
that `stringify` writes is read back as itself.
-/

namespace Moonfort.MoonBit

/-- The code unit that a short escape stands for. -/
def escapedUnit (c : Char) : ℕ :=
  if c = 'b' then 8
  else if c = 't' then 9
  else if c = 'n' then 10
  else if c = 'f' then 12
  else if c = 'r' then 13
  else c.toNat

/-- The value of a hexadecimal digit. -/
def hexDigitValue (c : Char) : ℕ :=
  if c.isDigit then c.toNat - 48 else if 'a' ≤ c then c.toNat - 87 else c.toNat - 55

/-- The code units that the characters of a string stand for. -/
def bodyUnits : List Char → List ℕ
  | [] => []
  | '\\' :: 'u' :: a :: b :: c :: d :: rest =>
    (hexDigitValue a * 4096 + hexDigitValue b * 256 + hexDigitValue c * 16 + hexDigitValue d) ::
      bodyUnits rest
  | '\\' :: c :: rest => escapedUnit c :: bodyUnits rest
  | c :: rest => utf16Char c ++ bodyUnits rest

/-- The characters of some code units, where two surrogates make up a pair. -/
def charsOfUnits : List ℕ → List Char
  | [] => []
  | [unit] => [Char.ofNat unit]
  | unit :: next :: rest =>
    if 0xD800 ≤ unit ∧ unit < 0xDC00 ∧ 0xDC00 ≤ next ∧ next < 0xE000 then
      Char.ofNat (0x10000 + (unit - 0xD800) * 0x400 + (next - 0xDC00)) :: charsOfUnits rest
    else Char.ofNat unit :: charsOfUnits (next :: rest)

/-- The string that the characters between two quotation marks stand for. -/
def unescapeString (body : List Char) : String := String.ofList (charsOfUnits (bodyUnits body))

/-- A unit that is no surrogate is a character of its own. -/
theorem charsOfUnits_cons {unit : ℕ} (h : unit < 0xD800 ∨ 0xDFFF < unit) (rest : List ℕ) :
    charsOfUnits (unit :: rest) = Char.ofNat unit :: charsOfUnits rest := by
  cases rest with
  | nil => rfl
  | cons next rest => rw [charsOfUnits, if_neg (by omega)]

/-- The units of a character are read as the character. -/
theorem charsOfUnits_utf16Char (c : Char) (rest : List ℕ) :
    charsOfUnits (utf16Char c ++ rest) = c :: charsOfUnits rest := by
  have hc : c.toNat < 0xD800 ∨ 0xDFFF < c.toNat ∧ c.toNat < 0x110000 := c.valid
  unfold utf16Char
  split
  next hsmall =>
    rw [List.singleton_append, charsOfUnits_cons (by omega), Char.ofNat_toNat]
  next hlarge =>
    have hvalue : 0x10000 + (0xD800 + (c.toNat - 0x10000) / 0x400 - 0xD800) * 0x400 +
        (0xDC00 + (c.toNat - 0x10000) % 0x400 - 0xDC00) = c.toNat := by
      omega
    rw [List.cons_append, List.singleton_append, charsOfUnits, if_pos (by omega), hvalue,
      Char.ofNat_toNat]

/-- A character that is not escaped stands for itself. -/
theorem bodyUnits_plain {c : Char} (h : c ≠ '\\') (rest : List Char) :
    bodyUnits (c :: rest) = utf16Char c ++ bodyUnits rest := by
  rw [bodyUnits]
  all_goals simp [h]

/-- An escape of two characters stands for its unit. -/
theorem bodyUnits_escape {c : Char} (h : c ≠ 'u') (rest : List Char) :
    bodyUnits ('\\' :: c :: rest) = escapedUnit c :: bodyUnits rest := by
  rw [bodyUnits]
  all_goals simp [h]

/-- A hexadecimal digit has its value. -/
theorem hexDigitValue_digitChar : ∀ n < 16, hexDigitValue (Nat.digitChar n) = n := by
  decide

/-- A character that is written is read as the character. -/
theorem bodyUnits_escapeChar (c : Char) (rest : List Char) :
    bodyUnits (escapeChar c ++ rest) = utf16Char c ++ bodyUnits rest := by
  obtain ⟨e, he, hne, hmem⟩ | ⟨hlow, he⟩ | ⟨hslash, -, he⟩ := escapeChar_cases c
  · rw [he, List.cons_append, List.singleton_append, bodyUnits_escape hne]
    simp only [List.mem_cons, Prod.mk.injEq, List.not_mem_nil, or_false] at hmem
    rcases hmem with ⟨rfl, rfl⟩ | ⟨rfl, rfl⟩ | ⟨rfl, rfl⟩ | ⟨rfl, rfl⟩ | ⟨rfl, rfl⟩ | ⟨rfl, rfl⟩ |
      ⟨rfl, rfl⟩ <;> rfl
  · have hvalue : hexDigitValue '0' * 4096 + hexDigitValue '0' * 256 +
        hexDigitValue (Nat.digitChar (c.toNat / 16)) * 16 +
          hexDigitValue (Nat.digitChar (c.toNat % 16)) = c.toNat := by
      have hzero : hexDigitValue '0' = 0 := by decide
      rw [hexDigitValue_digitChar _ (by omega), hexDigitValue_digitChar _ (by omega), hzero]
      omega
    rw [he]
    simp only [List.cons_append, List.nil_append]
    rw [bodyUnits, hvalue, utf16Char, if_pos (by omega), List.singleton_append]
  · rw [he, List.singleton_append, bodyUnits_plain hslash]

/-- A string that is written is read back. -/
theorem unescapeString_escape (s : String) : unescapeString (s.toList.flatMap escapeChar) = s := by
  have hunits (chars : List Char) :
      bodyUnits (chars.flatMap escapeChar) = chars.flatMap utf16Char := by
    induction chars with
    | nil => rfl
    | cons c rest ih => rw [List.flatMap_cons, bodyUnits_escapeChar, ih, List.flatMap_cons]
  have hchars (chars : List Char) : charsOfUnits (chars.flatMap utf16Char) = chars := by
    induction chars with
    | nil => rfl
    | cons c rest ih => rw [List.flatMap_cons, charsOfUnits_utf16Char, ih]
  rw [unescapeString, hunits, hchars, String.ofList_toList]

end Moonfort.MoonBit
