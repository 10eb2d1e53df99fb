import Moonfort.MoonBit.Text

/-!
# Base64

The standard alphabet with padding: groups of three bytes as four characters,
the reader, and the size of the text.
-/

namespace Moonfort.MoonBit

/-- The character of a six-bit digit. -/
def base64Digit (n : ℕ) : Char :=
  if n < 26 then Char.ofNat (65 + n)
  else if n < 52 then Char.ofNat (71 + n)
  else if n < 62 then Char.ofNat (n - 4)
  else if n = 62 then '+'
  else '/'

/-- The six-bit digit of a character. -/
def base64Value (c : Char) : Option ℕ :=
  if 'A' ≤ c ∧ c ≤ 'Z' then some (c.toNat - 65)
  else if 'a' ≤ c ∧ c ≤ 'z' then some (c.toNat - 71)
  else if '0' ≤ c ∧ c ≤ '9' then some (c.toNat + 4)
  else if c = '+' then some 62
  else if c = '/' then some 63
  else none

/-- Three bytes as one number. -/
def groupValue (a b c : UInt8) : ℕ := a.toNat * 65536 + b.toNat * 256 + c.toNat

/-- The characters of `@base64.encode`. -/
def base64Chars : List UInt8 → List Char
  | [] => []
  | [a] =>
    let n := groupValue a 0 0
    [base64Digit (n / 262144), base64Digit (n / 4096 % 64), '=', '=']
  | [a, b] =>
    let n := groupValue a b 0
    [base64Digit (n / 262144), base64Digit (n / 4096 % 64), base64Digit (n / 64 % 64), '=']
  | a :: b :: c :: rest =>
    let n := groupValue a b c
    base64Digit (n / 262144) :: base64Digit (n / 4096 % 64) :: base64Digit (n / 64 % 64) ::
      base64Digit (n % 64) :: base64Chars rest

/-- `@base64.encode`. -/
def base64Encode (bytes : List UInt8) : String := String.ofList (base64Chars bytes)

/-- The reader of a base64 text. -/
def base64DecodeChars : List Char → Option (List UInt8)
  | [] => some []
  | x :: y :: z :: w :: rest => do
    let high ← base64Value x
    let low ← base64Value y
    if z = '=' then
      if w = '=' ∧ rest = [] then some [UInt8.ofNat (high * 4 + low / 16)] else none
    else
      let third ← base64Value z
      let n := high * 262144 + low * 4096 + third * 64
      if w = '=' then
        if rest = [] then some [UInt8.ofNat (n / 65536), UInt8.ofNat (n / 256 % 256)] else none
      else
        let fourth ← base64Value w
        let n := n + fourth
        let tail ← base64DecodeChars rest
        some (UInt8.ofNat (n / 65536) :: UInt8.ofNat (n / 256 % 256) :: UInt8.ofNat (n % 256) ::
          tail)
  | _ => none

/-- `@base64.decode`. -/
def base64Decode (text : String) : Option (List UInt8) := base64DecodeChars text.toList

/-- The value of a digit's character is the digit. -/
theorem base64Value_digit : ∀ n < 64, base64Value (base64Digit n) = some n := by decide

/-- Padding is not a digit. -/
theorem base64Digit_ne_padding : ∀ n < 64, base64Digit n ≠ '=' := by decide

/-- A byte is determined by its number. -/
theorem ofNat_eq_of_toNat {a : UInt8} {n : ℕ} (h : n = a.toNat) : UInt8.ofNat n = a := by
  rw [h, UInt8.ofNat_toNat]

/-- Reading what was written gives the bytes back. -/
theorem base64DecodeChars_chars (bytes : List UInt8) :
    base64DecodeChars (base64Chars bytes) = some bytes := by
  induction bytes using base64Chars.induct with
  | case1 => rfl
  | case2 a =>
    have ha := a.toNat_lt
    obtain ⟨n, hn⟩ : ∃ n, n = groupValue a 0 0 := ⟨_, rfl⟩
    have hvalue : n = a.toNat * 65536 := by simp [hn, groupValue]
    have hfirst := base64Value_digit (n / 262144) (by omega)
    have hsecond := base64Value_digit (n / 4096 % 64) (by omega)
    have hbyte : UInt8.ofNat (n / 262144 * 4 + n / 4096 % 64 / 16) = a :=
      ofNat_eq_of_toNat (by omega)
    rw [base64Chars, ← hn, base64DecodeChars]
    simp only [hfirst, hsecond, hbyte, Option.bind_eq_bind, Option.bind_some, if_true, and_self]
  | case3 a b =>
    have ha := a.toNat_lt
    have hb := b.toNat_lt
    obtain ⟨n, hn⟩ : ∃ n, n = groupValue a b 0 := ⟨_, rfl⟩
    have hvalue : n = a.toNat * 65536 + b.toNat * 256 := by simp [hn, groupValue]
    have hfirst := base64Value_digit (n / 262144) (by omega)
    have hsecond := base64Value_digit (n / 4096 % 64) (by omega)
    have hthird := base64Value_digit (n / 64 % 64) (by omega)
    have hpad := base64Digit_ne_padding (n / 64 % 64) (by omega)
    have hsum : n / 262144 * 262144 + n / 4096 % 64 * 4096 + n / 64 % 64 * 64 = n := by omega
    have hbyte : UInt8.ofNat (n / 65536) = a := ofNat_eq_of_toNat (by omega)
    have hbyte' : UInt8.ofNat (n / 256 % 256) = b := ofNat_eq_of_toNat (by omega)
    rw [base64Chars, ← hn, base64DecodeChars]
    simp only [hfirst, hsecond, hthird, hsum, hbyte, hbyte', if_neg hpad, Option.bind_eq_bind,
      Option.bind_some, if_true]
  | case4 a b c rest ih =>
    have ha := a.toNat_lt
    have hb := b.toNat_lt
    have hc := c.toNat_lt
    obtain ⟨n, hn⟩ : ∃ n, n = groupValue a b c := ⟨_, rfl⟩
    have hvalue : n = a.toNat * 65536 + b.toNat * 256 + c.toNat := hn
    have hfirst := base64Value_digit (n / 262144) (by omega)
    have hsecond := base64Value_digit (n / 4096 % 64) (by omega)
    have hthird := base64Value_digit (n / 64 % 64) (by omega)
    have hfourth := base64Value_digit (n % 64) (by omega)
    have hpad := base64Digit_ne_padding (n / 64 % 64) (by omega)
    have hpad' := base64Digit_ne_padding (n % 64) (by omega)
    have hsum : n / 262144 * 262144 + n / 4096 % 64 * 4096 + n / 64 % 64 * 64 + n % 64 = n := by
      omega
    have hbyte : UInt8.ofNat (n / 65536) = a := ofNat_eq_of_toNat (by omega)
    have hbyte' : UInt8.ofNat (n / 256 % 256) = b := ofNat_eq_of_toNat (by omega)
    have hbyte'' : UInt8.ofNat (n % 256) = c := ofNat_eq_of_toNat (by omega)
    rw [base64Chars, ← hn, base64DecodeChars]
    simp only [hfirst, hsecond, hthird, hfourth, hsum, hbyte, hbyte', hbyte'', if_neg hpad,
      if_neg hpad', ih, Option.bind_eq_bind, Option.bind_some]

/-- `@base64.decode` inverts `@base64.encode`. -/
@[simp] theorem base64Decode_encode (bytes : List UInt8) :
    base64Decode (base64Encode bytes) = some bytes := by
  rw [base64Decode, base64Encode, String.toList_ofList, base64DecodeChars_chars]

/-- Every group of three bytes, the last one padded, takes four characters. -/
theorem length_base64Chars (bytes : List UInt8) :
    (base64Chars bytes).length = (bytes.length + 2) / 3 * 4 := by
  induction bytes using base64Chars.induct with
  | case1 => rfl
  | case2 a => simp [base64Chars]
  | case3 a b => simp [base64Chars]
  | case4 a b c rest ih =>
    rw [base64Chars]
    simp only [List.length_cons, ih]
    omega

/-- The digits of base64 are ASCII, and none of them is escaped in a JSON string. -/
theorem base64Digit_plain : ∀ n < 64, 0x20 ≤ (base64Digit n).toNat ∧
    (base64Digit n).toNat < 0x80 ∧ base64Digit n ≠ '"' ∧ base64Digit n ≠ '\\' := by decide

end Moonfort.MoonBit
