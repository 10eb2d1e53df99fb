import Mathlib.Algebra.Order.Field.Power
import Mathlib.Algebra.Order.Field.Rat
import Mathlib.Algebra.Order.Round
import Mathlib.Data.Rat.Floor
import Mathlib.Tactic.FieldSimp
import Mathlib.Tactic.Positivity
import Mathlib.Tactic.Ring

/-!
# Decimal numerals

The number that a string of decimal digits spells, the digits of a number in a fixed number of
places, the rational number of a numeral with a sign, a fraction and a decimal exponent, and the
rounding of a fraction to an integer.
-/

namespace DecimalText

/-! ## Digits -/

/-- The number that decimal digits spell. -/
def digitsValue (digits : List Char) : ℕ := Nat.ofDigitChars 10 digits 0

/-- The number that one digit spells. -/
def digitValue (c : Char) : ℕ := c.toNat - 48

/-- No digits are zero. -/
@[simp] theorem digitsValue_nil : digitsValue [] = 0 := rfl

/-- The digits behind others shift these by their number. -/
theorem digitsValue_append (left right : List Char) :
    digitsValue (left ++ right) = digitsValue left * 10 ^ right.length + digitsValue right := by
  rw [digitsValue, Nat.ofDigitChars_append, Nat.ofDigitChars_eq_ofDigitChars_zero]
  rw [mul_comm (digitsValue left)]
  rfl

/-- One more digit multiplies the value by ten. -/
theorem digitsValue_concat (digits : List Char) (c : Char) :
    digitsValue (digits ++ [c]) = digitsValue digits * 10 + digitValue c := by
  rw [digitsValue_append, List.length_singleton, pow_one, digitsValue, digitsValue,
    Nat.ofDigitChars_cons, Nat.ofDigitChars_nil, Nat.mul_zero, Nat.zero_add]
  rfl

/-- Zeros are zero. -/
theorem digitsValue_zeros (n : ℕ) : digitsValue (List.replicate n '0') = 0 := by
  rw [digitsValue, Nat.ofDigitChars_replicate_zero, Nat.mul_zero]

/-- The digits of a number have its value. -/
theorem digitsValue_toDigits (n : ℕ) : digitsValue (Nat.toDigits 10 n) = n :=
  Nat.ofDigitChars_ten_toDigits

/-- No positive number starts with a zero. -/
theorem toDigits_ne_zero_cons {n : ℕ} (h : 0 < n) (rest : List Char) :
    Nat.toDigits 10 n ≠ '0' :: rest := by
  induction n using Nat.strongRecOn generalizing rest with
  | ind n ih =>
    intro heq
    by_cases hsmall : n < 10
    · rw [Nat.toDigits_of_lt_base hsmall] at heq
      have hzero := Nat.digitChar_eq_zero.mp (List.cons.inj heq).1
      omega
    · have hdigits := Nat.toDigits_append_toDigits (b := 10) (n := n / 10) (d := n % 10)
        (by omega) (by omega) (by omega)
      have hsum : 10 * (n / 10) + n % 10 = n := by omega
      rw [hsum, heq] at hdigits
      obtain ⟨c, tail, hhead⟩ : ∃ c tail, Nat.toDigits 10 (n / 10) = c :: tail :=
        List.exists_cons_of_ne_nil Nat.toDigits_ne_nil
      rw [hhead, List.cons_append] at hdigits
      rw [(List.cons.inj hdigits).1] at hhead
      exact ih (n / 10) (by omega) (by omega) tail hhead

/-- The codes of the decimal digits. -/
theorem toNat_of_isDigit {c : Char} (h : c.isDigit = true) : 48 ≤ c.toNat ∧ c.toNat ≤ 57 :=
  Char.isDigit_iff_toNat.mp h

/-- A decimal digit spells a number below ten. -/
theorem digitValue_lt {c : Char} (h : c.isDigit = true) : digitValue c < 10 := by
  have hc := toNat_of_isDigit h
  rw [digitValue]
  omega

/-! ## Digits as numbers -/

/-- The number that has some numbers below ten as its digits. -/
def numberOf (digits : List ℕ) : ℕ := digits.foldl (fun number digit => number * 10 + digit) 0

/-- One more digit multiplies the number by ten. -/
theorem numberOf_concat (digits : List ℕ) (digit : ℕ) :
    numberOf (digits ++ [digit]) = numberOf digits * 10 + digit := by
  rw [numberOf, List.foldl_append]
  rfl

/-- The value of characters is the number of their digits. -/
theorem digitsValue_eq_numberOf (digits : List Char) :
    digitsValue digits = numberOf (digits.map digitValue) := by
  induction digits using List.reverseRecOn with
  | nil => rfl
  | append_singleton digits c ih =>
    rw [digitsValue_concat, ih, List.map_append, List.map_singleton, numberOf_concat]

/-- The digits behind others shift these by their number. -/
theorem numberOf_append (left right : List ℕ) :
    numberOf (left ++ right) = numberOf left * 10 ^ right.length + numberOf right := by
  induction right using List.reverseRecOn with
  | nil => simp [numberOf]
  | append_singleton right digit ih =>
    rw [← List.append_assoc, numberOf_concat, numberOf_concat, ih, List.length_append,
      List.length_singleton, pow_succ]
    ring

/-- Zeros are zero. -/
theorem numberOf_zeros (n : ℕ) : numberOf (List.replicate n 0) = 0 := by
  induction n with
  | zero => rfl
  | succ n ih => rw [List.replicate_succ', numberOf_concat, ih]

/-- A number of `n` digits is below `10 ^ n`. -/
theorem numberOf_lt {digits : List ℕ} (h : ∀ digit ∈ digits, digit < 10) :
    numberOf digits < 10 ^ digits.length := by
  induction digits using List.reverseRecOn with
  | nil => exact Nat.one_pos
  | append_singleton digits digit ih =>
    have hdigit := h digit (by simp)
    have hdigits := ih fun other hother => h other (by simp [hother])
    rw [numberOf_concat, List.length_append, List.length_singleton, pow_succ]
    omega

/-- Digits that do not start with zero spell a number of their length. -/
theorem pow_le_numberOf {digit : ℕ} (digits : List ℕ) (h : digit ≠ 0) :
    10 ^ digits.length ≤ numberOf (digit :: digits) := by
  have happend := numberOf_append [digit] digits
  have hone : numberOf [digit] = digit := by simp [numberOf]
  rw [List.singleton_append, hone] at happend
  have hmul := Nat.mul_le_mul_right (10 ^ digits.length) (Nat.one_le_iff_ne_zero.mpr h)
  omega

/-! ## Digits in a fixed number of places -/

/-- The character codes of the last digits of a number, in a fixed number of places. -/
def fixedDigits : ℕ → ℕ → List ℕ
  | 0, _ => []
  | width + 1, n => fixedDigits width (n / 10) ++ [48 + n % 10]

/-- Digits of a fixed width have that width. -/
theorem length_fixedDigits (width n : ℕ) : (fixedDigits width n).length = width := by
  induction width generalizing n with
  | zero => rfl
  | succ width ih => rw [fixedDigits, List.length_append, ih, List.length_singleton]

/-- Digits of a fixed width are codes below the colon. -/
theorem fixedDigits_lt {width n code : ℕ} (h : code ∈ fixedDigits width n) : code < 58 := by
  induction width generalizing n with
  | zero => exact absurd h List.not_mem_nil
  | succ width ih =>
    rw [fixedDigits, List.mem_append, List.mem_singleton] at h
    rcases h with h | rfl
    · exact ih h
    · omega

/-- In equally many places, the order of the codes is the order of the numbers. -/
theorem fixedDigits_append_lt_iff {width n m : ℕ} (hn : n < 10 ^ width) (hm : m < 10 ^ width)
    (left right : List ℕ) :
    fixedDigits width n ++ left < fixedDigits width m ++ right ↔ n < m ∨ n = m ∧ left < right := by
  induction width generalizing n m left right with
  | zero =>
    rw [pow_zero, Nat.lt_one_iff] at hn hm
    simp [hn, hm, fixedDigits]
  | succ width ih =>
    rw [pow_succ] at hn hm
    have hdivs : n / 10 < 10 ^ width ∧ m / 10 < 10 ^ width := by omega
    have hfront := ih hdivs.1 hdivs.2 ((48 + n % 10) :: left) ((48 + m % 10) :: right)
    rw [fixedDigits, fixedDigits, List.append_assoc, List.append_assoc, List.singleton_append,
      List.singleton_append, hfront, List.cons_lt_cons_iff]
    constructor
    · rintro (hlt | ⟨heq, hlast | ⟨hlast, htail⟩⟩)
      · exact .inl (by omega)
      · exact .inl (by omega)
      · exact .inr ⟨by omega, htail⟩
    · rintro (hlt | ⟨rfl, htail⟩)
      · by_cases hdiv : n / 10 < m / 10
        · exact .inl hdiv
        · exact .inr ⟨by omega, .inl (by omega)⟩
      · exact .inr ⟨rfl, .inr ⟨rfl, htail⟩⟩

/-! ## Numerals -/

/-- A numeral: a sign, digits before and after the point, and a decimal exponent. -/
structure Numeral where
  negative : Bool
  whole : List Char
  fraction : List Char
  exponent : ℤ

/-- A number with a sign. -/
def withSign {α : Type} [Neg α] (negative : Bool) (n : α) : α := if negative then -n else n

/-- A sign commutes with the cast to the rationals. -/
theorem withSign_cast (negative : Bool) (n : ℤ) :
    ((withSign negative n : ℤ) : ℚ) = withSign negative (n : ℚ) := by
  cases negative with
  | false => rfl
  | true => exact Int.cast_neg n

/-- A sign does not change the absolute value. -/
theorem abs_withSign (negative : Bool) (n : ℚ) : |withSign negative n| = |n| := by
  cases negative with
  | false => rfl
  | true => exact abs_neg n

/-- A sign moves out of a product. -/
theorem withSign_mul (negative : Bool) (n m : ℚ) :
    withSign negative n * m = withSign negative (n * m) := by
  cases negative with
  | false => rfl
  | true => exact neg_mul n m

namespace Numeral

variable (n : Numeral)

/-- The digits without the point, as a number. -/
def coefficient : ℕ := digitsValue (n.whole ++ n.fraction)

/-- The exponent of the last digit. -/
def lastExponent : ℤ := n.exponent - n.fraction.length

/-- The exact value. -/
def value : ℚ := withSign n.negative ((n.coefficient : ℚ) * 10 ^ n.lastExponent)

variable {n}

/-- In the units of the last digit or of a smaller one, the value is an integer. -/
theorem value_mul_pow {places shift : ℕ} (h : (shift : ℤ) = n.lastExponent + places) :
    n.value * 10 ^ places = ((withSign n.negative (n.coefficient * 10 ^ shift : ℕ) : ℤ) : ℚ) := by
  rw [withSign_cast, value, withSign_mul, mul_assoc]
  have hpow : (10 : ℚ) ^ n.lastExponent * 10 ^ places = 10 ^ shift := by
    rw [← zpow_natCast, ← zpow_natCast, ← zpow_add₀ (by norm_num), h]
  rw [hpow]
  push_cast
  rfl

/-- A numeral scaled to enough places is a natural number but for its sign. -/
theorem abs_value_mul_pow {places shift : ℕ} (h : (shift : ℤ) = n.lastExponent + places) :
    |n.value| * 10 ^ places = ((n.coefficient * 10 ^ shift : ℕ) : ℚ) := by
  have hpow : (0 : ℚ) ≤ 10 ^ places := by positivity
  have hnat : (0 : ℚ) ≤ ((n.coefficient * 10 ^ shift : ℕ) : ℚ) := by positivity
  rw [← abs_of_nonneg hpow, ← abs_mul, value_mul_pow h, withSign_cast, abs_withSign]
  exact abs_of_nonneg hnat

end Numeral

/-! ## Rounding -/

/-- The nearest integer, away from zero when two are nearest. -/
def roundHalfAway (x : ℚ) : ℤ := if 0 ≤ x then round x else -round (-x)

/-- Rounding away from zero is odd. -/
theorem roundHalfAway_neg (x : ℚ) : roundHalfAway (-x) = -roundHalfAway x := by
  rw [roundHalfAway, roundHalfAway, neg_neg]
  rcases lt_trichotomy x 0 with hneg | rfl | hpos
  · rw [if_pos (by linarith), if_neg (not_le.mpr hneg), neg_neg]
  · simp
  · rw [if_neg (by linarith), if_pos hpos.le]

/-- The nearest integer to a fraction, by the remainder of the division. -/
theorem roundHalfAway_div (n : ℕ) {d : ℕ} (hd : 0 < d) :
    roundHalfAway ((n : ℚ) / d) = if d ≤ n % d * 2 then ((n / d : ℕ) : ℤ) + 1 else (n / d : ℕ) := by
  have hsum : (n : ℚ) / d + 1 / 2 = ((2 * n + d : ℕ) : ℤ) / ((2 * d : ℕ) : ℚ) := by
    have hne : (d : ℚ) ≠ 0 := by exact_mod_cast hd.ne'
    push_cast
    field_simp
  have hdiv : (2 * n + d) / (2 * d) = (2 * (n % d) + d) / (2 * d) + n / d := by
    have hn := Nat.div_add_mod n d
    have hsplit : 2 * n + d = 2 * (n % d) + d + (2 * d) * (n / d) := by
      calc 2 * n + d = 2 * (d * (n / d) + n % d) + d := by rw [hn]
        _ = 2 * (n % d) + d + (2 * d) * (n / d) := by ring
    rw [hsplit, Nat.add_mul_div_left _ _ (by omega)]
  have hlt := Nat.mod_lt n hd
  rw [roundHalfAway, if_pos (by positivity), round_eq, hsum, Rat.floor_intCast_div_natCast]
  by_cases hhalf : d ≤ n % d * 2
  · have hone : (2 * (n % d) + d) / (2 * d) = 1 := Nat.div_eq_of_lt_le (by omega) (by omega)
    rw [if_pos hhalf, ← Int.natCast_ediv, hdiv, hone]
    omega
  · have hzero : (2 * (n % d) + d) / (2 * d) = 0 := Nat.div_eq_of_lt (by omega)
    rw [if_neg hhalf, ← Int.natCast_ediv, hdiv, hzero]
    omega

end DecimalText
