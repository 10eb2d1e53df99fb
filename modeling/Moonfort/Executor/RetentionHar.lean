import Mathlib.Data.List.TakeWhile
import Moonfort.DecimalText
import Moonfort.JsonGrammar
import Moonfort.Loop
import Moonfort.MoonBit.Arithmetic
import Moonfort.MoonBit.Text

/-!
# Exact integers of a retained HAR file

The reader of a JSON number as an exact integer. It strips the zeros of the coefficient and
shifts it by a saturated exponent. It finds the integer exactly when the exact value of the number
is one of at most 2^53 - 1, and none of its steps leaves its type unless the spelling is longer
than any file that is read.
-/

namespace Moonfort.Executor

open DecimalText JsonGrammar MoonBit

/-! ## The reader -/

/-- The variables of the loop over the coefficient. -/
structure HarCoefficient where
  digits : List ℕ
  fractionDigits : ℕ
  afterPoint : Bool

/-- The loop over the coefficient, and the characters behind it. -/
def readCoefficient (s : HarCoefficient) : List Char → HarCoefficient × List Char
  | [] => (s, [])
  | c :: rest =>
    if c = 'e' ∨ c = 'E' then (s, c :: rest)
    else if c = '.' then readCoefficient { s with afterPoint := true } rest
    else readCoefficient
      { s with
        digits := s.digits ++ [digitValue c]
        fractionDigits := s.fractionDigits + if s.afterPoint then 1 else 0 } rest

/-- The round of the loop over the exponent, which stays at or below a cap. -/
def readExponentDigit (cap exponent : ℤ) (c : Char) : Except Fault ℤ := do
  let shifted ← int32 (exponent * 10)
  let sum ← int32 (shifted + c.toNat)
  let exponent ← int32 (sum - 48)
  .ok (min exponent cap)

/-- The exponent of a spelling with the given length. -/
def readExponent (length : ℕ) : List Char → Except Fault ℤ
  | [] => .ok 0
  | _ :: rest => do
    let negative := rest.head? = some '-'
    let digits := if rest.head? = some '-' ∨ rest.head? = some '+' then rest.tail else rest
    let cap ← int32 (length + 32)
    let exponent ← digits.foldlM (readExponentDigit cap) 0
    if negative then int32 (-exponent) else .ok exponent

/-- The round that adds a digit to the result. -/
def addResultDigit (result : ℤ) (digit : ℕ) : Except Fault ℤ := do
  let shifted ← int64 (result * 10)
  int64 (shifted + digit)

/-- The round that multiplies the result. -/
def shiftResult (result : ℤ) (_round : ℕ) : Except Fault ℤ := int64 (result * 10)

/-- `har_exact_integer` behind the loops over the spelling. -/
def harShift (negative : Bool) (digits : List ℕ) (fractionDigits : ℕ) (exponent : ℤ) :
    Except Fault (Option ℤ) :=
  let first := (digits.takeWhile (· = 0)).length
  if first = digits.length then .ok (some 0)
  else do
    let last := digits.length - (digits.reverse.takeWhile (· = 0)).length
    let shifted ← int32 (exponent - fractionDigits)
    let shifted ← int32 (shifted + digits.length)
    let power ← int32 (shifted - last)
    if power < 0 then .ok none
    else
      let size ← int32 ((last : ℤ) - first + power)
      if 16 < size then .ok none
      else
        let result ← ((digits.take last).drop first).foldlM addResultDigit 0
        let result ← (List.range power.toNat).foldlM shiftResult result
        if 9007199254740991 < result then .ok none
        else if negative then int64 (-result) >>= fun result => .ok (some result)
        else .ok (some result)

/-- `har_exact_integer`. -/
def harExactInteger (spelling : String) : Except Fault (Option ℤ) := do
  let chars := spelling.toList
  let negative := chars.head? == some '-'
  let (s, rest) := readCoefficient ⟨[], 0, false⟩ (if negative then chars.tail else chars)
  let exponent ← readExponent chars.length rest
  harShift negative s.digits s.fractionDigits exponent

/-! ## The numbers of the grammar -/

/-- The exponent that an exponent part spells. -/
def exponentValue : List Char → ℤ
  | [] => 0
  | _ :: rest =>
    if rest.head? = some '-' then -(digitsValue rest.tail : ℤ)
    else if rest.head? = some '+' then digitsValue rest.tail
    else digitsValue rest

/-- A number of the grammar, as a numeral. -/
inductive NumberValue : List Char → Numeral → Prop
  | intro {integer fraction exponent : List Char} (negative : Bool)
    (hinteger : IntegerPart integer) (hfraction : FractionPart fraction)
    (hexponent : ExponentPart exponent) :
    NumberValue ((if negative then ['-'] else []) ++ (integer ++ (fraction ++ exponent)))
      ⟨negative, integer, fraction.drop 1, exponentValue exponent⟩

/-- The integer part consists of digits. -/
theorem digits_of_integerPart {integer : List Char} (h : IntegerPart integer) : Digits integer := by
  cases h with
  | zero => exact ⟨by simp, List.forall_mem_singleton.mpr (by decide)⟩
  | nonzero hc _ hrest => exact ⟨by simp, List.forall_mem_cons.mpr ⟨hc, hrest⟩⟩

/-- Behind its point the fraction consists of digits. -/
theorem digits_of_fractionPart {fraction : List Char} (h : FractionPart fraction) :
    ∀ c ∈ fraction.drop 1, c.isDigit = true := by
  cases h with
  | absent => nofun
  | present hdigits => exact hdigits.2

/-! ## The coefficient -/

/-- Digits are added to the coefficient. -/
theorem readCoefficient_digits {digits : List Char} (h : ∀ c ∈ digits, c.isDigit = true)
    (s : HarCoefficient) (rest : List Char) :
    readCoefficient s (digits ++ rest) = readCoefficient
      { s with
        digits := s.digits ++ digits.map digitValue
        fractionDigits := s.fractionDigits + if s.afterPoint then digits.length else 0 } rest := by
  induction digits generalizing s with
  | nil => simp
  | cons c digits ih =>
    obtain ⟨hc, hdigits⟩ := List.forall_mem_cons.mp h
    have hmark : ¬(c = 'e' ∨ c = 'E') := by
      rintro (rfl | rfl) <;> exact absurd hc (by decide)
    have hpoint : c ≠ '.' := by
      rintro rfl
      exact absurd hc (by decide)
    rw [List.cons_append, readCoefficient, if_neg hmark, if_neg hpoint, ih hdigits]
    cases s.afterPoint <;> simp [Nat.add_assoc, Nat.add_comm 1]

/-- The coefficient ends at the exponent. -/
theorem readCoefficient_exponent {exponent : List Char} (h : ExponentPart exponent)
    (s : HarCoefficient) : readCoefficient s exponent = (s, exponent) := by
  cases h with
  | absent => rfl
  | present he =>
    rw [readCoefficient, if_pos]
    simpa using he

/-- The coefficient of a number and what is behind it. -/
theorem readCoefficient_eq {integer fraction exponent : List Char} (hinteger : IntegerPart integer)
    (hfraction : FractionPart fraction) (hexponent : ExponentPart exponent) :
    ∃ afterPoint, readCoefficient ⟨[], 0, false⟩ (integer ++ (fraction ++ exponent)) =
      (⟨(integer ++ fraction.drop 1).map digitValue, (fraction.drop 1).length, afterPoint⟩,
        exponent) := by
  rw [readCoefficient_digits (digits_of_integerPart hinteger).2]
  cases hfraction with
  | absent =>
    simp only [List.nil_append]
    rw [readCoefficient_exponent hexponent]
    exact ⟨false, by simp⟩
  | @present digits hdigits =>
    rw [List.cons_append, readCoefficient, if_neg (by decide), if_pos rfl,
      readCoefficient_digits hdigits.2, readCoefficient_exponent hexponent]
    exact ⟨true, by simp⟩

/-! ## The exponent -/

/-- A digit of the exponent is added up to the cap. -/
theorem readExponentDigit_eq {cap exponent : ℤ} {c : Char} (hc : c.isDigit = true)
    (hexponent : 0 ≤ exponent) (hle : exponent ≤ cap) (hcap : cap * 10 + 57 < 2 ^ 31) :
    readExponentDigit cap exponent c = .ok (min (exponent * 10 + digitValue c) cap) := by
  have hchar := toNat_of_isDigit hc
  have hdigit : (digitValue c : ℤ) = c.toNat - 48 := by
    rw [digitValue]
    omega
  rw [readExponentDigit, int32_of_mem (by omega) (by omega)]
  simp only [bind, Except.bind]
  rw [int32_of_mem (by omega) (by omega)]
  simp only
  rw [int32_of_mem (by omega) (by omega), hdigit]
  simp only [Except.ok.injEq]
  congr 1
  omega

/-- The digits of the exponent are read up to the cap. -/
theorem foldlM_readExponentDigit {cap : ℤ} (hpos : 0 ≤ cap) (hcap : cap * 10 + 57 < 2 ^ 31)
    {digits : List Char} (h : ∀ c ∈ digits, c.isDigit = true) :
    digits.foldlM (readExponentDigit cap) 0 = .ok (min (digitsValue digits : ℤ) cap) := by
  induction digits using List.reverseRecOn with
  | nil => simp [hpos, pure, Except.pure]
  | append_singleton digits c ih =>
    have hc : c.isDigit = true := h c (by simp)
    rw [Loop.foldlM_concat, ih fun d hd => h d (by simp [hd]), Except.bind,
      readExponentDigit_eq hc (by omega) (by omega) hcap, digitsValue_concat]
    congr 1
    omega

/-- What stands for an exponent when it is read with a cap. -/
def CappedAt (cap value e : ℤ) : Prop :=
  (-cap ≤ value ∧ value ≤ cap ∧ e = value) ∨ (cap < value ∧ e = cap) ∨ (value < -cap ∧ e = -cap)

/-- Behind its mark the exponent is read with its sign. -/
theorem readExponent_mark {length : ℕ} {e : Char} {rest : List Char}
    (hcap : int32 ((length : ℤ) + 32) = .ok ((length : ℤ) + 32)) :
    readExponent length (e :: rest) =
      ((if rest.head? = some '-' ∨ rest.head? = some '+' then rest.tail else rest).foldlM
        (readExponentDigit ((length : ℤ) + 32)) 0).bind fun exponent =>
          if rest.head? = some '-' then int32 (-exponent) else .ok exponent := by
  rw [readExponent, hcap]
  rfl

/-- An exponent within the cap is exact, and a larger one is replaced by the cap. -/
theorem readExponent_eq {length : ℕ} (hlength : ((length : ℤ) + 32) * 10 + 57 < 2 ^ 31)
    {exponent : List Char} (h : ExponentPart exponent) :
    ∃ e, readExponent length exponent = .ok e ∧
      CappedAt (length + 32) (exponentValue exponent) e := by
  cases h with
  | absent => exact ⟨0, rfl, by rw [CappedAt, exponentValue]; omega⟩
  | @present mark sign digits he hsign hdigits =>
    have hread : digits.foldlM (readExponentDigit ((length : ℤ) + 32)) 0 =
        .ok (min (digitsValue digits : ℤ) ((length : ℤ) + 32)) :=
      foldlM_readExponentDigit (by omega) hlength hdigits.2
    have hcap : int32 ((length : ℤ) + 32) = .ok ((length : ℤ) + 32) :=
      int32_of_mem (by omega) (by omega)
    have hplus : ¬(some '+' = some '-') := by decide
    simp only [List.mem_cons, List.not_mem_nil, or_false] at hsign
    rw [readExponent_mark hcap, exponentValue]
    rcases hsign with rfl | rfl | rfl
    · have hminus : digits.head? ≠ some '-' := fun hhead =>
        absurd (hdigits.2 _ (List.mem_of_mem_head? hhead)) (by decide)
      have hplus : digits.head? ≠ some '+' := fun hhead =>
        absurd (hdigits.2 _ (List.mem_of_mem_head? hhead)) (by decide)
      rw [List.nil_append, if_neg (by simp [hminus, hplus]), hread, Except.bind, if_neg hminus,
        if_neg hminus, if_neg hplus]
      exact ⟨_, rfl, by rw [CappedAt]; omega⟩
    · rw [List.singleton_append, List.head?_cons, List.tail_cons, if_pos (.inr rfl), hread,
        Except.bind, if_neg hplus, if_neg hplus, if_pos rfl]
      exact ⟨_, rfl, by rw [CappedAt]; omega⟩
    · rw [List.singleton_append, List.head?_cons, List.tail_cons, if_pos (.inl rfl), hread,
        Except.bind, if_pos rfl, if_pos rfl, int32_of_mem (by omega) (by omega)]
      exact ⟨_, rfl, by rw [CappedAt]; omega⟩

/-! ## The significant digits -/

/-- Digits that are not all zero, without the zeros in front. -/
theorem exists_leading (digits : List ℕ) :
    (∀ digit ∈ digits, digit = 0) ∨
      ∃ zeros digit rest, digits = List.replicate zeros 0 ++ digit :: rest ∧ digit ≠ 0 := by
  induction digits with
  | nil => exact .inl nofun
  | cons digit digits ih =>
    by_cases hdigit : digit = 0
    · subst hdigit
      rcases ih with hall | ⟨zeros, found, rest, rfl, hfound⟩
      · exact .inl (List.forall_mem_cons.mpr ⟨rfl, hall⟩)
      · exact .inr ⟨zeros + 1, found, rest, rfl, hfound⟩
    · exact .inr ⟨0, digit, digits, rfl, hdigit⟩

/-- The digits between the zeros in front and the zeros at the end. -/
structure Significant (digits : List ℕ) (leading : ℕ) (core : List ℕ) (trailing : ℕ) : Prop where
  split : digits = List.replicate leading 0 ++ (core ++ List.replicate trailing 0)
  head : ∃ digit rest, core = digit :: rest ∧ digit ≠ 0
  last : ∃ rest digit, core = rest ++ [digit] ∧ digit ≠ 0

/-- Digits that are not all zero have a significant core. -/
theorem exists_significant {digits : List ℕ} (h : ¬∀ digit ∈ digits, digit = 0) :
    ∃ leading core trailing, Significant digits leading core trailing := by
  obtain ⟨leading, digit, rest, rfl, hdigit⟩ := (exists_leading digits).resolve_left h
  have hnonzero : ¬∀ found ∈ (digit :: rest).reverse, found = 0 := fun hall =>
    hdigit (hall digit (by simp))
  obtain ⟨trailing, last, before, hsplit, hlast⟩ := (exists_leading _).resolve_left hnonzero
  have hcore : digit :: rest = before.reverse ++ [last] ++ List.replicate trailing 0 := by
    rw [← List.reverse_reverse (digit :: rest), hsplit]
    simp
  refine ⟨leading, before.reverse ++ [last], trailing, by rw [← hcore], ?_, _, _, rfl, hlast⟩
  cases hbefore : before.reverse with
  | nil =>
    rw [hbefore] at hcore
    exact ⟨last, [], rfl, hlast⟩
  | cons found others =>
    rw [hbefore, List.append_assoc, List.cons_append] at hcore
    rw [(List.cons.inj hcore).1] at hdigit
    exact ⟨found, others ++ [last], rfl, hdigit⟩

/-- The zeros in front of another digit. -/
theorem takeWhile_zeros {n digit : ℕ} (h : digit ≠ 0) (rest : List ℕ) :
    (List.replicate n 0 ++ digit :: rest).takeWhile (fun d => decide (d = 0)) =
      List.replicate n 0 := by
  rw [List.takeWhile_append_of_pos (by simp)]
  simp [h]

section Core

variable {digits core : List ℕ} {leading trailing : ℕ}
  (h : Significant digits leading core trailing)

include h

/-- The first significant digit stands behind the leading zeros. -/
theorem Significant.first : (digits.takeWhile (· = 0)).length = leading := by
  obtain ⟨digit, rest, hcore, hdigit⟩ := h.head
  rw [h.split, hcore, List.cons_append, takeWhile_zeros hdigit, List.length_replicate]

/-- The last significant digit stands before the trailing zeros. -/
theorem Significant.end_eq :
    digits.length - (digits.reverse.takeWhile (· = 0)).length = leading + core.length := by
  obtain ⟨rest, digit, hcore, hdigit⟩ := h.last
  have hreverse : digits.reverse = List.replicate trailing 0 ++ digit ::
      (rest.reverse ++ List.replicate leading 0) := by
    rw [h.split, hcore]
    simp
  rw [hreverse, takeWhile_zeros hdigit, h.split]
  simp only [List.length_append, List.length_replicate]
  omega

/-- The core is what is between them. -/
theorem Significant.middle :
    (digits.take (leading + core.length)).drop leading = core := by
  rw [h.split, ← List.append_assoc, List.take_left' (by simp), List.drop_left' (by simp)]

/-- The digits are the zeros of both ends and the core. -/
theorem Significant.length : digits.length = leading + core.length + trailing := by
  rw [h.split]
  simp [Nat.add_assoc]

/-- The core is not empty. -/
theorem Significant.length_pos : 0 < core.length := by
  obtain ⟨digit, rest, rfl, -⟩ := h.head
  exact Nat.succ_pos _

/-- The number is that of the core, shifted by the trailing zeros. -/
theorem Significant.numberOf_eq : numberOf digits = numberOf core * 10 ^ trailing := by
  rw [h.split, numberOf_append, numberOf_append, numberOf_zeros, numberOf_zeros,
    List.length_replicate]
  omega

/-- The core has no leading zero. -/
theorem Significant.pow_le : 10 ^ (core.length - 1) ≤ numberOf core := by
  obtain ⟨digit, rest, rfl, hdigit⟩ := h.head
  exact pow_le_numberOf rest hdigit

/-- The core has no trailing zero. -/
theorem Significant.not_dvd (hlt : ∀ digit ∈ digits, digit < 10) : ¬10 ∣ numberOf core := by
  obtain ⟨rest, digit, hcore, hdigit⟩ := h.last
  have hsmall := hlt digit (by rw [h.split, hcore]; simp)
  rw [hcore, numberOf_concat]
  omega

end Core

/-! ## The exact value -/

/-- The integers that a numeral may be, by its significant digits. -/
theorem value_eq_intCast_iff {n : Numeral} {digits core : List ℕ} {leading trailing : ℕ}
    (h : Significant digits leading core trailing) (hlt : ∀ digit ∈ digits, digit < 10)
    (hdigits : digits = (n.whole ++ n.fraction).map digitValue) {k : ℤ} :
    n.value = k ↔ 0 ≤ n.lastExponent + trailing ∧
      k = withSign n.negative
        ((numberOf core * 10 ^ (n.lastExponent + trailing).toNat : ℕ) : ℤ) := by
  have hcoefficient : n.coefficient = numberOf core * 10 ^ trailing := by
    rw [Numeral.coefficient, digitsValue_eq_numberOf, ← hdigits, h.numberOf_eq]
  have hvalue : n.value =
      withSign n.negative ((numberOf core : ℚ) * 10 ^ (n.lastExponent + trailing)) := by
    rw [Numeral.value, hcoefficient, zpow_add₀ (by norm_num), zpow_natCast]
    push_cast
    congr 1
    ring
  by_cases hpower : 0 ≤ n.lastExponent + trailing
  · have hnat : (10 : ℚ) ^ (n.lastExponent + trailing) =
        10 ^ (n.lastExponent + trailing).toNat := by
      conv_lhs => rw [← Int.toNat_of_nonneg hpower]
      exact zpow_natCast _ _
    have hcast : n.value = ((withSign n.negative
        ((numberOf core * 10 ^ (n.lastExponent + trailing).toNat : ℕ) : ℤ) : ℤ) : ℚ) := by
      rw [hvalue, hnat, withSign_cast]
      push_cast
      rfl
    rw [hcast, Int.cast_inj]
    exact ⟨fun heq => ⟨hpower, heq.symm⟩, fun heq => heq.2.symm⟩
  · refine iff_of_false (fun heq => ?_) fun heq => hpower heq.1
    obtain ⟨shift, hshift⟩ : ∃ shift : ℕ, n.lastExponent + trailing = -(shift + 1 : ℕ) :=
      ⟨(-(n.lastExponent + trailing)).toNat - 1, by omega⟩
    have hmul : (k : ℚ) * 10 ^ (shift + 1) = withSign n.negative (numberOf core : ℚ) := by
      rw [← heq, hvalue, hshift, withSign_mul, mul_assoc, zpow_neg, zpow_natCast,
        inv_mul_cancel₀ (by positivity), mul_one]
    have hint : k * 10 ^ (shift + 1) = withSign n.negative (numberOf core : ℤ) := by
      apply (Int.cast_inj (α := ℚ)).mp
      rw [withSign_cast]
      push_cast
      exact hmul
    apply h.not_dvd hlt
    have hdvd : (10 : ℤ) ∣ withSign n.negative (numberOf core : ℤ) := by
      rw [← hint, pow_succ, ← mul_assoc]
      exact Dvd.intro_left _ rfl
    rw [withSign] at hdvd
    split at hdvd <;> omega

/-! ## The loops of the result -/

/-- A digit is added without overflow. -/
theorem addResultDigit_eq {number digit : ℕ} (hdigit : digit < 10)
    (hnumber : number < 1000000000000000) :
    addResultDigit number digit = .ok ((number * 10 + digit : ℕ) : ℤ) := by
  have hcast : ((number * 10 + digit : ℕ) : ℤ) = (number : ℤ) * 10 + digit := by
    push_cast
    ring
  rw [addResultDigit, int64_bind (by omega) (by omega), int64_of_mem (by omega) (by omega), hcast]

/-- At most sixteen digits are added without overflow. -/
theorem foldlM_addResultDigit {digits : List ℕ} (hlt : ∀ digit ∈ digits, digit < 10)
    (hlength : digits.length ≤ 16) :
    digits.foldlM addResultDigit 0 = .ok (numberOf digits : ℤ) := by
  induction digits using List.reverseRecOn with
  | nil => rfl
  | append_singleton digits digit ih =>
    rw [List.length_append, List.length_singleton] at hlength
    have hdigits : ∀ other ∈ digits, other < 10 := fun other hother => hlt other (by simp [hother])
    have hbound : numberOf digits < 10 ^ 15 :=
      (numberOf_lt hdigits).trans_le (pow_le_pow_right₀ (by decide) (by omega))
    norm_num at hbound
    have hlast := addResultDigit_eq (hlt digit (by simp)) hbound
    rw [← numberOf_concat] at hlast
    rw [Loop.foldlM_concat, ih hdigits (by omega), Except.bind, hlast]

/-- Shifts are made without overflow below ten quadrillion. -/
theorem foldlM_shiftResult {number rounds : ℕ} (h : number * 10 ^ rounds < 10000000000000000) :
    (List.range rounds).foldlM shiftResult (number : ℤ) = .ok ((number * 10 ^ rounds : ℕ) : ℤ) := by
  induction rounds with
  | zero => simp [pure, Except.pure]
  | succ rounds ih =>
    rw [pow_succ, ← mul_assoc] at h ⊢
    rw [List.range_succ, Loop.foldlM_concat, ih (by omega), Except.bind, shiftResult,
      int64_of_mem (by omega) (by omega)]
    push_cast
    rfl

/-! ## The shift -/

/-- The integers that are read. -/
def SafeInteger (k : ℤ) : Prop := |k| ≤ 9007199254740991

/-- The result that is an integer of a numeral exactly when it has one that is safe. -/
def ReadsExactly (n : Numeral) (result : Option ℤ) : Prop :=
  ∀ k : ℤ, result = some k ↔ n.value = k ∧ SafeInteger k

section Shift

variable {n : Numeral} {digits core : List ℕ} {leading trailing length : ℕ} {e : ℤ}

/-- A number whose digits are all zero. -/
theorem readsExactly_zero (hdigits : digits = (n.whole ++ n.fraction).map digitValue)
    (hzero : ∀ digit ∈ digits, digit = 0) : ReadsExactly n (some 0) := by
  have hnumber : numberOf digits = 0 := by
    rw [List.eq_replicate_of_mem hzero, numberOf_zeros]
  have hvalue : n.value = 0 := by
    rw [Numeral.value, Numeral.coefficient, digitsValue_eq_numberOf, ← hdigits, hnumber, withSign]
    simp
  intro k
  rw [hvalue, Option.some.injEq, SafeInteger]
  constructor
  · rintro rfl
    exact ⟨Int.cast_zero.symm, by decide⟩
  · rintro ⟨hk, -⟩
    exact_mod_cast hk

/-- Without an exponent of the last significant digit in reach there is no safe integer. -/
theorem readsExactly_none (h : Significant digits leading core trailing)
    (hlt : ∀ digit ∈ digits, digit < 10)
    (hdigits : digits = (n.whole ++ n.fraction).map digitValue)
    (hpower : n.lastExponent + trailing < 0 ∨ 16 < core.length + (n.lastExponent + trailing)) :
    ReadsExactly n none := by
  intro k
  rw [value_eq_intCast_iff h hlt hdigits]
  refine iff_of_false nofun ?_
  rintro ⟨⟨hnonneg, rfl⟩, hsafe⟩
  have hlarge := hpower.resolve_left (by omega)
  have hpos := h.length_pos
  have hpow : 10 ^ 16 ≤ numberOf core * 10 ^ (n.lastExponent + trailing).toNat :=
    calc 10 ^ 16 ≤ 10 ^ (core.length - 1 + (n.lastExponent + trailing).toNat) :=
          pow_le_pow_right₀ (by decide) (by omega)
      _ = 10 ^ (core.length - 1) * 10 ^ (n.lastExponent + trailing).toNat := pow_add _ _ _
      _ ≤ _ := Nat.mul_le_mul_right _ h.pow_le
  norm_num at hpow
  rw [SafeInteger, withSign] at hsafe
  split at hsafe <;> rw [abs_le] at hsafe <;> omega

/-- Within reach, the integer is the shifted number. -/
theorem readsExactly_some (h : Significant digits leading core trailing)
    (hlt : ∀ digit ∈ digits, digit < 10)
    (hdigits : digits = (n.whole ++ n.fraction).map digitValue) {power : ℕ}
    (hpower : (power : ℤ) = n.lastExponent + trailing) :
    ReadsExactly n (if 9007199254740991 < numberOf core * 10 ^ power then none
      else some (withSign n.negative ((numberOf core * 10 ^ power : ℕ) : ℤ))) := by
  intro k
  rw [value_eq_intCast_iff h hlt hdigits, ← hpower, Int.toNat_natCast]
  by_cases hlarge : 9007199254740991 < numberOf core * 10 ^ power
  · rw [if_pos hlarge]
    refine iff_of_false nofun ?_
    rintro ⟨⟨-, rfl⟩, hsafe⟩
    rw [SafeInteger, withSign] at hsafe
    split at hsafe <;> rw [abs_le] at hsafe <;> omega
  · rw [if_neg hlarge, Option.some.injEq]
    constructor
    · rintro rfl
      refine ⟨⟨Int.natCast_nonneg _, rfl⟩, ?_⟩
      rw [SafeInteger, withSign]
      split <;> rw [abs_le] <;> omega
    · rintro ⟨⟨-, hk⟩, -⟩
      exact hk.symm

/-- The two loops compute the shifted number. -/
theorem foldlM_result (hcore : ∀ digit ∈ core, digit < 10) {power : ℕ}
    (hsize : core.length + power ≤ 16) (negative : Bool) :
    (do
      let result ← core.foldlM addResultDigit 0
      let result ← (List.range power).foldlM shiftResult result
      if 9007199254740991 < result then .ok none
      else if negative then int64 (-result) >>= fun result => .ok (some result)
      else .ok (some result)) =
      (Except.ok (if 9007199254740991 < numberOf core * 10 ^ power then none
        else some (withSign negative ((numberOf core * 10 ^ power : ℕ) : ℤ))) :
          Except Fault (Option ℤ)) := by
  have hlt : numberOf core * 10 ^ power < 10 ^ 16 :=
    calc numberOf core * 10 ^ power < 10 ^ core.length * 10 ^ power :=
          Nat.mul_lt_mul_of_pos_right (numberOf_lt hcore) (by positivity)
      _ = 10 ^ (core.length + power) := (pow_add _ _ _).symm
      _ ≤ 10 ^ 16 := pow_le_pow_right₀ (by decide) hsize
  norm_num at hlt
  rw [foldlM_addResultDigit hcore (by omega)]
  simp only [bind, Except.bind]
  rw [foldlM_shiftResult hlt]
  generalize numberOf core * 10 ^ power = number at hlt ⊢
  simp only
  by_cases hlarge : 9007199254740991 < number
  · rw [if_pos hlarge, if_pos (by omega)]
  · rw [if_neg hlarge, if_neg (by omega)]
    cases negative with
    | false => rfl
    | true =>
      rw [if_pos rfl, int64_of_mem (by omega) (by omega)]
      rfl

/-- The reading behind the loops over the spelling. -/
theorem harShift_eq (hlt : ∀ digit ∈ digits, digit < 10)
    (hdigits : digits = (n.whole ++ n.fraction).map digitValue) (hdigitsLe : digits.length ≤ length)
    (hlength : ((length : ℤ) + 32) * 10 + 57 < 2 ^ 31)
    (hcapped : CappedAt (length + 32) n.exponent e) :
    ∃ result, harShift n.negative digits n.fraction.length e = .ok result ∧
      ReadsExactly n result := by
  have hfraction : n.fraction.length ≤ digits.length := by
    rw [hdigits, List.length_map, List.length_append]
    omega
  by_cases hzero : ∀ digit ∈ digits, digit = 0
  · refine ⟨some 0, ?_, readsExactly_zero hdigits hzero⟩
    have hfirst : digits.takeWhile (fun digit => decide (digit = 0)) = digits := by
      rw [List.takeWhile_eq_self_iff]
      exact fun digit hdigit => decide_eq_true (hzero digit hdigit)
    rw [harShift, if_pos (by rw [hfirst])]
  · obtain ⟨leading, core, trailing, h⟩ := exists_significant hzero
    have hpos := h.length_pos
    have htotal := h.length
    have hcore : ∀ digit ∈ core, digit < 10 := fun digit hdigit =>
      hlt digit (by rw [h.split]; simp [hdigit])
    have hlast : n.lastExponent = n.exponent - n.fraction.length := rfl
    rw [CappedAt] at hcapped
    rw [harShift, h.first, h.end_eq, if_neg (by omega)]
    dsimp only
    rw [h.middle, int32_bind (by omega) (by omega), int32_bind (by omega) (by omega),
      int32_bind (by omega) (by omega)]
    by_cases hneg : e - n.fraction.length + digits.length - (leading + core.length : ℕ) < 0
    · rw [if_pos hneg]
      exact ⟨none, rfl, readsExactly_none h hlt hdigits (by omega)⟩
    · rw [if_neg hneg, int32_bind (by omega) (by omega)]
      by_cases hlarge : 16 < ((leading + core.length : ℕ) : ℤ) - leading +
          (e - n.fraction.length + digits.length - (leading + core.length : ℕ))
      · rw [if_pos hlarge]
        exact ⟨none, rfl, readsExactly_none h hlt hdigits (by omega)⟩
      · rw [if_neg hlarge, foldlM_result hcore (by omega)]
        exact ⟨_, rfl, readsExactly_some h hlt hdigits (by omega)⟩

end Shift

/-- The sign of a spelling, and what is behind it. -/
theorem unsigned_of_signed {chars integer rest : List Char} {negative : Bool}
    (hinteger : IntegerPart integer)
    (h : chars = (if negative then ['-'] else []) ++ (integer ++ rest)) :
    (chars.head? == some '-') = negative ∧
      (if negative = true then chars.tail else chars) = integer ++ rest := by
  rw [h]
  cases negative with
  | true => exact ⟨rfl, rfl⟩
  | false =>
    obtain ⟨hne, hdigits⟩ := digits_of_integerPart hinteger
    obtain ⟨c, tail, rfl⟩ := List.exists_cons_of_ne_nil hne
    have hc : c ≠ '-' := by
      rintro rfl
      exact absurd (hdigits '-' List.mem_cons_self) (by decide)
    exact ⟨by simpa using hc, rfl⟩

/-- The loops over a spelling of the grammar. -/
theorem harExactInteger_eq {spelling : String} {integer fraction exponent : List Char}
    {negative : Bool} (hinteger : IntegerPart integer) (hfraction : FractionPart fraction)
    (hexponent : ExponentPart exponent)
    (hspelling : spelling.toList =
      (if negative then ['-'] else []) ++ (integer ++ (fraction ++ exponent))) :
    harExactInteger spelling =
      (readExponent spelling.toList.length exponent).bind fun exponent =>
        harShift negative ((integer ++ fraction.drop 1).map digitValue) (fraction.drop 1).length
          exponent := by
  obtain ⟨afterPoint, hread⟩ := readCoefficient_eq hinteger hfraction hexponent
  obtain ⟨hsign, hunsigned⟩ := unsigned_of_signed hinteger hspelling
  rw [harExactInteger]
  simp only [hsign, hunsigned, hread]
  rfl

/-- In a spelling of bounded length, the reader finds an integer exactly when the exact value of
the number is one of at most 2^53 - 1, and no step leaves its type. -/
theorem har_integer_exact {spelling : String} {n : Numeral}
    (hnumber : NumberValue spelling.toList n) (hlength : spelling.toList.length ≤ 214748327) :
    ∃ result, harExactInteger spelling = .ok result ∧
      ∀ k : ℤ, result = some k ↔ n.value = k ∧ |k| ≤ 2 ^ 53 - 1 := by
  generalize hspelling : spelling.toList = chars at hnumber hlength
  obtain ⟨negative, hinteger, hfraction, hexponent⟩ := hnumber
  rename_i integer fraction exponent
  rw [← hspelling] at hlength
  have hbound : ((spelling.toList.length : ℤ) + 32) * 10 + 57 < 2 ^ 31 := by omega
  have hdigits : ∀ digit ∈ (integer ++ fraction.drop 1).map digitValue, digit < 10 := by
    intro digit hdigit
    obtain ⟨c, hc, rfl⟩ := List.mem_map.mp hdigit
    rcases List.mem_append.mp hc with hc | hc
    · exact digitValue_lt ((digits_of_integerPart hinteger).2 c hc)
    · exact digitValue_lt (digits_of_fractionPart hfraction c hc)
  have hle : ((integer ++ fraction.drop 1).map digitValue).length ≤ spelling.toList.length := by
    rw [hspelling]
    simp only [List.length_map, List.length_append, List.length_drop]
    omega
  obtain ⟨e, hread, hcapped⟩ := readExponent_eq hbound hexponent
  obtain ⟨result, hresult, hexact⟩ := harShift_eq (n := ⟨negative, integer, fraction.drop 1,
    exponentValue exponent⟩) hdigits rfl hle hbound hcapped
  refine ⟨result, ?_, fun k => ?_⟩
  · rw [harExactInteger_eq hinteger hfraction hexponent hspelling, hread, Except.bind, hresult]
  · rw [hexact k, SafeInteger]
    norm_num

/-- A spelling with a fraction and an exponent whose value is an integer. -/
theorem har_integer_exact_sample :
    harExactInteger "-1.50e1" = .ok (some (-15)) ∧
      ∃ result, harExactInteger "-1.50e1" = .ok result ∧
        ∀ k : ℤ, result = some k ↔
          Numeral.value ⟨true, ['1'], ['5', '0'], 1⟩ = k ∧ |k| ≤ 2 ^ 53 - 1 := by
  have hinteger : IntegerPart ['1'] :=
    .nonzero (by decide) (by decide) fun _ hd => absurd hd List.not_mem_nil
  have hfraction : FractionPart ('.' :: ['5', '0']) :=
    .present ⟨by decide, List.all_eq_true.mp (by decide)⟩
  have hexponent : ExponentPart ('e' :: ([] ++ ['1'])) :=
    .present (by decide) (by decide) ⟨by decide, List.all_eq_true.mp (by decide)⟩
  have hnumber : NumberValue "-1.50e1".toList ⟨true, ['1'], ['5', '0'], 1⟩ :=
    NumberValue.intro true hinteger hfraction hexponent
  exact ⟨by rfl, har_integer_exact hnumber (by decide)⟩

/-- A number with so many zeros behind the point that the cap of the exponent does not fit. -/
def longSpelling (zeros : ℕ) : String :=
  String.ofList ('1' :: '.' :: (List.replicate zeros '0' ++ 'e' :: List.replicate 10 '9'))

/-- Ten digits of an exponent with a cap just above what the loop can hold. -/
theorem foldlM_readExponentDigit_overflow :
    (List.replicate 10 '9').foldlM (readExponentDigit 214748371) 0 = .error .overflow := by
  decide

/-- A spelling of this length overflows the exponent. -/
theorem longSpelling_overflows {zeros : ℕ} (h : zeros = 214748326) :
    NumberToken (longSpelling zeros).toList ∧
      harExactInteger (longSpelling zeros) = .error .overflow := by
  have hinteger : IntegerPart ['1'] :=
    .nonzero (by decide) (by decide) fun _ hd => absurd hd List.not_mem_nil
  have hfraction : FractionPart ('.' :: List.replicate zeros '0') := by
    refine .present ⟨List.ne_nil_of_length_pos (by rw [List.length_replicate]; omega), ?_⟩
    intro c hc
    rw [List.eq_of_mem_replicate hc]
    decide
  have hexponent : ExponentPart ('e' :: ([] ++ List.replicate 10 '9')) :=
    .present (by decide) (by decide) ⟨by decide, List.all_eq_true.mp (by decide)⟩
  have hspelling : (longSpelling zeros).toList = (if false = true then ['-'] else []) ++
      (['1'] ++ ('.' :: List.replicate zeros '0' ++ 'e' :: ([] ++ List.replicate 10 '9'))) := by
    rw [longSpelling, String.toList_ofList]
    rfl
  have hlength : ((longSpelling zeros).toList.length : ℤ) + 32 = 214748371 := by
    rw [hspelling]
    simp only [List.length_append, List.length_cons, List.length_replicate, List.length_nil,
      Bool.false_eq_true, if_false]
    omega
  have hcap : int32 (((longSpelling zeros).toList.length : ℤ) + 32) =
      .ok (((longSpelling zeros).toList.length : ℤ) + 32) := int32_of_mem (by omega) (by omega)
  have hread := harExactInteger_eq hinteger hfraction hexponent hspelling
  have hhead : ¬(([] ++ List.replicate 10 '9').head? = some '-' ∨
      ([] ++ List.replicate 10 '9').head? = some '+') := by decide
  rw [readExponent_mark hcap, hlength, if_neg hhead, List.nil_append,
    foldlM_readExponentDigit_overflow] at hread
  constructor
  · rw [hspelling]
    exact .intro (by decide) hinteger hfraction hexponent
  · rw [hread]
    rfl

/-- A spelling of more than two hundred million characters makes the exponent overflow. -/
theorem har_exponent_overflows :
    ∃ spelling : String, NumberToken spelling.toList ∧
      harExactInteger spelling = .error .overflow :=
  ⟨longSpelling 214748326, longSpelling_overflows rfl⟩

end Moonfort.Executor
