import Moonfort.DecimalText
import Moonfort.JsonGrammar
import Moonfort.Loop
import Moonfort.MoonBit.Arithmetic
import Moonfort.MoonBit.Json

/-!
# Retained decimals

The reader and the printer of the decimals that the aggregation of a retained CSV file
works with: integers that count millionths. The reader accepts the plain decimals up to
nine trillion, exactly, and no step of either leaves its type.
-/

namespace Moonfort.Executor

open DecimalText JsonGrammar MoonBit

/-! ## The reader -/

/-- The variables of `retained_decimal`. -/
structure DecimalReader where
  digits : ℕ
  fraction : ℤ
  value : ℤ

/-- The variables before the first character. -/
def DecimalReader.start : DecimalReader := ⟨0, -1, 0⟩

/-- The refusal of a decimal beyond the limit. -/
def decimalTooLarge : Fault := .refused "decimal exceeds magnitude 9000000000000"

/-- The body of the loop over the characters. -/
def DecimalReader.read (r : DecimalReader) (c : Char) : Except Fault DecimalReader :=
  if c = '.' ∧ r.fraction = -1 ∧ 0 < r.digits then .ok { r with fraction := 0 }
  else if ¬(c.isDigit = true ∧ r.fraction < 6) then
    .error (.refused "expected plain decimal with at most six fractional digits")
  else do
    let digit ← int64 (c.toNat - 48)
    let room ← int64 (9000000000000000000 - digit)
    if ¬r.value ≤ room.tdiv 10 then .error decimalTooLarge
    else
      let shifted ← int64 (r.value * 10)
      let value ← int64 (shifted + digit)
      .ok
        { digits := r.digits + 1
          fraction := if 0 ≤ r.fraction then r.fraction + 1 else r.fraction
          value := value }

/-- The loop that pads the fraction to six places. -/
def padDecimal : (rounds : ℕ) → (value : ℤ) → Except Fault ℤ
  | 0, value => .ok value
  | rounds + 1, value =>
    if ¬value ≤ 900000000000000000 then .error decimalTooLarge
    else do
      let value ← int64 (value * 10)
      padDecimal rounds value

/-- `retained_decimal` behind the sign: the loop, its checks and the padding. -/
def unsignedDecimal (chars : List Char) : Except Fault ℤ := do
  let r ← chars.foldlM DecimalReader.read .start
  if ¬(0 < r.digits ∧ r.fraction ≠ 0) then .error (.refused "incomplete decimal")
  else
    let places := if r.fraction = -1 then 0 else r.fraction
    padDecimal (6 - places).toNat r.value

/-- `retained_decimal`. A character of two UTF-16 units is no digit, and neither is a unit. -/
def retainedDecimal (text : String) : Except Fault ℤ :=
  match text.toList with
  | [] => .error (.refused "empty decimal")
  | first :: rest => do
    let value ← unsignedDecimal (if first = '-' then rest else first :: rest)
    if first = '-' then int64 (-value) else .ok value

/-- `retained_decimal_text`. -/
def retainedDecimalText (value : ℤ) : Except Fault String := do
  let magnitude ← (if value < 0 then int64 (-value) else .ok value)
  let whole := Nat.toDigits 10 (magnitude.tdiv 1000000).toNat
  let fraction := Nat.toDigits 10 (magnitude.tmod 1000000).toNat
  .ok (String.ofList ((if value < 0 then ['-'] else []) ++
    (whole ++ '.' :: (List.replicate (6 - fraction.length) '0' ++ fraction))))

/-! ## One character -/

variable {chars : List Char}

namespace DecimalReader

/-- The reader after a digit. -/
def addDigit (r : DecimalReader) (c : Char) : DecimalReader where
  digits := r.digits + 1
  fraction := if 0 ≤ r.fraction then r.fraction + 1 else r.fraction
  value := r.value * 10 + digitValue c

variable {r r' : DecimalReader} {c : Char}

/-- A digit is added while the digits so far stay within the limit. -/
theorem read_digit (hvalue : 0 ≤ r.value) (hc : c.isDigit = true) (hfraction : r.fraction < 6) :
    r.read c = if r.value * 10 + digitValue c ≤ 9000000000000000000 then .ok (r.addDigit c)
      else .error decimalTooLarge := by
  have hchar := toNat_of_isDigit hc
  have hpoint : ¬(c = '.' ∧ r.fraction = -1 ∧ 0 < r.digits) := by
    rintro ⟨rfl, -⟩
    cases hc
  have hdigit : (c.toNat : ℤ) - 48 = digitValue c := by
    rw [digitValue]
    omega
  have hlt := digitValue_lt hc
  have hroom : int64 (9000000000000000000 - (digitValue c : ℤ)) =
      .ok (9000000000000000000 - (digitValue c : ℤ)) := int64_of_mem (by omega) (by omega)
  have hdiv : (9000000000000000000 - (digitValue c : ℤ)).tdiv 10 =
      (9000000000000000000 - (digitValue c : ℤ)) / 10 := Int.tdiv_eq_ediv_of_nonneg (by omega)
  rw [read, if_neg hpoint, if_neg (not_not.mpr ⟨hc, hfraction⟩), hdigit,
    int64_of_mem (by omega) (by omega)]
  simp only [bind, Except.bind, hroom, hdiv]
  by_cases hle : r.value * 10 + digitValue c ≤ 9000000000000000000
  · rw [if_neg (by omega), if_pos hle, int64_of_mem (by omega) (by omega)]
    simp only
    rw [int64_of_mem (by omega) (by omega)]
    rfl
  · rw [if_pos (by omega), if_neg hle]

/-- What a character can do. -/
theorem read_eq_ok_iff (hvalue : 0 ≤ r.value) :
    r.read c = .ok r' ↔
      (c = '.' ∧ r.fraction = -1 ∧ 0 < r.digits ∧ r' = { r with fraction := 0 }) ∨
      (c.isDigit = true ∧ r.fraction < 6 ∧
        r.value * 10 + digitValue c ≤ 9000000000000000000 ∧ r' = r.addDigit c) := by
  by_cases hdigit : c.isDigit = true ∧ r.fraction < 6
  · rw [read_digit hvalue hdigit.1 hdigit.2]
    have hpoint : c ≠ '.' := by
      rintro rfl
      exact absurd hdigit.1 (by decide)
    by_cases hle : r.value * 10 + digitValue c ≤ 9000000000000000000
    · simp [hle, hpoint, hdigit, eq_comm]
    · simp [hle, hpoint]
  · rw [read]
    by_cases hpoint : c = '.' ∧ r.fraction = -1 ∧ 0 < r.digits
    · rw [if_pos hpoint]
      simp [hpoint, eq_comm]
    · rw [if_neg hpoint, if_pos hdigit]
      simp only [reduceCtorEq, false_iff]
      rintro (⟨h, h', h'', -⟩ | ⟨h, h', -⟩)
      · exact hpoint ⟨h, h', h''⟩
      · exact hdigit ⟨h, h'⟩

/-- Reading a character overflows no integer. -/
theorem read_ne_overflow (hvalue : 0 ≤ r.value) : r.read c ≠ .error .overflow := by
  by_cases hdigit : c.isDigit = true ∧ r.fraction < 6
  · rw [read_digit hvalue hdigit.1 hdigit.2]
    split <;> nofun
  · rw [read]
    by_cases hpoint : c = '.' ∧ r.fraction = -1 ∧ 0 < r.digits
    · rw [if_pos hpoint]
      nofun
    · rw [if_neg hpoint, if_pos hdigit]
      nofun

/-! ## The characters so far -/

/-- What the variables say of the characters that were read. -/
inductive HasRead : List Char → DecimalReader → Prop
  | whole {digits : List Char} (hdigits : ∀ c ∈ digits, c.isDigit = true)
    (hle : digitsValue digits ≤ 9000000000000000000) :
    HasRead digits ⟨digits.length, -1, digitsValue digits⟩
  | point {whole fraction : List Char} (hwhole : Digits whole)
    (hfraction : ∀ c ∈ fraction, c.isDigit = true) (hlength : fraction.length ≤ 6)
    (hle : digitsValue (whole ++ fraction) ≤ 9000000000000000000) :
    HasRead (whole ++ '.' :: fraction)
      ⟨whole.length + fraction.length, fraction.length, digitsValue (whole ++ fraction)⟩

/-- What was read is not negative. -/
theorem HasRead.value_nonneg (h : HasRead chars r) : 0 ≤ r.value := by
  cases h <;> exact Int.natCast_nonneg _

/-- One more character keeps the description. -/
theorem HasRead.concat (h : HasRead chars r) (hread : r.read c = .ok r') :
    HasRead (chars ++ [c]) r' := by
  rcases (read_eq_ok_iff h.value_nonneg).mp hread with
    ⟨rfl, hfraction, hdigits, rfl⟩ | ⟨hc, hfraction, hle, rfl⟩
  · cases h with
    | whole hchars hle =>
      have hne : chars ≠ [] := List.ne_nil_of_length_pos hdigits
      have h := HasRead.point ⟨hne, hchars⟩ (List.forall_mem_nil _) (Nat.zero_le 6)
        ((chars.append_nil).symm ▸ hle)
      rwa [List.append_nil, List.length_nil, Nat.add_zero] at h
    | point => simp only at hfraction; omega
  · cases h with
    | whole hchars hvalue =>
      have hall : ∀ d ∈ chars ++ [c], d.isDigit = true := by
        simpa [or_imp, forall_and] using And.intro hchars hc
      have hsum : digitsValue (chars ++ [c]) ≤ 9000000000000000000 := by
        rw [digitsValue_concat]
        simp only at hle
        omega
      have h := HasRead.whole hall hsum
      rw [digitsValue_concat, List.length_append, List.length_singleton] at h
      exact_mod_cast h
    | @point whole fraction hwhole hchars hlength hvalue =>
      have hall : ∀ d ∈ fraction ++ [c], d.isDigit = true := by
        simpa [or_imp, forall_and] using And.intro hchars hc
      have hplaces : (fraction ++ [c]).length ≤ 6 := by
        rw [List.length_append, List.length_singleton]
        simp only at hfraction
        omega
      have hsum : digitsValue (whole ++ (fraction ++ [c])) ≤ 9000000000000000000 := by
        rw [← List.append_assoc, digitsValue_concat]
        simp only at hle
        omega
      have h := HasRead.point hwhole hall hplaces hsum
      rw [← List.append_assoc whole, digitsValue_concat, List.length_append,
        List.length_singleton, ← Nat.add_assoc] at h
      have hnext : addDigit ⟨whole.length + fraction.length, fraction.length,
          digitsValue (whole ++ fraction)⟩ c = ⟨whole.length + fraction.length + 1,
          (fraction.length + 1 : ℕ),
          (digitsValue (whole ++ fraction) * 10 + digitValue c : ℕ)⟩ := by
        rw [addDigit, if_pos (Int.natCast_nonneg _)]
        push_cast
        rfl
      rw [hnext, List.append_assoc, List.cons_append]
      exact h

/-- The last character of a description was read. -/
theorem HasRead.exists_concat (h : HasRead (chars ++ [c]) r') :
    ∃ r, HasRead chars r ∧ r.read c = .ok r' := by
  generalize htext : chars ++ [c] = text at h
  cases h with
  | whole hchars hle =>
    subst htext
    have hall : ∀ d ∈ chars, d.isDigit = true := fun d hd => hchars d (by simp [hd])
    rw [digitsValue_concat] at hle ⊢
    refine ⟨_, HasRead.whole hall (by omega), ?_⟩
    rw [read_eq_ok_iff (Int.natCast_nonneg _)]
    refine .inr ⟨hchars c (by simp), by simp, by simp only; omega, ?_⟩
    rw [addDigit, if_neg (by simp), List.length_append, List.length_singleton]
    push_cast
    rfl
  | @point whole fraction hwhole hchars hlength hle =>
    cases fraction using List.reverseRecOn with
    | nil =>
      obtain ⟨rfl, hlast⟩ := List.append_inj' htext rfl
      obtain rfl : c = '.' := by simpa using hlast
      rw [List.append_nil] at hle ⊢
      refine ⟨_, HasRead.whole hwhole.2 hle, ?_⟩
      rw [read_eq_ok_iff (Int.natCast_nonneg _)]
      exact .inl ⟨rfl, rfl, List.length_pos_iff.mpr hwhole.1, rfl⟩
    | append_singleton fraction d =>
      rw [← List.cons_append, ← List.append_assoc] at htext
      obtain ⟨rfl, hlast⟩ := List.append_inj' htext rfl
      obtain rfl : c = d := by simpa using hlast
      have hall : ∀ e ∈ fraction, e.isDigit = true := fun e he => hchars e (by simp [he])
      rw [List.length_append, List.length_singleton] at hlength ⊢
      rw [← List.append_assoc, digitsValue_concat] at hle ⊢
      refine ⟨_, HasRead.point hwhole hall (by omega) (by omega), ?_⟩
      rw [read_eq_ok_iff (Int.natCast_nonneg _)]
      refine .inr ⟨hchars c (by simp), by simp only; omega, by simp only; omega, ?_⟩
      rw [addDigit, if_pos (Int.natCast_nonneg _)]
      push_cast
      rfl

/-- Before any character the reader is at its start. -/
theorem hasRead_nil_iff : HasRead [] r ↔ r = start := by
  constructor
  · intro h
    generalize htext : [] = text at h
    cases h with
    | whole => subst htext; rfl
    | point => simp at htext
  · rintro rfl
    exact HasRead.whole nofun (Nat.zero_le _)

/-- The reader accepts exactly the texts that its variables can describe. -/
theorem foldlM_read_eq_ok_iff :
    chars.foldlM read start = .ok r ↔ HasRead chars r :=
  Loop.foldlM_eq_ok_iff_of_step (fun _ => hasRead_nil_iff) fun _ _ _ =>
    ⟨HasRead.exists_concat, fun ⟨_, hbefore, hlast⟩ => hbefore.concat hlast⟩

/-- The reader does not leave its type. -/
theorem foldlM_ne_overflow (chars : List Char) : chars.foldlM read start ≠ .error .overflow := by
  intro h
  obtain ⟨before, c, after, state, -, hbefore, hfails⟩ := Loop.exists_of_foldlM_error h
  exact read_ne_overflow (foldlM_read_eq_ok_iff.mp hbefore).value_nonneg hfails

end DecimalReader

/-! ## The padding -/

/-- Padding multiplies by ten in each round, inside the limit. -/
theorem padDecimal_eq {rounds : ℕ} {value : ℤ} (hvalue : 0 ≤ value)
    (hle : value ≤ 9000000000000000000) :
    padDecimal rounds value = if value * 10 ^ rounds ≤ 9000000000000000000 then
      .ok (value * 10 ^ rounds) else .error decimalTooLarge := by
  induction rounds generalizing value with
  | zero => rw [pow_zero, mul_one, if_pos hle, padDecimal]
  | succ rounds ih =>
    have hpow : (1 : ℤ) ≤ 10 ^ rounds := one_le_pow₀ (by decide)
    have hmul : value * 10 ^ (rounds + 1) = value * 10 * 10 ^ rounds := by
      rw [pow_succ']
      exact (mul_assoc _ _ _).symm
    rw [padDecimal, hmul]
    by_cases hnext : value ≤ 900000000000000000
    · rw [if_neg (not_not.mpr hnext), int64_of_mem (by omega) (by omega)]
      exact ih (by omega) (by omega)
    · have hlarge : value * 10 ≤ value * 10 * 10 ^ rounds := le_mul_of_one_le_right (by omega) hpow
      rw [if_pos hnext, if_neg (by omega)]

/-! ## Plain decimals -/

/-- The numerals that the aggregation accepts: digits, and at most six more behind a point. -/
structure PlainDecimal (numeral : Numeral) : Prop where
  whole : Digits numeral.whole
  fraction : ∀ c ∈ numeral.fraction, c.isDigit = true
  places : numeral.fraction.length ≤ 6
  exponent : numeral.exponent = 0

/-- A plain decimal without its sign. -/
def plainChars (numeral : Numeral) : List Char :=
  numeral.whole ++ if numeral.fraction = [] then [] else '.' :: numeral.fraction

/-- A plain decimal as a text. -/
def plainSpelling (numeral : Numeral) : String :=
  String.ofList ((if numeral.negative then ['-'] else []) ++ plainChars numeral)

variable {numeral : Numeral}

/-- The padding completes the fraction to six places. -/
theorem PlainDecimal.shift (h : PlainDecimal numeral) :
    ((6 - numeral.fraction.length : ℕ) : ℤ) = numeral.lastExponent + (6 : ℕ) := by
  have hplaces := h.places
  rw [Numeral.lastExponent, h.exponent]
  omega

/-- The number of millionths, without the sign. -/
def millionths (numeral : Numeral) : ℕ :=
  numeral.coefficient * 10 ^ (6 - numeral.fraction.length)

/-- A decimal is its millionths but for the scale. -/
theorem PlainDecimal.value_eq (h : PlainDecimal numeral) :
    numeral.value * 10 ^ 6 = ((withSign numeral.negative (millionths numeral : ℤ) : ℤ) : ℚ) :=
  Numeral.value_mul_pow h.shift

/-- The limit of decimals in millionths. -/
theorem PlainDecimal.abs_value_le_iff (h : PlainDecimal numeral) :
    |numeral.value| ≤ 9 * 10 ^ 12 ↔ millionths numeral ≤ 9000000000000000000 := by
  have hmul : |numeral.value| * 10 ^ 6 = (millionths numeral : ℚ) :=
    Numeral.abs_value_mul_pow h.shift
  have hpow : (0 : ℚ) < 10 ^ 6 := by positivity
  rw [← mul_le_mul_iff_of_pos_right hpow, hmul]
  have hlimit : (9 * 10 ^ 12 * 10 ^ 6 : ℚ) = ((9000000000000000000 : ℕ) : ℚ) := by norm_num
  rw [hlimit, Nat.cast_le]

/-- A plain decimal does not start with a sign. -/
theorem PlainDecimal.chars_cons (h : PlainDecimal numeral) :
    ∃ first rest, plainChars numeral = first :: rest ∧ first ≠ '-' := by
  obtain ⟨hne, hdigits⟩ := h.whole
  obtain ⟨first, rest, hwhole⟩ := List.exists_cons_of_ne_nil hne
  refine ⟨first, _, by rw [plainChars, hwhole, List.cons_append], ?_⟩
  rintro rfl
  exact absurd (hdigits '-' (by simp [hwhole])) (by decide)

/-! ## What the reader accepts -/

/-- The variables behind a plain decimal. -/
def DecimalReader.behind (numeral : Numeral) : DecimalReader where
  digits := numeral.whole.length + numeral.fraction.length
  fraction := if numeral.fraction = [] then -1 else numeral.fraction.length
  value := numeral.coefficient

/-- The complete texts are the plain decimals. -/
theorem hasRead_complete_iff (negative : Bool) {chars : List Char} {r : DecimalReader} :
    r.HasRead chars ∧ 0 < r.digits ∧ r.fraction ≠ 0 ↔
      ∃ numeral, PlainDecimal numeral ∧ numeral.negative = negative ∧
        numeral.coefficient ≤ 9000000000000000000 ∧ chars = plainChars numeral ∧
        r = .behind numeral := by
  constructor
  · rintro ⟨hread, hdigits, hfraction⟩
    cases hread with
    | whole hchars hle =>
      refine ⟨⟨negative, chars, [], 0⟩, ?_, rfl, ?_, ?_, ?_⟩
      · exact ⟨⟨List.ne_nil_of_length_pos hdigits, hchars⟩, List.forall_mem_nil _,
          Nat.zero_le 6, rfl⟩
      · rwa [Numeral.coefficient, List.append_nil]
      · rw [plainChars, if_pos rfl, List.append_nil]
      · rw [DecimalReader.behind, if_pos rfl, Numeral.coefficient, List.append_nil]
        rfl
    | @point whole fraction hwhole hchars hlength hle =>
      have hne : fraction ≠ [] := by
        rintro rfl
        exact hfraction rfl
      refine ⟨⟨negative, whole, fraction, 0⟩, ⟨hwhole, hchars, hlength, rfl⟩, rfl, hle, ?_, ?_⟩
      · rw [plainChars, if_neg hne]
      · rw [DecimalReader.behind, if_neg hne]
        rfl
  · rintro ⟨⟨sign, whole, fraction, exponent⟩, ⟨hwhole, hchars, hlength, -⟩, -, hle, rfl, rfl⟩
    have hpos := List.length_pos_iff.mpr hwhole.1
    by_cases hfraction : fraction = []
    · subst hfraction
      rw [Numeral.coefficient, List.append_nil] at hle
      have hread := DecimalReader.HasRead.whole hwhole.2 hle
      rw [plainChars, if_pos rfl, List.append_nil, DecimalReader.behind, if_pos rfl,
        Numeral.coefficient, List.append_nil]
      exact ⟨hread, hpos, by simp⟩
    · have hread := DecimalReader.HasRead.point hwhole hchars hlength hle
      have hplaces := List.length_pos_iff.mpr hfraction
      rw [plainChars, if_neg hfraction, DecimalReader.behind, if_neg hfraction]
      exact ⟨hread, by simp only; omega, by simp only; omega⟩

/-- The padding fills the fraction up to six places. -/
theorem rounds_behind (h : PlainDecimal numeral) :
    (6 - if (DecimalReader.behind numeral).fraction = -1 then 0
      else (DecimalReader.behind numeral).fraction).toNat = 6 - numeral.fraction.length := by
  have hplaces := h.places
  rw [DecimalReader.behind]
  by_cases hfraction : numeral.fraction = []
  · simp [hfraction]
  · simp only [hfraction, if_false]
    rw [if_neg (by omega)]
    omega

/-- The end of the loop and the padding, for the variables behind the loop. -/
theorem unsignedDecimal_of_foldlM {r : DecimalReader}
    (h : chars.foldlM DecimalReader.read .start = .ok r) :
    unsignedDecimal chars =
      if ¬(0 < r.digits ∧ r.fraction ≠ 0) then .error (.refused "incomplete decimal")
      else padDecimal (6 - if r.fraction = -1 then 0 else r.fraction).toNat r.value := by
  rw [unsignedDecimal, h]
  rfl

/-- The padding of a plain decimal. -/
theorem padDecimal_behind (hle : numeral.coefficient ≤ 9000000000000000000) :
    padDecimal (6 - numeral.fraction.length) (DecimalReader.behind numeral).value =
      if millionths numeral ≤ 9000000000000000000 then .ok (millionths numeral)
      else .error decimalTooLarge := by
  have hvalue : (DecimalReader.behind numeral).value = (numeral.coefficient : ℤ) := rfl
  have hcast : (numeral.coefficient : ℤ) * 10 ^ (6 - numeral.fraction.length) =
      (millionths numeral : ℤ) := by
    rw [millionths]
    push_cast
    rfl
  rw [hvalue, padDecimal_eq (Int.natCast_nonneg _) (by omega), hcast]
  exact if_congr (by omega) rfl rfl

/-- The unsigned texts that are accepted, with their millionths. -/
theorem unsignedDecimal_eq_ok_iff (negative : Bool) {chars : List Char} {value : ℤ} :
    unsignedDecimal chars = .ok value ↔
      ∃ numeral, PlainDecimal numeral ∧ numeral.negative = negative ∧ chars = plainChars numeral ∧
        millionths numeral ≤ 9000000000000000000 ∧ value = millionths numeral := by
  constructor
  · intro h
    cases hread : chars.foldlM DecimalReader.read .start with
    | error fault => rw [unsignedDecimal, hread] at h; cases h
    | ok r =>
      rw [unsignedDecimal_of_foldlM hread] at h
      by_cases hcomplete : 0 < r.digits ∧ r.fraction ≠ 0
      · obtain ⟨numeral, hplain, hsign, hle, rfl, rfl⟩ := (hasRead_complete_iff negative).mp
          ⟨DecimalReader.foldlM_read_eq_ok_iff.mp hread, hcomplete⟩
        rw [if_neg (not_not.mpr hcomplete), rounds_behind hplain,
          padDecimal_behind hle] at h
        split at h
        · rename_i hlimit
          exact ⟨numeral, hplain, hsign, rfl, hlimit, (Except.ok.inj h).symm⟩
        · cases h
      · rw [if_pos hcomplete] at h
        cases h
  · rintro ⟨numeral, hplain, hsign, rfl, hlimit, rfl⟩
    have hle : numeral.coefficient ≤ 9000000000000000000 :=
      le_trans (Nat.le_mul_of_pos_right _ (by positivity)) hlimit
    obtain ⟨hread, hcomplete⟩ :=
      (hasRead_complete_iff negative).mpr ⟨numeral, hplain, hsign, hle, rfl, rfl⟩
    rw [unsignedDecimal_of_foldlM (DecimalReader.foldlM_read_eq_ok_iff.mpr hread),
      if_neg (not_not.mpr hcomplete), rounds_behind hplain, padDecimal_behind hle,
      if_pos hlimit]

/-- Reading an unsigned decimal overflows no integer. -/
theorem unsignedDecimal_ne_overflow (chars : List Char) :
    unsignedDecimal chars ≠ .error .overflow := by
  intro h
  cases hread : chars.foldlM DecimalReader.read .start with
  | error fault =>
    have hfault := DecimalReader.foldlM_ne_overflow chars
    rw [hread] at hfault
    rw [unsignedDecimal, hread] at h
    cases h
    exact hfault rfl
  | ok r =>
    rw [unsignedDecimal_of_foldlM hread] at h
    by_cases hcomplete : 0 < r.digits ∧ r.fraction ≠ 0
    · obtain ⟨numeral, hplain, -, hle, -, rfl⟩ := (hasRead_complete_iff false).mp
        ⟨DecimalReader.foldlM_read_eq_ok_iff.mp hread, hcomplete⟩
      rw [if_neg (not_not.mpr hcomplete), rounds_behind hplain, padDecimal_behind hle] at h
      split at h <;> cases h
    · rw [if_pos hcomplete] at h
      cases h

/-! ## The sign -/

/-- A decimal is an optional sign before an unsigned one. -/
theorem retainedDecimal_of_unsigned {text : String} {first : Char} {rest : List Char}
    (htext : text.toList = first :: rest) :
    retainedDecimal text =
      (unsignedDecimal (if first = '-' then rest else first :: rest)).bind fun value =>
        if first = '-' then int64 (-value) else .ok value := by
  rw [retainedDecimal, htext]
  rfl

/-- The texts that are accepted, with their millionths. -/
theorem retainedDecimal_eq_ok_iff {text : String} {value : ℤ} :
    retainedDecimal text = .ok value ↔
      ∃ numeral, PlainDecimal numeral ∧ text = plainSpelling numeral ∧
        millionths numeral ≤ 9000000000000000000 ∧
        value = withSign numeral.negative (millionths numeral : ℤ) := by
  constructor
  · intro h
    cases htext : text.toList with
    | nil => rw [retainedDecimal, htext] at h; cases h
    | cons first rest =>
      rw [retainedDecimal_of_unsigned htext] at h
      cases hvalue : unsignedDecimal (if first = '-' then rest else first :: rest) with
      | error fault => rw [hvalue] at h; cases h
      | ok found =>
        rw [hvalue, Except.bind] at h
        obtain ⟨numeral, hplain, hsign, hchars, hlimit, rfl⟩ :=
          (unsignedDecimal_eq_ok_iff (decide (first = '-'))).mp hvalue
        refine ⟨numeral, hplain, ?_, hlimit, ?_⟩
        · rw [plainSpelling, ← hchars, hsign, ← String.ofList_toList (s := text), htext]
          by_cases hminus : first = '-'
          · simp [hminus]
          · simp [hminus]
        · rw [hsign]
          by_cases hminus : first = '-'
          · rw [if_pos hminus, int64_of_mem (by omega) (by omega)] at h
            simp [hminus, withSign, Except.ok.inj h]
          · rw [if_neg hminus] at h
            simp [hminus, withSign, Except.ok.inj h]
  · rintro ⟨numeral, hplain, rfl, hlimit, rfl⟩
    have hvalue := (unsignedDecimal_eq_ok_iff numeral.negative).mpr
      ⟨numeral, hplain, rfl, rfl, hlimit, rfl⟩
    cases hsign : numeral.negative with
    | true =>
      have htext : (plainSpelling numeral).toList = '-' :: plainChars numeral := by
        rw [plainSpelling, String.toList_ofList, hsign]
        rfl
      rw [retainedDecimal_of_unsigned htext, if_pos rfl, hvalue]
      exact int64_of_mem (by omega) (by omega)
    | false =>
      obtain ⟨first, rest, hcons, hminus⟩ := hplain.chars_cons
      have htext : (plainSpelling numeral).toList = first :: rest := by
        rw [plainSpelling, String.toList_ofList, hsign, ← hcons]
        rfl
      rw [retainedDecimal_of_unsigned htext, if_neg hminus, ← hcons, hvalue]
      exact if_neg hminus

/-- Reading a decimal overflows no integer. -/
theorem retainedDecimal_ne_overflow (text : String) : retainedDecimal text ≠ .error .overflow := by
  intro h
  cases htext : text.toList with
  | nil => rw [retainedDecimal, htext] at h; cases h
  | cons first rest =>
    rw [retainedDecimal_of_unsigned htext] at h
    cases hvalue : unsignedDecimal (if first = '-' then rest else first :: rest) with
    | error fault =>
      rw [hvalue] at h
      cases h
      exact unsignedDecimal_ne_overflow _ hvalue
    | ok found =>
      obtain ⟨numeral, -, -, -, hlimit, rfl⟩ := (unsignedDecimal_eq_ok_iff false).mp hvalue
      rw [hvalue, Except.bind, int64_of_mem (by omega) (by omega)] at h
      split at h <;> cases h

/-! ## The printer -/

/-- The numeral that the printer writes. -/
def printedNumeral (value : ℤ) : Numeral where
  negative := decide (value < 0)
  whole := Nat.toDigits 10 (value.natAbs / 1000000)
  fraction :=
    let fraction := Nat.toDigits 10 (value.natAbs % 1000000)
    List.replicate (6 - fraction.length) '0' ++ fraction
  exponent := 0

/-- The fraction has at most six digits. -/
theorem length_toDigits_millionths (value : ℤ) :
    (Nat.toDigits 10 (value.natAbs % 1000000)).length ≤ 6 := by
  have hlt : value.natAbs % 1000000 < 10 ^ 6 := Nat.mod_lt _ (by decide)
  exact (Nat.length_toDigits_le_iff (by decide) (by decide)).mpr hlt

/-- A printed decimal is a plain one. -/
theorem printedNumeral_plain (value : ℤ) : PlainDecimal (printedNumeral value) where
  whole := ⟨Nat.toDigits_ne_nil, toDigits_isDigit⟩
  fraction := by
    intro c hc
    rcases List.mem_append.mp hc with hc | hc
    · rw [List.eq_of_mem_replicate hc]
      decide
    · exact toDigits_isDigit c hc
  places := by
    have hlength := length_toDigits_millionths value
    rw [printedNumeral, List.length_append, List.length_replicate]
    omega
  exponent := rfl

/-- A printed fraction has six digits. -/
theorem length_printedFraction (value : ℤ) : (printedNumeral value).fraction.length = 6 := by
  have hlength := length_toDigits_millionths value
  rw [printedNumeral, List.length_append, List.length_replicate]
  omega

/-- A printed decimal has the millionths it was printed from. -/
theorem millionths_printed (value : ℤ) : millionths (printedNumeral value) = value.natAbs := by
  have hzeros := digitsValue_append (List.replicate
    (6 - (Nat.toDigits 10 (value.natAbs % 1000000)).length) '0')
    (Nat.toDigits 10 (value.natAbs % 1000000))
  rw [digitsValue_zeros, digitsValue_toDigits, Nat.zero_mul, Nat.zero_add] at hzeros
  have hfraction : digitsValue (printedNumeral value).fraction = value.natAbs % 1000000 := hzeros
  have hwhole : digitsValue (printedNumeral value).whole = value.natAbs / 1000000 :=
    digitsValue_toDigits _
  rw [millionths, Numeral.coefficient, digitsValue_append, hfraction, hwhole,
    length_printedFraction]
  omega

/-- The printer writes its numeral. -/
theorem retainedDecimalText_eq {value : ℤ} (hlow : -2 ^ 63 < value) (hhigh : value < 2 ^ 63) :
    retainedDecimalText value = .ok (plainSpelling (printedNumeral value)) := by
  have hmagnitude : (if value < 0 then int64 (-value) else .ok value) =
      Except.ok (value.natAbs : ℤ) := by
    by_cases hneg : value < 0
    · rw [if_pos hneg, int64_of_mem (by omega) (by omega)]
      congr 1
      omega
    · rw [if_neg hneg]
      congr 1
      omega
  have hwhole : ((value.natAbs : ℤ).tdiv 1000000).toNat = value.natAbs / 1000000 := rfl
  have hfraction : ((value.natAbs : ℤ).tmod 1000000).toNat = value.natAbs % 1000000 := rfl
  have hne : (printedNumeral value).fraction ≠ [] :=
    List.ne_nil_of_length_pos (by rw [length_printedFraction]; decide)
  rw [retainedDecimalText, hmagnitude, plainSpelling, plainChars, if_neg hne]
  simp only [bind, Except.bind, hwhole, hfraction, printedNumeral, decide_eq_true_eq]

/-- What the printer writes is read back. -/
theorem retainedDecimal_printed {value : ℤ} (hlow : -9000000000000000000 ≤ value)
    (hhigh : value ≤ 9000000000000000000) :
    ∃ text, retainedDecimalText value = .ok text ∧ retainedDecimal text = .ok value := by
  refine ⟨_, retainedDecimalText_eq (by omega) (by omega), ?_⟩
  refine retainedDecimal_eq_ok_iff.mpr ⟨_, printedNumeral_plain value, rfl, ?_, ?_⟩
  · rw [millionths_printed]
    omega
  · rw [millionths_printed, withSign, printedNumeral]
    split <;> rename_i hneg <;> simp only [decide_eq_true_eq] at hneg <;> omega

/-- A decimal is accepted exactly when it is a plain decimal of at most nine trillion, and then
its value is read exactly; no step leaves its type; and what the printer writes is read back. -/
theorem decimal_exact :
    (∀ text value, retainedDecimal text = .ok value ↔
      ∃ numeral, PlainDecimal numeral ∧ text = plainSpelling numeral ∧
        |numeral.value| ≤ 9 * 10 ^ 12 ∧ (value : ℚ) = numeral.value * 10 ^ 6) ∧
    (∀ text, retainedDecimal text ≠ .error .overflow) ∧
    ∀ value : ℤ, |value| ≤ 9 * 10 ^ 18 →
      ∃ text, retainedDecimalText value = .ok text ∧ retainedDecimal text = .ok value := by
  refine ⟨fun text value => ?_, retainedDecimal_ne_overflow, fun value hvalue => ?_⟩
  · rw [retainedDecimal_eq_ok_iff]
    refine exists_congr fun numeral => and_congr_right fun hplain => and_congr_right fun _ => ?_
    rw [hplain.abs_value_le_iff, hplain.value_eq, Int.cast_inj]
  · rw [abs_le] at hvalue
    exact retainedDecimal_printed (by omega) (by omega)

/-- The limit and the sign of a fraction. -/
example : retainedDecimal "-9000000000000.000000" = .ok (-9000000000000000000) ∧
    retainedDecimal "9000000000000.000001" = .error decimalTooLarge ∧
    retainedDecimalText (-1) = .ok "-0.000001" := by decide

end Moonfort.Executor
