import Moonfort.AenProvisioner.SnapshotWalk

/-!
# The UTF-8 of snapshot names

`valid_utf8` of `secure_snapshot.c` as its loop over an index, with every read of the bytes, and
the texts whose encodings it accepts.
-/

namespace Moonfort.AenProvisioner

open MoonBit

/-- Bytes of C and their length. An object of C has at most `PTRDIFF_MAX` bytes. -/
structure ByteObject where
  bytes : List UInt8
  length_lt : bytes.length < 2 ^ 63

/-- `needed` and the first bits of `code`, by the first byte of a sequence. -/
def leadByte (first : UInt8) : Option (ℕ × UInt32) :=
  if first &&& 0xE0 == 0xC0 then some (1, (first &&& 0x1F).toUInt32)
  else if first &&& 0xF0 == 0xE0 then some (2, (first &&& 0x0F).toUInt32)
  else if first &&& 0xF8 == 0xF0 then some (3, (first &&& 0x07).toUInt32)
  else none

/-- The loop over the continuation bytes. The outer `none` is a read past the bytes, the inner one
a byte that continues nothing. -/
def continuationLoop (value : List UInt8) : ℕ → ℕ → UInt32 → Option (Option (ℕ × UInt32))
  | 0, index, code => some (some (index, code))
  | count + 1, index, code => do
    let next ← value[index]?
    if next &&& 0xC0 != 0x80 then some none
    else continuationLoop value count (index + 1) ((code <<< 6) ||| (next &&& 0x3F).toUInt32)

/-- The code points that a sequence of so many continuation bytes may not spell. -/
def refusedCode (needed : ℕ) (code : UInt32) : Bool :=
  (needed == 1 && code < 0x80) || (needed == 2 && code < 0x800) ||
    (needed == 3 && code < 0x10000) || code > 0x10FFFF || (code ≥ 0xD800 && code ≤ 0xDFFF)

/-- The loop of `valid_utf8`, of at most so many rounds. `none` is a read past the bytes, or too
few rounds. -/
def utf8Loop (value : List UInt8) : ℕ → ℕ → Option Bool
  | 0, _ => none
  | rounds + 1, index =>
    if index < value.length then do
      let first ← value[index]?
      if first < 0x80 then
        if isControl first then some false else utf8Loop value rounds (index + 1)
      else
        match leadByte first with
        | none => some false
        | some (needed, code) =>
          if (index + 1 + needed) % 2 ^ 64 > value.length then some false
          else do
            match ← continuationLoop value needed (index + 1) code with
            | none => some false
            | some (index, code) =>
              if refusedCode needed code then some false else utf8Loop value rounds index
    else some true

/-- `valid_utf8`. Each round reads a byte at least, so the rounds suffice. -/
def validUtf8Loop (value : ByteObject) : Option Bool :=
  utf8Loop value.bytes (value.bytes.length + 1) 0

/-! ## The masks of a byte -/

section Masks

variable (byte : UInt8)

/-- A masked comparison is one of numbers. -/
theorem toNat_and_beq (mask wanted : UInt8) :
    (byte &&& mask == wanted) = decide (byte.toNat &&& mask.toNat = wanted.toNat) := by
  rw [Bool.eq_iff_iff, beq_iff_eq, decide_eq_true_eq, ← UInt8.toNat_inj, UInt8.toNat_and]

/-- The continuation bytes as numbers. -/
theorem isContinuation_iff :
    isContinuation byte = true ↔ 0x80 ≤ byte.toNat ∧ byte.toNat < 0xC0 := by
  have hall : ∀ n < 256, n &&& 0xC0 = 0x80 ↔ 0x80 ≤ n ∧ n < 0xC0 := by decide +kernel
  rw [isContinuation, toNat_and_beq, decide_eq_true_eq]
  exact hall byte.toNat byte.toNat_lt

/-- The first bytes of two-byte sequences as numbers. -/
theorem leads_two_iff : (byte &&& 0xE0 == 0xC0) = true ↔ 0xC0 ≤ byte.toNat ∧ byte.toNat < 0xE0 := by
  have hall : ∀ n < 256, n &&& 0xE0 = 0xC0 ↔ 0xC0 ≤ n ∧ n < 0xE0 := by decide +kernel
  rw [toNat_and_beq, decide_eq_true_eq]
  exact hall byte.toNat byte.toNat_lt

/-- The first bytes of three-byte sequences as numbers. -/
theorem leads_three_iff :
    (byte &&& 0xF0 == 0xE0) = true ↔ 0xE0 ≤ byte.toNat ∧ byte.toNat < 0xF0 := by
  have hall : ∀ n < 256, n &&& 0xF0 = 0xE0 ↔ 0xE0 ≤ n ∧ n < 0xF0 := by decide +kernel
  rw [toNat_and_beq, decide_eq_true_eq]
  exact hall byte.toNat byte.toNat_lt

/-- The first bytes of four-byte sequences as numbers. -/
theorem leads_four_iff :
    (byte &&& 0xF8 == 0xF0) = true ↔ 0xF0 ≤ byte.toNat ∧ byte.toNat < 0xF8 := by
  have hall : ∀ n < 256, n &&& 0xF8 = 0xF0 ↔ 0xF0 ≤ n ∧ n < 0xF8 := by decide +kernel
  rw [toNat_and_beq, decide_eq_true_eq]
  exact hall byte.toNat byte.toNat_lt

/-- The masks of low bits are remainders. -/
theorem toNat_lowBits :
    (byte &&& 0x3F).toNat = byte.toNat % 64 ∧ (byte &&& 0x1F).toNat = byte.toNat % 32 ∧
      (byte &&& 0x0F).toNat = byte.toNat % 16 ∧ (byte &&& 0x07).toNat = byte.toNat % 8 := by
  simp only [UInt8.toNat_and]
  exact ⟨Nat.and_two_pow_sub_one_eq_mod _ 6, Nat.and_two_pow_sub_one_eq_mod _ 5,
    Nat.and_two_pow_sub_one_eq_mod _ 4, Nat.and_two_pow_sub_one_eq_mod _ 3⟩

/-- The ASCII bytes as numbers. -/
theorem lt_ascii_iff : byte < 0x80 ↔ byte.toNat < 0x80 := UInt8.lt_iff_toNat_lt

end Masks

/-- Six more bits of a code point. -/
theorem toNat_nextCode {code : UInt32} (hcode : code.toNat < 2 ^ 26) (next : UInt8) :
    ((code <<< 6) ||| (next &&& 0x3F).toUInt32).toNat =
      64 * code.toNat + (next &&& 0x3F).toNat := by
  have hbits : (next &&& 0x3F).toNat < 2 ^ 6 := by
    rw [(toNat_lowBits next).1]
    omega
  rw [UInt32.toNat_or, UInt32.toNat_shiftLeft, UInt8.toNat_toUInt32]
  change (code.toNat <<< 6) % 2 ^ 32 ||| _ = _
  rw [Nat.shiftLeft_eq, Nat.mod_eq_of_lt (by omega), Nat.mul_comm,
    ← Nat.two_pow_add_eq_or_of_lt hbits]

/-! ## The loop and the recursion -/

/-- The code point after continuation bytes. -/
def nextCode (code : UInt32) (next : UInt8) : UInt32 := (code <<< 6) ||| (next &&& 0x3F).toUInt32

/-- The loop over the continuation bytes reads those bytes and no others. -/
theorem continuationLoop_eq (value : List UInt8) {count index : ℕ} (code : UInt32)
    (h : index + count ≤ value.length) :
    continuationLoop value count index code =
      some (if ((value.drop index).take count).all isContinuation then
        some (index + count, ((value.drop index).take count).foldl nextCode code) else none) := by
  induction count generalizing index code with
  | zero => simp [continuationLoop]
  | succ count ih =>
    have hindex : index < value.length := by omega
    rw [continuationLoop, List.getElem?_eq_getElem hindex, Option.bind_eq_bind, Option.bind_some,
      List.drop_eq_getElem_cons hindex, List.take_succ_cons, List.all_cons, List.foldl_cons]
    by_cases hnext : isContinuation value[index] = true
    · have hmask : (value[index] &&& 0xC0 != 0x80) = false := by
        rw [bne, ← isContinuation, hnext, Bool.not_true]
      have hplace : index + 1 + count = index + (count + 1) := by omega
      rw [hmask, if_neg Bool.false_ne_true, ih _ (by omega), hnext, Bool.true_and, hplace, nextCode]
    · rw [Bool.not_eq_true] at hnext
      have hmask : (value[index] &&& 0xC0 != 0x80) = true := by
        rw [bne, ← isContinuation, hnext, Bool.not_false]
      rw [hmask, if_pos rfl, hnext, Bool.false_and, if_neg Bool.false_ne_true]

/-- The code in 32 bits is the code point, as no bits are lost. -/
theorem toNat_foldl_nextCode {width : ℕ} {bytes : List UInt8} {code : UInt32}
    (hcode : code.toNat < 2 ^ width) (hwidth : width + 6 * bytes.length ≤ 32) :
    (bytes.foldl nextCode code).toNat =
      bytes.foldl (fun code byte => 64 * code + (byte &&& 0x3F).toNat) code.toNat := by
  induction bytes generalizing width code with
  | nil => rfl
  | cons byte bytes ih =>
    rw [List.length_cons] at hwidth
    have hsmall : code.toNat < 2 ^ 26 :=
      Nat.lt_of_lt_of_le hcode (Nat.pow_le_pow_right (by omega) (by omega))
    have hstep := toNat_nextCode hsmall byte
    have hbits := (toNat_lowBits byte).1
    have hnext : (nextCode code byte).toNat < 2 ^ (width + 6) := by
      rw [nextCode, hstep, Nat.pow_add]
      omega
    rw [List.foldl_cons, List.foldl_cons, ih hnext (by omega), nextCode, hstep]

/-- Folding the continuation bytes in 32 bits gives the code point, without overflow. -/
theorem toNat_code {start : UInt8} (hstart : start.toNat < 32) {bytes : List UInt8}
    (hbytes : bytes.length ≤ 3) :
    (bytes.foldl nextCode start.toUInt32).toNat = codePoint start bytes := by
  have hcode : start.toUInt32.toNat < 2 ^ 5 := by
    rw [UInt8.toNat_toUInt32]
    exact hstart
  rw [toNat_foldl_nextCode hcode (by omega), UInt8.toNat_toUInt32, codePoint]

/-- The code points that a sequence of so many continuation bytes may spell. -/
def AcceptedCode (needed code : ℕ) : Prop :=
  ¬(needed = 1 ∧ code < 0x80 ∨ needed = 2 ∧ code < 0x800 ∨ needed = 3 ∧ code < 0x10000 ∨
    0x10FFFF < code ∨ 0xD800 ≤ code ∧ code ≤ 0xDFFF)

instance (needed code : ℕ) : Decidable (AcceptedCode needed code) :=
  inferInstanceAs (Decidable (¬_))

/-- The refused codes are those that are not accepted. -/
theorem refusedCode_iff (needed : ℕ) (code : UInt32) :
    refusedCode needed code = true ↔ ¬AcceptedCode needed code.toNat := by
  simp only [refusedCode, AcceptedCode, Bool.or_eq_true, Bool.and_eq_true, beq_iff_eq,
    decide_eq_true_eq, UInt32.lt_iff_toNat_lt, UInt32.le_iff_toNat_le, gt_iff_lt, ge_iff_le,
    or_assoc, not_not]
  rfl

/-- The first byte of a sequence, by the number of its continuation bytes and its first bits. -/
inductive Leads (first : UInt8) : ℕ → UInt8 → Prop
  | two (h : (first &&& 0xE0 == 0xC0) = true) : Leads first 1 (first &&& 0x1F)
  | three (h : (first &&& 0xF0 == 0xE0) = true) : Leads first 2 (first &&& 0x0F)
  | four (h : (first &&& 0xF8 == 0xF0) = true) : Leads first 3 (first &&& 0x07)

/-- An ASCII byte is taken when it is no control byte. -/
theorem validUtf8_ascii {first : UInt8} (h : first < 0x80) (rest : List UInt8) :
    validUtf8 (first :: rest) = (!isControl first && validUtf8 rest) := by
  rw [validUtf8.eq_def]
  dsimp only
  rw [if_pos h]

section Rounds

variable {value rest : List UInt8} {rounds index needed : ℕ} {first start : UInt8}

/-- A first byte of a sequence is not ASCII. -/
theorem Leads.not_ascii (h : Leads first needed start) : ¬first < 0x80 := by
  rw [lt_ascii_iff]
  cases h with
  | two h =>
    rw [leads_two_iff] at h
    omega
  | three h =>
    rw [leads_three_iff] at h
    omega
  | four h =>
    rw [leads_four_iff] at h
    omega

/-- A sequence has at most three continuation bytes. -/
theorem Leads.needed_le (h : Leads first needed start) : needed ≤ 3 := by
  cases h <;> omega

/-- The bits of a first byte fit into five. -/
theorem Leads.start_lt (h : Leads first needed start) : start.toNat < 32 := by
  have hlow := toNat_lowBits first
  cases h <;> omega

/-- A byte from 0xE0 on leads no sequence of two bytes. -/
theorem not_leads_two (h : 0xE0 ≤ first.toNat) : ¬(first &&& 0xE0 == 0xC0) = true := by
  rw [leads_two_iff]
  omega

/-- A byte from 0xF0 on leads no sequence of three bytes. -/
theorem not_leads_three (h : 0xF0 ≤ first.toNat) : ¬(first &&& 0xF0 == 0xE0) = true := by
  rw [leads_three_iff]
  omega

/-- The source's test of a first byte finds the number and the bits. -/
theorem Leads.leadByte_eq (h : Leads first needed start) :
    leadByte first = some (needed, start.toUInt32) := by
  cases h with
  | two h => rw [leadByte, if_pos h]
  | three h =>
    have hbyte := (leads_three_iff first).mp h
    rw [leadByte, if_neg (not_leads_two hbyte.1), if_pos h]
  | four h =>
    have hbyte := (leads_four_iff first).mp h
    rw [leadByte, if_neg (not_leads_two (by omega)), if_neg (not_leads_three hbyte.1), if_pos h]

/-- A byte above ASCII leads a sequence, or nothing. -/
theorem leads_or_none (rest : List UInt8) (h : ¬first < 0x80) :
    (∃ needed start, Leads first needed start) ∨
      leadByte first = none ∧ validUtf8 (first :: rest) = false := by
  by_cases htwo : (first &&& 0xE0 == 0xC0) = true
  · exact Or.inl ⟨_, _, .two htwo⟩
  · by_cases hthree : (first &&& 0xF0 == 0xE0) = true
    · exact Or.inl ⟨_, _, .three hthree⟩
    · by_cases hfour : (first &&& 0xF8 == 0xF0) = true
      · exact Or.inl ⟨_, _, .four hfour⟩
      · right
        constructor
        · rw [leadByte, if_neg htwo, if_neg hthree, if_neg hfour]
        · rw [validUtf8.eq_def]
          dsimp only
          rw [if_neg h, if_neg htwo, if_neg hthree, if_neg hfour]

/-- The code point of a sequence is below the bound of its bits. -/
theorem codePoint_lt (start a b : UInt8) :
    codePoint start [a] < 64 * (start.toNat + 1) ∧
      codePoint start [a, b] < 4096 * (start.toNat + 1) := by
  have ha := (toNat_lowBits a).1
  have hb := (toNat_lowBits b).1
  simp only [codePoint, List.foldl_cons, List.foldl_nil, ha, hb]
  omega

/-- The recursion at the first byte of a sequence. -/
theorem validUtf8_sequence (h : Leads first needed start) :
    validUtf8 (first :: rest) =
      (decide (needed ≤ rest.length) && (rest.take needed).all isContinuation &&
        decide (AcceptedCode needed (codePoint start (rest.take needed))) &&
        validUtf8 (rest.drop needed)) := by
  have hlow := toNat_lowBits first
  rw [validUtf8.eq_def]
  dsimp only
  rw [if_neg h.not_ascii]
  cases h with
  | two h =>
    rw [if_pos h]
    rcases rest with _ | ⟨a, rest⟩
    · rfl
    · have hbound := (codePoint_lt (first &&& 0x1F) a a).1
      have hcode : AcceptedCode 1 (codePoint (first &&& 0x1F) [a]) ↔
          0x80 ≤ codePoint (first &&& 0x1F) [a] := by
        unfold AcceptedCode
        omega
      simp [hcode]
  | three h =>
    have hbyte := (leads_three_iff first).mp h
    rw [if_neg (not_leads_two hbyte.1), if_pos h]
    rcases rest with _ | ⟨a, _ | ⟨b, rest⟩⟩
    · rfl
    · rfl
    · have hbound := (codePoint_lt (first &&& 0x0F) a b).2
      have hcode : AcceptedCode 2 (codePoint (first &&& 0x0F) [a, b]) ↔
          0x800 ≤ codePoint (first &&& 0x0F) [a, b] ∧
            ¬(0xD800 ≤ codePoint (first &&& 0x0F) [a, b] ∧
              codePoint (first &&& 0x0F) [a, b] ≤ 0xDFFF) := by
        unfold AcceptedCode
        omega
      rw [Bool.eq_iff_iff]
      simp [hcode, and_assoc]
  | four h =>
    have hbyte := (leads_four_iff first).mp h
    rw [if_neg (not_leads_two (by omega)), if_neg (not_leads_three hbyte.1), if_pos h]
    rcases rest with _ | ⟨a, _ | ⟨b, _ | ⟨c, rest⟩⟩⟩
    · rfl
    · rfl
    · rfl
    · have hcode : AcceptedCode 3 (codePoint (first &&& 0x07) [a, b, c]) ↔
          0x10000 ≤ codePoint (first &&& 0x07) [a, b, c] ∧
            codePoint (first &&& 0x07) [a, b, c] ≤ 0x10FFFF := by
        unfold AcceptedCode
        omega
      simp [hcode, Bool.and_assoc]

/-- A round at a byte above ASCII, by the bytes that are left. -/
theorem utf8Loop_sequence (hlength : value.length < 2 ^ 63)
    (hdrop : value.drop index = first :: rest) (h : Leads first needed start) :
    utf8Loop value (rounds + 1) index =
      if needed ≤ rest.length ∧ (rest.take needed).all isContinuation = true ∧
          AcceptedCode needed (codePoint start (rest.take needed)) then
        utf8Loop value rounds (index + 1 + needed)
      else some false := by
  have hneeded := h.needed_le
  have hlen : value.length = index + 1 + rest.length := by
    have hcut := congrArg List.length hdrop
    rw [List.length_drop, List.length_cons] at hcut
    omega
  have hread : value[index]? = some first := by
    rw [← List.head?_drop, hdrop]
    rfl
  have hrest : value.drop (index + 1) = rest := by
    rw [← List.tail_drop, hdrop]
    rfl
  have hplace : (index + 1 + needed) % 2 ^ 64 = index + 1 + needed := Nat.mod_eq_of_lt (by omega)
  have htake : (rest.take needed).length ≤ 3 := by
    rw [List.length_take]
    omega
  have hrefused := refusedCode_iff needed ((rest.take needed).foldl nextCode start.toUInt32)
  rw [toNat_code h.start_lt htake] at hrefused
  rw [utf8Loop, if_pos (by omega), hread, Option.bind_eq_bind, Option.bind_some,
    if_neg h.not_ascii, h.leadByte_eq]
  dsimp only
  rw [hplace]
  by_cases hshort : rest.length < needed
  · rw [if_pos (by omega), if_neg (by omega)]
  · rw [if_neg (by omega), continuationLoop_eq value _ (by omega), hrest, Option.bind_eq_bind,
      Option.bind_some]
    by_cases hall : (rest.take needed).all isContinuation = true
    · rw [if_pos hall]
      dsimp only
      by_cases hcode : AcceptedCode needed (codePoint start (rest.take needed))
      · rw [if_neg fun hbad => hrefused.mp hbad hcode,
          if_pos ⟨Nat.not_lt.mp hshort, hall, hcode⟩]
      · rw [if_pos (hrefused.mpr hcode), if_neg fun haccepted => hcode haccepted.2.2]
    · rw [if_neg hall, if_neg fun haccepted => hall haccepted.2.1]

/-- The loop finds what the recursion over the bytes that are left finds. -/
theorem utf8Loop_eq (hlength : value.length < 2 ^ 63) (hrounds : value.length < index + rounds)
    (hindex : index ≤ value.length) :
    utf8Loop value rounds index = some (validUtf8 (value.drop index)) := by
  induction rounds generalizing index with
  | zero => omega
  | succ rounds ih =>
    rcases hdrop : value.drop index with _ | ⟨first, rest⟩
    · have hend : value.length ≤ index := List.drop_eq_nil_iff.mp hdrop
      rw [utf8Loop, if_neg (by omega), validUtf8]
    · have hlen : value.length = index + 1 + rest.length := by
        have hcut := congrArg List.length hdrop
        rw [List.length_drop, List.length_cons] at hcut
        omega
      have hread : value[index]? = some first := by
        rw [← List.head?_drop, hdrop]
        rfl
      have hnext {count : ℕ} (hcount : count ≤ rest.length) :
          utf8Loop value rounds (index + 1 + count) = some (validUtf8 (rest.drop count)) := by
        have hrest : value.drop (index + 1 + count) = rest.drop count := by
          rw [← List.drop_drop, ← List.tail_drop, hdrop]
          rfl
        rw [ih (by omega) (by omega), hrest]
      by_cases hascii : first < 0x80
      · rw [utf8Loop, if_pos (by omega), hread, Option.bind_eq_bind, Option.bind_some,
          if_pos hascii, validUtf8_ascii hascii]
        rcases hcontrol : isControl first with _ | _
        · rw [if_neg Bool.false_ne_true]
          exact hnext (Nat.zero_le _)
        · rw [if_pos rfl]
          rfl
      · rcases leads_or_none rest hascii with ⟨needed, start, hleads⟩ | ⟨hnone, hlist⟩
        · rw [utf8Loop_sequence hlength hdrop hleads, validUtf8_sequence hleads]
          by_cases haccepted : needed ≤ rest.length ∧
              (rest.take needed).all isContinuation = true ∧
                AcceptedCode needed (codePoint start (rest.take needed))
          · rw [if_pos haccepted, hnext haccepted.1, haccepted.2.1, decide_eq_true haccepted.1,
              decide_eq_true haccepted.2.2, Bool.true_and, Bool.true_and, Bool.true_and]
          · rw [if_neg haccepted]
            congr 1
            symm
            rw [Bool.and_eq_false_iff]
            left
            rw [← Bool.not_eq_true]
            intro htrue
            simp only [Bool.and_eq_true, decide_eq_true_eq] at htrue
            exact haccepted ⟨htrue.1.1, htrue.1.2, htrue.2⟩
        · rw [utf8Loop, if_pos (by omega), hread, Option.bind_eq_bind, Option.bind_some,
            if_neg hascii, hnone, hlist]

end Rounds

/-- `valid_utf8` reads no byte past the length, and finds what the recursion finds. -/
theorem validUtf8Loop_eq (value : ByteObject) :
    validUtf8Loop value = some (validUtf8 value.bytes) := by
  have hloop := utf8Loop_eq value.length_lt (Nat.lt_add_left 0 (Nat.lt_succ_self _))
    (Nat.zero_le _)
  rw [validUtf8Loop, hloop, List.drop_zero]

/-! ## Well-formed UTF-8 -/

/-- Well-formed UTF-8: the encoding of a text, whose characters are the Unicode scalar values. -/
def WellFormedUtf8 (bytes : List UInt8) : Prop := ∃ text : String, utf8Encode text = bytes

/-- The bytes of a scalar value. -/
def encodeScalar (v : ℕ) : List UInt8 :=
  if v ≤ 0x7F then [UInt8.ofNat v]
  else if v ≤ 0x7FF then [UInt8.ofNat (v / 64 % 0x20 + 0xC0), UInt8.ofNat (v % 0x40 + 0x80)]
  else if v ≤ 0xFFFF then
    [UInt8.ofNat (v / 4096 % 0x10 + 0xE0), UInt8.ofNat (v / 64 % 0x40 + 0x80),
      UInt8.ofNat (v % 0x40 + 0x80)]
  else
    [UInt8.ofNat (v / 262144 % 0x08 + 0xF0), UInt8.ofNat (v / 4096 % 0x40 + 0x80),
      UInt8.ofNat (v / 64 % 0x40 + 0x80), UInt8.ofNat (v % 0x40 + 0x80)]

/-- A character is encoded as its scalar value. -/
theorem utf8EncodeChar_eq (c : Char) : String.utf8EncodeChar c = encodeScalar c.val.toNat := rfl

/-- Each scalar value is that of a character. -/
theorem exists_char {v : ℕ} (h : v < 0xD800 ∨ 0xDFFF < v ∧ v < 0x110000) :
    ∃ c : Char, c.val.toNat = v := by
  have hv : (UInt32.ofNat v).toNat = v := by
    rw [UInt32.toNat_ofNat']
    omega
  have hvalid : (UInt32.ofNat v).isValidChar := by
    rw [UInt32.isValidChar, hv]
    exact h
  exact ⟨⟨UInt32.ofNat v, hvalid⟩, hv⟩

/-- A character's code is a scalar value. -/
theorem scalar_of_char (c : Char) :
    c.val.toNat < 0xD800 ∨ 0xDFFF < c.val.toNat ∧ c.val.toNat < 0x110000 := c.valid

/-- An accepted sequence spells the scalar value whose bytes it is. -/
theorem encodeScalar_codePoint {needed : ℕ} {first start : UInt8} {tail : List UInt8}
    (h : Leads first needed start) (hlength : tail.length = needed)
    (hall : tail.all isContinuation = true) (hcode : AcceptedCode needed (codePoint start tail)) :
    encodeScalar (codePoint start tail) = first :: tail := by
  have hlow := toNat_lowBits first
  unfold AcceptedCode at hcode
  cases h with
  | two h =>
    obtain ⟨a, rfl⟩ := List.length_eq_one_iff.mp hlength
    simp only [List.all_cons, List.all_nil, Bool.and_true, isContinuation_iff] at hall
    have hbyte := (leads_two_iff first).mp h
    have ha := (toNat_lowBits a).1
    obtain ⟨v, hv⟩ : ∃ v, codePoint (first &&& 0x1F) [a] = v := ⟨_, rfl⟩
    have hvalue : v = 64 * (first.toNat % 32) + a.toNat % 64 := by
      rw [← hv, ← ha, ← hlow.2.1]
      rfl
    rw [hv] at hcode ⊢
    have hbytes : UInt8.ofNat (v / 64 % 0x20 + 0xC0) = first ∧
        UInt8.ofNat (v % 0x40 + 0x80) = a := by
      simp only [← UInt8.toNat_inj, UInt8.toNat_ofNat']
      omega
    rw [encodeScalar, if_neg (by omega), if_pos (by omega), hbytes.1, hbytes.2]
  | three h =>
    obtain ⟨a, b, rfl⟩ := List.length_eq_two.mp hlength
    simp only [List.all_cons, List.all_nil, Bool.and_true, Bool.and_eq_true,
      isContinuation_iff] at hall
    have hbyte := (leads_three_iff first).mp h
    have ha := (toNat_lowBits a).1
    have hb := (toNat_lowBits b).1
    obtain ⟨v, hv⟩ : ∃ v, codePoint (first &&& 0x0F) [a, b] = v := ⟨_, rfl⟩
    have hvalue : v = 64 * (64 * (first.toNat % 16) + a.toNat % 64) + b.toNat % 64 := by
      rw [← hv, ← ha, ← hb, ← hlow.2.2.1]
      rfl
    rw [hv] at hcode ⊢
    have hbytes : UInt8.ofNat (v / 4096 % 0x10 + 0xE0) = first ∧
        UInt8.ofNat (v / 64 % 0x40 + 0x80) = a ∧ UInt8.ofNat (v % 0x40 + 0x80) = b := by
      simp only [← UInt8.toNat_inj, UInt8.toNat_ofNat']
      omega
    rw [encodeScalar, if_neg (by omega), if_neg (by omega), if_pos (by omega), hbytes.1,
      hbytes.2.1, hbytes.2.2]
  | four h =>
    obtain ⟨a, b, c, rfl⟩ := List.length_eq_three.mp hlength
    simp only [List.all_cons, List.all_nil, Bool.and_true, Bool.and_eq_true,
      isContinuation_iff] at hall
    have hbyte := (leads_four_iff first).mp h
    have ha := (toNat_lowBits a).1
    have hb := (toNat_lowBits b).1
    have hc := (toNat_lowBits c).1
    obtain ⟨v, hv⟩ : ∃ v, codePoint (first &&& 0x07) [a, b, c] = v := ⟨_, rfl⟩
    have hvalue : v = 64 * (64 * (64 * (first.toNat % 8) + a.toNat % 64) + b.toNat % 64) +
        c.toNat % 64 := by
      rw [← hv, ← ha, ← hb, ← hc, ← hlow.2.2.2]
      rfl
    rw [hv] at hcode ⊢
    have hbytes : UInt8.ofNat (v / 262144 % 0x08 + 0xF0) = first ∧
        UInt8.ofNat (v / 4096 % 0x40 + 0x80) = a ∧ UInt8.ofNat (v / 64 % 0x40 + 0x80) = b ∧
          UInt8.ofNat (v % 0x40 + 0x80) = c := by
      simp only [← UInt8.toNat_inj, UInt8.toNat_ofNat']
      omega
    rw [encodeScalar, if_neg (by omega), if_neg (by omega), if_neg (by omega), hbytes.1,
      hbytes.2.1, hbytes.2.2.1, hbytes.2.2.2]

/-- A byte that continues a sequence with six bits. -/
theorem tailByte (bits : ℕ) :
    isContinuation (UInt8.ofNat (bits % 0x40 + 0x80)) = true ∧
      (UInt8.ofNat (bits % 0x40 + 0x80) &&& 0x3F).toNat = bits % 0x40 := by
  have hbyte : (UInt8.ofNat (bits % 0x40 + 0x80)).toNat = bits % 0x40 + 0x80 := by
    rw [UInt8.toNat_ofNat']
    omega
  rw [isContinuation_iff, (toNat_lowBits _).1, hbyte]
  omega

/-- The bytes of a scalar value above ASCII are an accepted sequence. -/
theorem exists_leads {v : ℕ} (hascii : 0x7F < v) (h : v < 0xD800 ∨ 0xDFFF < v ∧ v < 0x110000) :
    ∃ needed first start tail, Leads first needed start ∧ encodeScalar v = first :: tail ∧
      tail.length = needed ∧ tail.all isContinuation = true ∧
      AcceptedCode needed (codePoint start tail) := by
  by_cases htwo : v ≤ 0x7FF
  · have hfirst : (UInt8.ofNat (v / 64 % 0x20 + 0xC0)).toNat = v / 64 % 0x20 + 0xC0 := by
      rw [UInt8.toNat_ofNat']
      omega
    have hleads := (leads_two_iff (UInt8.ofNat (v / 64 % 0x20 + 0xC0))).mpr (by omega)
    refine ⟨1, _, _, [UInt8.ofNat (v % 0x40 + 0x80)], .two hleads, ?_, rfl, ?_, ?_⟩
    · rw [encodeScalar, if_neg (by omega), if_pos htwo]
    · rw [List.all_cons, (tailByte v).1]
      rfl
    · have hstart := (toNat_lowBits (UInt8.ofNat (v / 64 % 0x20 + 0xC0))).2.1
      simp only [codePoint, List.foldl_cons, List.foldl_nil, (tailByte v).2, hstart, hfirst,
        AcceptedCode]
      omega
  · by_cases hthree : v ≤ 0xFFFF
    · have hfirst : (UInt8.ofNat (v / 4096 % 0x10 + 0xE0)).toNat = v / 4096 % 0x10 + 0xE0 := by
        rw [UInt8.toNat_ofNat']
        omega
      have hleads := (leads_three_iff (UInt8.ofNat (v / 4096 % 0x10 + 0xE0))).mpr (by omega)
      refine ⟨2, _, _, [UInt8.ofNat (v / 64 % 0x40 + 0x80), UInt8.ofNat (v % 0x40 + 0x80)],
        .three hleads, ?_, rfl, ?_, ?_⟩
      · rw [encodeScalar, if_neg (by omega), if_neg htwo, if_pos hthree]
      · rw [List.all_cons, List.all_cons, (tailByte (v / 64)).1, (tailByte v).1]
        rfl
      · have hstart := (toNat_lowBits (UInt8.ofNat (v / 4096 % 0x10 + 0xE0))).2.2.1
        simp only [codePoint, List.foldl_cons, List.foldl_nil, (tailByte v).2,
          (tailByte (v / 64)).2, hstart, hfirst, AcceptedCode]
        omega
    · have hfirst : (UInt8.ofNat (v / 262144 % 0x08 + 0xF0)).toNat = v / 262144 % 0x08 + 0xF0 := by
        rw [UInt8.toNat_ofNat']
        omega
      have hleads := (leads_four_iff (UInt8.ofNat (v / 262144 % 0x08 + 0xF0))).mpr (by omega)
      refine ⟨3, _, _, [UInt8.ofNat (v / 4096 % 0x40 + 0x80), UInt8.ofNat (v / 64 % 0x40 + 0x80),
        UInt8.ofNat (v % 0x40 + 0x80)], .four hleads, ?_, rfl, ?_, ?_⟩
      · rw [encodeScalar, if_neg (by omega), if_neg htwo, if_neg hthree]
      · rw [List.all_cons, List.all_cons, List.all_cons, (tailByte (v / 4096)).1,
          (tailByte (v / 64)).1, (tailByte v).1]
        rfl
      · have hstart := (toNat_lowBits (UInt8.ofNat (v / 262144 % 0x08 + 0xF0))).2.2.2
        simp only [codePoint, List.foldl_cons, List.foldl_nil, (tailByte v).2,
          (tailByte (v / 64)).2, (tailByte (v / 4096)).2, hstart, hfirst, AcceptedCode]
        omega

/-- The encoding of a character is accepted if it is no control byte. -/
theorem validUtf8_encodeChar (c : Char) (rest : List UInt8)
    (h : ∀ byte ∈ String.utf8EncodeChar c, isControl byte = false) :
    validUtf8 (String.utf8EncodeChar c ++ rest) = validUtf8 rest := by
  rw [utf8EncodeChar_eq] at h ⊢
  by_cases hascii : c.val.toNat ≤ 0x7F
  · rw [encodeScalar, if_pos hascii] at h ⊢
    have hbyte : UInt8.ofNat c.val.toNat < 0x80 := by
      rw [lt_ascii_iff, UInt8.toNat_ofNat']
      omega
    rw [List.singleton_append, validUtf8_ascii hbyte, h _ List.mem_cons_self, Bool.not_false,
      Bool.true_and]
  · obtain ⟨needed, first, start, tail, hleads, hencode, hlength, hall, hcode⟩ :=
      exists_leads (Nat.not_le.mp hascii) (scalar_of_char c)
    have hneeded : needed ≤ (tail ++ rest).length := by
      rw [List.length_append]
      omega
    rw [hencode, List.cons_append, validUtf8_sequence hleads, List.take_left' hlength,
      List.drop_left' hlength, hall, decide_eq_true hcode, decide_eq_true hneeded, Bool.true_and,
      Bool.true_and, Bool.true_and]

/-- Accepted bytes are the encoding of a text. -/
theorem wellFormed_of_validUtf8 {bytes : List UInt8} (h : validUtf8 bytes = true) :
    ∃ chars : List Char, chars.flatMap String.utf8EncodeChar = bytes := by
  induction hn : bytes.length using Nat.strong_induction_on generalizing bytes with
  | _ n ih =>
    subst hn
    rcases bytes with _ | ⟨first, rest⟩
    · exact ⟨[], rfl⟩
    · by_cases hascii : first < 0x80
      · rw [validUtf8_ascii hascii, Bool.and_eq_true] at h
        obtain ⟨chars, hchars⟩ := ih rest.length (Nat.lt_succ_self _) h.2 rfl
        rw [lt_ascii_iff] at hascii
        obtain ⟨c, hc⟩ := exists_char (v := first.toNat) (by omega)
        refine ⟨c :: chars, ?_⟩
        rw [List.flatMap_cons, utf8EncodeChar_eq, hc, encodeScalar, if_pos (by omega), hchars,
          UInt8.ofNat_toNat, List.singleton_append]
      · rcases leads_or_none rest hascii with ⟨needed, start, hleads⟩ | ⟨_, hlist⟩
        · rw [validUtf8_sequence hleads] at h
          simp only [Bool.and_eq_true, decide_eq_true_eq] at h
          obtain ⟨⟨⟨hneeded, hall⟩, hcode⟩, hrest⟩ := h
          have hshort : (rest.drop needed).length < (first :: rest).length := by
            rw [List.length_drop, List.length_cons]
            omega
          obtain ⟨chars, hchars⟩ := ih _ hshort hrest rfl
          have hencode := encodeScalar_codePoint hleads (List.length_take_of_le hneeded) hall hcode
          obtain ⟨c, hc⟩ := exists_char (v := codePoint start (rest.take needed)) (by
            unfold AcceptedCode at hcode
            omega)
          refine ⟨c :: chars, ?_⟩
          rw [List.flatMap_cons, utf8EncodeChar_eq, hc, hencode, hchars, List.cons_append,
            List.take_append_drop]
        · rw [hlist] at h
          cases h

/-- The recursion accepts exactly the encodings of texts without control bytes. -/
theorem validUtf8_eq_true_iff (bytes : List UInt8) :
    validUtf8 bytes = true ↔
      WellFormedUtf8 bytes ∧ ∀ byte ∈ bytes, isControl byte = false := by
  constructor
  · intro h
    obtain ⟨chars, hchars⟩ := wellFormed_of_validUtf8 h
    refine ⟨⟨String.ofList chars, ?_⟩, not_isControl_of_validUtf8 h⟩
    rw [utf8Encode, String.toList_ofList, hchars]
  · rintro ⟨⟨text, rfl⟩, hcontrol⟩
    rw [utf8Encode] at hcontrol ⊢
    generalize text.toList = chars at hcontrol ⊢
    induction chars with
    | nil => rfl
    | cons c chars ih =>
      rw [List.flatMap_cons] at hcontrol ⊢
      rw [List.forall_mem_append] at hcontrol
      rw [validUtf8_encodeChar c _ hcontrol.1, ih hcontrol.2]

/-- `valid_utf8` reads no byte past the length, and returns 1 exactly on well-formed UTF-8 without
NUL, line ends, tabs and backslashes. -/
theorem valid_utf8_exact (value : ByteObject) :
    ∃ valid, validUtf8Loop value = some valid ∧
      (valid = true ↔ WellFormedUtf8 value.bytes ∧
        ∀ byte ∈ value.bytes, byte ∉ [0, 10, 13, 9, 92]) := by
  have hcontrol (byte : UInt8) : isControl byte = false ↔ byte ∉ [0, 10, 13, 9, 92] := by
    simp only [isControl, Bool.or_eq_false_iff, beq_eq_false_iff_ne, List.mem_cons,
      List.not_mem_nil, or_false, not_or, and_assoc]
  refine ⟨validUtf8 value.bytes, validUtf8Loop_eq value, ?_⟩
  rw [validUtf8_eq_true_iff]
  simp only [hcontrol]

end Moonfort.AenProvisioner
