import Moonfort.MoonBit.Crypto

/-!
# Cutting UTF-8

What a decoder reads from the encoding of a text that was cut in the middle of a
character: one malformed sequence for the front of the character, and one for
each byte of its back.
-/

namespace Moonfort.MoonBit

/-- The bytes that can only continue a character. -/
def IsTail (byte : UInt8) : Prop := 0x80 ≤ byte.toNat ∧ byte.toNat ≤ 0xBF

/-- The tests of `utf8Lead` on the number of a byte. -/
theorem utf8Lead_eq (byte : UInt8) :
    utf8Lead byte =
      if byte.toNat ≤ 0x7F then ([some (Char.ofNat byte.toNat)], .idle)
      else if 0xC2 ≤ byte.toNat ∧ byte.toNat ≤ 0xDF then ([], ⟨1, 0x80, 0xBF, byte.toNat % 32⟩)
      else if byte.toNat = 0xE0 then ([], ⟨2, 0xA0, 0xBF, 0⟩)
      else if byte.toNat = 0xED then ([], ⟨2, 0x80, 0x9F, byte.toNat % 16⟩)
      else if 0xE1 ≤ byte.toNat ∧ byte.toNat ≤ 0xEF then ([], ⟨2, 0x80, 0xBF, byte.toNat % 16⟩)
      else if byte.toNat = 0xF0 then ([], ⟨3, 0x90, 0xBF, 0⟩)
      else if 0xF1 ≤ byte.toNat ∧ byte.toNat ≤ 0xF3 then ([], ⟨3, 0x80, 0xBF, byte.toNat % 8⟩)
      else if byte.toNat = 0xF4 then ([], ⟨3, 0x80, 0x8F, byte.toNat % 8⟩)
      else ([none], .idle) := by
  simp only [utf8Lead, UInt8.le_iff_toNat_le, ← UInt8.toNat_inj]
  rfl

/-- An ASCII byte is a character of its own. -/
theorem utf8Lead_one {byte : UInt8} (h : byte.toNat ≤ 0x7F) :
    utf8Lead byte = ([some (Char.ofNat byte.toNat)], .idle) := by
  rw [utf8Lead_eq, if_pos h]

variable {lower upper : UInt8}

/-- A byte in the middle of a character. -/
theorem utf8Feed_next (needed value : ℕ) {byte : UInt8}
    (hlower : lower.toNat ≤ byte.toNat) (hupper : byte.toNat ≤ upper.toNat) :
    utf8Feed ⟨needed + 2, lower, upper, value⟩ byte =
      ([], ⟨needed + 1, 0x80, 0xBF, 64 * value + byte.toNat % 64⟩) := by
  simp only [utf8Feed, UInt8.le_iff_toNat_le, hlower, hupper]
  rfl

/-- The last byte of a character. -/
theorem utf8Feed_last (value : ℕ) {byte : UInt8}
    (hlower : lower.toNat ≤ byte.toNat) (hupper : byte.toNat ≤ upper.toNat) :
    utf8Feed ⟨1, lower, upper, value⟩ byte =
      ([some (Char.ofNat (64 * value + byte.toNat % 64))], .idle) := by
  simp only [utf8Feed, UInt8.le_iff_toNat_le, hlower, hupper]
  rfl

/-- A byte that can only continue a character does not start one. -/
theorem utf8Items_tail {byte : UInt8} (h : IsTail byte) (rest : List UInt8) :
    utf8Items .idle (byte :: rest) = none :: utf8Items .idle rest := by
  obtain ⟨hlow, hhigh⟩ := h
  have hlead : utf8Lead byte = ([none], .idle) := by
    rw [utf8Lead_eq]
    grind
  rw [utf8Items, show utf8Feed .idle byte = utf8Lead byte from rfl, hlead]
  rfl

/-- The number of the byte that continues a character with six bits. -/
theorem toNat_tail (bits : ℕ) : (UInt8.ofNat (bits % 0x40 + 0x80)).toNat = bits % 0x40 + 0x80 := by
  rw [UInt8.toNat_ofNat']
  omega

/-- Six bits with the mark are a continuation byte. -/
theorem isTail_ofNat (bits : ℕ) : IsTail (UInt8.ofNat (bits % 0x40 + 0x80)) := by
  unfold IsTail
  rw [toNat_tail]
  omega

/-- All bytes of a character but the first can only continue it. -/
theorem isTail_of_mem_encode {c : Char} {byte : UInt8}
    (h : byte ∈ (String.utf8EncodeChar c).tail) : IsTail byte := by
  unfold String.utf8EncodeChar at h
  dsimp only at h
  split_ifs at h
  · cases h
  · rw [List.tail_cons, List.mem_singleton] at h
    exact h ▸ isTail_ofNat _
  · simp only [List.tail_cons, List.mem_cons, List.not_mem_nil, or_false] at h
    rcases h with rfl | rfl <;> exact isTail_ofNat _
  · simp only [List.tail_cons, List.mem_cons, List.not_mem_nil, or_false] at h
    rcases h with rfl | rfl | rfl <;> exact isTail_ofNat _

/-- The first of three bytes opens a sequence that the second byte continues. -/
theorem utf8Lead_three {v : ℕ} (hlow : 0x7FF < v) (hhigh : v ≤ 0xFFFF)
    (hvalid : v < 0xD800 ∨ 0xDFFF < v) :
    ∃ lower upper, utf8Lead (UInt8.ofNat (v / 4096 % 0x10 + 0xE0)) =
        ([], ⟨2, lower, upper, v / 4096⟩) ∧
      lower.toNat ≤ v / 64 % 0x40 + 0x80 ∧ v / 64 % 0x40 + 0x80 ≤ upper.toNat := by
  have hbyte : (UInt8.ofNat (v / 4096 % 0x10 + 0xE0)).toNat = v / 4096 + 0xE0 := by
    rw [UInt8.toNat_ofNat']
    omega
  rw [utf8Lead_eq, hbyte]
  have hvalue : (v / 4096 + 0xE0) % 16 = v / 4096 := by omega
  rw [hvalue, if_neg (by omega), if_neg (by omega)]
  by_cases hfirst : v / 4096 = 0
  · refine ⟨0xA0, 0xBF, by rw [if_pos (by omega), hfirst], ?_, ?_⟩
    · change 0xA0 ≤ _
      omega
    · change _ ≤ 0xBF
      omega
  · rw [if_neg (by omega)]
    by_cases hsurrogate : v / 4096 = 0xD
    · refine ⟨0x80, 0x9F, if_pos (by omega), ?_, ?_⟩
      · change 0x80 ≤ _
        omega
      · change _ ≤ 0x9F
        omega
    · refine ⟨0x80, 0xBF, by rw [if_neg (by omega), if_pos (by omega)], ?_, ?_⟩
      · change 0x80 ≤ _
        omega
      · change _ ≤ 0xBF
        omega

/-- The first of four bytes opens a sequence that the second byte continues. -/
theorem utf8Lead_four {v : ℕ} (hlow : 0xFFFF < v) (hhigh : v < 0x110000) :
    ∃ lower upper, utf8Lead (UInt8.ofNat (v / 262144 % 0x08 + 0xF0)) =
        ([], ⟨3, lower, upper, v / 262144⟩) ∧
      lower.toNat ≤ v / 4096 % 0x40 + 0x80 ∧ v / 4096 % 0x40 + 0x80 ≤ upper.toNat := by
  have hbyte : (UInt8.ofNat (v / 262144 % 0x08 + 0xF0)).toNat = v / 262144 + 0xF0 := by
    rw [UInt8.toNat_ofNat']
    omega
  rw [utf8Lead_eq, hbyte]
  have hvalue : (v / 262144 + 0xF0) % 8 = v / 262144 := by omega
  rw [hvalue, if_neg (by omega), if_neg (by omega), if_neg (by omega), if_neg (by omega),
    if_neg (by omega)]
  by_cases hfirst : v / 262144 = 0
  · refine ⟨0x90, 0xBF, by rw [if_pos (by omega), hfirst], ?_, ?_⟩
    · change 0x90 ≤ _
      omega
    · change _ ≤ 0xBF
      omega
  · rw [if_neg (by omega)]
    by_cases hlast : v / 262144 = 4
    · refine ⟨0x80, 0x8F, by rw [if_neg (by omega), if_pos (by omega)], ?_, ?_⟩
      · change 0x80 ≤ _
        omega
      · change _ ≤ 0x8F
        omega
    · refine ⟨0x80, 0xBF, if_pos (by omega), ?_, ?_⟩
      · change 0x80 ≤ _
        omega
      · change _ ≤ 0xBF
        omega

/-- Decoding feeds the first byte and goes on with the others. -/
theorem utf8Items_cons {s t : Utf8State} {byte : UInt8} {items : List (Option Char)}
    (h : utf8Feed s byte = (items, t)) (rest : List UInt8) :
    utf8Items s (byte :: rest) = items ++ utf8Items t rest := by
  rw [utf8Items, h]

/-- An open sequence at the end is malformed. -/
theorem utf8Items_open (needed : ℕ) (lower upper : UInt8) (value : ℕ) :
    utf8Items ⟨needed + 1, lower, upper, value⟩ [] = [none] := rfl

/-- A character decodes to itself, and a front of it to one malformed sequence. -/
def DecodesAs (bytes : List UInt8) (c : Char) : Prop :=
  (∀ rest, utf8Items .idle (bytes ++ rest) = some c :: utf8Items .idle rest) ∧
    ∀ k, 0 < k → k < bytes.length → utf8Items .idle (bytes.take k) = [none]

/-- A two-byte sequence decodes as its character. -/
theorem decodesAs_two {a b : UInt8} {value : ℕ} {c : Char}
    (hlead : utf8Lead a = ([], ⟨1, lower, upper, value⟩)) (hlower : lower.toNat ≤ b.toNat)
    (hupper : b.toNat ≤ upper.toNat) (hc : Char.ofNat (64 * value + b.toNat % 64) = c) :
    DecodesAs [a, b] c := by
  have hfirst : utf8Feed .idle a = ([], ⟨1, lower, upper, value⟩) := hlead
  refine ⟨fun rest => ?_, fun k hpos hk => ?_⟩
  · rw [List.cons_append, List.cons_append, List.nil_append, utf8Items_cons hfirst,
      utf8Items_cons (utf8Feed_last value hlower hupper), hc]
    rfl
  · obtain rfl : k = 1 := Nat.le_antisymm (Nat.le_of_lt_succ hk) hpos
    rw [List.take_succ_cons, List.take_zero, utf8Items_cons hfirst, utf8Items_open]
    rfl

/-- A three-byte sequence decodes as its character. -/
theorem decodesAs_three {a b d : UInt8} {value : ℕ} {c : Char}
    (hlead : utf8Lead a = ([], ⟨2, lower, upper, value⟩)) (hlower : lower.toNat ≤ b.toNat)
    (hupper : b.toNat ≤ upper.toNat) (hd : IsTail d)
    (hc : Char.ofNat (64 * (64 * value + b.toNat % 64) + d.toNat % 64) = c) :
    DecodesAs [a, b, d] c := by
  have hfirst : utf8Feed .idle a = ([], ⟨2, lower, upper, value⟩) := hlead
  have hsecond := utf8Feed_next 0 value hlower hupper
  have hlast : utf8Feed ⟨1, 0x80, 0xBF, 64 * value + b.toNat % 64⟩ d = _ :=
    utf8Feed_last (64 * value + b.toNat % 64) hd.1 hd.2
  refine ⟨fun rest => ?_, fun k hpos hk => ?_⟩
  · rw [List.cons_append, List.cons_append, List.cons_append, List.nil_append,
      utf8Items_cons hfirst, utf8Items_cons hsecond, utf8Items_cons hlast, hc]
    rfl
  · have hk' : k = 1 ∨ k = 2 := by
      rw [List.length_cons, List.length_cons, List.length_cons, List.length_nil] at hk
      omega
    rcases hk' with rfl | rfl
    · exact utf8Items_cons hfirst []
    · rw [List.take_succ_cons, List.take_succ_cons, List.take_zero, utf8Items_cons hfirst,
        utf8Items_cons hsecond, utf8Items_open]
      rfl

/-- A four-byte sequence decodes as its character. -/
theorem decodesAs_four {a b d e : UInt8} {value : ℕ} {c : Char}
    (hlead : utf8Lead a = ([], ⟨3, lower, upper, value⟩)) (hlower : lower.toNat ≤ b.toNat)
    (hupper : b.toNat ≤ upper.toNat) (hd : IsTail d) (he : IsTail e)
    (hc : Char.ofNat (64 * (64 * (64 * value + b.toNat % 64) + d.toNat % 64) + e.toNat % 64) =
      c) :
    DecodesAs [a, b, d, e] c := by
  have hfirst : utf8Feed .idle a = ([], ⟨3, lower, upper, value⟩) := hlead
  have hsecond := utf8Feed_next 1 value hlower hupper
  have hthird : utf8Feed ⟨2, 0x80, 0xBF, 64 * value + b.toNat % 64⟩ d = _ :=
    utf8Feed_next 0 (64 * value + b.toNat % 64) hd.1 hd.2
  have hlast : utf8Feed ⟨1, 0x80, 0xBF, 64 * (64 * value + b.toNat % 64) + d.toNat % 64⟩ e = _ :=
    utf8Feed_last (64 * (64 * value + b.toNat % 64) + d.toNat % 64) he.1 he.2
  refine ⟨fun rest => ?_, fun k hpos hk => ?_⟩
  · rw [List.cons_append, List.cons_append, List.cons_append, List.cons_append, List.nil_append,
      utf8Items_cons hfirst, utf8Items_cons hsecond, utf8Items_cons hthird,
      utf8Items_cons hlast, hc]
    rfl
  · have hk' : k = 1 ∨ k = 2 ∨ k = 3 := by
      rw [List.length_cons, List.length_cons, List.length_cons, List.length_cons,
        List.length_nil] at hk
      omega
    rcases hk' with rfl | rfl | rfl
    · exact utf8Items_cons hfirst []
    · rw [List.take_succ_cons, List.take_succ_cons, List.take_zero, utf8Items_cons hfirst,
        utf8Items_cons hsecond, utf8Items_open]
      rfl
    · rw [List.take_succ_cons, List.take_succ_cons, List.take_succ_cons, List.take_zero,
        utf8Items_cons hfirst, utf8Items_cons hsecond, utf8Items_cons hthird, utf8Items_open]
      rfl

/-- The reader answers a character for its encoding, and one malformed sequence
for a front of it. -/
theorem decodesAs_encode (c : Char) : DecodesAs (String.utf8EncodeChar c) c := by
  have hvalid : c.val.toNat < 0xD800 ∨ 0xDFFF < c.val.toNat ∧ c.val.toNat < 0x110000 := c.valid
  have hchar (v : ℕ) (h : v = c.val.toNat) : Char.ofNat v = c := by
    rw [h]
    exact Char.ofNat_toNat c
  unfold String.utf8EncodeChar
  dsimp only
  split_ifs with hone htwo hthree
  · have hbyte : (UInt8.ofNat c.val.toNat).toNat = c.val.toNat := by
      rw [UInt8.toNat_ofNat']
      omega
    have hlead : utf8Feed .idle (UInt8.ofNat c.val.toNat) =
        ([some (Char.ofNat (UInt8.ofNat c.val.toNat).toNat)], .idle) := utf8Lead_one (by omega)
    rw [hbyte, hchar _ rfl] at hlead
    refine ⟨fun rest => utf8Items_cons hlead rest, fun k hpos hk => ?_⟩
    exact absurd hk (Nat.not_lt.mpr hpos)
  · have hbyte : (UInt8.ofNat (c.val.toNat / 64 % 0x20 + 0xC0)).toNat =
        c.val.toNat / 64 + 0xC0 := by
      rw [UInt8.toNat_ofNat']
      omega
    have hvalue : (c.val.toNat / 64 + 0xC0) % 32 = c.val.toNat / 64 := by omega
    have hlead : utf8Lead (UInt8.ofNat (c.val.toNat / 64 % 0x20 + 0xC0)) =
        ([], ⟨1, 0x80, 0xBF, c.val.toNat / 64⟩) := by
      rw [utf8Lead_eq, hbyte, hvalue, if_neg (by omega), if_pos (by omega)]
    refine decodesAs_two hlead (isTail_ofNat _).1 (isTail_ofNat _).2 (hchar _ ?_)
    rw [toNat_tail]
    omega
  · obtain ⟨lower, upper, hlead, hlower, hupper⟩ := utf8Lead_three (v := c.val.toNat) (by omega)
      hthree (hvalid.imp_right And.left)
    rw [← toNat_tail] at hlower hupper
    refine decodesAs_three hlead hlower hupper (isTail_ofNat _) (hchar _ ?_)
    rw [toNat_tail, toNat_tail]
    omega
  · obtain ⟨lower, upper, hlead, hlower, hupper⟩ := utf8Lead_four (v := c.val.toNat) (by omega)
      (by omega)
    rw [← toNat_tail] at hlower hupper
    refine decodesAs_four hlead hlower hupper (isTail_ofNat _) (isTail_ofNat _) (hchar _ ?_)
    rw [toNat_tail, toNat_tail, toNat_tail]
    omega

/-! ## Cut texts -/

/-- The UTF-8 bytes of some characters. -/
def encodeChars (chars : List Char) : List UInt8 := chars.flatMap String.utf8EncodeChar

/-- The encoding of two lists is that of both. -/
theorem encodeChars_append (a b : List Char) :
    encodeChars (a ++ b) = encodeChars a ++ encodeChars b := List.flatMap_append

/-- The encoding of characters starts with that of the first. -/
theorem encodeChars_cons (c : Char) (chars : List Char) :
    encodeChars (c :: chars) = String.utf8EncodeChar c ++ encodeChars chars := List.flatMap_cons

/-- The characters of a text are read back, whatever follows. -/
theorem utf8Items_encodeChars (chars : List Char) (rest : List UInt8) :
    utf8Items .idle (encodeChars chars ++ rest) = chars.map some ++ utf8Items .idle rest := by
  induction chars with
  | nil => rfl
  | cons c chars ih =>
    rw [encodeChars_cons, List.append_assoc, (decodesAs_encode c).1, ih, List.map_cons,
      List.cons_append]

/-- Encoded text decodes to its characters. -/
theorem mapM_utf8Items_utf8Encode (s : String) :
    (utf8Items .idle (utf8Encode s)).mapM id = some s.toList := by
  have hitems := utf8Items_encodeChars s.toList []
  rw [List.append_nil, show utf8Items .idle [] = [] from rfl, List.append_nil] at hitems
  rw [utf8Encode, ← encodeChars, hitems, List.mapM_map]
  exact List.mapM_pure.trans (congrArg some (List.map_id s.toList))

/-- An encoded text decodes to itself. -/
theorem utf8Decode_utf8Encode (s : String) (h : (utf8Encode s).length < 2 ^ 31) :
    utf8Decode ⟨utf8Encode s, h⟩ = some s := by
  rw [utf8Decode, mapM_utf8Items_utf8Encode, Option.map_some, String.ofList_toList]

/-- The bytes at the back of a character are malformed one by one. -/
theorem utf8Items_tails {tails : List UInt8} (h : ∀ byte ∈ tails, IsTail byte)
    (rest : List UInt8) :
    utf8Items .idle (tails ++ rest) = List.replicate tails.length none ++ utf8Items .idle rest := by
  induction tails with
  | nil => rfl
  | cons byte tails ih =>
    rw [List.forall_mem_cons] at h
    rw [List.cons_append, utf8Items_tail h.1, ih h.2, List.length_cons, List.replicate_succ,
      List.cons_append]

/-- A cut in the bytes of a text is between two characters or within one. -/
theorem exists_cut {chars : List Char} {n : ℕ} (hn : n ≤ (encodeChars chars).length) :
    ∃ before after, chars = before ++ after ∧
      ((encodeChars before).length = n ∨
        ∃ c rest k, after = c :: rest ∧ 0 < k ∧ k < c.utf8Size ∧
          (encodeChars before).length + k = n) := by
  induction chars generalizing n with
  | nil => exact ⟨[], [], rfl, .inl (Nat.le_zero.mp hn).symm⟩
  | cons c chars ih =>
    rw [encodeChars_cons, List.length_append, String.length_utf8EncodeChar] at hn
    by_cases hsize : c.utf8Size ≤ n
    · obtain ⟨before, after, rfl, hcut⟩ := ih (n := n - c.utf8Size) (by omega)
      refine ⟨c :: before, after, rfl, ?_⟩
      rw [encodeChars_cons, List.length_append, String.length_utf8EncodeChar]
      rcases hcut with hcut | ⟨d, rest, k, hafter, hpos, hk, hcut⟩
      · exact .inl (by omega)
      · exact .inr ⟨d, rest, k, hafter, hpos, hk, by omega⟩
    · refine ⟨[], c :: chars, rfl, ?_⟩
      by_cases hzero : n = 0
      · exact .inl hzero.symm
      · exact .inr ⟨c, chars, n, rfl, by omega, by omega, Nat.zero_add n⟩

end Moonfort.MoonBit
