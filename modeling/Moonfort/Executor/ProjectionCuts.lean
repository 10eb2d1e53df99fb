import Moonfort.Executor.OutputRetention
import Moonfort.MoonBit.Utf8Cuts

/-!
# Where a projection cuts

The projection of an output is cut at fixed byte counts. A cut in the middle of a
character is moved to its edge, except where it leaves exactly three bytes of a
character of four: a replacement character fits in their place.
-/

namespace Moonfort.Executor

open MoonBit Sandbox

/-! ## Decoding what a cut leaves -/

/-- The character that stands for malformed bytes. -/
def replacement : Char := '\uFFFD'

/-- The size of a text is that of its characters' encodings. -/
theorem utf8Length_ofList (chars : List Char) :
    utf8Length (String.ofList chars) = (encodeChars chars).length := by
  rw [← length_utf8Encode, utf8Encode, String.toList_ofList, encodeChars]

/-- Encoded characters decode to their text. -/
theorem decodeLossy_encodeChars (chars : List Char) :
    decodeLossy (encodeChars chars) = String.ofList chars := by
  have hitems := utf8Items_encodeChars chars []
  rw [List.append_nil, show utf8Items .idle [] = [] from rfl, List.append_nil] at hitems
  rw [decodeLossy, hitems, List.map_map]
  exact congrArg String.ofList (List.map_id chars)

/-- The front of a character becomes one replacement character. -/
theorem decodeLossy_front (before : List Char) {c : Char} {k : ℕ} (hpos : 0 < k)
    (hk : k < c.utf8Size) :
    decodeLossy (encodeChars before ++ (String.utf8EncodeChar c).take k) =
      String.ofList (before ++ [replacement]) := by
  have hfront := (decodesAs_encode c).2 k hpos (by rwa [String.length_utf8EncodeChar])
  rw [decodeLossy, utf8Items_encodeChars, hfront, List.map_append, List.map_map]
  exact congrArg (fun chars => String.ofList (chars ++ [replacement])) (List.map_id before)

/-- The back of a character becomes one replacement character for each byte. -/
theorem decodeLossy_back {tails : List UInt8} (htails : ∀ byte ∈ tails, IsTail byte)
    (after : List Char) :
    decodeLossy (tails ++ encodeChars after) =
      String.ofList (List.replicate tails.length replacement ++ after) := by
  have hitems := utf8Items_encodeChars after []
  rw [List.append_nil, show utf8Items .idle [] = [] from rfl, List.append_nil] at hitems
  rw [decodeLossy, utf8Items_tails htails, hitems, List.map_append, List.map_replicate,
    List.map_map]
  exact congrArg (fun chars => String.ofList (List.replicate tails.length replacement ++ chars))
    (List.map_id after)

/-- A replacement character takes three bytes. -/
theorem length_encodeChars_replacements (n : ℕ) (chars : List Char) :
    (encodeChars (List.replicate n replacement ++ chars)).length =
      3 * n + (encodeChars chars).length := by
  induction n with
  | zero => rw [List.replicate_zero, List.nil_append, Nat.mul_zero, Nat.zero_add]
  | succ n ih =>
    rw [List.replicate_succ, List.cons_append, encodeChars_cons, List.length_append, ih,
      show (String.utf8EncodeChar replacement).length = 3 from rfl]
    omega

/-! ## The front part -/

/-- A cut after exactly three bytes of a character of four. -/
def HeadSplits (output : List Char) (budget : ℤ) : Prop :=
  ∃ before c after, output = before ++ c :: after ∧ c.utf8Size = 4 ∧
    ((encodeChars before).length : ℤ) + 3 = budget

/-- A cut between characters keeps those before it. -/
theorem take_encodeChars (before after : List Char) :
    (encodeChars (before ++ after)).take (encodeChars before).length = encodeChars before := by
  rw [encodeChars_append, List.take_left]

/-- A cut inside a character keeps some of its bytes. -/
theorem take_encodeChars_within (before after : List Char) (c : Char) {k : ℕ}
    (hk : k ≤ c.utf8Size) :
    (encodeChars (before ++ c :: after)).take ((encodeChars before).length + k) =
      encodeChars before ++ (String.utf8EncodeChar c).take k := by
  rw [encodeChars_append, encodeChars_cons, List.take_length_add_append,
    List.take_append_of_le_length (by rwa [String.length_utf8EncodeChar])]

/-- A cut between two characters stays where it is. -/
theorem boundedUtf8PrefixFrom_between (before after : List Char) {maxBytes : ℤ}
    (hfits : ((encodeChars before).length : ℤ) ≤ maxBytes) :
    boundedUtf8PrefixFrom (encodeChars (before ++ after)) maxBytes (encodeChars before).length =
      String.ofList before := by
  cases hlength : (encodeChars before).length with
  | zero =>
    cases before with
    | nil => rfl
    | cons c before =>
      rw [encodeChars_cons, List.length_append, String.length_utf8EncodeChar] at hlength
      have hpos := c.utf8Size_pos
      omega
  | succ n =>
    rw [boundedUtf8PrefixFrom, ← hlength, take_encodeChars, decodeLossy_encodeChars,
      utf8Length_ofList, if_pos hfits]

/-- A cut within a character moves back to its front, as no replacement
character fits. -/
theorem boundedUtf8PrefixFrom_within (before after : List Char) (c : Char) {maxBytes : ℤ}
    (hfits : ((encodeChars before).length : ℤ) ≤ maxBytes)
    (hroom : maxBytes < (encodeChars before).length + 3) {k : ℕ} (hk : k < c.utf8Size) :
    boundedUtf8PrefixFrom (encodeChars (before ++ c :: after)) maxBytes
      ((encodeChars before).length + k) = String.ofList before := by
  induction k with
  | zero => exact boundedUtf8PrefixFrom_between before (c :: after) hfits
  | succ k ih =>
    rw [← Nat.add_assoc, boundedUtf8PrefixFrom, Nat.add_assoc,
      take_encodeChars_within before after c hk.le, decodeLossy_front before k.succ_pos hk]
    have hlong : ¬(utf8Length (String.ofList (before ++ [replacement])) : ℤ) ≤ maxBytes := by
      rw [utf8Length_ofList, encodeChars_append, List.length_append,
        show (encodeChars [replacement]).length = 3 from rfl]
      omega
    rw [if_neg hlong]
    exact ih (Nat.lt_of_succ_lt hk)

/-- The front part ends in a replacement character when its cut splits a character of four bytes. -/
theorem boundedUtf8Prefix_split {before after : List Char} {c : Char} (hsize : c.utf8Size = 4)
    {budget : ℤ} (hbudget : ((encodeChars before).length : ℤ) + 3 = budget) :
    boundedUtf8Prefix (encodeChars (before ++ c :: after)) budget =
      String.ofList (before ++ [replacement]) := by
  have hlength : (encodeChars (before ++ c :: after)).length =
      (encodeChars before).length + (4 + (encodeChars after).length) := by
    rw [encodeChars_append, encodeChars_cons, List.length_append, List.length_append,
      String.length_utf8EncodeChar, hsize]
  have hstop : (min budget (encodeChars (before ++ c :: after)).length).toNat =
      (encodeChars before).length + 2 + 1 := by omega
  have hfits : (utf8Length (String.ofList (before ++ [replacement])) : ℤ) ≤ budget := by
    rw [utf8Length_ofList, encodeChars_append, List.length_append,
      show (encodeChars [replacement]).length = 3 from rfl]
    omega
  rw [boundedUtf8Prefix, hstop, boundedUtf8PrefixFrom, Nat.add_assoc,
    take_encodeChars_within before after c (by omega),
    decodeLossy_front before (by omega) (by omega)]
  exact if_pos hfits

/-- Elsewhere the front part is characters of the output that fit. -/
theorem boundedUtf8Prefix_whole {output : List Char} {budget : ℤ} (hpos : 0 ≤ budget)
    (hbudget : budget ≤ (encodeChars output).length) (hsplits : ¬HeadSplits output budget) :
    ∃ before after, output = before ++ after ∧
      ((encodeChars before).length : ℤ) ≤ budget ∧
      boundedUtf8Prefix (encodeChars output) budget = String.ofList before := by
  obtain ⟨stop, rfl⟩ := Int.eq_ofNat_of_zero_le hpos
  have hstop : (min (stop : ℤ) (encodeChars output).length).toNat = stop := by omega
  rw [boundedUtf8Prefix, hstop]
  obtain ⟨before, after, rfl, hcut⟩ := exists_cut (Int.ofNat_le.mp hbudget)
  rcases hcut with rfl | ⟨c, rest, k, rfl, hk, hsize, rfl⟩
  · exact ⟨before, after, rfl, le_refl _, boundedUtf8PrefixFrom_between before after (le_refl _)⟩
  · have hfour := c.utf8Size_le_four
    have hthree : k ≠ 3 := fun h => hsplits ⟨before, c, rest, rfl, by omega, by omega⟩
    exact ⟨before, c :: rest, rfl, by omega,
      boundedUtf8PrefixFrom_within before rest c (by omega) (by omega) hsize⟩

/-! ## The back part -/

/-- A cut before exactly three bytes of a character of four. -/
def TailSplits (output : List Char) (budget : ℤ) : Prop :=
  ∃ before c after, output = before ++ c :: after ∧ c.utf8Size = 4 ∧
    ((encodeChars after).length : ℤ) + 3 = budget

/-- A candidate that starts in the middle of a character. -/
theorem utf8Length_back {tails : List UInt8} (htails : ∀ byte ∈ tails, IsTail byte)
    (after : List Char) :
    utf8Length (decodeLossy (tails ++ encodeChars after)) =
      3 * tails.length + (encodeChars after).length := by
  rw [decodeLossy_back htails, utf8Length_ofList, length_encodeChars_replacements]

/-- One step of the loop where the candidate does not fit. -/
theorem boundedUtf8SuffixFrom_cons {byte : UInt8} {tails : List UInt8}
    (htails : ∀ b ∈ byte :: tails, IsTail b) (after : List Char) {maxBytes : ℤ}
    (hlong : maxBytes < 3 * (tails.length + 1) + (encodeChars after).length) :
    boundedUtf8SuffixFrom maxBytes (byte :: tails ++ encodeChars after) =
      boundedUtf8SuffixFrom maxBytes (tails ++ encodeChars after) := by
  have hlength := utf8Length_back htails after
  rw [List.length_cons] at hlength
  rw [List.cons_append] at hlength ⊢
  rw [boundedUtf8SuffixFrom]
  exact if_neg (by omega)

/-- A cut within a character moves on to its end, as no replacement character fits. -/
theorem boundedUtf8SuffixFrom_within {tails : List UInt8} (htails : ∀ byte ∈ tails, IsTail byte)
    (after : List Char) {maxBytes : ℤ} (hfits : ((encodeChars after).length : ℤ) ≤ maxBytes)
    (hroom : maxBytes < (encodeChars after).length + 3) :
    boundedUtf8SuffixFrom maxBytes (tails ++ encodeChars after) = String.ofList after := by
  induction tails with
  | nil =>
    rw [List.nil_append]
    cases hbytes : encodeChars after with
    | nil =>
      have hafter := decodeLossy_encodeChars after
      rw [hbytes] at hafter
      exact hafter
    | cons byte rest =>
      rw [boundedUtf8SuffixFrom, ← hbytes, decodeLossy_encodeChars, utf8Length_ofList,
        if_pos hfits]
  | cons byte tails ih =>
    rw [boundedUtf8SuffixFrom_cons htails after (by omega)]
    exact ih fun b hb => htails b (List.mem_cons_of_mem byte hb)

/-- Of three bytes of a character, the last is replaced: a replacement character takes three. -/
theorem boundedUtf8SuffixFrom_three {a b d : UInt8} (htails : ∀ byte ∈ [a, b, d], IsTail byte)
    (after : List Char) {maxBytes : ℤ} (hroom : ((encodeChars after).length : ℤ) + 3 = maxBytes) :
    boundedUtf8SuffixFrom maxBytes ([a, b, d] ++ encodeChars after) =
      String.ofList (replacement :: after) := by
  have htwo : ∀ byte ∈ [b, d], IsTail byte := (List.forall_mem_cons.mp htails).2
  have hone : ∀ byte ∈ [d], IsTail byte := (List.forall_mem_cons.mp htwo).2
  have hlast := decodeLossy_back hone after
  have hlength := utf8Length_back hone after
  rw [boundedUtf8SuffixFrom_cons htails after (by simp only [List.length_cons]; omega),
    boundedUtf8SuffixFrom_cons htwo after (by simp only [List.length_cons]; omega),
    List.cons_append, List.nil_append, boundedUtf8SuffixFrom]
  rw [List.cons_append, List.nil_append] at hlast hlength
  rw [if_pos (by rw [hlength, List.length_singleton]; omega), hlast]
  rfl

/-- What is left of a text from a cut within a character on. -/
theorem drop_encodeChars_within (before after : List Char) (c : Char) {k : ℕ}
    (hk : k ≤ c.utf8Size) :
    (encodeChars (before ++ c :: after)).drop ((encodeChars before).length + k) =
      (String.utf8EncodeChar c).drop k ++ encodeChars after := by
  rw [encodeChars_append, encodeChars_cons, List.drop_length_add_append,
    List.drop_append_of_le_length (by rwa [String.length_utf8EncodeChar])]

/-- The bytes behind a character's first one are continuation bytes. -/
theorem isTail_of_mem_drop {c : Char} {k : ℕ} (hpos : 0 < k) :
    ∀ byte ∈ (String.utf8EncodeChar c).drop k, IsTail byte := by
  intro byte hbyte
  obtain ⟨k, rfl⟩ := Nat.exists_eq_add_of_lt hpos
  rw [Nat.zero_add, ← List.drop_tail] at hbyte
  exact isTail_of_mem_encode (List.mem_of_mem_drop hbyte)

/-- The back part starts with a replacement character when its cut splits a character of four
bytes. -/
theorem boundedUtf8Suffix_split {before after : List Char} {c : Char} (hsize : c.utf8Size = 4)
    {budget : ℤ} (hbudget : ((encodeChars after).length : ℤ) + 3 = budget) :
    boundedUtf8Suffix (encodeChars (before ++ c :: after)) budget =
      String.ofList (replacement :: after) := by
  have hstart : (((encodeChars (before ++ c :: after)).length : ℤ) - budget).toNat =
      (encodeChars before).length + 1 := by
    rw [encodeChars_append, encodeChars_cons, List.length_append, List.length_append,
      String.length_utf8EncodeChar, hsize]
    omega
  have htails := isTail_of_mem_drop (c := c) Nat.one_pos
  have hlength : ((String.utf8EncodeChar c).drop 1).length = 3 := by
    rw [List.length_drop, String.length_utf8EncodeChar, hsize]
  rw [boundedUtf8Suffix, hstart, drop_encodeChars_within before after c (by omega)]
  obtain ⟨a, b, d, hdrop⟩ := List.length_eq_three.mp hlength
  rw [hdrop] at htails ⊢
  exact boundedUtf8SuffixFrom_three htails after hbudget

/-- Elsewhere the back part is characters of the output that fit. -/
theorem boundedUtf8Suffix_whole {output : List Char} {budget : ℤ} (hpos : 0 ≤ budget)
    (hbudget : budget ≤ (encodeChars output).length) (hsplits : ¬TailSplits output budget) :
    ∃ before after, output = before ++ after ∧
      ((encodeChars after).length : ℤ) ≤ budget ∧
      boundedUtf8Suffix (encodeChars output) budget = String.ofList after := by
  obtain ⟨start, hstart⟩ : ∃ start : ℕ, ((encodeChars output).length : ℤ) - budget = start :=
    Int.eq_ofNat_of_zero_le (by omega)
  rw [boundedUtf8Suffix, hstart, Int.toNat_natCast]
  have hwithin : start ≤ (encodeChars output).length := by omega
  obtain ⟨before, after, rfl, hcut⟩ := exists_cut hwithin
  rw [encodeChars_append, List.length_append] at hstart
  rcases hcut with rfl | ⟨c, rest, k, rfl, hk, hsize, rfl⟩
  · have hafter : ((encodeChars after).length : ℤ) = budget := by omega
    refine ⟨before, after, rfl, hafter.le, ?_⟩
    rw [encodeChars_append, List.drop_left]
    exact boundedUtf8SuffixFrom_within (List.forall_mem_nil IsTail) after hafter.le (by omega)
  · rw [encodeChars_cons, List.length_append, String.length_utf8EncodeChar] at hstart
    have hfour := c.utf8Size_le_four
    have hthree : c.utf8Size - k ≠ 3 := fun h =>
      hsplits ⟨before, c, rest, rfl, by omega, by omega⟩
    refine ⟨before ++ [c], rest, by rw [List.append_assoc, List.singleton_append], by omega, ?_⟩
    rw [drop_encodeChars_within before rest c hsize.le]
    exact boundedUtf8SuffixFrom_within (isTail_of_mem_drop hk) rest (by omega) (by omega)

/-! ## The projection -/

/-- The bytes that the marker takes. -/
def markerLength : ℤ := (utf8Encode projectionMarker).length

/-- The bytes that the part before the marker may take; all of them when there is no marker. -/
def headBudget (maxBytes : ℤ) : ℤ :=
  if maxBytes ≤ markerLength then maxBytes else (maxBytes - markerLength) / 2

/-- The bytes that the part after the marker may take. -/
def tailBudget (maxBytes : ℤ) : ℤ :=
  if maxBytes ≤ markerLength then 0 else maxBytes - markerLength - (maxBytes - markerLength) / 2

/-- The part of a projection before the marker. -/
def projectionHead (output : String) (maxBytes : ℤ) : String :=
  boundedUtf8Prefix (utf8Encode output) (headBudget maxBytes)

/-- The part of a projection after the marker. -/
def projectionTail (output : String) (maxBytes : ℤ) : String :=
  boundedUtf8Suffix (utf8Encode output) (tailBudget maxBytes)

/-- The marker, where there is room for it. -/
def shownMarker (maxBytes : ℤ) : String := if maxBytes ≤ markerLength then "" else projectionMarker

/-- An output that does not fit is shown in two parts. -/
theorem modelOutputProjection_of_long {output : String} {maxBytes : ℤ}
    (hlong : maxBytes < utf8Length output) :
    modelOutputProjection output maxBytes =
      projectionHead output maxBytes ++ shownMarker maxBytes ++ projectionTail output maxBytes := by
  have hmarker : decodeLossy (utf8Encode projectionMarker) = projectionMarker :=
    (decodeLossy_encodeChars projectionMarker.toList).trans String.ofList_toList
  unfold modelOutputProjection projectionHead projectionTail headBudget tailBudget shownMarker
  dsimp only
  rw [length_utf8Encode, if_neg (Int.not_le.mpr hlong)]
  by_cases hroom : maxBytes ≤ markerLength
  · have hnone : boundedUtf8Suffix (utf8Encode output) 0 = "" := by
      have hdrop : (utf8Encode output).drop (((utf8Encode output).length : ℤ) - 0).toNat = [] :=
        List.drop_eq_nil_of_le (by omega)
      rw [boundedUtf8Suffix, hdrop, boundedUtf8SuffixFrom]
    rw [if_pos hroom, if_pos hroom, if_pos hroom, hnone, String.append_empty, String.append_empty]
    exact if_pos hroom
  · rw [if_neg hroom, if_neg hroom, if_neg hroom, hmarker]
    exact if_neg hroom

/-- What a projection should be: within its bound, the output itself when that
fits, and otherwise a front and a back of the output that do not overlap. -/
structure ProjectionGenuine (output : String) (maxBytes : ℤ) : Prop where
  bounded : (utf8Length (modelOutputProjection output maxBytes) : ℤ) ≤ maxBytes
  unchanged : (utf8Length output : ℤ) ≤ maxBytes → modelOutputProjection output maxBytes = output
  truncated : maxBytes < utf8Length output →
    modelOutputProjection output maxBytes =
        projectionHead output maxBytes ++ shownMarker maxBytes ++
          projectionTail output maxBytes ∧
      ∃ omitted, output =
        projectionHead output maxBytes ++ omitted ++ projectionTail output maxBytes

/-- A cut of the projection leaves exactly three bytes of a character of four. -/
def SplitsFour (output : String) (maxBytes : ℤ) : Prop :=
  HeadSplits output.toList (headBudget maxBytes) ∨ TailSplits output.toList (tailBudget maxBytes)

/-- A replacement character stands where the output has none. -/
theorem not_truncated_of_splitsFour {output : String} {maxBytes : ℤ}
    (hsplits : SplitsFour output maxBytes) :
    ¬∃ omitted, output =
      projectionHead output maxBytes ++ omitted ++ projectionTail output maxBytes := by
  rintro ⟨omitted, heq⟩
  have hchars := congrArg String.toList heq
  rw [String.toList_append, String.toList_append] at hchars
  have hreplaced {c : Char} (hsize : c.utf8Size = 4) (hc : c = replacement) : False :=
    absurd (hc ▸ hsize) (by decide)
  rcases hsplits with ⟨before, c, after, houtput, hsize, hbudget⟩ |
    ⟨before, c, after, houtput, hsize, hbudget⟩
  · have hhead : projectionHead output maxBytes = String.ofList (before ++ [replacement]) := by
      rw [projectionHead, utf8Encode, houtput]
      exact boundedUtf8Prefix_split hsize hbudget
    rw [hhead, houtput, String.toList_ofList, List.append_assoc, List.append_assoc] at hchars
    exact hreplaced hsize (List.cons.inj (List.append_cancel_left hchars)).1
  · have htail : projectionTail output maxBytes = String.ofList (replacement :: after) := by
      rw [projectionTail, utf8Encode, houtput]
      exact boundedUtf8Suffix_split hsize hbudget
    rw [htail, houtput, String.toList_ofList] at hchars
    exact hreplaced hsize (List.cons.inj (List.append_inj_right' hchars rfl)).1

/-- Elsewhere the two parts are a front and a back of the output. -/
theorem truncated_of_not_splitsFour {output : String} {maxBytes : ℤ} (hmax : 0 ≤ maxBytes)
    (hlong : maxBytes < utf8Length output) (hsplits : ¬SplitsFour output maxBytes) :
    ∃ omitted, output =
      projectionHead output maxBytes ++ omitted ++ projectionTail output maxBytes := by
  obtain ⟨hheadSplits, htailSplits⟩ := not_or.mp hsplits
  have hlength : (encodeChars output.toList).length = utf8Length output := length_utf8Encode output
  have hbudgets : 0 ≤ headBudget maxBytes ∧ 0 ≤ tailBudget maxBytes ∧
      headBudget maxBytes + tailBudget maxBytes ≤ maxBytes := by
    unfold headBudget tailBudget
    have hmarker : 0 ≤ markerLength := Int.natCast_nonneg _
    split <;> omega
  obtain ⟨front, rest, hfront, hfits, hhead⟩ :=
    boundedUtf8Prefix_whole hbudgets.1 (by omega) hheadSplits
  obtain ⟨start, back, hback, hfits', htail⟩ :=
    boundedUtf8Suffix_whole hbudgets.2.1 (by omega) htailSplits
  have htotal : (encodeChars start).length + (encodeChars back).length = utf8Length output := by
    rw [← hlength, hback, encodeChars_append, List.length_append]
  rcases List.append_eq_append_iff.mp (hfront.symm.trans hback) with
    ⟨middle, hstart, hrest⟩ | ⟨middle, hstart, -⟩
  · refine ⟨String.ofList middle, ?_⟩
    rw [projectionHead, projectionTail, utf8Encode, ← encodeChars, hhead, htail,
      ← String.ofList_append, ← String.ofList_append, ← hstart, ← hback, String.ofList_toList]
  · rw [hstart, encodeChars_append, List.length_append] at hfits
    omega

/-- A projection is within its bound and shows only what the output has, unless it
is cut so that exactly three bytes of a character of four are left. -/
theorem projection_genuine_iff (output : String) (maxBytes : ℤ) (hmax : 0 ≤ maxBytes) :
    ProjectionGenuine output maxBytes ↔
      (maxBytes < utf8Length output → ¬SplitsFour output maxBytes) := by
  constructor
  · intro hgenuine hlong hsplits
    exact not_truncated_of_splitsFour hsplits (hgenuine.truncated hlong).2
  · intro hsplits
    exact
      { bounded := utf8Length_modelOutputProjection output hmax
        unchanged := fun hfits => if_pos (by rwa [length_utf8Encode])
        truncated := fun hlong => ⟨modelOutputProjection_of_long hlong,
          truncated_of_not_splitsFour hmax hlong (hsplits hlong)⟩ }

/-- ASCII letters, of which the limit keeps five. -/
theorem projection_genuine_plain : ProjectionGenuine "abcdef" 5 ↔
    ((5 : ℤ) < utf8Length "abcdef" → ¬SplitsFour "abcdef" 5) :=
  projection_genuine_iff "abcdef" 5 (by decide)

/-- Twenty moons. -/
def sampleMoons : String := String.ofList (List.replicate 20 '🌙')

/-- Moons cut inside a character show one that the output lacks. -/
theorem projection_genuine_moons :
    ¬∀ (output : String) (maxBytes : ℤ), 0 ≤ maxBytes → ProjectionGenuine output maxBytes := by
  intro h
  have hmoon : '🌙'.utf8Size = 4 := rfl
  have hsplits : SplitsFour sampleMoons 50 :=
    .inl ⟨[], '🌙', List.replicate 19 '🌙', by decide, hmoon, by decide⟩
  exact not_truncated_of_splitsFour hsplits
    ((h sampleMoons 50 (by decide)).truncated (by decide)).2

end Moonfort.Executor
