import Mathlib.Data.List.Basic
import Mathlib.Data.UInt

/-!
# Reading ustar archives

A reader of ustar archives: headers of 512 bytes with octal numbers and a checksum,
contents padded to whole blocks, and two blocks of zeros at the end.
-/

namespace Moonfort.Ustar

/-- Bytes of zero. -/
def zeros (n : ℕ) : List UInt8 := List.replicate n 0

/-- Zeros have their number. -/
@[simp]
theorem length_zeros (n : ℕ) : (zeros n).length = n := List.length_replicate

/-- What fills a content up to a whole block. -/
def padding (size : ℕ) : ℕ := (512 - size % 512) % 512

/-! ## The reader -/

/-- The kinds of members. -/
inductive Kind where
  | regular
  | directory
  deriving DecidableEq

/-- A member of an archive. -/
structure Entry where
  path : List UInt8
  kind : Kind
  size : ℕ
  content : List UInt8
  deriving DecidableEq

/-- The widths of the fields of a header: name, mode, owner, group, size, time, checksum,
kind, link, magic, version, the two names, the two device numbers, prefix and filler. -/
def widths : List ℕ := [100, 8, 8, 8, 12, 12, 8, 1, 100, 6, 2, 32, 32, 8, 8, 155, 12]

/-- Bytes in parts of these lengths. -/
def splitWidths : List ℕ → List UInt8 → List (List UInt8)
  | [], _ => []
  | width :: rest, bytes => bytes.take width :: splitWidths rest (bytes.drop width)

/-- A text that ends at its first NUL, if it has one. -/
def readText (field : List UInt8) : List UInt8 := field.takeWhile (· != 0)

/-- An octal digit. -/
def isOctalDigit (byte : UInt8) : Bool := 48 ≤ byte && byte ≤ 55

/-- The number of octal digits, the most significant first. -/
def octalValue (digits : List UInt8) : ℕ :=
  digits.foldl (fun value digit => 8 * value + (digit.toNat - 48)) 0

/-- An octal number that ends at a NUL, a space or the end of its field. -/
def readOctal (field : List UInt8) : Option ℕ :=
  match field.takeWhile isOctalDigit, field.dropWhile isOctalDigit with
  | [], _ => none
  | digits, [] => some (octalValue digits)
  | digits, last :: _ => if last = 0 ∨ last = 32 then some (octalValue digits) else none

/-- The sum of bytes. -/
def byteSum (bytes : List UInt8) : ℕ := (bytes.map UInt8.toNat).sum

/-- The kind of a member. -/
def readKind (field : List UInt8) : Option Kind :=
  if field = [48] then some .regular else if field = [53] then some .directory else none

/-- A path of its prefix and its name. -/
def joinPath (start name : List UInt8) : List UInt8 :=
  if start.isEmpty then name else start ++ 47 :: name

/-- The path, the kind and the size in a header whose checksum is valid. -/
def readHeader (block : List UInt8) : Option (List UInt8 × Kind × ℕ) :=
  match splitWidths widths block with
  | [name, _, _, _, size, _, checksum, kind, _, magic, version, _, _, _, _, start, _] =>
    if magic = [117, 115, 116, 97, 114, 0] ∧ version = [48, 48] ∧
        readOctal checksum =
          some (byteSum ((splitWidths widths block).set 6 (List.replicate 8 32)).flatten) then
      match readKind kind, readOctal size with
      | some kind, some size => some (joinPath (readText start) (readText name), kind, size)
      | _, _ => none
    else none
  | _ => none

/-- The members of an archive, up to so many. -/
def readEntries : ℕ → List UInt8 → Option (List Entry)
  | 0, _ => none
  | fuel + 1, bytes =>
    if bytes.length < 512 then none
    else if bytes.take 512 = zeros 512 then
      if (bytes.drop 512).take 512 = zeros 512 then some [] else none
    else
      match readHeader (bytes.take 512) with
      | none => none
      | some (path, kind, size) =>
        if (bytes.drop 512).length < size + padding size then none
        else
          match readEntries fuel ((bytes.drop 512).drop (size + padding size)) with
          | none => none
          | some rest => some (⟨path, kind, size, (bytes.drop 512).take size⟩ :: rest)

/-- Read an archive. -/
def read (bytes : List UInt8) : Option (List Entry) := readEntries bytes.length bytes

/-! ## What is read back -/

/-- Parts that are put together split by their widths. -/
theorem splitWidths_flatten (parts : List (List UInt8)) (rest : List UInt8) :
    splitWidths (parts.map List.length) (parts.flatten ++ rest) = parts := by
  induction parts with
  | nil => rfl
  | cons part parts ih =>
    rw [List.map_cons, splitWidths, List.flatten_cons, List.append_assoc, List.take_left',
      List.drop_left', ih]
    · rfl
    · rfl

/-- A text without NUL is read back from a field that it fills up to zeros. -/
theorem readText_append_zeros {text : List UInt8} (h : 0 ∉ text) (n : ℕ) :
    readText (text ++ zeros n) = text := by
  have htext : ∀ byte ∈ text, (byte != 0) = true := by
    intro byte hbyte
    rw [bne_iff_ne]
    rintro rfl
    exact h hbyte
  have hzeros : (zeros n).takeWhile (· != 0) = [] := by
    cases n with
    | zero => rfl
    | succ n => simp [zeros, List.replicate_succ]
  rw [readText, List.takeWhile_append_of_pos htext, hzeros, List.append_nil]

/-- Octal digits before a NUL or a space are read back. -/
theorem readOctal_append {digits : List UInt8}
    (hdigits : ∀ digit ∈ digits, isOctalDigit digit = true)
    (hne : digits ≠ []) {last : UInt8} (hlast : last = 0 ∨ last = 32) (rest : List UInt8) :
    readOctal (digits ++ last :: rest) = some (octalValue digits) := by
  have hstop : isOctalDigit last = false := by
    obtain rfl | rfl := hlast <;> decide
  have htake : (digits ++ last :: rest).takeWhile isOctalDigit = digits := by
    rw [List.takeWhile_append_of_pos hdigits, List.takeWhile_cons_of_neg (by simp [hstop]),
      List.append_nil]
  have hdrop : (digits ++ last :: rest).dropWhile isOctalDigit = last :: rest := by
    rw [List.dropWhile_append_of_pos hdigits, List.dropWhile_cons_of_neg (by simp [hstop])]
  unfold readOctal
  rw [htake, hdrop]
  cases digits with
  | nil => exact absurd rfl hne
  | cons digit digits => exact if_pos hlast

/-- A header is read from its fields. -/
theorem readHeader_flatten {name mode owner group size time checksum kind link user team major minor
    start filler : List UInt8}
    (hwidths : [name, mode, owner, group, size, time, checksum, kind, link,
      [117, 115, 116, 97, 114, 0], [48, 48], user, team, major, minor, start, filler].map
        List.length = widths)
    (hchecksum : readOctal checksum = some (byteSum [name, mode, owner, group, size, time,
      List.replicate 8 32, kind, link, [117, 115, 116, 97, 114, 0], [48, 48], user, team, major,
      minor, start, filler].flatten)) :
    readHeader [name, mode, owner, group, size, time, checksum, kind, link,
      [117, 115, 116, 97, 114, 0], [48, 48], user, team, major, minor, start, filler].flatten =
      match readKind kind, readOctal size with
      | some kind, some size => some (joinPath (readText start) (readText name), kind, size)
      | _, _ => none := by
  have hsplit := splitWidths_flatten [name, mode, owner, group, size, time, checksum, kind, link,
    [117, 115, 116, 97, 114, 0], [48, 48], user, team, major, minor, start, filler] []
  rw [hwidths, List.append_nil] at hsplit
  unfold readHeader
  rw [hsplit]
  dsimp only
  rw [if_pos]
  exact ⟨rfl, rfl, hchecksum⟩

/-- The end of an archive. -/
theorem readEntries_end (fuel : ℕ) : readEntries (fuel + 1) (zeros 1024) = some [] := by
  have htake : (zeros 1024).take 512 = zeros 512 := List.take_replicate
  have hdrop : (zeros 1024).drop 512 = zeros 512 := List.drop_replicate
  rw [readEntries, if_neg (by rw [length_zeros]; omega), if_pos htake, hdrop,
    if_pos (List.take_of_length_le (by rw [length_zeros]))]

/-- After a header comes what it announces. -/
theorem readEntries_header {header : List UInt8} (hlength : header.length = 512)
    (hheader : header ≠ zeros 512) {path : List UInt8} {kind : Kind} {size : ℕ}
    (hread : readHeader header = some (path, kind, size)) (fuel : ℕ) (bytes : List UInt8) :
    readEntries (fuel + 1) (header ++ bytes) =
      if bytes.length < size + padding size then none
      else
        match readEntries fuel (bytes.drop (size + padding size)) with
        | none => none
        | some rest => some (⟨path, kind, size, bytes.take size⟩ :: rest) := by
  have htake : (header ++ bytes).take 512 = header := List.take_left' hlength
  have hdrop : (header ++ bytes).drop 512 = bytes := List.drop_left' hlength
  rw [readEntries, if_neg (by rw [List.length_append]; omega), htake, if_neg hheader, hread]
  dsimp only
  rw [hdrop]

/-- A member with the content that its header announces is read back. -/
theorem readEntries_member {header content : List UInt8} (hlength : header.length = 512)
    (hheader : header ≠ zeros 512) {path : List UInt8} {kind : Kind}
    (hread : readHeader header = some (path, kind, content.length)) (fuel : ℕ) (rest : List UInt8) :
    readEntries (fuel + 1) (header ++ (content ++ zeros (padding content.length) ++ rest)) =
      (readEntries fuel rest).map (⟨path, kind, content.length, content⟩ :: ·) := by
  have hdrop : (content ++ zeros (padding content.length) ++ rest).drop
      (content.length + padding content.length) = rest :=
    List.drop_left' (by rw [List.length_append, length_zeros])
  have htake : (content ++ zeros (padding content.length) ++ rest).take content.length =
      content := by
    rw [List.append_assoc]
    exact List.take_left' rfl
  rw [readEntries_header hlength hheader hread, if_neg, hdrop, htake]
  · cases readEntries fuel rest <;> rfl
  · simp only [List.length_append, length_zeros]
    omega

/-- Whatever is read after a header, the member has the size in the header. -/
theorem size_of_readEntries {header : List UInt8} (hlength : header.length = 512)
    (hheader : header ≠ zeros 512) {path : List UInt8} {kind : Kind} {size : ℕ}
    (hread : readHeader header = some (path, kind, size)) {fuel : ℕ} {bytes : List UInt8}
    {entry : Entry} {rest : List Entry}
    (h : readEntries (fuel + 1) (header ++ bytes) = some (entry :: rest)) : entry.size = size := by
  rw [readEntries_header hlength hheader hread] at h
  split at h
  · cases h
  · split at h
    · cases h
    · cases h
      rfl

end Moonfort.Ustar
