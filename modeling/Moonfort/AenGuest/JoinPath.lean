import Mathlib.Data.List.Enum
import Mathlib.Data.UInt
import Mathlib.Tactic.Common

/-!
# Joined paths of the guest

`mf_join_path` of `runtime.c` writes a directory, a slash and a name into a buffer of a fixed
capacity. Its lengths are of type `size_t`, so its differences are taken modulo `2 ^ 64`. What it
stores is kept here byte by byte, with the offset of each.
-/

namespace Moonfort.AenGuest

/-- A string of C by its bytes. With the NUL behind them they are an object in memory. -/
structure CString where
  bytes : List UInt8
  nulFree : 0 ∉ bytes
  size_lt : bytes.length + 1 < 2 ^ 64

/-- `strlen`. -/
def CString.strlen (s : CString) : UInt64 := UInt64.ofNat s.bytes.length

/-- The length that `strlen` returns is the number of bytes. -/
theorem CString.toNat_strlen (s : CString) : s.strlen.toNat = s.bytes.length := by
  have hsize := s.size_lt
  rw [strlen, UInt64.toNat_ofNat']
  omega

/-- A byte stored at an offset from the start of the output. -/
structure Store where
  offset : ℕ
  byte : UInt8
  deriving DecidableEq

/-- `memcpy` to an offset of the output. -/
def memcpy (offset : ℕ) (bytes : List UInt8) : List Store :=
  (bytes.zipIdx offset).map fun stored => ⟨stored.2, stored.1⟩

/-- A memory after stores into it. -/
def afterStores (memory : ℕ → UInt8) (stores : List Store) : ℕ → UInt8 :=
  stores.foldl (fun memory store => Function.update memory store.offset store.byte) memory

/-- `mf_join_path`, and what it stores. A null pointer is no string; a null output takes no
stores. -/
def joinPath (output : Bool) (capacity : UInt64) (left right : Option CString) : ℤ × List Store :=
  match left, right with
  | some left, some right =>
    if !output || capacity == 0 || left.bytes.isEmpty || right.bytes.isEmpty ||
        right.bytes.contains 47 then (-1, [])
    else
      let leftLength := left.strlen
      let rightLength := right.strlen
      if leftLength > capacity - 1 || rightLength > capacity - leftLength - 2 then (-1, [])
      else
        (0, memcpy 0 left.bytes ++ [⟨leftLength.toNat, 47⟩] ++
          memcpy (leftLength.toNat + 1) (right.bytes ++ [0]))
  | _, _ => (-1, [])

/-! ## Stores -/

/-- Two copies, one behind the other, are one copy. -/
theorem memcpy_append (offset : ℕ) (a b : List UInt8) :
    memcpy offset (a ++ b) = memcpy offset a ++ memcpy (offset + a.length) b := by
  rw [memcpy, List.zipIdx_append, List.map_append, memcpy, memcpy]

/-- A copy writes its first byte and then the others. -/
theorem memcpy_cons (offset : ℕ) (byte : UInt8) (bytes : List UInt8) :
    memcpy offset (byte :: bytes) = ⟨offset, byte⟩ :: memcpy (offset + 1) bytes := by
  rw [memcpy, List.zipIdx_cons, List.map_cons, memcpy]

/-- The stores of a copy lie between its offset and its end. -/
theorem offset_of_mem_memcpy {offset : ℕ} {bytes : List UInt8} {store : Store}
    (h : store ∈ memcpy offset bytes) :
    offset ≤ store.offset ∧ store.offset < offset + bytes.length := by
  obtain ⟨⟨byte, place⟩, hplace, rfl⟩ := List.mem_map.mp h
  exact ⟨List.le_snd_of_mem_zipIdx hplace, List.snd_lt_add_of_mem_zipIdx hplace⟩

/-- After a copy the memory holds its bytes, and elsewhere what it held before. -/
theorem afterStores_memcpy (memory : ℕ → UInt8) (offset : ℕ) (bytes : List UInt8) (place : ℕ) :
    afterStores memory (memcpy offset bytes) place =
      if offset ≤ place then bytes.getD (place - offset) (memory place) else memory place := by
  induction bytes generalizing memory offset with
  | nil => simp [memcpy, afterStores]
  | cons byte bytes ih =>
    have hstep : afterStores memory (memcpy offset (byte :: bytes)) =
        afterStores (Function.update memory offset byte) (memcpy (offset + 1) bytes) := by
      rw [memcpy_cons]
      rfl
    rw [hstep, ih]
    rcases Nat.lt_trichotomy place offset with hlt | rfl | hgt
    · rw [if_neg (by omega), if_neg (by omega), Function.update_of_ne (by omega)]
    · rw [if_neg (by omega), if_pos (Nat.le_refl _), Function.update_self, Nat.sub_self]
      rfl
    · obtain ⟨distance, rfl⟩ : ∃ distance, place = offset + 1 + distance :=
        ⟨place - (offset + 1), by omega⟩
      have hnext : offset + 1 + distance - offset = distance + 1 := by omega
      rw [if_pos (by omega), if_pos (by omega), Function.update_of_ne (by omega), hnext,
        Nat.add_sub_cancel_left]
      rfl

/-! ## The guards -/

section Guards

variable {capacity : UInt64} {left : CString} (right : CString)

/-- The first guard, where the capacity is positive. -/
theorem left_guard (hcapacity : 0 < capacity.toNat) :
    left.strlen > capacity - 1 ↔ capacity.toNat ≤ left.bytes.length := by
  have hlt := capacity.toNat_lt
  rw [gt_iff_lt, UInt64.lt_iff_toNat_lt, UInt64.toNat_sub, left.toNat_strlen]
  change (2 ^ 64 - 1 + capacity.toNat) % 2 ^ 64 < _ ↔ _
  omega

/-- The second guard behind the first. It is off for a left string of all but one byte of the
capacity, whose difference wraps to the greatest length. -/
theorem right_guard (hleft : left.bytes.length < capacity.toNat) :
    right.strlen > capacity - left.strlen - 2 ↔
      left.bytes.length + 1 ≠ capacity.toNat ∧
        capacity.toNat < left.bytes.length + 1 + right.bytes.length + 1 := by
  have hlt := capacity.toNat_lt
  have hright := right.size_lt
  rw [gt_iff_lt, UInt64.lt_iff_toNat_lt, UInt64.toNat_sub, UInt64.toNat_sub, left.toNat_strlen,
    right.toNat_strlen]
  change (2 ^ 64 - 2 + (2 ^ 64 - left.bytes.length + capacity.toNat) % 2 ^ 64) % 2 ^ 64 < _ ↔ _
  omega

end Guards

/-- What a joined path stores: both strings around a slash, and a NUL. -/
def joinedBytes (left right : CString) : List UInt8 := left.bytes ++ 47 :: right.bytes ++ [0]

/-- A joined path has both parts, the slash between them and the terminator. -/
theorem length_joinedBytes (left right : CString) :
    (joinedBytes left right).length = left.bytes.length + 1 + right.bytes.length + 1 := by
  simp only [joinedBytes, List.length_append, List.length_cons, List.length_nil]
  omega

/-- `mf_join_path` by its lengths. -/
theorem joinPath_eq {capacity : UInt64} (hcapacity : 0 < capacity.toNat) {left right : CString}
    (hleft : left.bytes ≠ []) (hright : right.bytes ≠ []) :
    joinPath true capacity (some left) (some right) =
      if 47 ∉ right.bytes ∧ (left.bytes.length + 1 = capacity.toNat ∨
          left.bytes.length + 1 + right.bytes.length + 1 ≤ capacity.toNat) then
        (0, memcpy 0 (joinedBytes left right))
      else (-1, []) := by
  have hzero : (capacity == 0) = false := by
    rw [beq_eq_false_iff_ne]
    rintro rfl
    exact absurd hcapacity (Nat.lt_irrefl 0)
  have hstores : memcpy 0 left.bytes ++ [⟨left.strlen.toNat, 47⟩] ++
      memcpy (left.strlen.toNat + 1) (right.bytes ++ [0]) = memcpy 0 (joinedBytes left right) := by
    have hbytes : joinedBytes left right = left.bytes ++ 47 :: (right.bytes ++ [0]) := by
      simp [joinedBytes]
    rw [hbytes, left.toNat_strlen, memcpy_append 0 left.bytes, Nat.zero_add,
      memcpy_cons left.bytes.length 47, List.append_assoc]
    rfl
  simp only [joinPath, hzero, hstores, List.isEmpty_eq_false_iff.mpr hleft,
    List.isEmpty_eq_false_iff.mpr hright, List.contains_iff_mem, Bool.not_true, Bool.or_false,
    Bool.false_or, Bool.or_eq_true, decide_eq_true_eq, left_guard hcapacity]
  by_cases hslash : 47 ∈ right.bytes
  · rw [if_pos hslash, if_neg fun h => h.1 hslash]
  · rw [if_neg hslash]
    by_cases hlong : capacity.toNat ≤ left.bytes.length
    · rw [if_pos (Or.inl hlong), if_neg (by omega)]
    · have hguard := right_guard right (Nat.not_le.mp hlong)
      by_cases hfits : left.bytes.length + 1 = capacity.toNat ∨
          left.bytes.length + 1 + right.bytes.length + 1 ≤ capacity.toNat
      · rw [if_neg (by rw [hguard]; omega), if_pos ⟨hslash, hfits⟩]
      · rw [if_pos (Or.inr (hguard.mpr (by omega))), if_neg fun h => hfits h.2]

/-! ## In bounds -/

/-- A result of `mf_join_path` that stays within the capacity: a success fits and stores the
joined path from the start of the output on, and anything else is a refusal without a store. -/
structure StaysInBounds (capacity : UInt64) (left right : CString) (result : ℤ × List Store) :
    Prop where
  fits : result.1 = 0 → left.bytes.length + 1 + right.bytes.length + 1 ≤ capacity.toNat
  joined : result.1 = 0 → result.2 = memcpy 0 (joinedBytes left right)
  refused : result.1 ≠ 0 → result = (-1, [])

/-- Within bounds no store reaches the capacity. -/
theorem StaysInBounds.offset_lt {capacity : UInt64} {left right : CString}
    {result : ℤ × List Store} (h : StaysInBounds capacity left right result) {store : Store}
    (hstore : store ∈ result.2) : store.offset < capacity.toNat := by
  by_cases hresult : result.1 = 0
  · have hfits := h.fits hresult
    rw [h.joined hresult] at hstore
    have hoffset := offset_of_mem_memcpy hstore
    rw [length_joinedBytes] at hoffset
    omega
  · rw [h.refused hresult] at hstore
    cases hstore

/-- Within bounds a success leaves the joined path at the start of the output, and the rest of the
memory as it was. -/
theorem StaysInBounds.afterStores_eq {capacity : UInt64} {left right : CString}
    {result : ℤ × List Store} (h : StaysInBounds capacity left right result)
    (hresult : result.1 = 0) (memory : ℕ → UInt8) (place : ℕ) :
    afterStores memory result.2 place = (joinedBytes left right).getD place (memory place) := by
  rw [h.joined hresult, afterStores_memcpy, if_pos (Nat.zero_le _), Nat.sub_zero]

/-- A left string of all but one byte of the capacity is joined past the end of the output. -/
theorem not_staysInBounds_of_full {capacity : UInt64} {left right : CString}
    (hleft : left.bytes ≠ []) (hright : right.bytes ≠ [])
    (hfull : left.bytes.length + 1 = capacity.toNat) (hslash : 47 ∉ right.bytes) :
    ¬StaysInBounds capacity left right (joinPath true capacity (some left) (some right)) := by
  intro h
  rw [joinPath_eq (by omega) hleft hright, if_pos ⟨hslash, Or.inl hfull⟩] at h
  have hfits := h.fits rfl
  have hpos := List.length_pos_of_ne_nil hright
  omega

/-- A join stays inside the buffer unless the left part fills it and the right part has no slash. -/
theorem staysInBounds_of_room {capacity : UInt64} (hcapacity : 0 < capacity.toNat)
    {left right : CString} (hleft : left.bytes ≠ []) (hright : right.bytes ≠ [])
    (h : ¬(left.bytes.length + 1 = capacity.toNat ∧ 47 ∉ right.bytes)) :
    StaysInBounds capacity left right (joinPath true capacity (some left) (some right)) := by
  rw [joinPath_eq hcapacity hleft hright]
  by_cases hfits : 47 ∉ right.bytes ∧ (left.bytes.length + 1 = capacity.toNat ∨
      left.bytes.length + 1 + right.bytes.length + 1 ≤ capacity.toNat)
  · rw [if_pos hfits]
    refine ⟨fun _ => ?_, fun _ => rfl, fun hne => absurd rfl hne⟩
    rcases hfits.2 with hfull | hle
    · exact absurd ⟨hfull, hfits.1⟩ h
    · exact hle
  · rw [if_neg hfits]
    have hcode : (-1 : ℤ) ≠ 0 := by omega
    exact ⟨fun hzero => absurd hzero hcode, fun hzero => absurd hzero hcode, fun _ => rfl⟩

/-! ## The callers -/

/-- `MF_PATH_MAX`. -/
def pathMax : ℕ := 4096

/-- `mf_canonical_absolute`. Its loop over the components ends at the end of the path, and a path
that ends in a slash is refused before. -/
def canonicalAbsolute (value : CString) : Bool :=
  value.bytes.head? == some 47 && 2 ≤ value.bytes.length && value.bytes.length < pathMax &&
    !decide ([47, 47] <:+: value.bytes) && value.bytes.getLast? != some 47 &&
    ((value.bytes.drop 1).splitOn 47).all fun component =>
      component != [] && component != [46] && component != [46, 46]

/-- `.tmp`. -/
def tmpName : CString := ⟨[46, 116, 109, 112], by decide, by decide⟩

/-- The private temporary directory of `main`, `char temporary[MF_PATH_MAX]`. -/
def temporaryPath (scratch : CString) : ℤ × List Store :=
  joinPath true 4096 (some scratch) (some tmpName)

/-- Of the scratch directories that `main` accepts, exactly the longest overrun the buffer. -/
theorem temporaryPath_staysInBounds_iff {scratch : CString}
    (hscratch : canonicalAbsolute scratch = true) :
    StaysInBounds 4096 scratch tmpName (temporaryPath scratch) ↔
      scratch.bytes.length + 1 ≠ pathMax := by
  have hne : scratch.bytes ≠ [] := by
    intro hnil
    rw [canonicalAbsolute, hnil] at hscratch
    cases hscratch
  have hslash : (47 : UInt8) ∉ tmpName.bytes := by decide
  constructor
  · intro h hfull
    have hcapacity : scratch.bytes.length + 1 = (4096 : UInt64).toNat := hfull
    exact not_staysInBounds_of_full hne (by decide) hcapacity hslash h
  · intro h
    exact staysInBounds_of_room (by decide) hne (by decide) fun hfull => h hfull.1

/-- `MF_RUNTIME_DIR`. -/
def runtimeDir : CString :=
  ⟨[47, 114, 117, 110, 47, 109, 111, 111, 110, 102, 111, 114, 116], by decide, by decide⟩

/-- The paths below the runtime directory stay in bounds, whatever the name. -/
theorem runtimePath_staysInBounds {name : CString} (hname : name.bytes ≠ []) :
    StaysInBounds 4096 runtimeDir name (joinPath true 4096 (some runtimeDir) (some name)) :=
  staysInBounds_of_room (by decide) (by decide) hname fun hfull => absurd hfull.1 (by decide)

/-- A path of 4095 bytes, in components of at most 127. -/
def longScratchBytes : List UInt8 :=
  (List.replicate 31 (47 :: List.replicate 127 97)).flatten ++ 47 :: List.replicate 126 97

/-- The longest path has 4095 bytes. -/
theorem length_longScratchBytes : longScratchBytes.length = 4095 := by
  simp [longScratchBytes, -List.reduceReplicate]

/-- The longest path that `mf_canonical_absolute` can accept. -/
def longScratch : CString where
  bytes := longScratchBytes
  nulFree := by simp [longScratchBytes, -List.reduceReplicate]
  size_lt := by rw [length_longScratchBytes]; omega

set_option maxRecDepth 100000 in
/-- The longest path is canonical and absolute. -/
theorem longScratch_canonical : canonicalAbsolute longScratch = true := by
  decide +kernel

/-- `mf_join_path` stays in bounds exactly when the left string does not leave one byte of the
capacity only, or the right one has a slash. -/
theorem joinPath_staysInBounds_iff {capacity : UInt64} (hcapacity : 0 < capacity.toNat)
    {left right : CString} (hleft : left.bytes ≠ []) (hright : right.bytes ≠ []) :
    StaysInBounds capacity left right (joinPath true capacity (some left) (some right)) ↔
      ¬(left.bytes.length + 1 = capacity.toNat ∧ 47 ∉ right.bytes) := by
  constructor
  · rintro h ⟨hfull, hslash⟩
    exact not_staysInBounds_of_full hleft hright hfull hslash h
  · exact staysInBounds_of_room hcapacity hleft hright

/-- A runtime directory and the name of its temporary file. -/
theorem joinPath_staysInBounds_sample :
    StaysInBounds 4096 runtimeDir tmpName (joinPath true 4096 (some runtimeDir) (some tmpName)) ↔
      ¬(runtimeDir.bytes.length + 1 = (4096 : UInt64).toNat ∧ 47 ∉ tmpName.bytes) :=
  joinPath_staysInBounds_iff (by decide) (by decide) (by decide)

/-- The longest scratch directory overruns the buffer of `main`. -/
theorem not_staysInBounds_longScratch :
    ¬StaysInBounds 4096 longScratch tmpName (temporaryPath longScratch) := by
  have hlength : longScratch.bytes.length = 4095 := length_longScratchBytes
  have hne : longScratch.bytes ≠ [] := List.ne_nil_of_length_pos (by omega)
  have hfull : longScratch.bytes.length + 1 = (4096 : UInt64).toNat := by
    rw [hlength]
    rfl
  exact not_staysInBounds_of_full hne (by decide) hfull (by decide)

end Moonfort.AenGuest
