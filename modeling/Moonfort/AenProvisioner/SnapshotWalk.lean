import Moonfort.DirectoryTree
import Moonfort.MoonBit.Crypto
import Moonfort.MoonBit.Json
import Moonfort.MoonBit.PlainText
import Moonfort.Ustar

/-!
# The snapshot walk of the provisioner

The walk of `secure_snapshot.c` over a workspace that does not change, which writes the
layer archive and the workspace manifest. The host lists each directory in any order,
and may fail at any directory or entry.
-/

namespace Moonfort.AenProvisioner

open DirectoryTree MoonBit

/-! ## Names -/

/-- A byte that separates lines or fields, escapes, or ends a text. -/
def isControl (byte : UInt8) : Bool :=
  byte == 0 || byte == 10 || byte == 13 || byte == 9 || byte == 92

/-- `(next & 0xc0) == 0x80`. -/
def isContinuation (byte : UInt8) : Bool := byte &&& 0xC0 == 0x80

/-- The code point of a first byte and its continuation bytes. -/
def codePoint (start : UInt8) (rest : List UInt8) : ℕ :=
  rest.foldl (fun code byte => 64 * code + (byte &&& 0x3F).toNat) start.toNat

/-- `valid_utf8`. -/
def validUtf8 : List UInt8 → Bool
  | [] => true
  | first :: rest =>
    if first < 0x80 then
      !isControl first && validUtf8 rest
    else if first &&& 0xE0 == 0xC0 then
      match rest with
      | a :: rest => isContinuation a && 0x80 ≤ codePoint (first &&& 0x1F) [a] && validUtf8 rest
      | _ => false
    else if first &&& 0xF0 == 0xE0 then
      match rest with
      | a :: b :: rest =>
        isContinuation a && isContinuation b && 0x800 ≤ codePoint (first &&& 0x0F) [a, b] &&
          !(0xD800 ≤ codePoint (first &&& 0x0F) [a, b] &&
            codePoint (first &&& 0x0F) [a, b] ≤ 0xDFFF) && validUtf8 rest
      | _ => false
    else if first &&& 0xF8 == 0xF0 then
      match rest with
      | a :: b :: c :: rest =>
        isContinuation a && isContinuation b && isContinuation c &&
          0x10000 ≤ codePoint (first &&& 0x07) [a, b, c] &&
          codePoint (first &&& 0x07) [a, b, c] ≤ 0x10FFFF && validUtf8 rest
      | _ => false
    else false

/-- The bytes from 0x80 on are no control bytes. -/
theorem not_isControl_of_le {byte : UInt8} (h : 0x80 ≤ byte) : isControl byte = false := by
  rw [UInt8.le_iff_toNat_le] at h
  simp only [isControl, Bool.or_eq_false_iff, beq_eq_false_iff_ne, ne_eq, ← UInt8.toNat_inj]
  have hbyte : 128 ≤ byte.toNat := h
  refine ⟨⟨⟨⟨?_, ?_⟩, ?_⟩, ?_⟩, ?_⟩ <;> intro heq <;> rw [heq] at hbyte <;> revert hbyte <;> decide

/-- A continuation byte is no control byte. -/
theorem not_isControl_of_isContinuation {byte : UInt8} (h : isContinuation byte = true) :
    isControl byte = false := by
  apply not_isControl_of_le
  have hbits : byte.toNat &&& 192 = 128 := by
    rw [isContinuation, beq_iff_eq] at h
    simpa using congrArg UInt8.toNat h
  have hle : byte.toNat &&& 192 ≤ byte.toNat := Nat.and_le_left
  rw [UInt8.le_iff_toNat_le]
  change 128 ≤ byte.toNat
  omega

/-- Accepted names have no control bytes. -/
theorem not_isControl_of_validUtf8 {name : List UInt8} (h : validUtf8 name = true) :
    ∀ byte ∈ name, isControl byte = false := by
  fun_induction validUtf8 name with
  | case1 => simp
  | case2 first rest hfirst ih =>
    rw [Bool.and_eq_true, Bool.not_eq_true'] at h
    rw [List.forall_mem_cons]
    exact ⟨h.1, ih h.2⟩
  | case3 first hfirst _ a rest ih =>
    simp only [Bool.and_eq_true] at h
    obtain ⟨⟨ha, _⟩, hrest⟩ := h
    have hfirst' := not_isControl_of_le (UInt8.not_lt.mp hfirst)
    simp only [List.forall_mem_cons]
    exact ⟨hfirst', not_isControl_of_isContinuation ha, ih hrest⟩
  | case5 first hfirst _ _ a b rest ih =>
    simp only [Bool.and_eq_true] at h
    obtain ⟨⟨⟨⟨ha, hb⟩, _⟩, _⟩, hrest⟩ := h
    have hfirst' := not_isControl_of_le (UInt8.not_lt.mp hfirst)
    simp only [List.forall_mem_cons]
    exact ⟨hfirst', not_isControl_of_isContinuation ha, not_isControl_of_isContinuation hb,
      ih hrest⟩
  | case7 first hfirst _ _ _ a b c rest ih =>
    simp only [Bool.and_eq_true] at h
    obtain ⟨⟨⟨⟨⟨ha, hb⟩, hc⟩, _⟩, _⟩, hrest⟩ := h
    have hfirst' := not_isControl_of_le (UInt8.not_lt.mp hfirst)
    simp only [List.forall_mem_cons]
    exact ⟨hfirst', not_isControl_of_isContinuation ha, not_isControl_of_isContinuation hb,
      not_isControl_of_isContinuation hc, ih hrest⟩
  | _ => cases h

/-- `NAME_MAX`. -/
def nameMax : ℕ := 255

/-- What `list_names` makes of a name. -/
def refusedName (name : Name) : Option ℤ :=
  if nameMax < name.length ∨ validUtf8 name = false then some (-3) else none

/-! ## The layer archive -/

/-- The digits that `tar_octal` writes, of so many positions, the last one first. -/
def octalLoop : ℕ → ℕ → List UInt8
  | 0, _ => []
  | index + 1, value => octalLoop index (value / 8) ++ [48 + UInt8.ofNat (value % 8)]

/-- `tar_octal`: the loop never writes the first position of the field, which stays `'0'`. -/
def tarOctal (length value : ℕ) : List UInt8 := 48 :: octalLoop (length - 2) value ++ [0]

/-- `tar_name`: the name and the prefix in a header. -/
def tarName (path : Path) : Option (List UInt8 × List UInt8) :=
  if path.length ≤ 100 then some (path, [])
  else if 255 < path.length then none
  else
    let start := path.length - 100
    let split := start + (path.drop start).findIdx (· == 47)
    if path[split]? ≠ some 47 ∨ 155 < split ∨ 100 < path.length - (split + 1) then none
    else some (path.drop (split + 1), path.take split)

/-- A text in a field of zeros. -/
def field (width : ℕ) (text : List UInt8) : List UInt8 := text ++ Ustar.zeros (width - text.length)

/-- The header of 512 bytes with a checksum field: the fields at the offsets 0, 100, 108, 116,
124, 136, 148, 156, 157, 257, 263, 265, 297, 329, 337, 345 and 500. -/
def headerBytes (name start : List UInt8) (size : ℕ) (directory : Bool) (checksum : List UInt8) :
    List UInt8 :=
  [field 100 name, tarOctal 8 (if directory then 0o555 else 0o444), tarOctal 8 0, tarOctal 8 0,
    tarOctal 12 size, tarOctal 12 0, checksum, [if directory then 53 else 48], Ustar.zeros 100,
    [117, 115, 116, 97, 114, 0], [48, 48], Ustar.zeros 32, Ustar.zeros 32, Ustar.zeros 8,
    Ustar.zeros 8, field 155 start, Ustar.zeros 12].flatten

/-- `snprintf(header + 148, 8, "%06o", checksum)`, then NUL and a space. -/
def checksumField (checksum : ℕ) : List UInt8 := octalLoop 6 checksum ++ [0, 32]

/-- `tar_header`. -/
def tarHeader (path : Path) (size : ℕ) (directory : Bool) : Option (List UInt8) :=
  (tarName path).map fun (name, start) =>
    headerBytes name start size directory
      (checksumField (Ustar.byteSum (headerBytes name start size directory (List.replicate 8 32))))

/-! ## The walk -/

/-- The limits of a snapshot. -/
structure SnapshotLimits where
  maxBytes : ℤ
  maxFileBytes : ℤ
  maxEntries : ℤ
  maxEntries_pos : 0 < maxEntries
  maxBytes_pos : 0 < maxBytes
  /-- The limit is an `int64_t`. -/
  maxBytes_lt : maxBytes < 2 ^ 63

/-- `snapshot_context`: what is written to the layer and to the manifest, both hashed as they
are written, and the counts. -/
structure Snapshot where
  layer : List UInt8
  manifest : List UInt8
  totalBytes : ℤ
  entryCount : ℤ

/-- The context of a new snapshot. -/
def Snapshot.new : Snapshot := ⟨[], [], 0, 0⟩

/-- What the host does during a snapshot. -/
structure SnapshotHost where
  /-- The order in which it lists the names of a directory. -/
  order : Path → List Name → List Name
  order_perm : ∀ path names, (order path names).Perm names
  /-- A system call or the clock that fails at a directory. -/
  listFault : Path → Option ℤ
  /-- A system call or the clock that fails at an entry. -/
  entryFault : Path → Option ℤ

/-- A line of a manifest. -/
def manifestText (kind : UInt8) (path : Path) (size : ℤ) (digest : List UInt8) : List UInt8 :=
  kind :: 9 :: path ++ 9 :: utf8Encode (intText size) ++ 9 :: digest ++ [10]

section Snapshot

variable (crypto : Crypto) (host : SnapshotHost) (limits : SnapshotLimits)

/-- `manifest_line`. -/
def manifestLine (kind : UInt8) (path : Path) (size : ℤ) (digest : List UInt8) (s : Snapshot) :
    Except ℤ Snapshot :=
  if 8192 < (manifestText kind path size digest).length then .error (-1)
  else .ok { s with manifest := s.manifest ++ manifestText kind path size digest }

/-- The digest of a file in a manifest. -/
def fileDigest (content : List UInt8) : List UInt8 := utf8Encode (crypto.digest content)

/-- `copy_regular`, of a file that does not change. -/
def copyRegular (path : Path) (content : List UInt8) (s : Snapshot) : Except ℤ Snapshot :=
  if (content.length : ℤ) > limits.maxFileBytes ∨
      (content.length : ℤ) > limits.maxBytes - s.totalBytes then .error (-2)
  else
    match tarHeader path content.length false with
    | none => .error (-1)
    | some header => do
      let s ← manifestLine 70 path content.length (fileDigest crypto content)
        { s with layer := s.layer ++ header ++ content ++
          Ustar.zeros (Ustar.padding content.length) }
      .ok { s with totalBytes := s.totalBytes + content.length }

/-- The directory branch of `walk_directory`, before it descends. -/
def enterDirectory (path : Path) (s : Snapshot) : Except ℤ Snapshot :=
  match tarHeader path 0 true with
  | none => .error (-1)
  | some header => manifestLine 68 path 0 [45] { s with layer := s.layer ++ header }

/-- The body of the loop of `walk_directory`. -/
def snapshotEntry (parent : Path) (name : Name) (kind : Kind) (s : Snapshot) : Except ℤ Snapshot :=
  if s.entryCount + 1 > limits.maxEntries then .error (-2)
  else if (join parent name).length + 1 > 4096 then .error (-2)
  else
    match host.entryFault (join parent name) with
    | some error => .error error
    | none =>
      let counted := { s with entryCount := s.entryCount + 1 }
      match kind with
      | .regular content => copyRegular crypto limits (join parent name) content counted
      | .directory => enterDirectory (join parent name) counted
      | .symlink _ | .special => .error (-5)

/-- `walk_directory` and `list_names`. -/
def snapshotWalker : Walker Snapshot ℤ where
  order := host.order
  order_perm := host.order_perm
  listFault := host.listFault
  refuses := refusedName
  gone := -3
  visit := snapshotEntry crypto host limits

/-- The walk over a workspace. -/
def snapshotWalk (tree : Tree) : Except ℤ Snapshot :=
  (snapshotWalker crypto host limits).walk tree.entries [] .new

/-! ## What an entry adds -/

/-- The line of an item in the manifest. -/
def itemLine (item : Item) : List UInt8 :=
  match item.kind with
  | .regular content => manifestText 70 item.path content.length (fileDigest crypto content)
  | _ => manifestText 68 item.path 0 [45]

/-- The member of an item in the layer, behind its header. -/
def itemBody (item : Item) : List UInt8 :=
  item.kind.content ++ Ustar.zeros (Ustar.padding item.kind.content.length)

variable {crypto host limits} in
/-- An accepted entry adds its member to the layer and its line to the manifest, and is
counted. -/
theorem snapshotEntry_eq_ok {item : Item} {s s' : Snapshot}
    (h : snapshotEntry crypto host limits item.parent item.name item.kind s = .ok s') :
    ∃ header, tarHeader item.path item.kind.content.length (item.kind == .directory) =
        some header ∧ item.kind.IsPlain ∧ item.path.length + 1 ≤ 4096 ∧
      s.entryCount + 1 ≤ limits.maxEntries ∧
      (s.totalBytes ≤ limits.maxBytes → s'.totalBytes ≤ limits.maxBytes) ∧
      s' = ⟨s.layer ++ (header ++ itemBody item), s.manifest ++ itemLine crypto item,
        s.totalBytes + item.kind.content.length, s.entryCount + 1⟩ := by
  unfold snapshotEntry at h
  split at h
  · cases h
  next hcount =>
  split at h
  · cases h
  next hpath =>
  split at h
  · cases h
  obtain ⟨parent, name, kind⟩ := item
  cases kind with
  | regular content =>
    dsimp only [copyRegular] at h
    split at h
    · cases h
    next hsize =>
    split at h
    · cases h
    next header hheader =>
    unfold manifestLine at h
    split at h
    · cases h
    · cases h
      rw [not_or] at hsize
      refine ⟨header, hheader, trivial, not_lt.mp hpath, not_lt.mp hcount, ?_, ?_⟩
      · intro _
        dsimp only
        omega
      · simp [itemBody, itemLine, Kind.content, List.append_assoc, Item.path]
  | directory =>
    dsimp only [enterDirectory] at h
    split at h
    · cases h
    next header hheader =>
    unfold manifestLine at h
    split at h
    · cases h
    · cases h
      refine ⟨header, hheader, trivial, not_lt.mp hpath, not_lt.mp hcount, id, ?_⟩
      simp [itemBody, itemLine, Kind.content, Item.path, Ustar.padding, Ustar.zeros]
  | symlink target => cases h
  | special => cases h

variable {crypto host limits} in
/-- The counts of a run stay within the limits. -/
theorem bounds_of_visitItems {items : List Item} {s s' : Snapshot}
    (h : (snapshotWalker crypto host limits).visitItems items s = .ok s')
    (hentries : 0 ≤ s.entryCount ∧ s.entryCount ≤ limits.maxEntries)
    (hbytes : 0 ≤ s.totalBytes ∧ s.totalBytes ≤ limits.maxBytes) :
    (0 ≤ s'.entryCount ∧ s'.entryCount ≤ limits.maxEntries) ∧
      0 ≤ s'.totalBytes ∧ s'.totalBytes ≤ limits.maxBytes := by
  induction items generalizing s with
  | nil =>
    cases h
    exact ⟨hentries, hbytes⟩
  | cons item rest ih =>
    rw [Walker.visitItems_cons, Walker.bind_eq_ok] at h
    obtain ⟨first, hfirst, hrest⟩ := h
    obtain ⟨_, _, _, _, hcount, hmax, rfl⟩ := snapshotEntry_eq_ok hfirst
    apply ih hrest
    · dsimp only
      omega
    · refine ⟨?_, hmax hbytes.2⟩
      dsimp only
      omega

variable {crypto host limits} in
/-- The counts of an accepted workspace are within the limits. -/
theorem bounds_of_snapshotWalk {tree : Tree} {s : Snapshot}
    (h : snapshotWalk crypto host limits tree = .ok s) :
    (0 ≤ s.entryCount ∧ s.entryCount ≤ limits.maxEntries) ∧
      0 ≤ s.totalBytes ∧ s.totalBytes ≤ limits.maxBytes := by
  obtain ⟨_, _, hvisits⟩ := ((snapshotWalker crypto host limits).walk_eq_ok tree _ s).mp h
  exact bounds_of_visitItems hvisits ⟨le_rfl, limits.maxEntries_pos.le⟩
    ⟨le_rfl, limits.maxBytes_pos.le⟩

variable {crypto host limits} in
/-- The paths of an accepted workspace have no control bytes. -/
theorem not_isControl_of_snapshotWalk {tree : Tree} {s : Snapshot}
    (h : snapshotWalk crypto host limits tree = .ok s) :
    ∀ item ∈ tree.items, ∀ byte ∈ item.path, isControl byte = false := by
  obtain ⟨_, hitems, _⟩ := ((snapshotWalker crypto host limits).walk_eq_ok tree _ s).mp h
  apply Tree.forall_path (isControl · = false) (by decide)
  intro item hitem
  have hname : refusedName item.name = none := (hitems item hitem).1
  unfold refusedName at hname
  split at hname
  · cases hname
  next hvalid =>
    rw [not_or, Bool.not_eq_false] at hvalid
    exact not_isControl_of_validUtf8 hvalid.2

end Snapshot

/-! ## The length of a line -/

/-- Plain texts have one byte for each character, and no control byte. -/
theorem utf8Encode_of_plain {s : String} (h : ∀ c ∈ s.toList, IsPlain c) :
    (∀ byte ∈ utf8Encode s, isControl byte = false) ∧ (utf8Encode s).length = s.toList.length := by
  have hchar : ∀ c ∈ s.toList, String.utf8EncodeChar c = [c.val.toUInt8] := fun c hc =>
    String.utf8EncodeChar_eq_singleton (utf8Size_of_isPlain (h c hc))
  constructor
  · intro byte hbyte
    obtain ⟨c, hc, hmem⟩ := List.mem_flatMap.mp hbyte
    rw [hchar c hc, List.mem_singleton] at hmem
    subst hmem
    obtain ⟨hlow, hhigh, _, hslash⟩ := h c hc
    have hnat : c.val.toUInt8.toNat = c.toNat := by
      rw [UInt32.toNat_toUInt8]
      exact Nat.mod_eq_of_lt (by
        change c.toNat < 256
        omega)
    have hne : c.toNat ≠ 92 := fun heq => hslash (Char.toNat_inj.mp heq)
    simp only [isControl, Bool.or_eq_false_iff, beq_eq_false_iff_ne, ne_eq, ← UInt8.toNat_inj, hnat]
    refine ⟨⟨⟨⟨?_, ?_⟩, ?_⟩, ?_⟩, hne⟩ <;> intro heq <;> rw [heq] at hlow <;> revert hlow <;> decide
  · rw [length_utf8Encode, utf8Length, List.map_congr_left fun c hc => utf8Size_of_isPlain (h c hc)]
    simp

/-- The digest of a file has 64 digits. -/
theorem length_fileDigest {crypto : Crypto} (hsized : crypto.Sized) (content : List UInt8) :
    (fileDigest crypto content).length = 64 := by
  have hlength := (utf8Encode_of_plain (plain_bytesToHexString (crypto.sha256 content))).2
  rw [fileDigest, Crypto.digest, hlength, bytesToHexString, String.toList_ofList,
    List.length_flatMap]
  simp [hexPair, hsized.sha256]

/-- The decimal text of a size of 63 bits. -/
theorem length_sizeText {n : ℤ} (hn : 0 ≤ n) (hlt : n < 2 ^ 63) :
    (utf8Encode (intText n)).length ≤ 19 := by
  rw [length_utf8Encode]
  exact utf8Length_intText_le hn hlt

/-- The line of an accepted path and size. -/
theorem length_itemLine_lt {crypto : Crypto} (hsized : crypto.Sized) {item : Item}
    (hpath : item.path.length + 1 ≤ 4096) (hsize : (item.kind.content.length : ℤ) < 2 ^ 63) :
    (itemLine crypto item).length < 4096 + 128 := by
  have hdigest := length_fileDigest hsized item.kind.content
  have htext := length_sizeText (Int.natCast_nonneg item.kind.content.length) hsize
  have hzero : (utf8Encode (intText 0)).length ≤ 19 := length_sizeText le_rfl (by omega)
  obtain ⟨parent, name, kind⟩ := item
  cases kind <;>
    simp only [itemLine, manifestText, Kind.content, List.length_append, List.length_cons,
    List.length_nil] at * <;> omega

/-! ## What is accepted -/

/-- What an entry needs to be accepted when there is room for it. -/
structure Admitted (host : SnapshotHost) (limits : SnapshotLimits) (item : Item) : Prop where
  listed : refusedName item.name = none
  opened : item.kind = .directory → host.listFault item.path = none
  read : host.entryFault item.path = none
  plain : item.kind.IsPlain
  path : item.path.length + 1 ≤ 4096
  name : tarName item.path ≠ none
  size : (item.kind.content.length : ℤ) ≤ limits.maxFileBytes

variable {crypto : Crypto} {host : SnapshotHost} {limits : SnapshotLimits}

/-- An entry is accepted if there is room for it. -/
theorem snapshotEntry_of_admitted (hsized : crypto.Sized) {item : Item}
    (h : Admitted host limits item) {s : Snapshot} (hcount : s.entryCount + 1 ≤ limits.maxEntries)
    (hstart : 0 ≤ s.totalBytes)
    (hbytes : s.totalBytes + item.kind.content.length ≤ limits.maxBytes) :
    ∃ s', snapshotEntry crypto host limits item.parent item.name item.kind s = .ok s' ∧
      s'.entryCount = s.entryCount + 1 ∧
        s'.totalBytes = s.totalBytes + item.kind.content.length := by
  have hlt := limits.maxBytes_lt
  have hline := length_itemLine_lt hsized h.path (by omega)
  obtain ⟨header, hheader⟩ : ∃ header,
      tarHeader item.path item.kind.content.length (item.kind == .directory) = some header := by
    obtain ⟨parts, hparts⟩ := Option.ne_none_iff_exists'.mp h.name
    exact ⟨_, by rw [tarHeader, hparts, Option.map_some]⟩
  obtain ⟨_, _, hread, hplain, hpath, _, hsize⟩ := h
  obtain ⟨parent, name, kind⟩ := item
  change (join parent name).length + 1 ≤ 4096 at hpath
  change host.entryFault (join parent name) = none at hread
  dsimp only at hheader hline hbytes hsize ⊢
  rw [snapshotEntry, if_neg (by omega), if_neg (by omega), hread]
  cases kind with
  | regular content =>
    have hfits : ¬ ((content.length : ℤ) > limits.maxFileBytes ∨
        (content.length : ℤ) > limits.maxBytes - s.totalBytes) := by
      change (content.length : ℤ) ≤ limits.maxFileBytes at hsize
      change s.totalBytes + (content.length : ℤ) ≤ limits.maxBytes at hbytes
      omega
    change tarHeader (join parent name) content.length false = some header at hheader
    simp only [itemLine, Item.path] at hline
    dsimp only
    rw [copyRegular, if_neg hfits, hheader]
    dsimp only
    rw [manifestLine, if_neg (by omega)]
    exact ⟨_, rfl, rfl, rfl⟩
  | directory =>
    change tarHeader (join parent name) 0 true = some header at hheader
    simp only [itemLine, Item.path] at hline
    dsimp only
    rw [enterDirectory, hheader]
    dsimp only
    rw [manifestLine, if_neg (by omega)]
    exact ⟨_, rfl, rfl, (Int.add_zero _).symm⟩
  | symlink target => exact hplain.elim
  | special => exact hplain.elim

/-- The bytes of the files among some items. -/
def contentBytes (items : List Item) : ℕ := (items.map (·.kind.content.length)).sum

/-- Items are accepted if there is room for all of them. -/
theorem visitItems_of_admitted (hsized : crypto.Sized) {items : List Item}
    (h : ∀ item ∈ items, Admitted host limits item) {s : Snapshot}
    (hcount : s.entryCount + items.length ≤ limits.maxEntries) (hstart : 0 ≤ s.totalBytes)
    (hbytes : s.totalBytes + contentBytes items ≤ limits.maxBytes) :
    ∃ s', (snapshotWalker crypto host limits).visitItems items s = .ok s' := by
  induction items generalizing s with
  | nil => exact ⟨s, rfl⟩
  | cons item rest ih =>
    rw [List.forall_mem_cons] at h
    rw [contentBytes, List.map_cons, List.sum_cons, ← contentBytes, Nat.cast_add] at hbytes
    rw [List.length_cons, Nat.cast_add_one] at hcount
    obtain ⟨first, hfirst, hentries, htotal⟩ :=
      snapshotEntry_of_admitted hsized h.1 (by omega) hstart (by omega)
    obtain ⟨last, hlast⟩ := ih h.2 (s := first) (by omega) (by omega) (by omega)
    refine ⟨last, ?_⟩
    rw [Walker.visitItems_cons]
    exact Walker.bind_eq_ok.mpr ⟨first, hfirst, hlast⟩

/-- A workspace is accepted if its entries are and there is room for all of them. -/
theorem snapshotWalk_of_admitted (hsized : crypto.Sized) {tree : Tree}
    (hroot : host.listFault [] = none) (h : ∀ item ∈ tree.items, Admitted host limits item)
    (hcount : (tree.items.length : ℤ) ≤ limits.maxEntries)
    (hbytes : (contentBytes tree.items : ℤ) ≤ limits.maxBytes) :
    ∃ s, snapshotWalk crypto host limits tree = .ok s := by
  obtain ⟨s, hs⟩ := visitItems_of_admitted hsized h (s := .new)
    (by rwa [Snapshot.new, Int.zero_add]) le_rfl (by rwa [Snapshot.new, Int.zero_add])
  refine ⟨s, (Walker.walk_eq_ok tree _ _).mpr ⟨hroot, ?_, hs⟩⟩
  intro item hitem
  exact ⟨(h item hitem).listed, (h item hitem).opened⟩

/-- The bytes of the layer, which two blocks of zeros end. -/
def Snapshot.layerBytes (s : Snapshot) : List UInt8 := s.layer ++ Ustar.zeros 1024

end Moonfort.AenProvisioner
