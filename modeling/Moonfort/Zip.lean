import Moonfort.Fields
import Mathlib.Tactic.NormNum

/-!
# Reading ZIP archives

A reader of stored archives that goes from the end-of-central-directory record to
the central directory and from there to the local headers, and the layout of the
archives that it reads back.
-/

namespace Moonfort.Zip

open Fields

/-! ## The reader -/

/-- What the end-of-central-directory record says. -/
structure EndRecord where
  count : ℕ
  centralLength : ℕ
  centralOffset : ℕ
  commentLength : ℕ

/-- What the central directory says about a member. -/
structure CentralEntry where
  flags : ℕ
  method : ℕ
  crc : ℕ
  packedSize : ℕ
  size : ℕ
  name : List UInt8
  offset : ℕ

/-- A member that is read. -/
structure Member where
  name : List UInt8
  method : ℕ
  crc : ℕ
  packedSize : ℕ
  size : ℕ
  content : List UInt8
  deriving DecidableEq

/-- Where a part of the archive starts, and its length. -/
abbrev Region : Type := ℕ × ℕ

/-- What a reader finds in an archive. -/
structure Reading where
  members : List Member
  /-- The members with their local headers, the central directory and the end record. -/
  regions : List Region
  deriving DecidableEq

/-- The widths of an end-of-central-directory record. -/
def endWidths : List ℕ := [4, 2, 2, 2, 2, 4, 4, 2]

/-- The widths of a central header. -/
def centralWidths : List ℕ := [4, 2, 2, 2, 2, 2, 2, 4, 4, 4, 2, 2, 2, 2, 2, 4, 4]

/-- The widths of a local header. -/
def localWidths : List ℕ := [4, 2, 2, 2, 2, 2, 4, 4, 4, 2, 2]

/-- The end record at a position, whose comment ends the archive. -/
def readEnd (bytes : List UInt8) (position : ℕ) : Option EndRecord :=
  match readFields endWidths (bytes.drop position) with
  | some ([signature, disk, startDisk, diskCount, count, centralLength, centralOffset,
      commentLength], comment) =>
    if signature = 0x06054b50 ∧ disk = 0 ∧ startDisk = 0 ∧ diskCount = count ∧
        comment.length = commentLength then
      some ⟨count, centralLength, centralOffset, commentLength⟩
    else none
  | _ => none

/-- The last end record that starts at a position or before it. -/
def findEnd (bytes : List UInt8) : ℕ → Option (ℕ × EndRecord)
  | 0 => (readEnd bytes 0).map (0, ·)
  | position + 1 =>
    match readEnd bytes (position + 1) with
    | some record => some (position + 1, record)
    | none => findEnd bytes position

/-- The headers of a central directory that holds so many and nothing else. -/
def readCentral : ℕ → List UInt8 → Option (List CentralEntry)
  | 0, bytes => if bytes.isEmpty then some [] else none
  | count + 1, bytes =>
    match readFields centralWidths bytes with
    | some ([signature, _, _, flags, method, _, _, crc, packedSize, size, nameLength,
        extraLength, commentLength, disk, _, _, offset], rest) =>
      if signature = 0x02014b50 ∧ disk = 0 ∧
          nameLength + extraLength + commentLength ≤ rest.length then
        match readCentral count (rest.drop (nameLength + extraLength + commentLength)) with
        | some entries =>
          some (⟨flags, method, crc, packedSize, size, rest.take nameLength, offset⟩ :: entries)
        | none => none
      else none
    | _ => none

/-- The stored member of a central header, and its region. The local header must say
the same. -/
def readMember (bytes : List UInt8) (entry : CentralEntry) : Option (Member × Region) :=
  match readFields localWidths (bytes.drop entry.offset) with
  | some ([signature, _, flags, method, _, _, crc, packedSize, size, nameLength, extraLength],
      rest) =>
    if signature = 0x04034b50 ∧ flags = entry.flags ∧ method = entry.method ∧ crc = entry.crc ∧
        packedSize = entry.packedSize ∧ size = entry.size ∧ rest.take nameLength = entry.name ∧
        nameLength + extraLength + packedSize ≤ rest.length ∧ method = 0 ∧ packedSize = size then
      some (⟨rest.take nameLength, method, crc, packedSize, size,
          (rest.drop (nameLength + extraLength)).take packedSize⟩,
        (entry.offset, 30 + nameLength + extraLength + packedSize))
    else none
  | _ => none

/-- Read an archive. -/
def read (bytes : List UInt8) : Option Reading :=
  match findEnd bytes (bytes.length - 22) with
  | none => none
  | some (position, record) =>
    if record.centralOffset + record.centralLength ≤ position then
      match readCentral record.count
          ((bytes.drop record.centralOffset).take record.centralLength) with
      | none => none
      | some entries =>
        match entries.mapM (readMember bytes) with
        | none => none
        | some found => some ⟨found.map Prod.fst, found.map Prod.snd ++
            [(record.centralOffset, record.centralLength), (position, 22 + record.commentLength)]⟩
    else none

/-- The regions follow each other from a position to another, without gap or overlap. -/
def Tiles : ℕ → List Region → ℕ → Prop
  | start, [], stop => start = stop
  | start, region :: regions, stop => region.1 = start ∧ Tiles (start + region.2) regions stop

/-- Regions that follow each other are in order and disjoint. -/
theorem Tiles.pairwise {start stop : ℕ} {regions : List Region} (h : Tiles start regions stop) :
    regions.Pairwise fun a b => a.1 + a.2 ≤ b.1 := by
  induction regions generalizing start with
  | nil => exact List.Pairwise.nil
  | cons region regions ih =>
    have hlater : ∀ (rest : List Region) (position : ℕ), Tiles position rest stop →
        ∀ other ∈ rest, position ≤ other.1 := by
      intro rest
      induction rest with
      | nil =>
        intro position _ other hother
        cases hother
      | cons next rest ihrest =>
        intro position htiles other hother
        obtain rfl | hmem := List.mem_cons.mp hother
        · exact htiles.1.ge
        · have hrest := ihrest _ htiles.2 other hmem
          omega
    rw [List.pairwise_cons]
    refine ⟨?_, ih h.2⟩
    intro other hother
    rw [h.1]
    exact hlater _ _ h.2 other hother

/-- Regions one behind the other tile together. -/
theorem Tiles.append {start middle stop : ℕ} {regions others : List Region}
    (h : Tiles start regions middle) (hothers : Tiles middle others stop) :
    Tiles start (regions ++ others) stop := by
  induction regions generalizing start with
  | nil =>
    have hstart : start = middle := h
    rwa [hstart]
  | cons region regions ih => exact ⟨h.1, ih h.2⟩

/-! ## The layout of an archive -/

/-- The fields that all members share. -/
structure Stamp where
  madeBy : ℕ
  needed : ℕ
  flags : ℕ
  time : ℕ
  date : ℕ

/-- A member to be stored, with its check. -/
structure Stored where
  name : List UInt8
  content : List UInt8
  crc : ℕ

/-- What a reader is to find. -/
def Stored.member (entry : Stored) : Member :=
  ⟨entry.name, 0, entry.crc, entry.content.length, entry.content.length, entry.content⟩

/-- The local header. -/
def localFields (stamp : Stamp) (entry : Stored) : List Field :=
  [(4, 0x04034b50), (2, stamp.needed), (2, stamp.flags), (2, 0), (2, stamp.time), (2, stamp.date),
    (4, entry.crc), (4, entry.content.length), (4, entry.content.length), (2, entry.name.length),
    (2, 0)]

/-- The central header of a member that starts at an offset. -/
def centralFields (stamp : Stamp) (offset : ℕ) (entry : Stored) : List Field :=
  [(4, 0x02014b50), (2, stamp.madeBy), (2, stamp.needed), (2, stamp.flags), (2, 0),
    (2, stamp.time), (2, stamp.date), (4, entry.crc), (4, entry.content.length),
    (4, entry.content.length), (2, entry.name.length), (2, 0), (2, 0), (2, 0), (2, 0), (4, 0),
    (4, offset)]

/-- The end-of-central-directory record. -/
def endFields (count centralLength centralOffset : ℕ) : List Field :=
  [(4, 0x06054b50), (2, 0), (2, 0), (2, count), (2, count), (4, centralLength),
    (4, centralOffset), (2, 0)]

/-- A member behind its local header. -/
def localPart (stamp : Stamp) (entry : Stored) : List UInt8 :=
  writeFields (localFields stamp entry) ++ entry.name ++ entry.content

/-- The central header of a member with its name. -/
def centralPart (stamp : Stamp) (offset : ℕ) (entry : Stored) : List UInt8 :=
  writeFields (centralFields stamp offset entry) ++ entry.name

/-- The members behind each other. -/
def localParts (stamp : Stamp) (entries : List Stored) : List UInt8 :=
  entries.flatMap (localPart stamp)

/-- The central directory of members that start at an offset. -/
def centralParts (stamp : Stamp) : ℕ → List Stored → List UInt8
  | _, [] => []
  | offset, entry :: entries => centralPart stamp offset entry ++
      centralParts stamp (offset + (localPart stamp entry).length) entries

/-- A whole archive. -/
def archive (stamp : Stamp) (entries : List Stored) : List UInt8 :=
  localParts stamp entries ++ centralParts stamp 0 entries ++
    writeFields (endFields entries.length (centralParts stamp 0 entries).length
      (localParts stamp entries).length)

/-- All values fit in their fields. -/
structure Stamp.Fits (stamp : Stamp) : Prop where
  madeBy : stamp.madeBy < 65536
  needed : stamp.needed < 65536
  flags : stamp.flags < 65536
  time : stamp.time < 65536
  date : stamp.date < 65536

/-- A name and a check that fit in their fields. -/
structure Stored.Fits (entry : Stored) : Prop where
  name : entry.name.length < 65536
  crc : entry.crc < 4294967296

section Reading

variable {stamp : Stamp}

/-- The size of a local header with its content. -/
@[simp]
theorem length_localPart (entry : Stored) :
    (localPart stamp entry).length = 30 + entry.name.length + entry.content.length := by
  rw [localPart, List.length_append, List.length_append, length_writeFields]
  rfl

/-- The central directory of members from an offset on. -/
def centralEntries (stamp : Stamp) : ℕ → List Stored → List CentralEntry
  | _, [] => []
  | offset, entry :: entries =>
    ⟨stamp.flags, 0, entry.crc, entry.content.length, entry.content.length, entry.name, offset⟩ ::
      centralEntries stamp (offset + (localPart stamp entry).length) entries

/-- The regions of members from an offset on. -/
def localRegions (stamp : Stamp) : ℕ → List Stored → List Region
  | _, [] => []
  | offset, entry :: entries => (offset, (localPart stamp entry).length) ::
      localRegions stamp (offset + (localPart stamp entry).length) entries

/-- The local parts start with that of the first entry. -/
theorem localParts_cons (entry : Stored) (entries : List Stored) :
    localParts stamp (entry :: entries) = localPart stamp entry ++ localParts stamp entries :=
  List.flatMap_cons

/-- The regions of the local parts tile them. -/
theorem tiles_localRegions (stamp : Stamp) (offset : ℕ) (entries : List Stored) :
    Tiles offset (localRegions stamp offset entries)
      (offset + (localParts stamp entries).length) := by
  induction entries generalizing offset with
  | nil => exact (Nat.add_zero offset).symm
  | cons entry entries ih =>
    refine ⟨rfl, ?_⟩
    have hrest := ih (offset + (localPart stamp entry).length)
    rwa [Nat.add_assoc offset, ← List.length_append, ← localParts_cons] at hrest

/-- The central directory is read back. -/
theorem readCentral_centralParts (hstamp : stamp.Fits) (offset : ℕ) {entries : List Stored}
    (hentries : ∀ entry ∈ entries, entry.Fits)
    (hsize : offset + (localParts stamp entries).length < 4294967296) :
    readCentral entries.length (centralParts stamp offset entries) =
      some (centralEntries stamp offset entries) := by
  induction entries generalizing offset with
  | nil => rfl
  | cons entry entries ih =>
    obtain ⟨hmade, hneeded, hflags, htime, hdate⟩ := hstamp
    obtain ⟨hname, hcrc⟩ := hentries entry List.mem_cons_self
    rw [localParts_cons, List.length_append, length_localPart] at hsize
    have hnext : offset + (localPart stamp entry).length + (localParts stamp entries).length <
        4294967296 := by
      rw [length_localPart]
      omega
    have hrest := ih _ (fun other hother => hentries other (List.mem_cons_of_mem _ hother)) hnext
    have hfits : ∀ field ∈ centralFields stamp offset entry, field.Fits := by
      simp only [centralFields, List.forall_mem_cons, Field.Fits]
      norm_num
      omega
    have hread := readFields_writeFields hfits
      (entry.name ++ centralParts stamp (offset + (localPart stamp entry).length) entries)
    rw [← List.append_assoc] at hread
    change readFields centralWidths _ = _ at hread
    have hlong : entry.name.length ≤ (entry.name ++
        centralParts stamp (offset + (localPart stamp entry).length) entries).length := by
      rw [List.length_append]
      omega
    rw [List.length_cons, centralParts, centralPart, readCentral, hread]
    simp only [centralFields, List.map_cons, List.map_nil, true_and, Nat.add_zero,
      List.drop_left, List.take_left, hrest, centralEntries]
    rw [if_pos hlong]

/-- A member is read back at its offset. -/
theorem readMember_localPart (hstamp : stamp.Fits) {bytes rest : List UInt8} {offset : ℕ}
    {entry : Stored} (hentry : entry.Fits) (hsize : entry.content.length < 4294967296)
    (hbytes : bytes.drop offset = localPart stamp entry ++ rest) :
    readMember bytes ⟨stamp.flags, 0, entry.crc, entry.content.length, entry.content.length,
        entry.name, offset⟩ =
      some (entry.member, (offset, (localPart stamp entry).length)) := by
  obtain ⟨hmade, hneeded, hflags, htime, hdate⟩ := hstamp
  obtain ⟨hname, hcrc⟩ := hentry
  have hfits : ∀ field ∈ localFields stamp entry, field.Fits := by
    simp only [localFields, List.forall_mem_cons, Field.Fits]
    norm_num
    omega
  have hread := readFields_writeFields hfits (entry.name ++ (entry.content ++ rest))
  change readFields localWidths _ = _ at hread
  have hlong : entry.name.length + entry.content.length ≤
      (entry.name ++ (entry.content ++ rest)).length := by
    rw [List.length_append, List.length_append]
    omega
  rw [length_localPart, readMember, hbytes, localPart, List.append_assoc, List.append_assoc, hread]
  simp only [localFields, List.map_cons, List.map_nil, List.take_left, List.drop_left,
    Nat.add_zero, true_and, and_true]
  rw [if_pos hlong, Stored.member]

/-- The members are read back one after another. -/
theorem mapM_readMember (hstamp : stamp.Fits) {bytes rest : List UInt8} (offset : ℕ)
    {entries : List Stored} (hentries : ∀ entry ∈ entries, entry.Fits)
    (hsize : (localParts stamp entries).length < 4294967296)
    (hbytes : bytes.drop offset = localParts stamp entries ++ rest) :
    (centralEntries stamp offset entries).mapM (readMember bytes) =
      some ((entries.map Stored.member).zip (localRegions stamp offset entries)) := by
  induction entries generalizing offset with
  | nil => rfl
  | cons entry entries ih =>
    rw [localParts_cons, List.length_append, length_localPart] at hsize
    rw [localParts_cons, List.append_assoc] at hbytes
    have hentry := readMember_localPart hstamp (hentries entry List.mem_cons_self) (by omega) hbytes
    have hdrop : bytes.drop (offset + (localPart stamp entry).length) =
        localParts stamp entries ++ rest := by
      rw [← List.drop_drop, hbytes, List.drop_left]
    have hrest := ih _ (fun other hother => hentries other (List.mem_cons_of_mem _ hother))
      (by omega) hdrop
    rw [centralEntries, List.mapM_cons, hentry, hrest]
    rfl

/-- There is a region for each entry. -/
theorem length_localRegions (offset : ℕ) (entries : List Stored) :
    (localRegions stamp offset entries).length = entries.length := by
  induction entries generalizing offset with
  | nil => rfl
  | cons entry entries ih => rw [localRegions, List.length_cons, List.length_cons, ih]

/-- The size of the central directory. -/
theorem length_centralParts (offset : ℕ) (entries : List Stored) :
    (centralParts stamp offset entries).length =
      (entries.map fun entry => 46 + entry.name.length).sum := by
  induction entries generalizing offset with
  | nil => rfl
  | cons entry entries ih =>
    have hfields : (writeFields (centralFields stamp offset entry)).length = 46 := by
      simp [length_writeFields, centralFields]
    rw [centralParts, List.length_append, ih, centralPart, List.length_append, hfields,
      List.map_cons, List.sum_cons]

/-- How long an archive of members with bounded names is. -/
theorem length_archive_le (stamp : Stamp) {entries : List Stored} {limit : ℕ}
    (h : ∀ entry ∈ entries, entry.name.length ≤ limit) :
    (archive stamp entries).length ≤ (entries.map fun entry => entry.content.length).sum +
      entries.length * (76 + 2 * limit) + 22 := by
  have hparts : (localParts stamp entries).length +
      (entries.map fun entry => 46 + entry.name.length).sum ≤
      (entries.map fun entry => entry.content.length).sum + entries.length * (76 + 2 * limit) := by
    induction entries with
    | nil => simp [localParts]
    | cons entry entries ih =>
      have hentry := h entry List.mem_cons_self
      have hrest := ih fun other hother => h other (List.mem_cons_of_mem _ hother)
      rw [localParts_cons, List.length_append, length_localPart, List.map_cons, List.sum_cons,
        List.map_cons, List.sum_cons, List.length_cons, Nat.succ_mul]
      omega
  have hend : (writeFields (endFields entries.length (centralParts stamp 0 entries).length
      (localParts stamp entries).length)).length = 22 := by
    rw [length_writeFields]
    rfl
  rw [archive, List.length_append, List.length_append, hend, length_centralParts]
  omega

/-- The end record is found where it was written. -/
theorem findEnd_of_readEnd {bytes : List UInt8} {position : ℕ} {record : EndRecord}
    (h : readEnd bytes position = some record) :
    findEnd bytes position = some (position, record) := by
  cases position with
  | zero => rw [findEnd, h, Option.map_some]
  | succ position => rw [findEnd, h]

/-- How an archive without a comment is read. -/
theorem read_eq {bytes : List UInt8} {record : EndRecord} {entries : List CentralEntry}
    {found : List (Member × Region)} (hrecord : readEnd bytes (bytes.length - 22) = some record)
    (hwithin : record.centralOffset + record.centralLength ≤ bytes.length - 22)
    (hcentral : readCentral record.count
      ((bytes.drop record.centralOffset).take record.centralLength) = some entries)
    (hfound : entries.mapM (readMember bytes) = some found) :
    read bytes = some ⟨found.map Prod.fst, found.map Prod.snd ++
      [(record.centralOffset, record.centralLength),
        (bytes.length - 22, 22 + record.commentLength)]⟩ := by
  have hend := findEnd_of_readEnd hrecord
  unfold read
  simp only [hend, if_pos hwithin, hcentral, hfound]

/-- An archive whose values fit in their fields is read back: its members in order, in
regions that cover it exactly. -/
theorem read_archive (hstamp : stamp.Fits) {entries : List Stored}
    (hentries : ∀ entry ∈ entries, entry.Fits) (hcount : entries.length < 65536)
    (hsize : (archive stamp entries).length < 4294967296) :
    ∃ regions, read (archive stamp entries) = some ⟨entries.map Stored.member, regions⟩ ∧
      Tiles 0 regions (archive stamp entries).length := by
  have hend : (writeFields (endFields entries.length (centralParts stamp 0 entries).length
      (localParts stamp entries).length)).length = 22 := by
    rw [length_writeFields]
    rfl
  have hlength : (archive stamp entries).length = (localParts stamp entries).length +
      (centralParts stamp 0 entries).length + 22 := by
    rw [archive, List.length_append, List.length_append, hend]
  rw [hlength] at hsize
  have hfits : ∀ field ∈ endFields entries.length (centralParts stamp 0 entries).length
      (localParts stamp entries).length, field.Fits := by
    simp only [endFields, List.forall_mem_cons, Field.Fits]
    norm_num
    omega
  have hread := readFields_writeFields hfits []
  change readFields endWidths _ = _ at hread
  rw [List.append_nil] at hread
  have hposition : (archive stamp entries).length - 22 =
      (localParts stamp entries ++ centralParts stamp 0 entries).length := by
    rw [List.length_append]
    omega
  have hrecord : readEnd (archive stamp entries) ((archive stamp entries).length - 22) =
      some ⟨entries.length, (centralParts stamp 0 entries).length,
        (localParts stamp entries).length, 0⟩ := by
    rw [readEnd, hposition, archive, List.drop_left, hread]
    simp only [endFields, List.map_cons, List.map_nil, List.length_nil, and_self, if_true]
  have hcentral : ((archive stamp entries).drop (localParts stamp entries).length).take
      (centralParts stamp 0 entries).length = centralParts stamp 0 entries := by
    rw [archive, List.append_assoc, List.drop_left, List.take_left]
  have hmembers := mapM_readMember hstamp 0 hentries (by omega)
    (show (archive stamp entries).drop 0 = localParts stamp entries ++
      (centralParts stamp 0 entries ++
      writeFields (endFields entries.length (centralParts stamp 0 entries).length
        (localParts stamp entries).length)) by rw [archive, List.append_assoc, List.drop_zero])
  have hcount' : (entries.map Stored.member).length = (localRegions stamp 0 entries).length := by
    rw [List.length_map, length_localRegions]
  have hdirectory := readCentral_centralParts hstamp 0 hentries (by omega)
  have hwithin : (localParts stamp entries).length + (centralParts stamp 0 entries).length ≤
      (archive stamp entries).length - 22 := by omega
  have hread : read (archive stamp entries) = some ⟨entries.map Stored.member,
      localRegions stamp 0 entries ++ [((localParts stamp entries).length,
        (centralParts stamp 0 entries).length),
        ((archive stamp entries).length - 22, 22 + 0)]⟩ := by
    rw [← hcentral] at hdirectory
    rw [read_eq hrecord hwithin hdirectory hmembers]
    dsimp only
    rw [List.map_fst_zip hcount'.le, List.map_snd_zip hcount'.ge]
  have htail : Tiles (localParts stamp entries).length [((localParts stamp entries).length,
      (centralParts stamp 0 entries).length), ((archive stamp entries).length - 22, 22 + 0)]
      (archive stamp entries).length := by
    rw [Tiles, Tiles, Tiles, hlength]
    refine ⟨rfl, ?_, ?_⟩
    · dsimp only
      omega
    · rfl
  have hregions := tiles_localRegions stamp 0 entries
  rw [Nat.zero_add] at hregions
  exact ⟨_, hread, hregions.append htail⟩

end Reading

end Moonfort.Zip
