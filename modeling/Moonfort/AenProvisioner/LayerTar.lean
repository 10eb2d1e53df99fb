import Moonfort.AenProvisioner.SnapshotWalk
import Moonfort.MoonBit.StandardCrypto
import Mathlib.Tactic.Ring

/-!
# The layer archive read back

Which layers of accepted workspaces a ustar reader reads back as the items of the
workspace, and which paths `tar_name` refuses although a split exists.
-/

namespace Moonfort.AenProvisioner

open DirectoryTree MoonBit Ustar

/-! ## Octal fields -/

/-- The octal loop writes as many digits as it is asked for. -/
@[simp]
theorem length_octalLoop (count value : ℕ) : (octalLoop count value).length = count := by
  induction count generalizing value with
  | zero => rfl
  | succ count ih => rw [octalLoop, List.length_append, ih, List.length_singleton]

/-- The code of an octal digit. -/
theorem toNat_octalDigit (value : ℕ) : (48 + UInt8.ofNat (value % 8)).toNat = 48 + value % 8 := by
  have hdigit : (UInt8.ofNat (value % 8)).toNat = value % 8 := by
    rw [UInt8.toNat_ofNat']
    omega
  rw [UInt8.toNat_add, hdigit]
  change (48 + value % 8) % 256 = _
  omega

/-- The octal loop writes octal digits. -/
theorem isOctalDigit_octalLoop (count value : ℕ) :
    ∀ digit ∈ octalLoop count value, isOctalDigit digit = true := by
  induction count generalizing value with
  | zero =>
    intro digit hdigit
    cases hdigit
  | succ count ih =>
    intro digit hdigit
    rw [octalLoop, List.mem_append, List.mem_singleton] at hdigit
    obtain hdigit | rfl := hdigit
    · exact ih _ digit hdigit
    · have hnat := toNat_octalDigit value
      rw [isOctalDigit, Bool.and_eq_true, decide_eq_true_eq, decide_eq_true_eq,
        UInt8.le_iff_toNat_le, UInt8.le_iff_toNat_le, hnat]
      change 48 ≤ 48 + value % 8 ∧ 48 + value % 8 ≤ 55
      omega

/-- One more digit multiplies the value by eight. -/
theorem octalValue_append_singleton (digits : List UInt8) (digit : UInt8) :
    octalValue (digits ++ [digit]) = 8 * octalValue digits + (digit.toNat - 48) := by
  rw [octalValue, List.foldl_append, List.foldl_cons, List.foldl_nil, ← octalValue]

/-- The digits say the number up to their count. -/
theorem octalValue_octalLoop (count value : ℕ) :
    octalValue (octalLoop count value) = value % 8 ^ count := by
  induction count generalizing value with
  | zero => rw [octalLoop, pow_zero, Nat.mod_one]; rfl
  | succ count ih =>
    rw [octalLoop, octalValue_append_singleton, ih, toNat_octalDigit, pow_succ, Nat.mul_comm _ 8,
      Nat.mod_mul]
    omega

/-- A leading zero keeps the value. -/
theorem octalValue_zero_cons (digits : List UInt8) :
    octalValue (48 :: digits) = octalValue digits :=
  rfl

/-- A numeric field has the length it is asked for. -/
theorem length_tarOctal {length : ℕ} (hlength : 2 ≤ length) (value : ℕ) :
    (tarOctal length value).length = length := by
  rw [tarOctal, List.length_append, List.length_cons, length_octalLoop, List.length_singleton]
  omega

/-- A number is read back up to the digits that are written. -/
theorem readOctal_tarOctal (length value : ℕ) :
    readOctal (tarOctal length value) = some (value % 8 ^ (length - 2)) := by
  have hdigits : ∀ digit ∈ 48 :: octalLoop (length - 2) value, isOctalDigit digit = true := by
    rw [List.forall_mem_cons]
    exact ⟨by decide, isOctalDigit_octalLoop _ _⟩
  rw [tarOctal, readOctal_append hdigits (List.cons_ne_nil _ _) (.inl rfl), octalValue_zero_cons,
    octalValue_octalLoop]

/-- The checksum field reads back. -/
theorem readOctal_checksumField (checksum : ℕ) (h : checksum < 8 ^ 6) :
    readOctal (checksumField checksum) = some checksum := by
  have hne : octalLoop 6 checksum ≠ [] := by
    rw [← List.length_pos_iff, length_octalLoop]
    omega
  rw [checksumField, readOctal_append (isOctalDigit_octalLoop _ _) hne (.inl rfl),
    octalValue_octalLoop, Nat.mod_eq_of_lt h]

/-! ## Headers -/

/-- A padded field has its width. -/
theorem length_field {width : ℕ} {text : List UInt8} (h : text.length ≤ width) :
    (field width text).length = width := by
  rw [field, List.length_append, length_zeros]
  omega

/-- The sum of bytes is at most 255 for each of them. -/
theorem byteSum_le (bytes : List UInt8) : byteSum bytes ≤ 255 * bytes.length := by
  induction bytes with
  | nil => rfl
  | cons byte rest ih =>
    have hbyte := byte.toNat_lt
    rw [byteSum, List.map_cons, List.sum_cons, List.length_cons, ← byteSum]
    omega

/-- A header has 512 bytes. -/
theorem length_headerBytes {name start checksum : List UInt8} (hname : name.length ≤ 100)
    (hstart : start.length ≤ 155) (hchecksum : checksum.length = 8) (size : ℕ) (directory : Bool) :
    (headerBytes name start size directory checksum).length = 512 := by
  simp [headerBytes, length_field hname, length_field hstart, hchecksum, length_tarOctal]

/-- The checksum field has eight bytes. -/
theorem length_checksumField (checksum : ℕ) : (checksumField checksum).length = 8 := by
  rw [checksumField, List.length_append, length_octalLoop]
  rfl

/-- What a reader finds in a header. -/
theorem readHeader_headerBytes {name start : List UInt8} (hname : name.length ≤ 100)
    (hstart : start.length ≤ 155) (hname0 : 0 ∉ name) (hstart0 : 0 ∉ start) (size : ℕ)
    (directory : Bool) :
    readHeader (headerBytes name start size directory (checksumField (byteSum
      (headerBytes name start size directory (List.replicate 8 32))))) =
      some (joinPath start name, if directory then .directory else .regular, size % 8 ^ 10) := by
  have hlength := length_headerBytes hname hstart
    (List.length_replicate (n := 8) (a := (32 : UInt8))) size directory
  have hsum := byteSum_le (headerBytes name start size directory (List.replicate 8 32))
  have hchecksum := readOctal_checksumField
    (byteSum (headerBytes name start size directory (List.replicate 8 32))) (by omega)
  unfold headerBytes at hchecksum ⊢
  rw [readHeader_flatten _ hchecksum]
  · have hsize := readOctal_tarOctal 12 size
    have htexts : readText (field 155 start) = start ∧ readText (field 100 name) = name :=
      ⟨readText_append_zeros hstart0 _, readText_append_zeros hname0 _⟩
    rw [hsize, htexts.1, htexts.2]
    cases directory <;> rfl
  · simp [length_field hname, length_field hstart, length_tarOctal, length_checksumField, widths]

/-- A header is no block of zeros. -/
theorem headerBytes_ne_zeros {name start checksum : List UInt8} {size : ℕ} {directory : Bool} :
    headerBytes name start size directory checksum ≠ zeros 512 := by
  intro h
  have hmem : (117 : UInt8) ∈ headerBytes name start size directory checksum := by
    simp [headerBytes]
  rw [h] at hmem
  exact absurd (List.eq_of_mem_replicate hmem) (by decide)

/-! ## The split of a path -/

/-- Some slash splits a path into a prefix and a name that fit in a header. -/
def Splits (path : Path) : Prop :=
  ∃ i, path[i]? = some 47 ∧ i ≤ 155 ∧ i + 1 < path.length ∧ path.length - (i + 1) ≤ 100

/-- The slash that leaves a name of 100 bytes is the only one that splits a path of more than
100 bytes. -/
def SplitsOnlyAtHundred (path : Path) : Prop :=
  100 < path.length ∧ path[path.length - 101]? = some 47 ∧
    ∀ i, path.length - 100 ≤ i → i ≤ 155 → path[i]? ≠ some 47

/-- Where the search of `tar_name` stops. -/
theorem findIdx_slash (path : Path) (start : ℕ) (hstart : start ≤ path.length) :
    start + (path.drop start).findIdx (· == 47) ≤ path.length ∧
      (path[start + (path.drop start).findIdx (· == 47)]? = some 47 ∨
        start + (path.drop start).findIdx (· == 47) = path.length) ∧
      ∀ i, start ≤ i → i < start + (path.drop start).findIdx (· == 47) → path[i]? ≠ some 47 := by
  have hle : (path.drop start).findIdx (· == 47) ≤ (path.drop start).length :=
    List.findIdx_le_length
  rw [List.length_drop] at hle
  refine ⟨by omega, ?_, ?_⟩
  · obtain hlt | heq := hle.lt_or_eq
    · left
      have hlt' : (path.drop start).findIdx (· == 47) < (path.drop start).length := by
        rw [List.length_drop]
        exact hlt
      have hget : ((path.drop start)[(path.drop start).findIdx (· == 47)] == 47) = true :=
        List.findIdx_getElem (w := hlt')
      rw [← List.getElem?_drop, List.getElem?_eq_getElem hlt', eq_of_beq hget]
    · right
      omega
  · intro i hi hlt hslash
    have hindex : i - start < (path.drop start).findIdx (· == 47) := by omega
    have hnot := List.not_of_lt_findIdx hindex
    have hget : (path.drop start)[i - start]? = some 47 := by
      rw [List.getElem?_drop, Nat.add_sub_cancel' hi]
      exact hslash
    obtain ⟨hbound, hvalue⟩ := List.getElem?_eq_some_iff.mp hget
    rw [hvalue] at hnot
    cases hnot

/-- What `tar_name` says of a path of more than 100 bytes and at most 255. -/
theorem tarName_eq_none_iff {path : Path} (hlong : 100 < path.length) (hshort : path.length ≤ 255) :
    tarName path = none ↔ ∀ i, path.length - 100 ≤ i → i ≤ 155 → path[i]? ≠ some 47 := by
  obtain ⟨hle, hstop, hbefore⟩ := findIdx_slash path (path.length - 100) (by omega)
  have hge := Nat.le_add_right (path.length - 100)
    ((path.drop (path.length - 100)).findIdx (· == 47))
  rw [tarName, if_neg (by omega), if_neg (by omega)]
  dsimp only
  generalize path.length - 100 + (path.drop (path.length - 100)).findIdx (· == 47) = split at *
  constructor
  · intro h i hi hi' hslash
    have hle' : split ≤ i := by
      by_contra hlt
      exact hbefore i hi (by omega) hslash
    have hfound : path[split]? = some 47 := by
      obtain hsplit | hend := hstop
      · exact hsplit
      · have hnone : path[i]? = none := List.getElem?_eq_none (by omega)
        rw [hnone] at hslash
        cases hslash
    rw [if_neg] at h
    · cases h
    · rintro (hne | hfar | hname)
      · exact hne hfound
      · omega
      · omega
  · intro h
    rw [if_pos]
    by_cases hfar : 155 < split
    · exact .inr (.inl hfar)
    · exact .inl (h split hge (by omega))

/-- `tar_name` refuses a path that some slash splits just when the only such slash leaves a
name of 100 bytes. -/
theorem tarName_refuses_iff {path : Path} (hshort : path.length ≤ 255) :
    (tarName path = none → ¬ Splits path) ↔ ¬ SplitsOnlyAtHundred path := by
  by_cases hlong : 100 < path.length
  · rw [tarName_eq_none_iff hlong hshort]
    constructor
    · rintro h ⟨_, hslash, hnone⟩
      exact h hnone ⟨path.length - 101, hslash, by omega, by omega, by omega⟩
    · rintro h hnone ⟨i, hslash, hi, hname, hlength⟩
      apply h
      have hindex : i = path.length - 101 := by
        by_contra hne
        exact hnone i (by omega) hi hslash
      exact ⟨hlong, hindex ▸ hslash, hnone⟩
  · have hfits : tarName path = some (path, []) := if_pos (by omega)
    constructor
    · rintro _ ⟨hlong', _⟩
      exact hlong hlong'
    · rintro _ hnone
      rw [hfits] at hnone
      cases hnone

/-- The parts of a path that is accepted. -/
theorem tarName_eq_some {path name start : List UInt8} (h : tarName path = some (name, start)) :
    joinPath start name = path ∧ name.length ≤ 100 ∧ start.length ≤ 155 ∧
      (∀ byte ∈ name, byte ∈ path) ∧ ∀ byte ∈ start, byte ∈ path := by
  unfold tarName at h
  split at h
  · next hshort =>
    cases h
    exact ⟨rfl, hshort, by simp, fun _ hbyte => hbyte, by simp⟩
  · split at h
    · cases h
    · next hlong _ =>
      dsimp only at h
      have hge := Nat.le_add_right (path.length - 100)
        ((path.drop (path.length - 100)).findIdx (· == 47))
      generalize path.length - 100 + (path.drop (path.length - 100)).findIdx (· == 47) = split at *
      split at h
      · cases h
      · next hfits =>
        cases h
        simp only [not_or, not_not, not_lt] at hfits
        obtain ⟨hslash, hfar, hname⟩ := hfits
        obtain ⟨hbound, hvalue⟩ := List.getElem?_eq_some_iff.mp hslash
        have hpath : path = path.take split ++ 47 :: path.drop (split + 1) := by
          conv_lhs => rw [← List.take_append_drop split path, List.drop_eq_getElem_cons hbound,
            hvalue]
        have hne : (path.take split).isEmpty = false := by
          rw [List.isEmpty_eq_false_iff, ← List.length_pos_iff, List.length_take]
          omega
        refine ⟨?_, ?_, ?_, fun _ hbyte => List.mem_of_mem_drop hbyte,
          fun _ hbyte => List.mem_of_mem_take hbyte⟩
        · rw [joinPath, hne, if_neg Bool.false_ne_true, ← hpath]
        · rw [List.length_drop]
          exact hname
        · rw [List.length_take]
          omega

/-- A header of `tar_header` says the path, the kind and the size up to ten octal digits. -/
theorem readHeader_tarHeader {path : Path} (hpath : 0 ∉ path) {size : ℕ} {directory : Bool}
    {header : List UInt8} (h : tarHeader path size directory = some header) :
    header.length = 512 ∧ header ≠ zeros 512 ∧
      readHeader header =
        some (path, if directory then .directory else .regular, size % 8 ^ 10) := by
  obtain ⟨⟨name, start⟩, hname, rfl⟩ := Option.map_eq_some_iff.mp h
  obtain ⟨hjoin, hlength, hlength', hmem, hmem'⟩ := tarName_eq_some hname
  refine ⟨length_headerBytes hlength hlength' (length_checksumField _) size directory,
    headerBytes_ne_zeros, ?_⟩
  rw [readHeader_headerBytes hlength hlength' (fun h0 => hpath (hmem 0 h0))
    (fun h0 => hpath (hmem' 0 h0)), hjoin]

/-! ## The layer -/

/-- The member that an item should be. -/
def memberOf (item : Item) : Entry :=
  ⟨item.path, if item.kind == .directory then .directory else .regular, item.kind.content.length,
    item.kind.content⟩

/-- The size of a file fits in the ten octal digits that are written. -/
def SizeFits (item : Item) : Prop := item.kind.content.length < 8 ^ 10

variable {crypto : Crypto} {host : SnapshotHost} {limits : SnapshotLimits}

/-- What accepted items add to the layer, which is read back just when their sizes fit. -/
theorem readEntries_visitItems {items : List Item} (hpaths : ∀ item ∈ items, 0 ∉ item.path)
    {s s' : Snapshot}
    (h : (snapshotWalker crypto host limits).visitItems items s = .ok s') :
    ∃ layer, s'.layer = s.layer ++ layer ∧ items.length ≤ layer.length ∧
      ∀ fuel, items.length < fuel →
        (readEntries fuel (layer ++ zeros 1024) = some (items.map memberOf) ↔
          ∀ item ∈ items, SizeFits item) := by
  induction items generalizing s with
  | nil =>
    cases h
    refine ⟨[], (List.append_nil _).symm, le_rfl, ?_⟩
    rintro (_ | fuel) hfuel
    · cases hfuel
    · simp [readEntries_end]
  | cons item rest ih =>
    rw [Walker.visitItems_cons, Walker.bind_eq_ok] at h
    obtain ⟨first, hfirst, hrest⟩ := h
    obtain ⟨header, hheader, _, _, _, _, rfl⟩ := snapshotEntry_eq_ok hfirst
    obtain ⟨layer, hlayer, hlength, hread⟩ :=
      ih (fun other hother => hpaths other (List.mem_cons_of_mem _ hother)) hrest
    obtain ⟨hheader512, hne, hheader⟩ :=
      readHeader_tarHeader (hpaths item (List.mem_cons_self ..)) hheader
    refine ⟨header ++ itemBody item ++ layer, ?_, ?_, ?_⟩
    · rw [hlayer]
      simp only [List.append_assoc]
    · simp only [List.length_append, List.length_cons]
      omega
    · rintro (_ | fuel) hfuel
      · cases hfuel
      · rw [List.length_cons] at hfuel
        rw [List.forall_mem_cons, List.map_cons, List.append_assoc, List.append_assoc]
        constructor
        · intro hsome
          have hsize := size_of_readEntries hheader512 hne hheader hsome
          have hfits : SizeFits item := by
            rw [SizeFits]
            change item.kind.content.length = _ at hsize
            rw [hsize]
            exact Nat.mod_lt _ (by norm_num)
          refine ⟨hfits, (hread fuel (by omega)).mp ?_⟩
          rw [Nat.mod_eq_of_lt hfits] at hheader
          rw [itemBody, readEntries_member hheader512 hne hheader,
            Option.map_eq_some_iff] at hsome
          obtain ⟨entries, hentries, heq⟩ := hsome
          rw [hentries, (List.cons.inj heq).2]
        · rintro ⟨hfits, hall⟩
          rw [SizeFits] at hfits
          rw [Nat.mod_eq_of_lt hfits] at hheader
          rw [itemBody, readEntries_member hheader512 hne hheader,
            (hread fuel (by omega)).mpr hall]
          rfl

/-- A layer reads back exactly when the size of every item fits into its field. -/
theorem read_layerBytes_iff {tree : Tree} {s : Snapshot}
    (haccepted : snapshotWalk crypto host limits tree = .ok s) :
    Ustar.read s.layerBytes = some (tree.items.map memberOf) ↔
      ∀ item ∈ tree.items, SizeFits item := by
  have hpaths : ∀ item ∈ tree.items, 0 ∉ item.path := by
    intro item hitem h0
    have hcontrol := not_isControl_of_snapshotWalk haccepted item hitem 0 h0
    cases hcontrol
  obtain ⟨_, _, hvisits⟩ := (Walker.walk_eq_ok tree _ _).mp haccepted
  obtain ⟨layer, hlayer, hlength, hread⟩ := readEntries_visitItems hpaths hvisits
  have hbytes : s.layerBytes = layer ++ zeros 1024 := by
    rw [Snapshot.layerBytes, hlayer]
    rfl
  rw [Ustar.read, hbytes]
  apply hread
  rw [List.length_append, length_zeros]
  omega

/-- The layer of an accepted workspace is read back as the items of the workspace just when
the size of each file is below 1 GiB, and `tar_name` refuses no path of at most 255 bytes that
can be split just when the path does not leave a name of exactly 100 bytes at its only split. -/
theorem layer_reads_back_iff (crypto : Crypto) (host : SnapshotHost) (limits : SnapshotLimits)
    (tree : Tree) (s : Snapshot) (haccepted : snapshotWalk crypto host limits tree = .ok s)
    (path : Path) (hpath : path.length ≤ 255) :
    (Ustar.read s.layerBytes = some (tree.items.map memberOf) ↔
      ∀ item ∈ tree.items, SizeFits item) ∧
      ((tarName path = none → ¬ Splits path) ↔ ¬ SplitsOnlyAtHundred path) :=
  ⟨read_layerBytes_iff haccepted, tarName_refuses_iff hpath⟩

/-! ## Samples -/

/-- A workspace whose only file is `f`. -/
def sampleFileTree (content : List UInt8) : Tree where
  entries := [([102], .regular content)]
  wellFormed := by
    apply Node.WellFormed.directory
    · exact List.nodup_singleton _
    · simp only [List.mem_singleton, forall_eq]
      decide
    · simp only [List.mem_singleton, forall_eq]
      exact .regular content

/-- A host on which nothing fails. -/
def sampleSnapshotHost : SnapshotHost := ⟨fun _ names => names, fun _ _ => .rfl, fun _ => none,
  fun _ => none⟩

/-- The largest limits that the service allows. -/
def sampleSnapshotLimits : SnapshotLimits :=
  ⟨2 ^ 40, 2 ^ 40, 1000000, by omega, by omega, by omega⟩

/-- An item with a name and a path that fit is admitted on the sample host. -/
theorem admitted_sample {parent : Path} {name : Name} {kind : DirectoryTree.Kind}
    (hname : refusedName name = none) (hpath : (join parent name).length + 1 ≤ 4096)
    (htar : tarName (join parent name) ≠ none) (hplain : kind.IsPlain)
    (hsize : (kind.content.length : ℤ) ≤ 2 ^ 40) :
    Admitted sampleSnapshotHost sampleSnapshotLimits ⟨parent, name, kind⟩ :=
  ⟨hname, fun _ => rfl, rfl, hplain, hpath, htar, hsize⟩

/-- The only item of a workspace of one file. -/
theorem items_sampleFileTree (content : List UInt8) :
    (sampleFileTree content).items = [⟨[], [102], .regular content⟩] := by
  simp [Tree.items, itemsBelow, sampleFileTree, sortEntries, Node.items]

/-- A workspace of one file is accepted. -/
theorem snapshotWalk_sampleFileTree (content : List UInt8) (hsize : content.length ≤ 2 ^ 40) :
    ∃ s, snapshotWalk Crypto.standard sampleSnapshotHost sampleSnapshotLimits
      (sampleFileTree content) = .ok s := by
  have hsize' : (content.length : ℤ) ≤ 2 ^ 40 := by exact_mod_cast hsize
  apply snapshotWalk_of_admitted Crypto.standard_sized rfl
  · rw [items_sampleFileTree, List.forall_mem_singleton]
    exact admitted_sample (by decide) (by decide) (by decide) trivial hsize'
  · rw [items_sampleFileTree]
    exact Int.ofNat_le.mpr (by decide : 1 ≤ 1000000)
  · rw [items_sampleFileTree, contentBytes, List.map_singleton, List.sum_singleton]
    exact hsize'

/-- A directory of a workspace: an empty file with a name of 50 bytes below a directory with one
of 60 bytes, and `main`. -/
def sampleSources (content : List UInt8) : List (Name × Node) :=
  [(List.replicate 60 97, .directory [(List.replicate 50 98, .regular [])]),
    ([109, 97, 105, 110], .regular content)]

/-- The file with the long path. -/
def sampleLongPath : Path :=
  [115, 114, 99, 47] ++ List.replicate 60 97 ++ 47 :: List.replicate 50 98

/-- A workspace with the file `a` and the directory `src`. -/
def sampleNestedTree (content : List UInt8) : Tree where
  entries := [([97], .regular [120]), ([115, 114, 99], .directory (sampleSources content))]
  wellFormed := by
    refine .directory ?_ ?_ ?_ <;>
      simp only [List.map_cons, List.map_nil, List.forall_mem_cons, List.not_mem_nil, false_implies,
        implies_true, and_true]
    · decide
    · decide
    refine ⟨.regular _, .directory ?_ ?_ ?_⟩ <;>
      simp only [sampleSources, List.map_cons, List.map_nil, List.forall_mem_cons, List.not_mem_nil,
        false_implies, implies_true, and_true]
    · decide
    · decide
    · refine ⟨.directory (List.nodup_singleton _) ?_ ?_, .regular _⟩
      · rw [List.forall_mem_singleton]
        decide
      · rw [List.forall_mem_singleton]
        exact .regular _

/-- The items of the nested workspace. -/
theorem items_sampleNestedTree (content : List UInt8) :
    (sampleNestedTree content).items =
      [⟨[], [97], .regular [120]⟩, ⟨[], [115, 114, 99], .directory⟩,
        ⟨[115, 114, 99], List.replicate 60 97, .directory⟩,
        ⟨[115, 114, 99] ++ 47 :: List.replicate 60 97, List.replicate 50 98, .regular []⟩,
        ⟨[115, 114, 99], [109, 97, 105, 110], .regular content⟩] := by
  have hroot : sortEntries (sampleNestedTree content).entries =
      (sampleNestedTree content).entries := by
    apply List.mergeSort_of_pairwise
    simp only [sampleNestedTree, List.pairwise_pair]
    decide
  have hsources : sortEntries (sampleSources content) = sampleSources content := by
    apply List.mergeSort_of_pairwise
    simp only [sampleSources, List.pairwise_pair]
    decide
  rw [Tree.items, itemsBelow, hroot, sampleNestedTree, List.flatMap_cons, List.flatMap_singleton,
    Node.items_directory, itemsBelow, hsources, sampleSources, List.flatMap_cons,
    List.flatMap_singleton, Node.items_directory, itemsBelow]
  simp [sortEntries, Node.items, join]

/-- The nested workspace is accepted. -/
theorem snapshotWalk_sampleNestedTree (content : List UInt8) (hsize : content.length ≤ 1024) :
    ∃ s, snapshotWalk Crypto.standard sampleSnapshotHost sampleSnapshotLimits
      (sampleNestedTree content) = .ok s := by
  have hsize' : (content.length : ℤ) ≤ 1024 := by exact_mod_cast hsize
  apply snapshotWalk_of_admitted Crypto.standard_sized rfl
  · rw [items_sampleNestedTree]
    simp only [List.forall_mem_cons, List.not_mem_nil, false_implies, implies_true, and_true]
    refine ⟨?_, ?_, ?_, ?_, ?_⟩ <;>
      refine admitted_sample (by decide) (by decide) (by decide) trivial ?_
    iterate 4 decide
    exact hsize'.trans (by decide)
  · rw [items_sampleNestedTree]
    exact Int.ofNat_le.mpr (by decide : 5 ≤ 1000000)
  · rw [items_sampleNestedTree]
    have hbytes : 1 + (0 + (0 + (0 + (content.length + 0)))) ≤ 2 ^ 40 := by omega
    exact Int.ofNat_le.mpr hbytes

/-- A nested workspace is read back, with a path that needs its prefix. -/
theorem layer_reads_back_sample : ∃ s,
    snapshotWalk Crypto.standard sampleSnapshotHost sampleSnapshotLimits
        (sampleNestedTree [104, 105]) = .ok s ∧
      Ustar.read s.layerBytes = some ((sampleNestedTree [104, 105]).items.map memberOf) ∧
      (∃ item ∈ (sampleNestedTree [104, 105]).items, item.path = sampleLongPath) ∧
      100 < sampleLongPath.length ∧ tarName sampleLongPath ≠ none := by
  obtain ⟨s, hs⟩ := snapshotWalk_sampleNestedTree [104, 105] (by decide)
  obtain ⟨hread, hname⟩ := layer_reads_back_iff _ _ _ _ s hs sampleLongPath (by decide)
  have hsplits : Splits sampleLongPath := ⟨64, by decide, by decide, by decide, by decide⟩
  refine ⟨s, hs, hread.mpr ?_, ?_, by decide, fun h => hname.mpr ?_ h hsplits⟩
  · rw [items_sampleNestedTree]
    unfold SizeFits
    decide
  · rw [items_sampleNestedTree]
    exact ⟨_, .tail _ (.tail _ (.tail _ (.head _))), by decide⟩
  · rintro ⟨_, hslash, _⟩
    revert hslash
    decide

/-- A file of 1 GiB is announced as an empty one. -/
theorem layer_misread_sample :
    ¬ ∀ (crypto : Crypto) (host : SnapshotHost) (limits : SnapshotLimits) (tree : Tree)
      (s : Snapshot), snapshotWalk crypto host limits tree = .ok s →
        Ustar.read s.layerBytes = some (tree.items.map memberOf) := by
  intro h
  have hcontent : ∃ content : List UInt8, content.length = 2 ^ 30 :=
    ⟨List.replicate (2 ^ 30) 0, List.length_replicate⟩
  obtain ⟨content, hlength⟩ := hcontent
  obtain ⟨s, hs⟩ := snapshotWalk_sampleFileTree content (by omega)
  have hfits := (read_layerBytes_iff hs).mp (h _ _ _ _ s hs) ⟨[], [102], .regular content⟩ (by
    rw [items_sampleFileTree]
    exact List.mem_singleton_self _)
  rw [SizeFits, Kind.content, hlength] at hfits
  exact absurd hfits (by norm_num)

/-- `d/` and a name of 100 bytes is refused. -/
example : tarName ([100, 47] ++ List.replicate 100 97) = none := by decide +kernel

end Moonfort.AenProvisioner
