import Moonfort.Executor.BundleZip
import Moonfort.Executor.RetentionBrowser

/-!
# Bundles of retained artifacts

`export_retained_bundle`: the manifest and the verified files of a retention as a
stored ZIP archive. What the host answers during one call is a parameter.
-/

namespace Moonfort.Executor

open MoonBit Sandbox

/-- `RetentionBundleManifest`. -/
structure RetentionBundleManifest where
  formatVersion : ℤ
  purpose : String
  binding : RetentionArtifactBinding
  expiresAtMs : Int64
  files : List ScratchEntry
  totalBytes : ℤ

/-- `RetentionBundleManifest::to_json`. -/
def RetentionBundleManifest.toJson (manifest : RetentionBundleManifest) : Json :=
  .object [("format_version", .number manifest.formatVersion),
    ("purpose", .string manifest.purpose), ("binding", manifest.binding.toJson),
    ("expires_at_ms", .string (intText manifest.expiresAtMs.toInt)),
    ("files", .array (manifest.files.map scratchEntryJson)),
    ("total_bytes", .string (intText manifest.totalBytes))]

/-- What the host answers while a bundle is exported. -/
structure BundleReading where
  /-- The record before the files are read. -/
  first : RecordReading
  /-- The file at a path. -/
  artifact : String → RetainedReading
  /-- The record after the files are read. -/
  last : RecordReading

/-- `selected.sort_by((left, right) => left[:].lexical_compare(right[:]))`. -/
def lexicalSort (paths : List String) : List String :=
  paths.mergeSort fun left right => decide (utf16Units left ≤ utf16Units right)

/-- The loop that selects the files of a bundle, with the path before and the bytes
counted so far. -/
def bundleFiles (record : RetentionRecord) (byteLimit : ℤ) :
    Option String → ℤ → List String → Option (List ScratchEntry × ℤ)
  | _, total, [] => some ([], total)
  | previous, total, path :: rest =>
    if !(scratchRelativePathIsSafe path && utf8Length path ≤ 4096 && previous != some path) then
      none
    else
      match record.reviewableFiles.find? fun entry => entry.relativePath == path with
      | none => none
      | some entry =>
        if total + entry.sizeBytes ≤ byteLimit then
          match bundleFiles record byteLimit (some path) (total + entry.sizeBytes) rest with
          | none => none
          | some (files, sum) => some (entry :: files, sum)
        else none

variable {τ : Type}

/-- The entry of one file of a bundle. -/
def bundleArtifact (crypto : Crypto) (lib : RetentionLibrary τ) (host : BundleReading)
    (binding : RetentionArtifactBinding) (config : Deployment) (record : RetentionRecord)
    (file : ScratchEntry) : Option (String × List UInt8) :=
  match verifiedRetainedArtifact crypto lib (host.artifact file.relativePath) binding
      file.relativePath config with
  | none => none
  | some (observed, _, bytes) =>
    if observed = record then some ("artifacts/" ++ file.relativePath, bytes) else none

/-- The entries that `export_retained_bundle` collects; `none` when it raises. -/
def bundleEntries (crypto : Crypto) (lib : RetentionLibrary τ) (host : BundleReading)
    (binding : RetentionArtifactBinding) (paths : List String) (config : Deployment) :
    Option (List (String × List UInt8)) :=
  if ¬ (0 < paths.length ∧ paths.length ≤ 200) then none
  else
    match boundArtifactRecord lib host.first binding config with
    | none => none
    | some record =>
      match bundleFiles record (retainedArtifactByteLimit config) none 0 (lexicalSort paths) with
      | none => none
      | some (files, total) =>
        let manifest : RetentionBundleManifest :=
          { formatVersion := 1
            purpose := "Review copy only; not approval or promotion"
            binding := binding
            expiresAtMs := Int64.ofInt record.expiresAtMs
            files := files
            totalBytes := total }
        match files.mapM (bundleArtifact crypto lib host binding config record) with
        | none => none
        | some artifacts =>
          if boundArtifactRecord lib host.last binding config = some record then
            some (("manifest.json", utf8Encode (manifest.toJson.stringify ++ "\n")) :: artifacts)
          else none

/-- `export_retained_bundle`; `none` when the call raises. -/
def exportRetainedBundle (crypto : Crypto) (lib : RetentionLibrary τ) (host : BundleReading)
    (binding : RetentionArtifactBinding) (paths : List String) (config : Deployment) :
    Option (List UInt8) :=
  (bundleEntries crypto lib host binding paths config).map bundleZip

/-! ## The selected files -/

variable {record : RetentionRecord}

/-- The selected files are entries of the record, one for each path in order, and
together within the limit. -/
theorem bundleFiles_eq_some {byteLimit total sum : ℤ}
    {previous : Option String} {paths : List String} {files : List ScratchEntry}
    (h : bundleFiles record byteLimit previous total paths = some (files, sum)) :
    files.map ScratchEntry.relativePath = paths ∧
      (∀ file ∈ files, record.reviewableFiles.find?
        (fun entry => entry.relativePath == file.relativePath) = some file ∧
        utf8Length file.relativePath ≤ 4096) ∧
      sum = total + (files.map ScratchEntry.sizeBytes).sum ∧ (files ≠ [] → sum ≤ byteLimit) ∧
      (previous.toList ++ paths).IsChain (· ≠ ·) := by
  induction paths generalizing previous total files with
  | nil =>
    rw [bundleFiles, Option.some.injEq, Prod.mk.injEq] at h
    obtain ⟨rfl, rfl⟩ := h
    refine ⟨rfl, fun file hfile => absurd hfile List.not_mem_nil, (add_zero _).symm,
      fun hne => absurd rfl hne, ?_⟩
    cases previous with
    | none => exact List.IsChain.nil
    | some path => exact List.IsChain.singleton path
  | cons path rest ih =>
    unfold bundleFiles at h
    split at h
    next => cases h
    next hpath =>
      simp only [Bool.not_eq_true', Bool.not_eq_false, Bool.and_eq_true, decide_eq_true_eq,
        bne_iff_ne] at hpath
      split at h
      next => cases h
      next entry hentry =>
        have hname : entry.relativePath = path := by
          have hfound := List.find?_some hentry
          exact beq_iff_eq.mp hfound
        split at h
        next hlimit =>
          split at h
          next => cases h
          next others rest' hrest =>
            cases h
            obtain ⟨hnames, hfiles, hsum, hwithin, hchain⟩ := ih hrest
            refine ⟨?_, ?_, ?_, ?_, ?_⟩
            · rw [List.map_cons, hnames, hname]
            · intro file hfile
              obtain rfl | hmem := List.mem_cons.mp hfile
              · rw [hname]
                exact ⟨hentry, hpath.1.2⟩
              · exact hfiles file hmem
            · rw [List.map_cons, List.sum_cons, hsum]
              ring
            · intro _
              cases others with
              | nil =>
                rw [List.map_nil, List.sum_nil, add_zero] at hsum
                rwa [hsum]
              | cons other others => exact hwithin (List.cons_ne_nil _ _)
            · cases previous with
              | none => exact hchain
              | some last =>
                refine List.IsChain.cons_cons ?_ hchain
                rintro rfl
                exact hpath.2 rfl
        next => cases h

/-- Sorted paths of which no two neighbours are equal are all different. -/
theorem nodup_of_sorted {paths : List String}
    (hsorted : paths.Pairwise fun left right => utf16Units left ≤ utf16Units right)
    (h : paths.IsChain (· ≠ ·)) : paths.Nodup := by
  induction paths with
  | nil => exact List.nodup_nil
  | cons path rest ih =>
    obtain ⟨hfirst, hrest⟩ := List.pairwise_cons.mp hsorted
    rw [List.nodup_cons]
    refine ⟨?_, ih hrest h.tail⟩
    intro hmem
    cases rest with
    | nil => exact List.not_mem_nil hmem
    | cons next rest =>
      have hne : path ≠ next := h.rel_head? rfl
      have hle : utf16Units path ≤ utf16Units next := hfirst next List.mem_cons_self
      have hge : utf16Units next ≤ utf16Units path := by
        obtain heq | hlater := List.mem_cons.mp hmem
        · exact absurd heq hne
        · exact (List.pairwise_cons.mp hrest).1 path hlater
      exact hne (utf16Units_inj (le_antisymm hle hge))

/-- Sorted paths ascend by their UTF-16 units. -/
theorem pairwise_lexicalSort (paths : List String) :
    (lexicalSort paths).Pairwise fun left right => utf16Units left ≤ utf16Units right := by
  have htrans : ∀ a b c : String, decide (utf16Units a ≤ utf16Units b) = true →
      decide (utf16Units b ≤ utf16Units c) = true →
      decide (utf16Units a ≤ utf16Units c) = true := by
    intro a b c hab hbc
    rw [decide_eq_true_eq] at hab hbc ⊢
    exact le_trans hab hbc
  have htotal : ∀ a b : String, (decide (utf16Units a ≤ utf16Units b) ||
      decide (utf16Units b ≤ utf16Units a)) = true := by
    intro a b
    rw [Bool.or_eq_true, decide_eq_true_eq, decide_eq_true_eq]
    exact le_total _ _
  exact (List.pairwise_mergeSort htrans htotal paths).imp fun hle => of_decide_eq_true hle

/-! ## The manifest -/

/-- A file whose fields are bounded takes a bounded part of the manifest. -/
theorem size_scratchEntryJson_le {entry : ScratchEntry}
    (hpath : utf8Length entry.relativePath ≤ 4096)
    (hsize : 0 ≤ entry.sizeBytes ∧ entry.sizeBytes ≤ 16777216)
    (hfingerprint : sha256Digest entry.fingerprint = true) :
    (scratchEntryJson entry).size ≤ 25000 := by
  have hpathText := quotedSize_le entry.relativePath
  have hsizeText : quotedSize (intText entry.sizeBytes) ≤ 8 + 2 :=
    quotedSize_intText_le (by decide) hsize.1 (by omega)
  have hfingerprintText := quotedSize_le_of_sha256Digest hfingerprint
  have hkind : (scratchEntryKindJson entry.kind).size ≤ 20 := by
    cases entry.kind <;> decide
  have hkeys : (["relative_path", "kind", "size_bytes", "fingerprint"].map quotedSize) =
      [15, 6, 12, 13] := by decide
  simp only [List.map_cons, List.map_nil, List.cons.injEq, and_true] at hkeys
  rw [scratchEntryJson, Json.size_object]
  simp only [membersSize_cons, membersSize_nil, Json.size_string]
  omega

variable {binding : RetentionArtifactBinding}

/-- The manifest of at most 200 files whose fields are bounded. -/
theorem size_manifest_le (expires : Int64)
    {files : List ScratchEntry} {total : ℤ}
    (hbinding : safeIdentifier binding.retentionId = true ∧
      safeIdentifier binding.workspaceId = true ∧
      sha256Digest binding.approvalDigest = true ∧ sha256Digest binding.commandDigest = true)
    (hversion : binding.protocolVersion = 1) (hcount : files.length ≤ 200)
    (hfiles : ∀ file ∈ files, utf8Length file.relativePath ≤ 4096 ∧
      (0 ≤ file.sizeBytes ∧ file.sizeBytes ≤ 16777216) ∧ sha256Digest file.fingerprint = true)
    (htotal : 0 ≤ total ∧ total ≤ 16777216) :
    (RetentionBundleManifest.mk 1 "Review copy only; not approval or promotion" binding
      expires files total).toJson.size ≤ 5100000 := by
  obtain ⟨hretention, hworkspace, happroval, hcommand⟩ := hbinding
  have hretention' := quotedSize_le_of_safeIdentifier hretention
  have hworkspace' := quotedSize_le_of_safeIdentifier hworkspace
  have happroval' := quotedSize_le_of_sha256Digest happroval
  have hcommand' := quotedSize_le_of_sha256Digest hcommand
  have hnumber : (Json.number 1).size = 1 := by decide
  have hpurpose : quotedSize "Review copy only; not approval or promotion" ≤ 50 := by
    decide
  have hexpires : quotedSize (intText expires.toInt) ≤ 19 + 3 := by
    have hlow := expires.le_toInt
    have hhigh := expires.toInt_lt
    apply quotedSize_intText_le_of_natAbs (by decide)
    omega
  have htotalText : quotedSize (intText total) ≤ 8 + 2 :=
    quotedSize_intText_le (by decide) htotal.1 (by omega)
  have hitems : itemsSize (files.map scratchEntryJson) ≤ files.length * 25001 := by
    clear hcount
    induction files with
    | nil => exact Nat.le_refl _
    | cons file files ih =>
      obtain ⟨hpath, hsize, hfingerprint⟩ := hfiles file List.mem_cons_self
      have hfile := size_scratchEntryJson_le hpath hsize hfingerprint
      have hrest := ih fun other hother => hfiles other (List.mem_cons_of_mem _ hother)
      rw [itemsSize] at hrest
      rw [itemsSize, List.map_cons, List.map_cons, List.sum_cons, List.length_cons, Nat.succ_mul]
      omega
  have harray := Json.size_array_le (files.map scratchEntryJson)
  have hkeys : (["format_version", "purpose", "binding", "expires_at_ms", "files", "total_bytes",
      "protocol_version", "retention_id", "workspace_id", "approval_digest",
      "command_digest"].map quotedSize) = [16, 9, 9, 15, 7, 13, 18, 14, 14, 17, 16] := by
    decide
  simp only [List.map_cons, List.map_nil, List.cons.injEq, and_true] at hkeys
  rw [RetentionBundleManifest.toJson, Json.size_object]
  simp only [membersSize_cons, membersSize_nil, Json.size_string, RetentionArtifactBinding.toJson,
    Json.size_object, hversion]
  omega

/-! ## The entries -/

variable {lib : RetentionLibrary τ}

/-- What a bound record and its binding have been checked for. -/
theorem boundArtifactRecord_eq_some {host : RecordReading} {config : Deployment}
    (h : boundArtifactRecord lib host binding config = some record) :
    binding.protocolVersion = 1 ∧
    (safeIdentifier binding.retentionId = true ∧ safeIdentifier binding.workspaceId = true ∧
      sha256Digest binding.approvalDigest = true ∧ sha256Digest binding.commandDigest = true) ∧
    ∀ entry ∈ record.reviewableFiles,
      0 ≤ entry.sizeBytes ∧ sha256Digest entry.fingerprint = true := by
  unfold boundArtifactRecord retentionRecordFrom at h
  split at h
  next => cases h
  next hbinding =>
    simp only [Bool.not_eq_true', Bool.not_eq_false, Bool.and_eq_true, beq_iff_eq] at hbinding
    obtain ⟨⟨⟨⟨⟨hversion, hretention⟩, hworkspace⟩, happroval⟩, hcommand⟩, -⟩ := hbinding
    rw [hretention] at h
    refine ⟨hversion, ⟨hretention, hworkspace, happroval, hcommand⟩, ?_⟩
    split at h
    next => cases h
    next loaded hloaded =>
      split at h
      next =>
        cases h
        split at hloaded
        next => cases hloaded
        next =>
          split at hloaded
          next => cases hloaded
          next found hmanifest =>
            split at hloaded
            next hconsistent =>
              cases hloaded
              simp only [recordIsConsistent, retentionManifestIsValid, Bool.and_eq_true]
                at hconsistent
              exact fun entry hentry =>
                entry_of_manifestEntriesValid hconsistent.1.1.2.2 hentry
            next => cases hloaded
      next => cases h

/-- The entry of a selected file is the file, under its name. -/
theorem bundleArtifact_eq_some {crypto : Crypto} {host : BundleReading} {config : Deployment}
    {file : ScratchEntry} {entry : String × List UInt8}
    (hfile : record.reviewableFiles.find? (fun other => other.relativePath == file.relativePath) =
      some file)
    (h : bundleArtifact crypto lib host binding config record file = some entry) :
    entry.1 = "artifacts/" ++ file.relativePath ∧ (entry.2.length : ℤ) = file.sizeBytes ∧
      file.sizeBytes ≤ 16777216 := by
  unfold bundleArtifact at h
  split at h
  next => cases h
  next observed other bytes hverified =>
    split at h
    next hobserved =>
      cases h
      subst hobserved
      obtain ⟨⟨-, hlimit, -, hlength⟩, hfound⟩ := verifiedRetainedArtifact_eq_some hverified
      rw [hfile] at hfound
      cases hfound
      exact ⟨rfl, hlength, hlength ▸ hlimit⟩
    next => cases h

/-- The entries of the selected files are the files in order. -/
theorem bundleArtifacts_eq_some {crypto : Crypto} {host : BundleReading} {config : Deployment}
    {files : List ScratchEntry} {entries : List (String × List UInt8)}
    (hfiles : ∀ file ∈ files, record.reviewableFiles.find?
      (fun other => other.relativePath == file.relativePath) = some file)
    (h : files.mapM (bundleArtifact crypto lib host binding config record) = some entries) :
    entries.map Prod.fst = files.map (fun file => "artifacts/" ++ file.relativePath) ∧
      entries.map (fun entry => (entry.2.length : ℤ)) = files.map ScratchEntry.sizeBytes ∧
      ∀ file ∈ files, file.sizeBytes ≤ 16777216 := by
  induction files generalizing entries with
  | nil =>
    rw [List.mapM_nil] at h
    cases h
    exact ⟨rfl, rfl, fun file hfile => absurd hfile List.not_mem_nil⟩
  | cons file files ih =>
    rw [List.mapM_cons] at h
    obtain ⟨entry, hentry, hbind⟩ := Option.bind_eq_some_iff.mp h
    obtain ⟨others, hothers, hpure⟩ := Option.bind_eq_some_iff.mp hbind
    cases hpure
    obtain ⟨hname, hlength, hlimit⟩ :=
      bundleArtifact_eq_some (hfiles file List.mem_cons_self) hentry
    obtain ⟨hnames, hlengths, hlimits⟩ :=
      ih (fun other hother => hfiles other (List.mem_cons_of_mem _ hother)) hothers
    refine ⟨?_, ?_, ?_⟩
    · rw [List.map_cons, List.map_cons, hname, hnames]
    · rw [List.map_cons, List.map_cons, hlength, hlengths]
    · intro other hother
      obtain rfl | hmem := List.mem_cons.mp hother
      · exact hlimit
      · exact hlimits other hmem

/-- The bounds on the entries of a bundle: how many, how long their names are, and how
large they are together. -/
structure BundleAdmits (entries : List (String × List UInt8)) : Prop where
  count : entries.length ≤ 201
  name : ∀ entry ∈ entries, (utf8Encode entry.1).length ≤ 4106
  unique : (entries.map Prod.fst).Nodup
  size : (entries.map fun entry => entry.2.length).sum ≤ 16777216 + 5100001

/-- The names of the entries, from the paths of the files. -/
theorem nodup_bundleNames {paths : List String} (h : paths.Nodup) :
    ("manifest.json" :: paths.map fun path => "artifacts/" ++ path).Nodup := by
  rw [List.nodup_cons]
  constructor
  · intro hmem
    obtain ⟨path, -, hpath⟩ := List.mem_map.mp hmem
    have hhead := congrArg (fun name => name.toList.head?) hpath
    rw [String.toList_append] at hhead
    exact absurd hhead (by simp)
  · apply h.map
    intro a b hab
    exact String.append_right_inj _ |>.mp hab

/-- The entries that a call collects are within the bounds. -/
theorem bundleEntries_admits {crypto : Crypto} {host : BundleReading} {paths : List String}
    {config : Deployment} {entries : List (String × List UInt8)}
    (h : bundleEntries crypto lib host binding paths config = some entries) :
    BundleAdmits entries := by
  unfold bundleEntries at h
  split at h
  next => cases h
  next hcount =>
    split at h
    next => cases h
    next record hrecord =>
      obtain ⟨hversion, hbinding, hvalid⟩ := boundArtifactRecord_eq_some hrecord
      split at h
      next => cases h
      next files total hselected =>
        obtain ⟨hnames, hfiles, htotal, hwithin, hchain⟩ := bundleFiles_eq_some hselected
        dsimp only at h
        split at h
        next => cases h
        next artifacts hartifacts =>
          split at h
          next =>
            cases h
            obtain ⟨hartifactNames, hlengths, hlimits⟩ :=
              bundleArtifacts_eq_some (fun file hfile => (hfiles file hfile).1) hartifacts
            have hlength : files.length ≤ 200 := by
              rw [← List.length_map ScratchEntry.relativePath, hnames, lexicalSort,
                List.length_mergeSort]
              exact (not_not.mp hcount).2
            have hentry : ∀ file ∈ files, 0 ≤ file.sizeBytes ∧
                sha256Digest file.fingerprint = true := fun file hfile =>
              hvalid file (List.mem_of_find?_eq_some (hfiles file hfile).1)
            have hsum : (((artifacts.map fun entry => entry.2.length).sum : ℕ) : ℤ) = total := by
              rw [htotal, ← hlengths, zero_add, Nat.cast_list_sum, List.map_map]
              rfl
            have hbound : total ≤ 16777216 := by
              cases files with
              | nil =>
                rw [htotal]
                decide
              | cons file files =>
                have hfit := hwithin (List.cons_ne_nil _ _)
                rw [retainedArtifactByteLimit] at hfit
                omega
            have hfields : ∀ file ∈ files, utf8Length file.relativePath ≤ 4096 ∧
                (0 ≤ file.sizeBytes ∧ file.sizeBytes ≤ 16777216) ∧
                sha256Digest file.fingerprint = true := fun file hfile =>
              ⟨(hfiles file hfile).2, ⟨(hentry file hfile).1, hlimits file hfile⟩,
                (hentry file hfile).2⟩
            have hmanifest := size_manifest_le (Int64.ofInt record.expiresAtMs)
              hbinding hversion hlength hfields (show 0 ≤ total ∧ total ≤ 16777216 by omega)
            have hnewline : (utf8Encode "\n").length = 1 := by decide
            constructor
            · have hsame := congrArg List.length hartifactNames
              rw [List.length_map, List.length_map] at hsame
              rw [List.length_cons]
              omega
            · intro entry hmem
              have hfirst : (utf8Encode "manifest.json").length ≤ 4106 := by decide
              obtain rfl | hmem := List.mem_cons.mp hmem
              · exact hfirst
              · have hname := List.mem_map_of_mem (f := Prod.fst) hmem
                rw [hartifactNames] at hname
                obtain ⟨file, hfile, heq⟩ := List.mem_map.mp hname
                have hpath := (hfiles file hfile).2
                have hprefix : (utf8Encode "artifacts/").length = 10 := by decide
                rw [← heq, utf8Encode_append, List.length_append, hprefix, length_utf8Encode]
                omega
            · rw [List.map_cons, hartifactNames]
              have hpaths := nodup_bundleNames (nodup_of_sorted (pairwise_lexicalSort paths) hchain)
              rwa [← hnames, List.map_map] at hpaths
            · rw [List.map_cons, List.sum_cons, utf8Encode_append, List.length_append, hnewline,
                length_utf8Encode, utf8Length_stringify]
              omega
          next => cases h

/-- A member that is stored as it is, with its exact size and its CRC-32. -/
structure IsStored (member : Zip.Member) : Prop where
  method : member.method = 0
  packedSize : member.packedSize = member.content.length
  size : member.size = member.content.length
  crc_lt : member.crc < 2 ^ 32
  crc : Crc.register (BitVec.ofNat 32 member.crc) = crc32Polynomial member.content

/-- Each member is stored as it is. -/
theorem isStored_member (entry : String × List UInt8) : IsStored (bundleStored entry).member := by
  constructor
  · rfl
  · rfl
  · rfl
  · exact UInt32.toNat_lt _
  · have hword : BitVec.ofNat 32 (bundleCrc32 entry.2).toNat = (bundleCrc32 entry.2).toBitVec := by
      apply BitVec.eq_of_toNat_eq
      rw [BitVec.toNat_ofNat, Nat.mod_eq_of_lt (UInt32.toNat_lt _)]
      rfl
    have hcrc := register_bundleCrc32 entry.2
    rwa [← hword] at hcrc

/-- A bundle that is exported is the archive of the entries that the call collects, and
within their bounds a reader that goes from the end record to the central directory and
from there to the local headers finds exactly these entries in order: their names,
which are all different, and their contents, stored with their exact sizes and the
CRC-32 of each content. The regions of the archive follow each other without gap or
overlap from its first byte to its last. -/
theorem retained_bundle_reads_back (crypto : Crypto) (lib : RetentionLibrary τ)
    (host : BundleReading) (binding : RetentionArtifactBinding) (paths : List String)
    (config : Deployment) {archive : List UInt8}
    (h : exportRetainedBundle crypto lib host binding paths config = some archive) :
    ∃ entries reading, bundleEntries crypto lib host binding paths config = some entries ∧
      BundleAdmits entries ∧ Zip.read archive = some reading ∧
      reading.members.map (fun member => (member.name, member.content)) =
        entries.map (fun entry => (utf8Encode entry.1, entry.2)) ∧
      (reading.members.map Zip.Member.name).Nodup ∧
      (∀ member ∈ reading.members, IsStored member) ∧
      Zip.Tiles 0 reading.regions archive.length ∧
      reading.regions.Pairwise fun a b => a.1 + a.2 ≤ b.1 := by
  obtain ⟨entries, hentries, rfl⟩ := Option.map_eq_some_iff.mp h
  have hadmits := bundleEntries_admits hentries
  have hstored : ∀ stored ∈ entries.map bundleStored, stored.Fits ∧ stored.name.length ≤ 4106 := by
    intro stored hmem
    obtain ⟨entry, hentry, rfl⟩ := List.mem_map.mp hmem
    have hname : (bundleStored entry).name.length ≤ 4106 := hadmits.name entry hentry
    have hcrc : (bundleStored entry).crc < 2 ^ 32 := UInt32.toNat_lt _
    exact ⟨⟨by omega, by omega⟩, hname⟩
  have hsize := Zip.length_archive_le bundleStamp fun stored hmem =>
    (hstored stored hmem).2
  have hcount := hadmits.count
  have hbytes := hadmits.size
  have hcontent : ((entries.map bundleStored).map fun stored => stored.content.length) =
      entries.map fun entry => entry.2.length := by
    rw [List.map_map]
    rfl
  rw [hcontent, List.length_map] at hsize
  obtain ⟨regions, hread, htiles⟩ := Zip.read_archive bundleStamp_fits
    (fun stored hmem => (hstored stored hmem).1) (by rw [List.length_map]; omega) (by omega)
  rw [← bundleZip_eq] at hread htiles
  refine ⟨entries, _, hentries, hadmits, hread, ?_, ?_, ?_, htiles, htiles.pairwise⟩
  · rw [List.map_map, List.map_map]
    rfl
  · rw [List.map_map, List.map_map]
    have hnames : entries.map ((Zip.Member.name ∘ Zip.Stored.member) ∘ bundleStored) =
        (entries.map Prod.fst).map utf8Encode := by
      rw [List.map_map]
      rfl
    rw [hnames]
    exact hadmits.unique.map fun _ _ => utf8Encode_inj
  · intro member hmem
    obtain ⟨stored, hstored, rfl⟩ := List.mem_map.mp hmem
    obtain ⟨entry, -, rfl⟩ := List.mem_map.mp hstored
    exact isStored_member entry

/-- A host that answers the same throughout a call. -/
def sampleBundleHost : BundleReading :=
  ⟨sampleBundleReading, fun _ => ⟨sampleBundleReading, some [111, 107, 10], sampleBundleReading⟩,
    sampleBundleReading⟩

/-- The bundle of one retained file reads back. -/
theorem retained_bundle_reads_back_sample :
    ∃ archive reading, exportRetainedBundle sampleEvidenceCrypto sampleRetentionLibrary
        sampleBundleHost sampleBundleBinding ["out.txt"] sampleDeployment = some archive ∧
      Zip.read archive = some reading ∧ ∀ member ∈ reading.members, IsStored member := by
  have hcollected : (bundleEntries sampleEvidenceCrypto sampleRetentionLibrary sampleBundleHost
      sampleBundleBinding ["out.txt"] sampleDeployment).isSome = true := by decide +kernel
  obtain ⟨entries, hentries⟩ := Option.isSome_iff_exists.mp hcollected
  have hexport : exportRetainedBundle sampleEvidenceCrypto sampleRetentionLibrary sampleBundleHost
      sampleBundleBinding ["out.txt"] sampleDeployment = some (bundleZip entries) := by
    rw [exportRetainedBundle, hentries, Option.map_some]
  obtain ⟨_, reading, _, _, hread, _, _, hstored, _⟩ :=
    retained_bundle_reads_back sampleEvidenceCrypto sampleRetentionLibrary sampleBundleHost
      sampleBundleBinding ["out.txt"] sampleDeployment hexport
  exact ⟨bundleZip entries, reading, hexport, hread, hstored⟩

end Moonfort.Executor
