import Moonfort.Executor.CommandOutputRead
import Moonfort.Executor.EvidenceBinding
import Moonfort.Executor.GrantAdmission
import Moonfort.Executor.RetentionRuns

/-!
# Browsing retained artifacts

`read_retained_artifact`: the record that a binding names, the verified bytes of
one of its files, and their pages. What the host answers during one call is a
parameter.
-/

namespace Moonfort.Executor

open MoonBit Paging Sandbox

/-- `RetentionArtifactBinding`. -/
structure RetentionArtifactBinding where
  protocolVersion : ℤ
  retentionId : String
  workspaceId : String
  approvalDigest : String
  commandDigest : String
  deriving DecidableEq

/-- `RetentionArtifactPage`. -/
structure RetentionArtifactPage where
  binding : RetentionArtifactBinding
  expiresAtMs : ℤ
  file : ScratchEntry
  offset : ℤ
  nextOffset : ℤ
  contentBase64 : String
  eof : Bool
  deriving DecidableEq

/-- What the host answers while a retention record is loaded. -/
structure RecordReading where
  /-- The record in the manifest of the retention; `none` when it cannot be read. -/
  manifest : Option RetentionRecord
  now : ℤ
  /-- The scratch tree is a directory at its canonical path. -/
  scratchFound : Bool

/-- What the host answers while a retained artifact is read. -/
structure RetainedReading where
  before : RecordReading
  /-- The bytes of the file; `none` when the native reader fails. -/
  file : Option (List UInt8)
  after : RecordReading

variable {τ : Type}

/-- `load_retention_record`, from the answers of the host. -/
def retentionRecordFrom (lib : RetentionLibrary τ) (host : RecordReading) (retentionId : String)
    (config : Deployment) : Option RetentionRecord :=
  if !safeIdentifier retentionId then none
  else
    match host.manifest with
    | none => none
    | some record =>
      if recordIsConsistent lib record retentionId config.config &&
          decide (host.now < record.expiresAtMs) && host.scratchFound then some record
      else none

/-- `bound_artifact_record`. -/
def boundArtifactRecord (lib : RetentionLibrary τ) (host : RecordReading)
    (binding : RetentionArtifactBinding) (config : Deployment) : Option RetentionRecord :=
  if !(binding.protocolVersion == 1 && safeIdentifier binding.retentionId &&
      safeIdentifier binding.workspaceId && sha256Digest binding.approvalDigest &&
      sha256Digest binding.commandDigest && 4096 ≤ config.limits.maxProtocolBytes) then none
  else
    match retentionRecordFrom lib host binding.retentionId config with
    | none => none
    | some record =>
      if record.workspaceId == binding.workspaceId &&
          record.approvalDigest == binding.approvalDigest &&
          record.commandDigest == binding.commandDigest then some record
      else none

/-- `retained_artifact_byte_limit`. -/
def retainedArtifactByteLimit (config : Deployment) : ℤ :=
  min (config.limits.maxDiskMib * 1048576) 16777216

/-- `read_scratch_artifact`. The native reader refuses a file of another size. -/
def readScratchArtifact (crypto : Crypto) (file : Option (List UInt8)) (root : String)
    (entry : ScratchEntry) (maxBytes : ℤ) : Option (List UInt8) :=
  if !(pathIsCanonicalAbsolute root && scratchRelativePathIsSafe entry.relativePath &&
      entry.kind == .regularFile && 0 ≤ entry.sizeBytes && 0 < maxBytes &&
      entry.sizeBytes ≤ maxBytes && entry.sizeBytes ≤ 16777216) then none
  else
    match file with
    | none => none
    | some bytes =>
      if (bytes.length : ℤ) = entry.sizeBytes ∧ crypto.digest bytes = entry.fingerprint then
        some bytes
      else none

/-- `verified_retained_artifact`. -/
def verifiedRetainedArtifact (crypto : Crypto) (lib : RetentionLibrary τ) (host : RetainedReading)
    (binding : RetentionArtifactBinding) (path : String) (config : Deployment) :
    Option (RetentionRecord × ScratchEntry × List UInt8) :=
  if !scratchRelativePathIsSafe path then none
  else
    match boundArtifactRecord lib host.before binding config with
    | none => none
    | some record =>
      match record.reviewableFiles.find? fun entry => entry.relativePath == path with
      | none => none
      | some entry =>
        match readScratchArtifact crypto host.file record.scratchPath entry
            (retainedArtifactByteLimit config) with
        | none => none
        | some bytes =>
          if boundArtifactRecord lib host.after binding config = some record then
            some (record, entry, bytes)
          else none

/-- `RetentionArtifactBinding::to_json`. -/
def RetentionArtifactBinding.toJson (binding : RetentionArtifactBinding) : Json :=
  .object [("protocol_version", .number binding.protocolVersion),
    ("retention_id", .string binding.retentionId), ("workspace_id", .string binding.workspaceId),
    ("approval_digest", .string binding.approvalDigest),
    ("command_digest", .string binding.commandDigest)]

/-- `ScratchEntryKind::to_json`. -/
def scratchEntryKindJson : ScratchEntryKind → Json
  | .regularFile => .string "RegularFile"
  | .directoryEntry => .string "DirectoryEntry"
  | .symbolicLink => .string "SymbolicLink"

/-- `ScratchEntry::to_json`. -/
def scratchEntryJson (entry : ScratchEntry) : Json :=
  .object [("relative_path", .string entry.relativePath), ("kind", scratchEntryKindJson entry.kind),
    ("size_bytes", .string (intText entry.sizeBytes)), ("fingerprint", .string entry.fingerprint)]

/-- `RetentionArtifactPage::to_json`. -/
def RetentionArtifactPage.toJson (page : RetentionArtifactPage) : Json :=
  .object [("binding", page.binding.toJson),
    ("expires_at_ms", .string (intText page.expiresAtMs)), ("file", scratchEntryJson page.file),
    ("offset", .string (intText page.offset)), ("next_offset", .string (intText page.nextOffset)),
    ("content_base64", .string page.contentBase64), ("eof", .bool page.eof)]

/-- The page of verified bytes behind a page without content. -/
def retainedArtifactPage (empty : RetentionArtifactPage) (bytes : List UInt8) (maxBytes : ℤ)
    (config : Deployment) : Option RetentionArtifactPage :=
  let overhead : ℤ := utf8Length empty.toJson.stringify + 64
  if ¬ overhead < config.limits.maxProtocolBytes then none
  else
    let budget := min ((config.limits.maxProtocolBytes - overhead) / 4 * 3) maxBytes
    if ¬ 0 < budget then none
    else
      let count := min (bytes.length - empty.offset) budget
      some
        { empty with
          nextOffset := empty.offset + count
          contentBase64 := base64Encode ((bytes.drop empty.offset.toNat).take count.toNat)
          eof := empty.offset + count == bytes.length }

/-- `read_retained_artifact`; `none` when the call raises. -/
def readRetainedArtifact (crypto : Crypto) (lib : RetentionLibrary τ) (host : RetainedReading)
    (binding : RetentionArtifactBinding) (path : String) (config : Deployment)
    (offset maxBytes : ℤ) : Option RetentionArtifactPage :=
  if ¬ (0 ≤ offset ∧ 0 < maxBytes ∧ maxBytes ≤ 32768) then none
  else
    match verifiedRetainedArtifact crypto lib host binding path config with
    | none => none
    | some (record, entry, bytes) =>
      if ¬ offset ≤ bytes.length then none
      else
        retainedArtifactPage
          { binding := binding
            expiresAtMs := record.expiresAtMs
            file := entry
            offset := offset
            nextOffset := offset
            contentBase64 := ""
            eof := false } bytes maxBytes config

/-- The parts of a page. -/
def retainedArtifactView : PageView RetentionArtifactPage UInt8 where
  offset := RetentionArtifactPage.offset
  next := RetentionArtifactPage.nextOffset
  items page := (base64Decode page.contentBase64).getD []
  eof := RetentionArtifactPage.eof

/-- A scratch artifact that is read is the file, of at most 16 MiB and with the
retained fingerprint. -/
theorem readScratchArtifact_eq_some {crypto : Crypto} {file : Option (List UInt8)} {root : String}
    {entry : ScratchEntry} {maxBytes : ℤ} {bytes : List UInt8}
    (h : readScratchArtifact crypto file root entry maxBytes = some bytes) :
    file = some bytes ∧ (bytes.length : ℤ) ≤ 16777216 ∧
      crypto.digest bytes = entry.fingerprint ∧ (bytes.length : ℤ) = entry.sizeBytes := by
  unfold readScratchArtifact at h
  split at h
  next => cases h
  next hguard =>
    simp only [Bool.not_eq_true', Bool.not_eq_false, Bool.and_eq_true, decide_eq_true_eq]
      at hguard
    split at h
    next => cases h
    next content =>
      split at h
      next hverified =>
        cases h
        refine ⟨rfl, ?_, hverified.2, hverified.1⟩
        have hsize := hguard.2
        omega
      next => cases h

/-- The file of an entry is read when it has the size and the digest of the entry. -/
theorem readScratchArtifact_of_digest {crypto : Crypto} {file : Option (List UInt8)} {root : String}
    {entry : ScratchEntry} {maxBytes : ℤ} {bytes : List UInt8} (hfile : file = some bytes)
    (hguard : (pathIsCanonicalAbsolute root && scratchRelativePathIsSafe entry.relativePath &&
      entry.kind == .regularFile && 0 ≤ entry.sizeBytes && 0 < maxBytes &&
      entry.sizeBytes ≤ maxBytes && entry.sizeBytes ≤ 16777216) = true)
    (hlength : (bytes.length : ℤ) = entry.sizeBytes)
    (hdigest : crypto.digest bytes = entry.fingerprint) :
    readScratchArtifact crypto file root entry maxBytes = some bytes := by
  unfold readScratchArtifact
  rw [if_neg (by rw [hguard]; decide), hfile]
  dsimp only
  rw [if_pos ⟨hlength, hdigest⟩]

variable {binding : RetentionArtifactBinding}

/-- The file of an entry of a record that stands before and after the reading is verified. -/
theorem verifiedRetainedArtifact_of_read {crypto : Crypto} {lib : RetentionLibrary τ}
    {host : RetainedReading} {path : String} {config : Deployment} {record : RetentionRecord}
    {entry : ScratchEntry} {bytes : List UInt8} (hpath : scratchRelativePathIsSafe path = true)
    (hbefore : boundArtifactRecord lib host.before binding config = some record)
    (hentry : record.reviewableFiles.find? (fun other => other.relativePath == path) = some entry)
    (hread : readScratchArtifact crypto host.file record.scratchPath entry
      (retainedArtifactByteLimit config) = some bytes)
    (hafter : boundArtifactRecord lib host.after binding config = some record) :
    verifiedRetainedArtifact crypto lib host binding path config = some (record, entry, bytes) := by
  rw [verifiedRetainedArtifact, if_neg (by rw [hpath]; decide), hbefore]
  dsimp only
  rw [hentry]
  dsimp only
  rw [hread]
  dsimp only
  rw [if_pos hafter]

/-- A verified artifact is the file that the host holds, of the entry that the record
has at the path. -/
theorem verifiedRetainedArtifact_eq_some {crypto : Crypto} {lib : RetentionLibrary τ}
    {host : RetainedReading} {path : String}
    {config : Deployment} {record : RetentionRecord} {entry : ScratchEntry} {bytes : List UInt8}
    (h : verifiedRetainedArtifact crypto lib host binding path config =
      some (record, entry, bytes)) :
    (host.file = some bytes ∧ (bytes.length : ℤ) ≤ 16777216 ∧
      crypto.digest bytes = entry.fingerprint ∧ (bytes.length : ℤ) = entry.sizeBytes) ∧
      record.reviewableFiles.find? (fun other => other.relativePath == path) = some entry := by
  unfold verifiedRetainedArtifact at h
  split at h
  next => cases h
  next =>
    split at h
    next => cases h
    next =>
      split at h
      next => cases h
      next found hfound =>
        split at h
        next => cases h
        next content hread =>
          split at h
          next =>
            cases h
            exact ⟨readScratchArtifact_eq_some hread, hfound⟩
          next => cases h

/-- The page of verified bytes at a cursor, and its text. -/
theorem retainedArtifactPage_eq_some {empty page : RetentionArtifactPage} {bytes : List UInt8}
    {maxBytes : ℤ} {config : Deployment} (hoffset : 0 ≤ empty.offset)
    (hcursor : empty.offset ≤ bytes.length) (hsize : (bytes.length : ℤ) ≤ 16777216)
    (hempty : empty.contentBase64 = "" ∧ empty.nextOffset = empty.offset ∧ empty.eof = false)
    (h : retainedArtifactPage empty bytes maxBytes config = some page) :
    retainedArtifactView.IsPage bytes empty.offset page ∧
      (page.toJson.size : ℤ) ≤ config.limits.maxProtocolBytes := by
  unfold retainedArtifactPage at h
  rw [utf8Length_stringify] at h
  dsimp only at h
  split at h
  next => cases h
  next hoverhead =>
    split at h
    next => cases h
    next hbudget =>
      generalize hlimit : min _ maxBytes = budget at h hbudget
      cases h
      have hbudget' : 0 < budget := not_not.mp hbudget
      have hlength := length_slice hoffset hcursor hbudget'
      rw [slice] at hlength
      refine ⟨isPage_of_slice hoffset hcursor hbudget' rfl ?_ rfl rfl, ?_⟩
      · exact congrArg (Option.getD · []) (base64Decode_encode _)
      · have hnextText : quotedSize (intText (empty.offset + min (bytes.length - empty.offset)
            budget)) ≤ 8 + 2 := quotedSize_intText_le (by decide) (by omega) (by omega)
        have hnone : quotedSize "" = 2 := by decide
        have heof : ∀ b, (Json.bool b).size ≤ (Json.bool false).size := by decide
        have heof' := heof (empty.offset + min (bytes.length - empty.offset) budget == bytes.length)
        simp only [RetentionArtifactPage.toJson, Json.size_object, membersSize_cons,
          membersSize_nil, Json.size_string, quotedSize_base64Encode, hempty] at hoverhead hlimit ⊢
        omega

/-- Where the protocol limit leaves room for four times the page size, the page has that size. -/
theorem retainedArtifactPage_of_room {empty : RetentionArtifactPage} {bytes : List UInt8}
    {maxBytes : ℤ} {config : Deployment} (hpos : 0 < maxBytes)
    (hroom : (utf8Length empty.toJson.stringify : ℤ) + 64 + 4 * maxBytes ≤
      config.limits.maxProtocolBytes) :
    retainedArtifactPage empty bytes maxBytes config = some
      { empty with
        nextOffset := empty.offset + min (bytes.length - empty.offset) maxBytes
        contentBase64 := base64Encode ((bytes.drop empty.offset.toNat).take
          (min (bytes.length - empty.offset) maxBytes).toNat)
        eof := empty.offset + min (bytes.length - empty.offset) maxBytes == bytes.length } := by
  have hbudget : min ((config.limits.maxProtocolBytes -
      ((utf8Length empty.toJson.stringify : ℤ) + 64)) / 4 * 3) maxBytes = maxBytes := by
    omega
  unfold retainedArtifactPage
  dsimp only
  rw [hbudget, if_neg (by omega), if_neg (not_not.mpr hpos)]

/-- A page that is answered is the page of the file at the cursor, and its text
fits in the protocol limit. -/
theorem readRetainedArtifact_eq_some {crypto : Crypto} {lib : RetentionLibrary τ}
    {host : RetainedReading} {path : String}
    {config : Deployment} {offset maxBytes : ℤ} {page : RetentionArtifactPage}
    (h : readRetainedArtifact crypto lib host binding path config offset maxBytes = some page) :
    (∃ bytes, host.file = some bytes ∧ crypto.digest bytes = page.file.fingerprint ∧
      retainedArtifactView.IsPage bytes offset page) ∧
    (page.toJson.size : ℤ) ≤ config.limits.maxProtocolBytes := by
  unfold readRetainedArtifact at h
  split at h
  next => cases h
  next hrequest =>
    split at h
    next => cases h
    next record entry bytes hverified =>
      split at h
      next => cases h
      next hcursor =>
        obtain ⟨⟨hfile, hsize, hdigest, -⟩, -⟩ := verifiedRetainedArtifact_eq_some hverified
        obtain ⟨hpage, htext⟩ := retainedArtifactPage_eq_some (not_not.mp hrequest).1
          (not_not.mp hcursor) hsize ⟨rfl, rfl, rfl⟩ h
        refine ⟨⟨bytes, hfile, ?_, hpage⟩, htext⟩
        rw [hdigest]
        unfold retainedArtifactPage at h
        dsimp only at h
        split at h
        next => cases h
        next =>
          split at h
          next => cases h
          next =>
            cases h
            rfl

/-- A page of a retained artifact: the answer to a call at a cursor, while the file
holds a content or cannot be read. -/
def RetainedAnswer (crypto : Crypto) (lib : RetentionLibrary τ) (config : Deployment)
    (content : List UInt8) (binding : RetentionArtifactBinding) (path : String) (cursor : ℤ)
    (page : RetentionArtifactPage) : Prop :=
  ∃ host maxBytes, (∀ bytes ∈ host.file, bytes = content) ∧
    readRetainedArtifact crypto lib host binding path config cursor maxBytes = some page

/-- An answer is the page at the cursor of the content, which is the retained one. -/
theorem RetainedAnswer.isPage {crypto : Crypto} {lib : RetentionLibrary τ} {config : Deployment}
    {content : List UInt8} {path : String} {cursor : ℤ}
    {page : RetentionArtifactPage}
    (h : RetainedAnswer crypto lib config content binding path cursor page) :
    retainedArtifactView.IsPage content cursor page ∧
      crypto.digest content = page.file.fingerprint := by
  obtain ⟨host, maxBytes, hcontent, hread⟩ := h
  obtain ⟨⟨bytes, hfile, hdigest, hpage⟩, -⟩ := readRetainedArtifact_eq_some hread
  obtain rfl := hcontent bytes hfile
  exact ⟨hpage, hdigest⟩

/-- On a loaded deployment whose protocol limit is at least 4096 bytes, pages of an
output artifact or of a retained artifact that are read from the offset 0 on, each
where the last one ended and each of any page size that is admitted, are the
content up to the cursor: each page advances or is the last, a page is the last
exactly when it ends the content, and then the pages are the whole content, which
has the signed or the retained digest. The text of every response, and of every
page, fits in the protocol limit. -/
theorem byte_paging_exact (crypto : Crypto) (lib : RetentionLibrary τ) (files : HostFiles)
    (config : Deployment) (hloaded : deploymentError files config = "")
    (hprotocol : 4096 ≤ config.limits.maxProtocolBytes) :
    (∀ host request, request.reference.expiresAtMs < 2 ^ 63 →
      (utf8Length (readCommandOutput crypto host request config).toJson.stringify : ℤ) ≤
        config.limits.maxProtocolBytes) ∧
    (∀ reference runId approvalDigest commandDigest content cursor pages,
      ReadThrough commandOutputView (OutputAnswer crypto config content reference runId
        approvalDigest commandDigest) cursor pages →
      ReadExactly commandOutputView content cursor pages ∧
        ∀ page ∈ pages, crypto.digest content = reference.sha256 ∧
          (page.eof = true → pages.flatMap commandOutputView.items = content)) ∧
    (∀ host binding path offset maxBytes page,
      readRetainedArtifact crypto lib host binding path config offset maxBytes = some page →
      (utf8Length page.toJson.stringify : ℤ) ≤ config.limits.maxProtocolBytes) ∧
    (∀ binding path content cursor pages,
      ReadThrough retainedArtifactView (RetainedAnswer crypto lib config content binding path)
        cursor pages →
      ReadExactly retainedArtifactView content cursor pages ∧
        ∀ page ∈ pages, crypto.digest content = page.file.fingerprint ∧
          (page.eof = true → pages.flatMap retainedArtifactView.items = content)) := by
  refine ⟨?_, ?_, ?_, ?_⟩
  · intro host request hexpires
    rw [utf8Length_stringify]
    exact size_readCommandOutput_le crypto host hloaded hprotocol hexpires
  · intro reference runId approvalDigest commandDigest content cursor pages hread
    have hexactly : ReadExactly commandOutputView content cursor pages :=
      hread.exactly fun offset page _ _ hanswer => hanswer.isPage.1
    refine ⟨hexactly, ?_⟩
    intro page hpage
    obtain ⟨offset, hanswer⟩ := hread.answered page hpage
    exact ⟨hanswer.isPage.2, fun heof => hexactly.complete hpage heof⟩
  · intro host binding path offset maxBytes page hpage
    rw [utf8Length_stringify]
    exact (readRetainedArtifact_eq_some hpage).2
  · intro binding path content cursor pages hread
    have hexactly : ReadExactly retainedArtifactView content cursor pages :=
      hread.exactly fun offset page _ _ hanswer => hanswer.isPage.1
    refine ⟨hexactly, ?_⟩
    intro page hpage
    obtain ⟨offset, hanswer⟩ := hread.answered page hpage
    exact ⟨hanswer.isPage.2, fun heof => hexactly.complete hpage heof⟩

/-- The reference of the sample evidence. -/
def sampleOutputReference : CommandOutputArtifactRef :=
  { artifactId := "00000000000000000000000000000000"
    runId := "run-1"
    sha256 := "dc51b8c96c2d745df3bd5590d990230a482fd247123599548e0632fdbf97fc22"
    sizeBytes := 3
    mediaType := commandOutputMediaType
    expiresAtMs := 60000
    keyId := "key-1"
    signature := "e3083453bb22a9004cd06a5bd369137027b383cf3d237096b2fdbdaa669a5a49" }

/-- A host that holds the sample artifact. -/
def sampleOutputHost : ArtifactReading where
  rootIsPrivate := true
  now := 0
  manifest := some ⟨sampleOutputReference, String.ofList (List.replicate 64 'a'),
    String.ofList (List.replicate 64 'b')⟩
  blob := ⟨some true, some (true, 3), some [[111, 107], [10]], 3, some true⟩

/-- The sample artifact is verified. -/
theorem sampleOutput_read :
    readCommandOutputArtifact sampleEvidenceCrypto sampleOutputHost sampleOutputReference "run-1"
      (String.ofList (List.replicate 64 'a')) (String.ofList (List.replicate 64 'b'))
      sampleDeployment = .ok [111, 107, 10] := by
  have hsigned : constantTimeStringEqual sampleOutputReference.signature
      (outputArtifactSignature sampleEvidenceCrypto sampleOutputReference
        (String.ofList (List.replicate 64 'a')) (String.ofList (List.replicate 64 'b'))
        sampleDeployment.artifactSigningKey) = true := sampleEvidence_accepted.2.2.2
  have hblob : boundedOutputArtifactBytes sampleOutputHost.blob sampleOutputReference.sizeBytes
      sampleDeployment.limits.maxOutputBytes = .ok [111, 107, 10] := by decide
  have hdigest : constantTimeStringEqual (sampleEvidenceCrypto.digest [111, 107, 10])
      sampleOutputReference.sha256 = true := by decide
  have hrecord : sampleOutputHost.manifest = some ⟨sampleOutputReference,
    String.ofList (List.replicate 64 'a'), String.ofList (List.replicate 64 'b')⟩ := rfl
  unfold readCommandOutputArtifact
  rw [if_neg (by decide), if_neg (by decide), hrecord]
  dsimp only
  rw [if_neg (by simp only [hsigned, beq_self_eq_true, Bool.and_self, Bool.not_true,
    Bool.false_eq_true, not_false_eq_true]), hblob]
  dsimp only
  rw [if_neg (by simp only [hdigest, Bool.not_true, Bool.false_eq_true, not_false_eq_true])]

/-- The page of at most two bytes of the sample artifact. -/
def sampleOutputPage (cursor : ℤ) : CommandOutputReadResponse :=
  commandOutputPage ⟨1, sampleOutputReference, "run-1", String.ofList (List.replicate 64 'a'),
    String.ofList (List.replicate 64 'b'), cursor, 2⟩ [111, 107, 10] sampleDeployment

/-- The sample output answers at each of its cursors. -/
theorem sampleOutput_answer {cursor : ℤ} (hcursor : 0 ≤ cursor ∧ cursor ≤ 3) :
    OutputAnswer sampleEvidenceCrypto sampleDeployment [111, 107, 10] sampleOutputReference "run-1"
      (String.ofList (List.replicate 64 'a')) (String.ofList (List.replicate 64 'b')) cursor
      (sampleOutputPage cursor) := by
  have hchunks : sampleOutputHost.blob.chunks.map List.flatten = some [111, 107, 10] := rfl
  have hrun : safeIdentifier "run-1" = true := by decide
  have hvalid : commandOutputRequestValid ⟨1, sampleOutputReference, "run-1",
      String.ofList (List.replicate 64 'a'), String.ofList (List.replicate 64 'b'), cursor, 2⟩
      sampleDeployment = true := by
    rw [commandOutputRequestValid]
    dsimp only
    rw [hrun, decide_eq_true hcursor.1]
    rfl
  refine ⟨sampleOutputHost, 2, ?_, readCommandOutput_of_ok hvalid sampleOutput_read hcursor.2, rfl⟩
  intro bytes hbytes
  rw [hchunks] at hbytes
  exact (Option.some.inj hbytes).symm

/-- The two pages of the sample artifact. -/
theorem sampleOutput_pages :
    ReadThrough commandOutputView (OutputAnswer sampleEvidenceCrypto sampleDeployment
      [111, 107, 10] sampleOutputReference "run-1" (String.ofList (List.replicate 64 'a'))
      (String.ofList (List.replicate 64 'b'))) 3 [sampleOutputPage 0, sampleOutputPage 2] := by
  have hfirst : commandOutputView.next (sampleOutputPage 0) = 2 := by decide
  have hsecond : commandOutputView.next (sampleOutputPage 2) = 3 := by decide
  have hpage : ReadThrough commandOutputView (OutputAnswer sampleEvidenceCrypto sampleDeployment
      [111, 107, 10] sampleOutputReference "run-1" (String.ofList (List.replicate 64 'a'))
      (String.ofList (List.replicate 64 'b'))) 2 [sampleOutputPage 0] := by
    rw [← hfirst]
    exact .page .start (sampleOutput_answer (by decide))
  rw [← hsecond]
  exact hpage.page (sampleOutput_answer (by decide))

/-- A retained file of three bytes on the sample deployment. -/
def sampleBundleFile : ScratchEntry :=
  ⟨"out.txt", .regularFile, 3, "dc51b8c96c2d745df3bd5590d990230a482fd247123599548e0632fdbf97fc22"⟩

/-- The record of that file. -/
def sampleBundleRecord : RetentionRecord where
  retentionId := "r"
  scratchPath := "/var/scratch/r"
  expiresAtMs := 60000
  workspaceId := "book"
  profileDigest := String.ofList (List.replicate 64 'c')
  approvalDigest := String.ofList (List.replicate 64 'a')
  commandDigest := String.ofList (List.replicate 64 'b')
  reviewableFiles := [sampleBundleFile]

/-- The record as a host answers it. -/
def sampleBundleReading : RecordReading where
  manifest := some sampleBundleRecord
  now := 0
  scratchFound := true

/-- The binding of the sample record. -/
def sampleBundleBinding : RetentionArtifactBinding :=
  ⟨1, "r", "book", String.ofList (List.replicate 64 'a'), String.ofList (List.replicate 64 'b')⟩

/-- A host that holds the retained file. -/
def sampleRetainedReading : RetainedReading :=
  ⟨sampleBundleReading, some [111, 107, 10], sampleBundleReading⟩

/-- A record of other files is the one that the binding names. -/
theorem sampleBundle_record_of {files : List ScratchEntry}
    (hfiles : retentionManifestIsValid sampleRetentionLibrary files sampleDeployment.config =
      true) :
    boundArtifactRecord sampleRetentionLibrary
      { sampleBundleReading with
        manifest := some { sampleBundleRecord with reviewableFiles := files } }
      sampleBundleBinding sampleDeployment =
        some { sampleBundleRecord with reviewableFiles := files } := by
  have hretention : safeIdentifier "r" = true := by decide
  have hworkspace : safeIdentifier "book" = true := by decide
  have hscratch : scratchPathOf sampleDeployment.config "r" = "/var/scratch/r" := by decide
  have hlimit : sampleDeployment.limits.maxProtocolBytes = 4096 := rfl
  have hprofile := sha256Digest_replicate (c := 'c') (by decide)
  have happroval := sha256Digest_replicate (c := 'a') (by decide)
  have hcommand := sha256Digest_replicate (c := 'b') (by decide)
  simp [-List.reduceReplicate, boundArtifactRecord, retentionRecordFrom, recordIsConsistent,
    sampleBundleReading, sampleBundleBinding, sampleBundleRecord, hretention, hworkspace, hscratch,
    hlimit, hfiles, hprofile, happroval, hcommand]

/-- The sample record is the one that the binding names. -/
theorem sampleBundle_record : boundArtifactRecord sampleRetentionLibrary sampleBundleReading
    sampleBundleBinding sampleDeployment = some sampleBundleRecord :=
  sampleBundle_record_of (by decide)

/-- The retained file is verified. -/
theorem sampleRetained_verified :
    verifiedRetainedArtifact sampleEvidenceCrypto sampleRetentionLibrary sampleRetainedReading
      sampleBundleBinding "out.txt" sampleDeployment =
        some (sampleBundleRecord, sampleBundleFile, [111, 107, 10]) :=
  verifiedRetainedArtifact_of_read (by decide) sampleBundle_record (by decide)
    (readScratchArtifact_of_digest rfl (by decide) rfl (by decide))
    sampleBundle_record

/-- The page of at most two bytes of the retained file. -/
def sampleRetainedPage (cursor : ℤ) : RetentionArtifactPage where
  binding := sampleBundleBinding
  expiresAtMs := sampleBundleRecord.expiresAtMs
  file := sampleBundleFile
  offset := cursor
  nextOffset := cursor + min (3 - cursor) 2
  contentBase64 :=
    base64Encode (([111, 107, 10].drop cursor.toNat).take (min (3 - cursor) 2).toNat)
  eof := cursor + min (3 - cursor) 2 == 3

/-- The sample artifact answers at both of its cursors. -/
theorem sampleRetained_answer {cursor : ℤ} (hcursor : cursor = 0 ∨ cursor = 2) :
    RetainedAnswer sampleEvidenceCrypto sampleRetentionLibrary sampleDeployment [111, 107, 10]
      sampleBundleBinding "out.txt" cursor (sampleRetainedPage cursor) := by
  have hsize : (⟨sampleBundleBinding, sampleBundleRecord.expiresAtMs, sampleBundleFile, cursor,
      cursor, "", false⟩ : RetentionArtifactPage).toJson.size ≤ 1000 := by
    rcases hcursor with rfl | rfl
    · decide +kernel
    · decide +kernel
  have hlimit : sampleDeployment.limits.maxProtocolBytes = 4096 := rfl
  refine ⟨sampleRetainedReading, 2, fun bytes hbytes => (Option.some.inj hbytes).symm, ?_⟩
  rw [readRetainedArtifact, if_neg (by omega), sampleRetained_verified]
  dsimp only
  rw [if_neg (by simp; omega)]
  exact retainedArtifactPage_of_room (by decide) (by rw [utf8Length_stringify]; omega)

/-- The two pages of the retained file. -/
theorem sampleRetained_pages :
    ReadThrough retainedArtifactView (RetainedAnswer sampleEvidenceCrypto sampleRetentionLibrary
      sampleDeployment [111, 107, 10] sampleBundleBinding "out.txt") 3
      [sampleRetainedPage 0, sampleRetainedPage 2] := by
  have hfirst : ReadThrough retainedArtifactView (RetainedAnswer sampleEvidenceCrypto
      sampleRetentionLibrary sampleDeployment [111, 107, 10] sampleBundleBinding "out.txt") 2
      [sampleRetainedPage 0] := .page .start (sampleRetained_answer (.inl rfl))
  exact hfirst.page (sampleRetained_answer (.inr rfl))

/-- The two pages of the sample artifact, and those of the retained file, are its bytes. -/
theorem byte_paging_sample :
    [sampleOutputPage 0, sampleOutputPage 2].flatMap commandOutputView.items = [111, 107, 10] ∧
      [sampleRetainedPage 0, sampleRetainedPage 2].flatMap retainedArtifactView.items =
        [111, 107, 10] := by
  obtain ⟨-, houtput, -, hretained⟩ := byte_paging_exact sampleEvidenceCrypto
    sampleRetentionLibrary sampleHostFiles sampleDeployment sampleDeployment_accepted (by decide)
  have hlastOutput : sampleOutputPage 2 ∈ [sampleOutputPage 0, sampleOutputPage 2] :=
    List.mem_cons_of_mem _ List.mem_cons_self
  have hlastRetained : sampleRetainedPage 2 ∈ [sampleRetainedPage 0, sampleRetainedPage 2] :=
    List.mem_cons_of_mem _ List.mem_cons_self
  exact ⟨((houtput _ _ _ _ _ _ _ sampleOutput_pages).2 _ hlastOutput).2 (by decide),
    ((hretained _ _ _ _ _ sampleRetained_pages).2 _ hlastRetained).2 (by decide)⟩

end Moonfort.Executor
