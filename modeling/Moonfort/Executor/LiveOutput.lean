import Moonfort.Executor.CommandOutput
import Moonfort.MoonBit.Base64

/-!
# Live output

The output of a running command: the signed reference of its stream, the record
in which it is published, and the reader that serves it page by page. What the
host answers during one call is a parameter.
-/

namespace Moonfort.Executor

open MoonBit Sandbox

/-- `LiveOutputReference`. -/
structure LiveOutputReference where
  streamId : String
  runId : String
  status : String
  sizeBytes : ℤ
  sha256 : String
  expiresAtMs : ℤ
  keyId : String
  signature : String
  deriving DecidableEq

/-- `LiveOutputRecord`. -/
structure LiveOutputRecord where
  reference : LiveOutputReference
  approvalId : String
  approvalDigest : String
  deriving DecidableEq

/-- `LiveOutputReadRequest`. -/
structure LiveOutputReadRequest where
  protocolVersion : ℤ
  approvalId : String
  offset : ℤ
  maxBytes : ℤ
  deriving DecidableEq

/-- `LiveOutputReadResponse`. -/
structure LiveOutputReadResponse where
  protocolVersion : ℤ
  approvalId : String
  streamId : String
  runId : String
  offset : ℤ
  nextOffset : ℤ
  availableBytes : ℤ
  contentBase64 : String
  status : String
  terminal : Bool
  retryAfterMs : ℤ
  error : Option ExecutorProtocolError
  deriving DecidableEq

/-- `LiveOutputContract`. -/
def liveOutputContract : String := "moonfort.live-output.v1"

/-- `LiveOutputDefaultChunkBytes`. -/
def liveOutputDefaultChunkBytes : ℤ := 32 * 1024

/-- `LiveOutputMaxChunkBytes`. -/
def liveOutputMaxChunkBytes : ℤ := 64 * 1024

/-- `LiveOutputRetryAfterMs`. -/
def liveOutputRetryAfterMs : ℤ := 100

/-- `live_output_root`. -/
def liveOutputRoot (config : Deployment) : String := config.retentionRoot ++ "/live-output"

/-- The text whose authentication tag is the stream of an approval. -/
def streamIdPayload (approvalId : String) : String :=
  liveOutputContract ++ "\napproval\n" ++ approvalId

/-- `live_output_stream_id`. -/
def liveOutputStreamId (crypto : Crypto) (approvalId : String) (config : Deployment) : String :=
  crypto.tag config.artifactSigningKey (streamIdPayload approvalId)

/-- `live_output_signature_payload`. -/
def liveOutputSignaturePayload (reference : LiveOutputReference)
    (approvalId approvalDigest : String) : String :=
  joinLines [liveOutputContract, reference.streamId, reference.runId, reference.status,
    intText reference.sizeBytes, reference.sha256, intText reference.expiresAtMs, reference.keyId,
    approvalId, approvalDigest]

/-- `sign_live_output_reference`. -/
def signLiveOutputReference (crypto : Crypto) (reference : LiveOutputReference)
    (approvalId approvalDigest : String) (config : Deployment) : LiveOutputReference :=
  { reference with
    signature := crypto.tag config.artifactSigningKey
      (liveOutputSignaturePayload reference approvalId approvalDigest) }

/-- `live_output_reference_valid`. -/
def liveOutputReferenceValid (crypto : Crypto) (record : LiveOutputRecord) (config : Deployment) :
    Bool :=
  let reference := record.reference
  let expected := signLiveOutputReference crypto { reference with signature := "" }
    record.approvalId record.approvalDigest config
  reference.streamId == liveOutputStreamId crypto record.approvalId config &&
    safeIdentifier reference.runId &&
    ["running", "exited", "killed", "failed"].contains reference.status &&
    0 ≤ reference.sizeBytes && reference.sizeBytes ≤ config.limits.maxOutputBytes &&
    sha256Digest reference.sha256 && 0 < reference.expiresAtMs &&
    reference.keyId == config.artifactKeyId && sha256Digest record.approvalDigest &&
    constantTimeStringEqual reference.signature expected.signature

/-- `LiveOutputReference::to_json`. -/
def LiveOutputReference.toJson (reference : LiveOutputReference) : Json :=
  .object [("stream_id", .string reference.streamId), ("run_id", .string reference.runId),
    ("status", .string reference.status), ("size_bytes", .string (intText reference.sizeBytes)),
    ("sha256", .string reference.sha256),
    ("expires_at_ms", .string (intText reference.expiresAtMs)),
    ("key_id", .string reference.keyId), ("signature", .string reference.signature)]

/-- `LiveOutputRecord::to_json`. -/
def LiveOutputRecord.toJson (record : LiveOutputRecord) : Json :=
  .object [("reference", record.reference.toJson), ("approval_id", .string record.approvalId),
    ("approval_digest", .string record.approvalDigest)]

/-- What `write_live_output_record` checks before it publishes a record. -/
def liveOutputRecordWritable (crypto : Crypto) (record : LiveOutputRecord) (config : Deployment) :
    Bool :=
  liveOutputReferenceValid crypto record config &&
    (utf8Length record.toJson.stringify : ℤ) ≤ config.limits.maxProtocolBytes

/-- The reference that `begin_live_output` signs for a run that starts. -/
def beginLiveOutput (crypto : Crypto) (runId approvalId approvalDigest : String) (now : ℤ)
    (config : Deployment) : Option LiveOutputReference :=
  if !(safeIdentifier runId && safeIdentifier approvalId && sha256Digest approvalDigest &&
      retentionWindowIsValid config.limits.retentionMs) then none
  else if !(0 ≤ now && config.limits.retentionMs ≤ 9223372036854775807 - now) then none
  else
    some (signLiveOutputReference crypto
      { streamId := liveOutputStreamId crypto approvalId config
        runId := runId
        status := "running"
        sizeBytes := 0
        sha256 := crypto.digest []
        expiresAtMs := now + config.limits.retentionMs
        keyId := config.artifactKeyId
        signature := "" } approvalId approvalDigest config)

/-- `live_output_terminal_status`. -/
def liveOutputTerminalStatus : SandboxRunStatus → String
  | .exited => "exited"
  | .killed => "killed"
  | .failed | .created | .running => "failed"

/-- What the host answers about a blob while its run is finalised. -/
structure FinalizeReading where
  /-- `@fs.exists(blob)`, an error counted as absence. -/
  blobExists : Bool
  /-- The empty blob can be created. -/
  creates : Bool
  /-- The blob is regular, canonical and protected. -/
  blobSafe : Bool
  size : Option ℤ
  complete : FileReading

/-- The reference that `finalize_live_output` signs for a run that has ended. -/
def finalizeLiveOutput (crypto : Crypto) (host : FinalizeReading) (started : LiveOutputReference)
    (approvalId approvalDigest : String) (status : SandboxRunStatus) (config : Deployment) :
    Option LiveOutputReference :=
  if host.blobExists = false ∧ (status = .exited ∨ status = .killed ∨ host.creates = false) then
    none
  else if !host.blobSafe then none
  else
    match host.size with
    | none => none
    | some size =>
      match boundedOutputArtifactBytes host.complete size config.limits.maxOutputBytes with
      | .error _ => none
      | .ok bytes =>
        some (signLiveOutputReference crypto
          { started with
            status := liveOutputTerminalStatus status
            sizeBytes := size
            sha256 := crypto.digest bytes
            signature := "" } approvalId approvalDigest config)

/-- `live_output_read_error`. -/
def liveOutputReadError (approvalId code message : String) : LiveOutputReadResponse :=
  { protocolVersion := 1
    approvalId := approvalId
    streamId := ""
    runId := ""
    offset := 0
    nextOffset := 0
    availableBytes := 0
    contentBase64 := ""
    status := "unavailable"
    terminal := true
    retryAfterMs := 0
    error := some ⟨code, message⟩ }

/-- What the host answers during one read of a stream. An answer `none` is an
error that the host raises. -/
structure LiveOutputReading where
  /-- The record in the manifest; `none` when it cannot be read. -/
  manifest : Option LiveOutputRecord
  now : ℤ
  /-- `@fs.exists(blob)`. -/
  blobExists : Option Bool
  /-- The blob is regular, canonical and protected. -/
  blobSafe : Option Bool
  /-- The size of the opened blob. -/
  blobSize : Option ℤ
  /-- The whole blob, read to be verified. -/
  complete : FileReading
  /-- `read_exactly_at`, at a position with a count. -/
  readAt : ℤ → ℤ → Option (List UInt8)

/-- The bytes that are available in a blob. -/
inductive Availability where
  | raised
  | blobUnsafe
  | bytes (count : ℤ)

/-- How many bytes of the stream are in the blob. -/
def availableBytes (host : LiveOutputReading) : Availability :=
  match host.blobExists with
  | none => .raised
  | some false => .bytes 0
  | some true =>
    match host.blobSafe with
    | none => .raised
    | some false => .blobUnsafe
    | some true =>
      match host.blobSize with
      | none => .raised
      | some size => .bytes size

/-- Why the blob of a run that has ended is refused; the empty text means that it is whole. -/
def terminalBlobError (crypto : Crypto) (host : LiveOutputReading) (record : LiveOutputRecord)
    (available : ℤ) (config : Deployment) : String :=
  if available ≠ record.reference.sizeBytes then
    "terminal live output size does not match its signed reference"
  else
    match boundedOutputArtifactBytes host.complete available config.limits.maxOutputBytes with
    | .error _ => "terminal live output could not be validated"
    | .ok complete =>
      if !constantTimeStringEqual (crypto.digest complete) record.reference.sha256 then
        "terminal live output digest mismatch"
      else ""

/-- The last part of `read_live_output`: the page at the cursor. -/
def liveOutputPage (host : LiveOutputReading) (request : LiveOutputReadRequest)
    (record : LiveOutputRecord) (available : ℤ) : Option LiveOutputReadResponse :=
  let chunkLimit :=
    if request.maxBytes ≤ 0 then liveOutputDefaultChunkBytes
    else min request.maxBytes liveOutputMaxChunkBytes
  let count := min (available - request.offset) chunkLimit
  match if count = 0 then some [] else host.readAt request.offset count with
  | none => none
  | some bytes =>
    let next := request.offset + bytes.length
    let terminal := record.reference.status != "running" && next == available
    some
      { protocolVersion := 1
        approvalId := request.approvalId
        streamId := record.reference.streamId
        runId := record.reference.runId
        offset := request.offset
        nextOffset := next
        availableBytes := available
        contentBase64 := base64Encode bytes
        status := record.reference.status
        terminal := terminal
        retryAfterMs := if terminal = true ∨ 0 < bytes.length then 0 else liveOutputRetryAfterMs
        error := none }

/-- The part of `read_live_output` after the record is accepted. -/
def readLiveOutputBlob (crypto : Crypto) (host : LiveOutputReading)
    (request : LiveOutputReadRequest) (record : LiveOutputRecord) (config : Deployment) :
    Option LiveOutputReadResponse :=
  match availableBytes host with
  | .raised => none
  | .blobUnsafe =>
    some (liveOutputReadError request.approvalId "live-output-integrity-refused"
      "live output blob is unsafe")
  | .bytes available =>
    if config.limits.maxOutputBytes < available ∨ available < request.offset then
      some (liveOutputReadError request.approvalId "live-output-cursor-refused"
        "live output cursor is outside the retained stream")
    else if record.reference.status ≠ "running" ∧
        terminalBlobError crypto host record available config ≠ "" then
      some (liveOutputReadError request.approvalId "live-output-integrity-refused"
        (terminalBlobError crypto host record available config))
    else liveOutputPage host request record available

/-- `read_live_output`; `none` when the call raises. -/
def readLiveOutput (crypto : Crypto) (host : LiveOutputReading) (request : LiveOutputReadRequest)
    (config : Deployment) : Option LiveOutputReadResponse :=
  if request.protocolVersion ≠ 1 ∨ safeIdentifier request.approvalId = false ∨
      request.offset < 0 then
    some (liveOutputReadError request.approvalId "live-output-request-refused"
      "live output request is invalid")
  else
    match host.manifest with
    | none =>
      some (liveOutputReadError request.approvalId "live-output-unavailable"
        "live output has not started or is no longer retained")
    | some record =>
      if liveOutputReferenceValid crypto record config = false ∨
          record.approvalId ≠ request.approvalId ∨ record.reference.expiresAtMs ≤ host.now then
        some (liveOutputReadError request.approvalId "live-output-integrity-refused"
          "live output reference is invalid or expired")
      else readLiveOutputBlob crypto host request record config

variable {config : Deployment} {crypto : Crypto} {record : LiveOutputRecord}

/-- The size that an accepted reference is signed for is within the limit. -/
theorem sizeBytes_le_of_valid (h : liveOutputReferenceValid crypto record config = true) :
    record.reference.sizeBytes ≤ config.limits.maxOutputBytes := by
  simp only [liveOutputReferenceValid, Bool.and_eq_true, decide_eq_true_eq] at h
  exact h.1.1.1.1.1.2

variable {host : LiveOutputReading}

/-- The whole blob of a run that has ended has the signed size and digest. -/
theorem terminalBlobError_eq_empty {available : ℤ}
    (h : terminalBlobError crypto host record available config = "") :
    available = record.reference.sizeBytes ∧ ∃ complete,
      boundedOutputArtifactBytes host.complete available config.limits.maxOutputBytes =
        .ok complete ∧ crypto.digest complete = record.reference.sha256 := by
  unfold terminalBlobError at h
  split at h
  next => exact absurd h (by decide)
  next hsize =>
    split at h
    next => exact absurd h (by decide)
    next complete hread =>
      split at h
      next => exact absurd h (by decide)
      next hdigest =>
        rw [Bool.not_eq_true', Bool.not_eq_false, constantTimeStringEqual_iff] at hdigest
        exact ⟨not_not.mp hsize, complete, hread, hdigest⟩

/-- What a read has passed when it answers a page. -/
structure LivePage (crypto : Crypto) (host : LiveOutputReading) (request : LiveOutputReadRequest)
    (config : Deployment) (record : LiveOutputRecord) (available : ℤ)
    (response : LiveOutputReadResponse) : Prop where
  manifest : host.manifest = some record
  valid : liveOutputReferenceValid crypto record config = true
  approvalId : record.approvalId = request.approvalId
  live : host.now < record.reference.expiresAtMs
  offset_nonneg : 0 ≤ request.offset
  available_eq : availableBytes host = .bytes available
  offset_le : request.offset ≤ available
  available_le : available ≤ config.limits.maxOutputBytes
  whole : record.reference.status ≠ "running" →
    terminalBlobError crypto host record available config = ""
  page : liveOutputPage host request record available = some response

/-- Why a read answers an error. -/
inductive LiveRefusal (crypto : Crypto) (host : LiveOutputReading)
    (request : LiveOutputReadRequest) (config : Deployment) : Prop
  | request (h : request.protocolVersion ≠ 1 ∨ safeIdentifier request.approvalId = false ∨
      request.offset < 0)
  | unavailable (h : host.manifest = none)
  | record {record : LiveOutputRecord} (hmanifest : host.manifest = some record)
      (h : liveOutputReferenceValid crypto record config = false ∨
        record.approvalId ≠ request.approvalId ∨ record.reference.expiresAtMs ≤ host.now)
  | blob (h : availableBytes host = .blobUnsafe)
  | cursor {available : ℤ} (havailable : availableBytes host = .bytes available)
      (h : config.limits.maxOutputBytes < available ∨ available < request.offset)
  | broken {record : LiveOutputRecord} {available : ℤ} (hmanifest : host.manifest = some record)
      (havailable : availableBytes host = .bytes available)
      (hended : record.reference.status ≠ "running")
      (h : terminalBlobError crypto host record available config ≠ "")

variable {response : LiveOutputReadResponse} {request : LiveOutputReadRequest}

/-- A page carries no error. -/
theorem LivePage.error_eq_none
    {available : ℤ} (h : LivePage crypto host request config record available response) :
    response.error = none := by
  have hpage := h.page
  unfold liveOutputPage at hpage
  dsimp only at hpage
  split at hpage
  next => cases hpage
  next =>
    cases hpage
    rfl

/-- A response is a page of an accepted record, or an error with its reason. -/
theorem readLiveOutput_cases (h : readLiveOutput crypto host request config = some response) :
    (∃ record available, LivePage crypto host request config record available response) ∨
      LiveRefusal crypto host request config ∧
        ∃ code message, response = liveOutputReadError request.approvalId code message := by
  unfold readLiveOutput at h
  split at h
  next hrequest =>
    cases h
    exact .inr ⟨.request hrequest, _, _, rfl⟩
  next hrequest =>
    split at h
    next hmanifest =>
      cases h
      exact .inr ⟨.unavailable hmanifest, _, _, rfl⟩
    next record hmanifest =>
      split at h
      next hrecord =>
        cases h
        exact .inr ⟨.record hmanifest hrecord, _, _, rfl⟩
      next hrecord =>
        unfold readLiveOutputBlob at h
        split at h
        next => cases h
        next hblob =>
          cases h
          exact .inr ⟨.blob hblob, _, _, rfl⟩
        next available havailable =>
          split at h
          next hcursor =>
            cases h
            exact .inr ⟨.cursor havailable hcursor, _, _, rfl⟩
          next hcursor =>
            split at h
            next hbroken =>
              cases h
              exact .inr ⟨.broken hmanifest havailable hbroken.1 hbroken.2, _, _, rfl⟩
            next hwhole =>
              simp only [not_or, not_not, not_lt, not_le, Bool.not_eq_false] at hrequest hrecord
              simp only [not_or, not_lt] at hcursor
              refine .inl ⟨record, available, ?_⟩
              exact
                { manifest := hmanifest
                  valid := hrecord.1
                  approvalId := hrecord.2.1
                  live := hrecord.2.2
                  offset_nonneg := hrequest.2.2
                  available_eq := havailable
                  offset_le := hcursor.2
                  available_le := hcursor.1
                  whole := fun hstatus => by
                    by_contra hbroken
                    exact hwhole ⟨hstatus, hbroken⟩
                  page := h }

/-- A page that passes all checks is answered. -/
theorem LivePage.read
    {available : ℤ} (h : LivePage crypto host request config record available response)
    (hversion : request.protocolVersion = 1) (hsafe : safeIdentifier request.approvalId = true) :
    readLiveOutput crypto host request config = some response := by
  have hrequest : ¬ (request.protocolVersion ≠ 1 ∨ safeIdentifier request.approvalId = false ∨
      request.offset < 0) := by
    rw [hversion, hsafe]
    simpa using h.offset_nonneg
  have hrecord : ¬ (liveOutputReferenceValid crypto record config = false ∨
      record.approvalId ≠ request.approvalId ∨ record.reference.expiresAtMs ≤ host.now) := by
    rw [h.valid, h.approvalId]
    simpa using h.live
  have hcursor : ¬ (config.limits.maxOutputBytes < available ∨ available < request.offset) := by
    have hlimit := h.available_le
    have hoffset := h.offset_le
    omega
  have hwhole : ¬ (record.reference.status ≠ "running" ∧
      terminalBlobError crypto host record available config ≠ "") :=
    fun hbroken => hbroken.2 (h.whole hbroken.1)
  rw [readLiveOutput, if_neg hrequest, h.manifest]
  dsimp only
  rw [if_neg hrecord, readLiveOutputBlob, h.available_eq]
  dsimp only
  rw [if_neg hcursor, if_neg hwhole, h.page]

/-- A response without an error is a page of an accepted record. -/
theorem readLiveOutput_page (h : readLiveOutput crypto host request config = some response)
    (herror : response.error = none) :
    ∃ record available, LivePage crypto host request config record available response := by
  obtain hpage | ⟨-, code, message, rfl⟩ := readLiveOutput_cases h
  · exact hpage
  · cases herror

end Moonfort.Executor
