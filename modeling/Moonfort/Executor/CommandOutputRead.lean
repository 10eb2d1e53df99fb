import Moonfort.Executor.CommandOutput
import Moonfort.MoonBit.JsonSize
import Moonfort.Paging
import Moonfort.Sandbox.ProfileAcceptance

/-!
# Reading retained command output

`read_command_output`: the request, the pages of a verified artifact, and the
JSON text of a response.
-/

namespace Moonfort.Executor

open MoonBit Paging Sandbox

/-- `CommandOutputReadRequest`. -/
structure CommandOutputReadRequest where
  protocolVersion : ℤ
  reference : CommandOutputArtifactRef
  runId : String
  approvalDigest : String
  commandDigest : String
  offset : ℤ
  maxBytes : ℤ
  deriving DecidableEq

/-- `CommandOutputReadResponse`. -/
structure CommandOutputReadResponse where
  protocolVersion : ℤ
  reference : Option CommandOutputArtifactRef
  offset : ℤ
  nextOffset : ℤ
  contentBase64 : String
  eof : Bool
  status : String
  error : Option ExecutorProtocolError
  deriving DecidableEq

/-- `command_output_read_error`. -/
def commandOutputReadError (status code message : String) : CommandOutputReadResponse :=
  { protocolVersion := 1
    reference := none
    offset := 0
    nextOffset := 0
    contentBase64 := ""
    eof := false
    status := status
    error := some ⟨code, message⟩ }

/-- `command_output_request_valid`. -/
def commandOutputRequestValid (request : CommandOutputReadRequest) (config : Deployment) : Bool :=
  request.protocolVersion == 1 && 0 ≤ request.offset && 0 < request.maxBytes &&
    request.maxBytes ≤ config.limits.maxOutputBytes && safeIdentifier request.runId &&
    4096 ≤ config.limits.maxProtocolBytes

/-- The response to a read of an artifact that fails. -/
def commandOutputReadFailure : ReadError → CommandOutputReadResponse
  | .invalidReference =>
    commandOutputReadError "refused" "output-reference-refused"
      "output reference or receipt binding is invalid"
  | .artifactExpired =>
    commandOutputReadError "expired" "output-expired" "retained command output has expired"
  | .artifactIntegrityFailure =>
    commandOutputReadError "refused" "output-integrity-refused"
      "retained command output failed verification"
  | .artifactUnavailable | .hostError =>
    commandOutputReadError "unavailable" "output-unavailable"
      "retained command output is unavailable"

/-- How many bytes of content a page may hold. -/
def commandOutputChunkLimit (maxBytes : ℤ) (config : Deployment) : ℤ :=
  min (min maxBytes 32768) ((config.limits.maxProtocolBytes - 2048) / 4 * 3)

/-- The page of verified bytes at the cursor of a request. -/
def commandOutputPage (request : CommandOutputReadRequest) (bytes : List UInt8)
    (config : Deployment) : CommandOutputReadResponse :=
  let count := min (bytes.length - request.offset) (commandOutputChunkLimit request.maxBytes config)
  let nextOffset := request.offset + count
  { protocolVersion := 1
    reference := some request.reference
    offset := request.offset
    nextOffset := nextOffset
    contentBase64 := base64Encode ((bytes.drop request.offset.toNat).take count.toNat)
    eof := nextOffset == bytes.length
    status := "available"
    error := none }

/-- `read_command_output`. -/
def readCommandOutput (crypto : Crypto) (host : ArtifactReading)
    (request : CommandOutputReadRequest) (config : Deployment) : CommandOutputReadResponse :=
  if !commandOutputRequestValid request config then
    commandOutputReadError "refused" "output-request-refused" "output read request is invalid"
  else
    match readCommandOutputArtifact crypto host request.reference request.runId
        request.approvalDigest request.commandDigest config with
    | .error error => commandOutputReadFailure error
    | .ok bytes =>
      if ¬ request.offset ≤ bytes.length then
        commandOutputReadError "refused" "output-cursor-refused"
          "output cursor is outside the retained artifact"
      else commandOutputPage request bytes config

/-- `CommandOutputArtifactRef::to_json`. -/
def outputReferenceJson (reference : CommandOutputArtifactRef) : Json :=
  .object [("artifact_id", .string reference.artifactId), ("run_id", .string reference.runId),
    ("sha256", .string reference.sha256), ("size_bytes", .string (intText reference.sizeBytes)),
    ("media_type", .string reference.mediaType),
    ("expires_at_ms", .string (intText reference.expiresAtMs)),
    ("key_id", .string reference.keyId), ("signature", .string reference.signature)]

/-- A member that is left out when its value is absent. -/
def optionalMember (key : String) : Option Json → List (String × Json)
  | none => []
  | some value => [(key, value)]

/-- `ExecutorProtocolError::to_json`. -/
def protocolErrorJson (error : ExecutorProtocolError) : Json :=
  .object [("code", .string error.code), ("message", .string error.message)]

/-- `CommandOutputReadResponse::to_json`. -/
def CommandOutputReadResponse.toJson (response : CommandOutputReadResponse) : Json :=
  .object (("protocol_version", .number response.protocolVersion) ::
    (optionalMember "reference" (response.reference.map outputReferenceJson) ++
      [("offset", .string (intText response.offset)),
        ("next_offset", .string (intText response.nextOffset)),
        ("content_base64", .string response.contentBase64), ("eof", .bool response.eof),
        ("status", .string response.status)] ++
      optionalMember "error" (response.error.map protocolErrorJson)))

/-- The parts of a response as a page. -/
def commandOutputView : PageView CommandOutputReadResponse UInt8 where
  offset := CommandOutputReadResponse.offset
  next := CommandOutputReadResponse.nextOffset
  items response := (base64Decode response.contentBase64).getD []
  eof := CommandOutputReadResponse.eof

/-- A response is an error, or a page of the verified bytes. -/
theorem readCommandOutput_cases (crypto : Crypto) (host : ArtifactReading)
    (request : CommandOutputReadRequest) (config : Deployment) :
    (∃ status code message, (status, code, message) ∈ [
        ("refused", "output-request-refused", "output read request is invalid"),
        ("refused", "output-reference-refused", "output reference or receipt binding is invalid"),
        ("expired", "output-expired", "retained command output has expired"),
        ("refused", "output-integrity-refused", "retained command output failed verification"),
        ("unavailable", "output-unavailable", "retained command output is unavailable"),
        ("refused", "output-cursor-refused", "output cursor is outside the retained artifact")] ∧
      readCommandOutput crypto host request config =
        commandOutputReadError status code message) ∨
    ∃ bytes, commandOutputRequestValid request config = true ∧
      ArtifactRead crypto host request.reference request.runId request.approvalDigest
        request.commandDigest config bytes ∧ request.offset ≤ bytes.length ∧
      readCommandOutput crypto host request config = commandOutputPage request bytes config := by
  unfold readCommandOutput
  split
  next => exact .inl ⟨_, _, _, List.mem_cons_self, rfl⟩
  next hvalid =>
    rw [Bool.not_eq_true', Bool.not_eq_false] at hvalid
    split
    next error hread =>
      left
      cases error <;> exact ⟨_, _, _, by decide, rfl⟩
    next bytes hread =>
      split
      next => exact .inl ⟨_, _, _, by decide, rfl⟩
      next hcursor =>
        exact .inr ⟨bytes, hvalid, readCommandOutputArtifact_ok hread, not_not.mp hcursor, rfl⟩

/-- An identifier in a JSON text. -/
theorem quotedSize_le_of_safeIdentifier {value : String} (h : safeIdentifier value = true) :
    quotedSize value ≤ 130 := by
  simp only [safeIdentifier, Bool.and_eq_true, decide_eq_true_eq] at h
  refine quotedSize_le_of_allChars ?_ h.2 h.1.2
  intro c hc
  simp only [isAsciiAlphabetic, isAsciiDigit, Bool.or_eq_true, Bool.and_eq_true, decide_eq_true_eq,
    beq_iff_eq] at hc
  obtain (((⟨hlow, hhigh⟩ | ⟨hlow, hhigh⟩) | ⟨hlow, hhigh⟩) | rfl) | rfl := hc
  · exact isPlain_of_between hlow hhigh (by decide)
  · exact isPlain_of_between hlow hhigh (by decide)
  · exact isPlain_of_between hlow hhigh (by decide)
  · decide
  · decide

/-- A digest in a JSON text. -/
theorem quotedSize_le_of_sha256Digest {value : String} (h : sha256Digest value = true) :
    quotedSize value ≤ 66 := by
  simp only [sha256Digest, Bool.and_eq_true, beq_iff_eq] at h
  refine quotedSize_le_of_allChars ?_ h.2 h.1.le
  intro c hc
  simp only [isHexDigit, Bool.or_eq_true, Bool.and_eq_true, decide_eq_true_eq] at hc
  obtain ⟨hlow, hhigh⟩ | ⟨hlow, hhigh⟩ := hc
  · exact isPlain_of_between hlow hhigh (by decide)
  · exact isPlain_of_between hlow hhigh (by decide)

variable {config : Deployment}

/-- The text of a well-formed reference of a loaded deployment. -/
theorem size_outputReferenceJson_le {reference : CommandOutputArtifactRef}
    (h : outputReferenceIsWellFormed reference config = true)
    (hkey : safeIdentifier config.artifactKeyId = true)
    (hlimit : config.limits.maxOutputBytes ≤ 1073741824)
    (hexpires : reference.expiresAtMs < 2 ^ 63) :
    (outputReferenceJson reference).size ≤ 700 := by
  simp only [outputReferenceIsWellFormed, Bool.and_eq_true, Bool.or_eq_true, decide_eq_true_eq,
    beq_iff_eq] at h
  obtain ⟨⟨⟨⟨⟨⟨⟨⟨hartifact, hrun⟩, hsha⟩, hsize⟩, hsize'⟩, hmedia⟩, hexpires'⟩, hkeyId⟩,
    hsignature⟩ := h
  have hartifact' := quotedSize_le_of_safeIdentifier hartifact
  have hrun' := quotedSize_le_of_safeIdentifier hrun
  have hkey' := quotedSize_le_of_safeIdentifier hkey
  have hsha' := quotedSize_le_of_sha256Digest hsha
  have hsignature' := quotedSize_le_of_sha256Digest hsignature
  have hsizeText : quotedSize (intText reference.sizeBytes) ≤ 10 + 2 :=
    quotedSize_intText_le (by decide) hsize (by omega)
  have hexpiresText : quotedSize (intText reference.expiresAtMs) ≤ 19 + 2 :=
    quotedSize_intText_le (by decide) (by omega) (by omega)
  have hmediaText : quotedSize reference.mediaType ≤ 27 := by
    obtain hmedia | hmedia := hmedia <;> rw [hmedia] <;> decide
  have hkeys : (["artifact_id", "run_id", "sha256", "size_bytes", "media_type", "expires_at_ms",
      "key_id", "signature"].map quotedSize) = [13, 8, 8, 12, 12, 15, 8, 11] := by decide
  simp only [List.map_cons, List.map_nil, List.cons.injEq, and_true] at hkeys
  rw [outputReferenceJson, Json.size_object]
  simp only [membersSize_cons, membersSize_nil, Json.size_string, hkeyId]
  omega

variable {request : CommandOutputReadRequest}

/-- An accepted request for a verified artifact is answered with a page. -/
theorem readCommandOutput_of_ok {crypto : Crypto} {host : ArtifactReading} {bytes : List UInt8}
    (hvalid : commandOutputRequestValid request config = true)
    (hread : readCommandOutputArtifact crypto host request.reference request.runId
      request.approvalDigest request.commandDigest config = .ok bytes)
    (hcursor : request.offset ≤ bytes.length) :
    readCommandOutput crypto host request config = commandOutputPage request bytes config := by
  rw [readCommandOutput, hvalid, hread, if_neg (by decide)]
  exact if_neg (not_not.mpr hcursor)

/-- A page may hold a byte at least. -/
theorem commandOutputChunkLimit_pos {maxBytes : ℤ} (hmax : 0 < maxBytes)
    (hprotocol : 4096 ≤ config.limits.maxProtocolBytes) :
    0 < commandOutputChunkLimit maxBytes config := by
  rw [commandOutputChunkLimit]
  omega

/-- What an accepted request says about its cursor and its page size. -/
theorem cursor_of_valid (h : commandOutputRequestValid request config = true) :
    0 ≤ request.offset ∧ 0 < request.maxBytes ∧ 4096 ≤ config.limits.maxProtocolBytes := by
  simp only [commandOutputRequestValid, Bool.and_eq_true, decide_eq_true_eq, beq_iff_eq] at h
  exact ⟨h.1.1.1.1.2, h.1.1.1.2, h.2⟩

/-- The response to an accepted request is the page of the bytes at its cursor. -/
theorem commandOutputPage_isPage {bytes : List UInt8}
    (hvalid : commandOutputRequestValid request config = true)
    (hcursor : request.offset ≤ bytes.length) :
    commandOutputView.IsPage bytes request.offset (commandOutputPage request bytes config) := by
  obtain ⟨hoffset, hmax, hprotocol⟩ := cursor_of_valid hvalid
  have hlimit := commandOutputChunkLimit_pos hmax hprotocol
  apply isPage_of_slice hoffset hcursor hlimit rfl ?_ rfl rfl
  exact congrArg (Option.getD · []) (base64Decode_encode _)

/-- The text of a page fits in the protocol limit. -/
theorem size_commandOutputPage_le {bytes : List UInt8}
    (hvalid : commandOutputRequestValid request config = true)
    (hreference : outputReferenceIsWellFormed request.reference config = true)
    (hsize : (bytes.length : ℤ) = request.reference.sizeBytes)
    (hcursor : request.offset ≤ bytes.length)
    (hkey : safeIdentifier config.artifactKeyId = true)
    (hlimit : config.limits.maxOutputBytes ≤ 1073741824)
    (hexpires : request.reference.expiresAtMs < 2 ^ 63) :
    ((commandOutputPage request bytes config).toJson.size : ℤ) ≤
      config.limits.maxProtocolBytes := by
  obtain ⟨hoffset, hmax, hprotocol⟩ := cursor_of_valid hvalid
  have hreferenceSize := size_outputReferenceJson_le hreference hkey hlimit hexpires
  simp only [outputReferenceIsWellFormed, Bool.and_eq_true, decide_eq_true_eq] at hreference
  have hbound : request.reference.sizeBytes ≤ config.limits.maxOutputBytes :=
    hreference.1.1.1.1.2
  have hlength := length_slice hoffset hcursor (commandOutputChunkLimit_pos hmax hprotocol)
  rw [slice] at hlength
  have hchunk : commandOutputChunkLimit request.maxBytes config ≤
      (config.limits.maxProtocolBytes - 2048) / 4 * 3 := min_le_right _ _
  have hoffsetText : quotedSize (intText request.offset) ≤ 10 + 2 :=
    quotedSize_intText_le (by decide) hoffset (by omega)
  have hnextText : quotedSize (intText (request.offset + min (bytes.length - request.offset)
      (commandOutputChunkLimit request.maxBytes config))) ≤ 10 + 2 := by
    have hpos := commandOutputChunkLimit_pos hmax hprotocol
    exact quotedSize_intText_le (by decide) (by omega) (by omega)
  have hkeys : (["protocol_version", "reference", "offset", "next_offset", "content_base64", "eof",
      "status", "available"].map quotedSize) = [18, 11, 8, 13, 16, 5, 8, 11] := by decide
  simp only [List.map_cons, List.map_nil, List.cons.injEq, and_true] at hkeys
  have hversion : (Json.number 1).size = 1 := by decide
  have heof : ∀ b, (Json.bool b).size ≤ 5 := by decide
  have heof' := heof (request.offset + min (bytes.length - request.offset)
    (commandOutputChunkLimit request.maxBytes config) == bytes.length)
  unfold CommandOutputReadResponse.toJson commandOutputPage
  rw [Json.size_object]
  simp only [Option.map_some, Option.map_none, optionalMember, List.cons_append, List.nil_append,
    List.append_nil, membersSize_cons, membersSize_nil, Json.size_string, quotedSize_base64Encode]
  omega

/-- What loading a deployment has checked of the values that a response repeats. -/
theorem loaded_of_deploymentError {files : HostFiles} (h : deploymentError files config = "") :
    safeIdentifier config.artifactKeyId = true ∧ 0 < config.limits.maxOutputBytes ∧
      config.limits.maxOutputBytes ≤ 1073741824 := by
  unfold deploymentError at h
  simp (disch := decide) only [message_eq_empty_iff] at h
  obtain ⟨-, -, -, -, -, -, -, -, -, hlimits, hkey, -⟩ := h
  simp only [Bool.not_eq_true', Bool.not_eq_false, Bool.and_eq_true] at hkey
  simp only [limitsAreValid, Bool.not_eq_true', Bool.not_eq_false, Bool.and_eq_true,
    decide_eq_true_eq] at hlimits
  refine ⟨hkey.1, ?_, ?_⟩ <;> omega

/-- Every response fits in the protocol limit. -/
theorem size_readCommandOutput_le (crypto : Crypto) (host : ArtifactReading)
    {request : CommandOutputReadRequest} {files : HostFiles} {config : Deployment}
    (hloaded : deploymentError files config = "")
    (hprotocol : 4096 ≤ config.limits.maxProtocolBytes)
    (hexpires : request.reference.expiresAtMs < 2 ^ 63) :
    ((readCommandOutput crypto host request config).toJson.size : ℤ) ≤
      config.limits.maxProtocolBytes := by
  obtain ⟨hkey, -, hlimit⟩ := loaded_of_deploymentError hloaded
  obtain ⟨status, code, message, hmem, heq⟩ | ⟨bytes, hvalid, hread, hcursor, heq⟩ :=
    readCommandOutput_cases crypto host request config
  · rw [heq]
    have hsmall : (commandOutputReadError status code message).toJson.size ≤ 300 := by
      simp only [List.mem_cons, Prod.mk.injEq, List.not_mem_nil, or_false] at hmem
      obtain ⟨rfl, rfl, rfl⟩ | ⟨rfl, rfl, rfl⟩ | ⟨rfl, rfl, rfl⟩ | ⟨rfl, rfl, rfl⟩ |
        ⟨rfl, rfl, rfl⟩ | ⟨rfl, rfl, rfl⟩ := hmem <;> decide +kernel
    omega
  · rw [heq]
    exact size_commandOutputPage_le hvalid hread.wellFormed hread.length hcursor hkey hlimit
      hexpires

/-- A page of an artifact: the answer without an error to a call at a cursor, while
the blob of the artifact holds a content or cannot be read. -/
def OutputAnswer (crypto : Crypto) (config : Deployment) (content : List UInt8)
    (reference : CommandOutputArtifactRef) (runId approvalDigest commandDigest : String)
    (cursor : ℤ) (page : CommandOutputReadResponse) : Prop :=
  ∃ host maxBytes, (∀ bytes ∈ host.blob.chunks.map List.flatten, bytes = content) ∧
    readCommandOutput crypto host ⟨1, reference, runId, approvalDigest, commandDigest, cursor,
      maxBytes⟩ config = page ∧ page.error = none

/-- An answer is the page at the cursor of the content, which is the signed one. -/
theorem OutputAnswer.isPage {crypto : Crypto} {content : List UInt8}
    {reference : CommandOutputArtifactRef} {runId approvalDigest commandDigest : String}
    {cursor : ℤ} {page : CommandOutputReadResponse}
    (h : OutputAnswer crypto config content reference runId approvalDigest commandDigest cursor
      page) :
    commandOutputView.IsPage content cursor page ∧ crypto.digest content = reference.sha256 := by
  obtain ⟨host, maxBytes, hcontent, hread, herror⟩ := h
  obtain ⟨status, code, message, -, heq⟩ | ⟨bytes, hvalid, hartifact, hcursor, heq⟩ :=
    readCommandOutput_cases crypto host ⟨1, reference, runId, approvalDigest, commandDigest, cursor,
      maxBytes⟩ config
  · rw [← hread, heq] at herror
    cases herror
  · obtain rfl := hcontent bytes hartifact.blob
    rw [← hread, heq]
    exact ⟨commandOutputPage_isPage hvalid hcursor, hartifact.digest⟩

end Moonfort.Executor
