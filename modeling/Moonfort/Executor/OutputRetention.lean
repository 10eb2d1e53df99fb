import Moonfort.Executor.CommandOutputRead
import Moonfort.Executor.LiveOutput

/-!
# Retaining the output of a run

What the executor keeps of a run's output once the run has ended: the bytes of the
signed spool or of the receipt, as an artifact where they are more than the model
is shown, and the projection of them that the receipt keeps.
-/

namespace Moonfort.Executor

open MoonBit Sandbox

/-- `@utf8.decode_lossy`. -/
def decodeLossy (bytes : List UInt8) : String :=
  String.ofList ((utf8Items .idle bytes).map (·.getD '\uFFFD'))

/-- The loop of `bounded_utf8_prefix`, from the end that it tries next. -/
def boundedUtf8PrefixFrom (bytes : List UInt8) (maxBytes : ℤ) : ℕ → String
  | 0 => ""
  | n + 1 =>
    let candidate := decodeLossy (bytes.take (n + 1))
    if (utf8Length candidate : ℤ) ≤ maxBytes then candidate
    else boundedUtf8PrefixFrom bytes maxBytes n

/-- `bounded_utf8_prefix`. -/
def boundedUtf8Prefix (bytes : List UInt8) (maxBytes : ℤ) : String :=
  boundedUtf8PrefixFrom bytes maxBytes (min maxBytes bytes.length).toNat

/-- The loop of `bounded_utf8_suffix`, over the bytes from the start that it tries next. -/
def boundedUtf8SuffixFrom (maxBytes : ℤ) : List UInt8 → String
  | [] => ""
  | byte :: rest =>
    let candidate := decodeLossy (byte :: rest)
    if (utf8Length candidate : ℤ) ≤ maxBytes then candidate
    else boundedUtf8SuffixFrom maxBytes rest

/-- `bounded_utf8_suffix`. -/
def boundedUtf8Suffix (bytes : List UInt8) (maxBytes : ℤ) : String :=
  boundedUtf8SuffixFrom maxBytes (bytes.drop ((bytes.length : ℤ) - maxBytes).toNat)

/-- The marker of `model_output_projection` for the bytes it leaves out. -/
def projectionMarker : String := "\n[... full output retained in artifact ...]\n"

/-- `model_output_projection`. -/
def modelOutputProjection (output : String) (maxBytes : ℤ) : String :=
  let bytes := utf8Encode output
  let marker := utf8Encode projectionMarker
  if (bytes.length : ℤ) ≤ maxBytes then output
  else if maxBytes ≤ marker.length then boundedUtf8Prefix bytes maxBytes
  else
    let available := maxBytes - marker.length
    let head := available / 2
    let tail := available - head
    boundedUtf8Prefix bytes head ++ decodeLossy marker ++ boundedUtf8Suffix bytes tail

/-- `output_artifact_required`. -/
def outputArtifactRequired (receipt : SandboxReceipt) (maxModelOutputBytes : ℤ) : Bool :=
  receipt.outputTruncated || decide (maxModelOutputBytes < utf8Length receipt.output)

/-- `SandboxReceipt::with_output_artifact`. -/
def withOutputArtifact (receipt : SandboxReceipt) (output : String)
    (artifact : CommandOutputArtifactRef) : SandboxReceipt :=
  { receipt with output := output, outputArtifact := some artifact }

/-- `CommandOutputArtifactRecord::to_json`. -/
def CommandOutputArtifactRecord.toJson (record : CommandOutputArtifactRecord) : Json :=
  .object [("reference", outputReferenceJson record.reference),
    ("approval_digest", .string record.approvalDigest),
    ("command_digest", .string record.commandDigest)]

/-- What the host answers while an artifact is written. -/
structure ArtifactWriting where
  /-- `artifact_root_is_private`. -/
  rootIsPrivate : Bool
  /-- `@env.rand(16)`. -/
  random : Option (List UInt8)
  now : ℤ
  /-- Blob and manifest are written, verified and moved into place. -/
  stored : Bool

/-- `retain_command_output_bytes`. -/
def retainCommandOutputBytes (crypto : Crypto) (host : ArtifactWriting) (runId : String)
    (bytes : List UInt8) (outputLimit : ℤ) (approvalDigest commandDigest : String)
    (config : Deployment) : Except ReadError CommandOutputArtifactRef :=
  if !host.rootIsPrivate then .error .invalidReference
  else
    match retainedOutputReference crypto runId bytes (host.random.getD []) host.now outputLimit
        approvalDigest commandDigest config with
    | .error error => .error error
    | .ok reference =>
      let record : CommandOutputArtifactRecord := ⟨reference, approvalDigest, commandDigest⟩
      if !(host.random.isSome &&
          (utf8Length record.toJson.stringify : ℤ) ≤ config.limits.maxProtocolBytes &&
          host.stored) then
        .error .artifactUnavailable
      else .ok reference

/-- What the host answers while the output of a run is retained. -/
structure OutputRetention where
  /-- The record in the manifest of the stream; `none` when it cannot be read. -/
  manifest : Option LiveOutputRecord
  now : ℤ
  blob : FileReading
  artifact : ArtifactWriting

/-- `retained_receipt_output_bytes`. -/
def retainedReceiptOutputBytes (crypto : Crypto) (host : OutputRetention)
    (receipt : SandboxReceipt) (grant : ExecutionGrant) (approvalDigest : String)
    (liveOutput : Option LiveOutputReference) (config : Deployment) :
    Except ReadError (List UInt8) :=
  match grant.backend, liveOutput with
  | .localOs, some reference =>
    if !safeIdentifier reference.streamId then .error .invalidReference
    else
      match host.manifest with
      | none => .error .hostError
      | some record =>
        if !(liveOutputReferenceValid crypto record config && record.reference == reference &&
            reference.runId == grant.requestId && receipt.runId == grant.requestId &&
            record.approvalId == grant.approvalId && record.approvalDigest == approvalDigest &&
            reference.status == liveOutputTerminalStatus receipt.status &&
            (reference.status == "exited" || reference.status == "killed") &&
            host.now < reference.expiresAtMs &&
            reference.sizeBytes ≤ grant.limits.outputBytes) then
          .error .artifactIntegrityFailure
        else
          match boundedOutputArtifactBytes host.blob reference.sizeBytes
              grant.limits.outputBytes with
          | .error error => .error error
          | .ok bytes =>
            if crypto.digest bytes = reference.sha256 then .ok bytes
            else .error .artifactIntegrityFailure
  | _, _ => .ok (utf8Encode receipt.output)

/-- `retain_receipt_command_output`. -/
def retainReceiptCommandOutput (crypto : Crypto) (host : OutputRetention)
    (receipt : SandboxReceipt) (grant : ExecutionGrant) (approvalDigest commandDigest : String)
    (liveOutput : Option LiveOutputReference) (config : Deployment) :
    Except ReadError SandboxReceipt :=
  if ¬ (receipt.status = .exited ∨ receipt.status = .killed) then .ok receipt
  else
    match retainedReceiptOutputBytes crypto host receipt grant approvalDigest liveOutput config with
    | .error error => .error error
    | .ok bytes =>
      if outputArtifactRequired receipt config.limits.maxModelOutputBytes = false ∧
          bytes = utf8Encode receipt.output then
        .ok receipt
      else
        match retainCommandOutputBytes crypto host.artifact receipt.runId bytes
            grant.limits.outputBytes approvalDigest commandDigest config with
        | .error error => .error error
        | .ok artifact =>
          .ok (withOutputArtifact receipt
            (modelOutputProjection receipt.output
              (min config.limits.maxModelOutputBytes grant.limits.outputBytes)) artifact)

/-! ## What the projection keeps to -/

/-- The retained prefix is inside the limit. -/
theorem utf8Length_boundedUtf8PrefixFrom (bytes : List UInt8) (maxBytes : ℤ)
    (hmax : 0 ≤ maxBytes) (n : ℕ) :
    (utf8Length (boundedUtf8PrefixFrom bytes maxBytes n) : ℤ) ≤ maxBytes := by
  induction n with
  | zero => exact hmax
  | succ n ih =>
    rw [boundedUtf8PrefixFrom]
    split
    next hfits => exact hfits
    next => exact ih

/-- The retained suffix is inside the limit. -/
theorem utf8Length_boundedUtf8SuffixFrom (maxBytes : ℤ) (hmax : 0 ≤ maxBytes)
    (bytes : List UInt8) : (utf8Length (boundedUtf8SuffixFrom maxBytes bytes) : ℤ) ≤ maxBytes := by
  induction bytes with
  | nil => exact hmax
  | cons byte rest ih =>
    rw [boundedUtf8SuffixFrom]
    split
    next hfits => exact hfits
    next => exact ih

/-- The model is never shown more bytes than the limit. -/
theorem utf8Length_modelOutputProjection (output : String) {maxBytes : ℤ} (hmax : 0 ≤ maxBytes) :
    (utf8Length (modelOutputProjection output maxBytes) : ℤ) ≤ maxBytes := by
  have hmarker : utf8Length (decodeLossy (utf8Encode projectionMarker)) =
      (utf8Encode projectionMarker).length := by decide
  unfold modelOutputProjection
  dsimp only
  split
  next hfits =>
    rw [length_utf8Encode] at hfits
    exact hfits
  next =>
    split
    next => exact utf8Length_boundedUtf8PrefixFrom _ _ hmax _
    next hroom =>
      have hhead := utf8Length_boundedUtf8PrefixFrom (utf8Encode output)
        ((maxBytes - (utf8Encode projectionMarker).length) / 2) (by omega)
        (min ((maxBytes - (utf8Encode projectionMarker).length) / 2)
          (utf8Encode output).length).toNat
      have htail := utf8Length_boundedUtf8SuffixFrom
        (maxBytes - (utf8Encode projectionMarker).length -
          (maxBytes - (utf8Encode projectionMarker).length) / 2) (by omega)
        ((utf8Encode output).drop ((utf8Encode output).length -
          (maxBytes - (utf8Encode projectionMarker).length -
            (maxBytes - (utf8Encode projectionMarker).length) / 2)).toNat)
      rw [utf8Length_append, utf8Length_append, hmarker, boundedUtf8Prefix, boundedUtf8Suffix]
      omega

/-- Retaining the output changes nothing of a receipt but its output. -/
theorem retainReceiptCommandOutput_ok {crypto : Crypto} {host : OutputRetention}
    {receipt retained : SandboxReceipt} {grant : ExecutionGrant}
    {approvalDigest commandDigest : String} {liveOutput : Option LiveOutputReference}
    {config : Deployment}
    (h : retainReceiptCommandOutput crypto host receipt grant approvalDigest commandDigest
      liveOutput config = .ok retained) :
    retained = { receipt with
      output := retained.output
      outputArtifact := retained.outputArtifact } := by
  unfold retainReceiptCommandOutput at h
  repeat' split at h
  all_goals cases h
  all_goals rfl

end Moonfort.Executor
