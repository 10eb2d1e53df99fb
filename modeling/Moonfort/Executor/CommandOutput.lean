import Moonfort.Executor.Deployment
import Moonfort.MoonBit.Crypto
import Moonfort.Sandbox.Receipt

/-!
# Signed command output

The artifact that keeps the whole output of a command: the text that its
signature covers, the checks of a reference, and the reader. What the host
answers while a file is read is a parameter.
-/

namespace Moonfort.Executor

open MoonBit Sandbox

/-- `CommandOutputMediaType`. -/
def commandOutputMediaType : String := "text/plain; charset=utf-8"

/-- `CommandOutputArtifactRefusal`, and the errors that the host raises. -/
inductive ReadError where
  | invalidReference
  | artifactExpired
  | artifactUnavailable
  | artifactIntegrityFailure
  | hostError
  deriving DecidableEq

/-- `values.join("\n")`. -/
def joinLines (values : List String) : String := "\n".intercalate values

/-- `output_artifact_payload`. -/
def outputArtifactPayload (reference : CommandOutputArtifactRef)
    (approvalDigest commandDigest : String) : String :=
  joinLines ["moonfort-command-output-artifact-v1", reference.artifactId, reference.runId,
    reference.sha256, intText reference.sizeBytes, reference.mediaType,
    intText reference.expiresAtMs, reference.keyId, approvalDigest, commandDigest]

/-- `output_artifact_signature`. -/
def outputArtifactSignature (crypto : Crypto) (reference : CommandOutputArtifactRef)
    (approvalDigest commandDigest key : String) : String :=
  crypto.tag key (outputArtifactPayload reference approvalDigest commandDigest)

/-- `constant_time_string_equal`. -/
def constantTimeStringEqual (left right : String) : Bool :=
  let left := utf8Encode left
  let right := utf8Encode right
  if left.length ≠ right.length then false
  else ((left.zip right).foldl (fun difference pair => difference ||| (pair.1 ^^^ pair.2)) 0) == 0

/-- `output_reference_is_well_formed`. -/
def outputReferenceIsWellFormed (reference : CommandOutputArtifactRef) (config : Deployment) :
    Bool :=
  safeIdentifier reference.artifactId && safeIdentifier reference.runId &&
    sha256Digest reference.sha256 && 0 ≤ reference.sizeBytes &&
    reference.sizeBytes ≤ config.limits.maxOutputBytes &&
    (reference.mediaType == commandOutputMediaType ||
      reference.mediaType == "application/octet-stream") &&
    0 < reference.expiresAtMs && reference.keyId == config.artifactKeyId &&
    sha256Digest reference.signature

/-- `CommandOutputArtifactRecord`. -/
structure CommandOutputArtifactRecord where
  reference : CommandOutputArtifactRef
  approvalDigest : String
  commandDigest : String
  deriving DecidableEq

/-- What the host answers while one file is read through one descriptor. An
answer `none` is an error that the host raises. -/
structure FileReading where
  /-- The path is regular, canonical and protected. -/
  found : Option Bool
  /-- The opened file is regular, and its size. -/
  opened : Option (Bool × ℤ)
  /-- The chunks that `read_some` answers up to the end of the file. -/
  chunks : Option (List (List UInt8))
  sizeAfter : ℤ
  /-- The path is still regular and canonical. -/
  stillFound : Option Bool

/-- The reading loop of `bounded_output_artifact_bytes`, from the bytes read so far. -/
def readChunks (limit : ℤ) (output : List UInt8) : List (List UInt8) → Option (List UInt8)
  | [] => some output
  | chunk :: rest =>
    if output.length + chunk.length ≤ limit then readChunks limit (output ++ chunk) rest else none

/-- `bounded_output_artifact_bytes`. -/
def boundedOutputArtifactBytes (file : FileReading) (expectedSize limit : ℤ) :
    Except ReadError (List UInt8) :=
  if ¬ (0 ≤ expectedSize ∧ expectedSize ≤ limit) then .error .artifactUnavailable
  else
    match file.found with
    | none => .error .hostError
    | some false => .error .artifactUnavailable
    | some true =>
      match file.opened with
      | none => .error .artifactUnavailable
      | some (regular, size) =>
        if ¬ (regular = true ∧ size = expectedSize) then .error .artifactIntegrityFailure
        else
          match file.chunks with
          | none => .error .hostError
          | some chunks =>
            match readChunks limit [] chunks with
            | none => .error .artifactIntegrityFailure
            | some output =>
              if ¬ ((output.length : ℤ) = expectedSize ∧ file.sizeAfter = expectedSize) then
                .error .artifactIntegrityFailure
              else
                match file.stillFound with
                | none => .error .hostError
                | some false => .error .artifactIntegrityFailure
                | some true => .ok output

/-- What the host answers while a command output artifact is read. -/
structure ArtifactReading where
  /-- `artifact_root_is_private`. -/
  rootIsPrivate : Bool
  now : ℤ
  /-- The record in the manifest of the artifact; `none` when it cannot be read. -/
  manifest : Option CommandOutputArtifactRecord
  blob : FileReading

/-- `read_command_output_artifact`. -/
def readCommandOutputArtifact (crypto : Crypto) (host : ArtifactReading)
    (reference : CommandOutputArtifactRef) (runId approvalDigest commandDigest : String)
    (config : Deployment) : Except ReadError (List UInt8) :=
  if !(host.rootIsPrivate && outputReferenceIsWellFormed reference config &&
      reference.runId == runId && sha256Digest approvalDigest && sha256Digest commandDigest) then
    .error .invalidReference
  else if !(decide (host.now < reference.expiresAtMs)) then .error .artifactExpired
  else
    match host.manifest with
    | none => .error .artifactUnavailable
    | some record =>
      if !(record.reference == reference && record.approvalDigest == approvalDigest &&
          record.commandDigest == commandDigest &&
          constantTimeStringEqual reference.signature (outputArtifactSignature crypto reference
            approvalDigest commandDigest config.artifactSigningKey)) then
        .error .artifactIntegrityFailure
      else
        match boundedOutputArtifactBytes host.blob reference.sizeBytes
            config.limits.maxOutputBytes with
        | .error error => .error error
        | .ok bytes =>
          if !constantTimeStringEqual (crypto.digest bytes) reference.sha256 then
            .error .artifactIntegrityFailure
          else .ok bytes

/-- The reference that `retain_command_output_bytes` signs for the output of a run. -/
def retainedOutputReference (crypto : Crypto) (runId : String) (bytes random : List UInt8)
    (now outputLimit : ℤ) (approvalDigest commandDigest : String) (config : Deployment) :
    Except ReadError CommandOutputArtifactRef :=
  if !(safeIdentifier runId && sha256Digest approvalDigest && sha256Digest commandDigest &&
      0 < outputLimit && outputLimit ≤ config.limits.maxOutputBytes &&
      (bytes.length : ℤ) ≤ outputLimit && retentionWindowIsValid config.limits.retentionMs) then
    .error .invalidReference
  else if !(0 ≤ now && config.limits.retentionMs ≤ 9223372036854775807 - now) then
    .error .artifactUnavailable
  else
    let unsigned : CommandOutputArtifactRef :=
      { artifactId := bytesToHexString random
        runId := runId
        sha256 := crypto.digest bytes
        sizeBytes := bytes.length
        mediaType :=
          if ((utf8Items .idle bytes).mapM id).isSome then commandOutputMediaType
          else "application/octet-stream"
        expiresAtMs := now + config.limits.retentionMs
        keyId := config.artifactKeyId
        signature := "" }
    .ok { unsigned with
      signature := outputArtifactSignature crypto unsigned approvalDigest commandDigest
        config.artifactSigningKey }

/-- A difference of zero means that every pair of bytes is equal. -/
theorem foldl_difference_eq_zero (left right : List UInt8) (start : UInt8)
    (hlength : left.length = right.length) :
    (left.zip right).foldl (fun difference pair => difference ||| (pair.1 ^^^ pair.2)) start = 0 ↔
      start = 0 ∧ left = right := by
  induction left generalizing right start with
  | nil =>
    cases right with
    | nil => simp
    | cons y right => simp at hlength
  | cons x left ih =>
    cases right with
    | nil => simp at hlength
    | cons y right =>
      have hlength' : left.length = right.length := by simpa using hlength
      rw [List.zip_cons_cons, List.foldl_cons, ih right _ hlength', UInt8.or_eq_zero_iff,
        UInt8.xor_eq_zero_iff, List.cons.injEq, and_assoc]

/-- `constant_time_string_equal` is equality. -/
theorem constantTimeStringEqual_iff (left right : String) :
    constantTimeStringEqual left right = true ↔ left = right := by
  rw [constantTimeStringEqual]
  split
  next hlength =>
    constructor
    · intro h
      cases h
    · rintro rfl
      exact absurd rfl hlength
  next hlength =>
    rw [beq_iff_eq, foldl_difference_eq_zero _ _ _ (not_not.mp hlength)]
    constructor
    · intro h
      exact utf8Encode_inj h.2
    · rintro rfl
      exact ⟨rfl, rfl⟩

/-- Chunks inside the limit are put one behind the other. -/
theorem readChunks_eq_some {limit : ℤ} {output bytes : List UInt8} {chunks : List (List UInt8)}
    (h : readChunks limit output chunks = some bytes) : bytes = output ++ chunks.flatten := by
  induction chunks generalizing output with
  | nil =>
    rw [readChunks, Option.some.injEq] at h
    rw [List.flatten_nil, List.append_nil, h]
  | cons chunk rest ih =>
    rw [readChunks] at h
    split at h
    · rw [ih h, List.flatten_cons, List.append_assoc]
    · cases h

/-- A file that is read has the expected size, and its chunks are its bytes. -/
theorem boundedOutputArtifactBytes_ok {file : FileReading} {expectedSize limit : ℤ}
    {bytes : List UInt8} (h : boundedOutputArtifactBytes file expectedSize limit = .ok bytes) :
    (bytes.length : ℤ) = expectedSize ∧ file.chunks.map List.flatten = some bytes := by
  unfold boundedOutputArtifactBytes at h
  repeat' split at h
  all_goals cases h
  next hchunks _ _ _ hread hsize =>
    have hbytes := readChunks_eq_some hread
    rw [List.nil_append] at hbytes
    rw [hchunks, hbytes]
    exact ⟨hbytes ▸ (not_not.mp hsize).1, rfl⟩

/-- Only a size within the limit is read. -/
theorem boundedOutputArtifactBytes_le {file : FileReading} {expectedSize limit : ℤ}
    {bytes : List UInt8} (h : boundedOutputArtifactBytes file expectedSize limit = .ok bytes) :
    expectedSize ≤ limit := by
  by_contra hlimit
  rw [boundedOutputArtifactBytes, if_pos fun hrange => hlimit hrange.2] at h
  cases h

/-- The host answers what a file with these bytes holds, without a fault. -/
structure FileReading.Faithful (file : FileReading) (bytes : List UInt8) : Prop where
  found : file.found = some true
  opened : file.opened = some (true, (bytes.length : ℤ))
  chunks : file.chunks.map List.flatten = some bytes
  sizeAfter : file.sizeAfter = bytes.length
  stillFound : file.stillFound = some true

/-- Chunks within the limit are all read. -/
theorem readChunks_of_le {limit : ℤ} {output : List UInt8} {chunks : List (List UInt8)}
    (h : (output.length + chunks.flatten.length : ℤ) ≤ limit) :
    readChunks limit output chunks = some (output ++ chunks.flatten) := by
  induction chunks generalizing output with
  | nil => rw [readChunks, List.flatten_nil, List.append_nil]
  | cons chunk rest ih =>
    rw [List.flatten_cons, List.length_append, Nat.cast_add] at h
    rw [readChunks, if_pos (by omega), ih (by rw [List.length_append]; omega), List.flatten_cons,
      List.append_assoc]

/-- A file within the limit is read as it is. -/
theorem FileReading.Faithful.bounded {file : FileReading} {bytes : List UInt8} {limit : ℤ}
    (h : file.Faithful bytes) (hlimit : (bytes.length : ℤ) ≤ limit) :
    boundedOutputArtifactBytes file bytes.length limit = .ok bytes := by
  obtain ⟨chunks, hchunks, hflatten⟩ := Option.map_eq_some_iff.mp h.chunks
  have hread : readChunks limit [] chunks = some bytes := by
    have hfits : (([] : List UInt8).length + chunks.flatten.length : ℤ) ≤ limit := by
      rw [hflatten, List.length_nil]
      omega
    rw [readChunks_of_le hfits, hflatten, List.nil_append]
  simp [boundedOutputArtifactBytes, h.found, h.opened, h.stillFound, h.sizeAfter, hchunks, hread,
    hlimit]

/-- What a reference has passed when its bytes are returned. -/
structure ArtifactRead (crypto : Crypto) (host : ArtifactReading)
    (reference : CommandOutputArtifactRef) (runId approvalDigest commandDigest : String)
    (config : Deployment) (bytes : List UInt8) : Prop where
  wellFormed : outputReferenceIsWellFormed reference config = true
  runId_eq : reference.runId = runId
  approval_hex : sha256Digest approvalDigest = true
  command_hex : sha256Digest commandDigest = true
  signature : reference.signature = outputArtifactSignature crypto reference approvalDigest
    commandDigest config.artifactSigningKey
  length : (bytes.length : ℤ) = reference.sizeBytes
  digest : crypto.digest bytes = reference.sha256
  blob : host.blob.chunks.map List.flatten = some bytes

/-- An artifact that is read was checked as the signature demands. -/
theorem readCommandOutputArtifact_ok {crypto : Crypto} {host : ArtifactReading}
    {reference : CommandOutputArtifactRef} {runId approvalDigest commandDigest : String}
    {config : Deployment} {bytes : List UInt8}
    (h : readCommandOutputArtifact crypto host reference runId approvalDigest commandDigest config =
      .ok bytes) :
    ArtifactRead crypto host reference runId approvalDigest commandDigest config bytes := by
  unfold readCommandOutputArtifact at h
  repeat' split at h
  all_goals cases h
  next hguard _ _ _ _ hrecord _ hread hdigest =>
    simp only [Bool.not_eq_true', Bool.not_eq_false, Bool.and_eq_true, beq_iff_eq,
      constantTimeStringEqual_iff] at hguard hrecord hdigest
    obtain ⟨hlength, hblob⟩ := boundedOutputArtifactBytes_ok hread
    exact
      { wellFormed := hguard.1.1.1.2
        runId_eq := hguard.1.1.2
        approval_hex := hguard.1.2
        command_hex := hguard.2
        signature := hrecord.2
        length := hlength
        digest := hdigest
        blob := hblob }

end Moonfort.Executor
