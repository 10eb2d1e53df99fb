import Moonfort.Executor.Execution
import Moonfort.Executor.GrantAcceptance
import Moonfort.Executor.ProjectionCuts
import Moonfort.Executor.ScratchAccounting
import Moonfort.MoonBit.PlainText

/-!
# The sizes that retained output must fit

The output of a microVM is decoded to text and encoded again before it is kept, so
that what is compared with the grant's limit are not the captured bytes. When the
host does its part, exactly two sizes decide whether a terminal run keeps its
receipt: those of the encoded text and of the record of its artifact.
-/

namespace Moonfort.Executor

open MoonBit Sandbox

/-- A terminal run in a microVM: the bytes that were captured, the receipt that
shows them as text, the accepted grant and the loaded deployment. -/
structure CapturedRun (raw : List UInt8) (receipt : SandboxReceipt) (grant : ExecutionGrant)
    (approvalDigest commandDigest : String) (config : Deployment) : Prop where
  backend : grant.backend = .microVm
  terminal : receipt.status = .exited ∨ receipt.status = .killed
  output : receipt.output = decodeLossy raw
  within : (raw.length : ℤ) ≤ grant.limits.outputBytes
  runId : receipt.runId = grant.requestId
  accepted : GrantAccepted grant config.config
  limits : limitsAreValid config.limits = true
  keyId : safeIdentifier config.artifactKeyId = true
  approval : sha256Digest approvalDigest = true
  command : sha256Digest commandDigest = true

/-- A host that does its part when an artifact is written. -/
structure ArtifactWriting.Ready (host : ArtifactWriting) (config : Deployment) : Prop where
  rootIsPrivate : host.rootIsPrivate = true
  random : ∃ bytes, host.random = some bytes ∧ bytes.length = 16
  now_nonneg : 0 ≤ host.now
  now_le : config.limits.retentionMs ≤ 9223372036854775807 - host.now
  stored : host.stored = true

/-- The bytes of the record of a text artifact. -/
def artifactRecordSize (runId keyId : String) (sizeBytes expiresAtMs : ℤ) : ℕ :=
  480 + quotedSize runId + quotedSize keyId + quotedSize (intText sizeBytes) +
    quotedSize (intText expiresAtMs)

/-- The two sizes that an artifact of the receipt's output must fit. -/
structure ArtifactFits (receipt : SandboxReceipt) (grant : ExecutionGrant) (now : ℤ)
    (config : Deployment) : Prop where
  output : (utf8Length receipt.output : ℤ) ≤ grant.limits.outputBytes
  record : (artifactRecordSize receipt.runId config.artifactKeyId (utf8Length receipt.output)
    (now + config.limits.retentionMs) : ℤ) ≤ config.limits.maxProtocolBytes

/-- The receipt keeps its output: the step does not fail, and the run is not
turned into a failed one. -/
def OutputKept (crypto : Crypto) (host : ExecutionHost) (receipt : SandboxReceipt)
    (grant : ExecutionGrant) (profile : SandboxProfile) (approvalDigest commandDigest : String)
    (final : Option LiveOutputReference) (config : Deployment) : Prop :=
  (∀ error, retainReceiptCommandOutput crypto host.output receipt grant approvalDigest commandDigest
    final config ≠ .error error) ∧
  receiptWithOutputArtifact crypto host grant profile approvalDigest commandDigest receipt final
      config ≠
    failedReceipt grant.requestId grant.backend receipt.enforcement
      (profileDigest crypto.digestText profile) "complete command output could not be retained"

/-! ## The record -/

/-- A digest in a JSON text. -/
theorem quotedSize_bytesToHexString (bytes : List UInt8) :
    quotedSize (bytesToHexString bytes) = 2 * bytes.length + 2 := by
  rw [quotedSize_of_plain (plain_bytesToHexString bytes), length_bytesToHexString]

/-- A digest of a receipt in a JSON text. -/
theorem quotedSize_of_sha256Digest {value : String} (h : sha256Digest value = true) :
    quotedSize value = 66 := by
  simp only [sha256Digest, Bool.and_eq_true, beq_iff_eq] at h
  have hplain : ∀ c ∈ value.toList, IsPlain c := by
    intro c hc
    have hdigit := List.all_eq_true.mp h.2 c hc
    simp only [isHexDigit, Bool.or_eq_true, Bool.and_eq_true, decide_eq_true_eq] at hdigit
    obtain ⟨hlow, hhigh⟩ | ⟨hlow, hhigh⟩ := hdigit
    · exact isPlain_of_between hlow hhigh (by decide)
    · exact isPlain_of_between hlow hhigh (by decide)
  rw [quotedSize_of_plain hplain, ← utf16Length_of_plain hplain, h.1]

/-- The bytes of the record of an artifact. -/
theorem size_artifactRecord (reference : CommandOutputArtifactRef)
    {artifactId sha256 signature : List UInt8} {approvalDigest commandDigest : String}
    (hartifact : reference.artifactId = bytesToHexString artifactId) (hid : artifactId.length = 16)
    (hsha : reference.sha256 = bytesToHexString sha256) (hshaLength : sha256.length = 32)
    (hsignature : reference.signature = bytesToHexString signature)
    (hsignatureLength : signature.length = 32)
    (hmedia : reference.mediaType = commandOutputMediaType)
    (happroval : sha256Digest approvalDigest = true)
    (hcommand : sha256Digest commandDigest = true) :
    (CommandOutputArtifactRecord.toJson ⟨reference, approvalDigest, commandDigest⟩).size =
      artifactRecordSize reference.runId reference.keyId reference.sizeBytes
        reference.expiresAtMs := by
  have hkeys : (["artifact_id", "run_id", "sha256", "size_bytes", "media_type", "expires_at_ms",
      "key_id", "signature", "reference", "approval_digest", "command_digest",
      commandOutputMediaType].map quotedSize) = [13, 8, 8, 12, 12, 15, 8, 11, 11, 17, 16, 27] := by
    decide
  simp only [List.map_cons, List.map_nil, List.cons.injEq, and_true] at hkeys
  have happroval' := quotedSize_of_sha256Digest happroval
  have hcommand' := quotedSize_of_sha256Digest hcommand
  rw [CommandOutputArtifactRecord.toJson, Json.size_object]
  simp only [membersSize_cons, membersSize_nil, Json.size_string, outputReferenceJson,
    Json.size_object, hartifact, hsha, hsignature, hmedia, quotedSize_bytesToHexString,
    artifactRecordSize]
  omega

/-- The reference of an artifact is signed exactly when the text is within the grant's limit. -/
theorem retainedOutputReference_of_run (crypto : Crypto) {host : ArtifactWriting}
    {raw : List UInt8} (random : List UInt8) {receipt : SandboxReceipt} {grant : ExecutionGrant}
    {approvalDigest commandDigest : String} {config : Deployment}
    (hrun : CapturedRun raw receipt grant approvalDigest commandDigest config)
    (hhost : host.Ready config) :
    let answer := retainedOutputReference crypto receipt.runId (utf8Encode receipt.output) random
      host.now grant.limits.outputBytes approvalDigest commandDigest config
    if (utf8Length receipt.output : ℤ) ≤ grant.limits.outputBytes then
      ∃ signature, answer = .ok
        { artifactId := bytesToHexString random
          runId := receipt.runId
          sha256 := crypto.digest (utf8Encode receipt.output)
          sizeBytes := utf8Length receipt.output
          mediaType := commandOutputMediaType
          expiresAtMs := host.now + config.limits.retentionMs
          keyId := config.artifactKeyId
          signature := crypto.tag config.artifactSigningKey signature }
    else answer = .error .invalidReference := by
  have hid : safeIdentifier receipt.runId = true := hrun.runId ▸ hrun.accepted.requestId
  have hlimit := (limits_within_of_accepted hrun.accepted.limits_ok).2.2.2.2.2
  have hlimits := hrun.limits
  simp only [limitsAreValid, Bool.and_eq_true, decide_eq_true_eq] at hlimits
  have hceiling : grant.limits.outputBytes ≤ config.limits.maxOutputBytes := hlimit.2
  dsimp only
  rw [retainedOutputReference, hid, hrun.approval, hrun.command, hlimits.2, length_utf8Encode,
    mapM_utf8Items_utf8Encode, decide_eq_true hlimit.1, decide_eq_true hceiling,
    decide_eq_true hhost.now_nonneg, decide_eq_true hhost.now_le]
  by_cases hsize : (utf8Length receipt.output : ℤ) ≤ grant.limits.outputBytes
  · rw [if_pos hsize, decide_eq_true hsize]
    exact ⟨_, rfl⟩
  · rw [if_neg hsize, decide_eq_false hsize]
    rfl

/-- An artifact is written exactly when both sizes fit. -/
theorem retainCommandOutputBytes_ok_iff {crypto : Crypto} (hcrypto : crypto.Sized)
    {host : ArtifactWriting} {raw : List UInt8} {receipt : SandboxReceipt}
    {grant : ExecutionGrant} {approvalDigest commandDigest : String} {config : Deployment}
    (hrun : CapturedRun raw receipt grant approvalDigest commandDigest config)
    (hhost : host.Ready config) :
    (∃ artifact, retainCommandOutputBytes crypto host receipt.runId (utf8Encode receipt.output)
        grant.limits.outputBytes approvalDigest commandDigest config = .ok artifact) ↔
      ArtifactFits receipt grant host.now config := by
  obtain ⟨random, hrandom, hrandomLength⟩ := hhost.random
  have hreference := retainedOutputReference_of_run crypto random hrun hhost
  rw [retainCommandOutputBytes, hhost.rootIsPrivate, hrandom, hhost.stored, Option.getD_some]
  by_cases hsize : (utf8Length receipt.output : ℤ) ≤ grant.limits.outputBytes
  · rw [if_pos hsize] at hreference
    obtain ⟨signature, hreference⟩ := hreference
    have hrecord := size_artifactRecord
      { artifactId := bytesToHexString random
        runId := receipt.runId
        sha256 := crypto.digest (utf8Encode receipt.output)
        sizeBytes := utf8Length receipt.output
        mediaType := commandOutputMediaType
        expiresAtMs := host.now + config.limits.retentionMs
        keyId := config.artifactKeyId
        signature := crypto.tag config.artifactSigningKey signature } rfl hrandomLength rfl
      (hcrypto.sha256 (utf8Encode receipt.output)) rfl
      (hcrypto.hmac (utf8Encode config.artifactSigningKey) (utf8Encode signature)) rfl hrun.approval
      hrun.command
    rw [hreference]
    simp only [Bool.not_true, Bool.false_eq_true, if_false, Option.isSome_some, Bool.true_and,
      Bool.and_true, utf8Length_stringify, hrecord]
    by_cases hfits : (artifactRecordSize receipt.runId config.artifactKeyId
        (utf8Length receipt.output) (host.now + config.limits.retentionMs) : ℤ) ≤
          config.limits.maxProtocolBytes
    · rw [decide_eq_true hfits]
      exact iff_of_true ⟨_, rfl⟩ ⟨hsize, hfits⟩
    · rw [decide_eq_false hfits]
      exact iff_of_false (fun ⟨_, h⟩ => by cases h) fun h => hfits h.record
  · rw [if_neg hsize] at hreference
    rw [hreference]
    exact iff_of_false (fun ⟨_, h⟩ => by cases h) fun h => hsize h.output

/-! ## The whole step -/

/-- The bytes that are kept of a run in a microVM are those of its text. -/
theorem retainedReceiptOutputBytes_microVm {crypto : Crypto} {host : OutputRetention}
    {receipt : SandboxReceipt} {grant : ExecutionGrant} {approvalDigest : String}
    {liveOutput : Option LiveOutputReference} {config : Deployment}
    (h : grant.backend = .microVm) :
    retainedReceiptOutputBytes crypto host receipt grant approvalDigest liveOutput config =
      .ok (utf8Encode receipt.output) := by
  unfold retainedReceiptOutputBytes
  rw [h]

/-- The step answers a receipt when no artifact is needed or both sizes fit. -/
theorem retainReceiptCommandOutput_ok_iff {crypto : Crypto} (hcrypto : crypto.Sized)
    {host : OutputRetention} {raw : List UInt8} {receipt : SandboxReceipt}
    {grant : ExecutionGrant} {approvalDigest commandDigest : String}
    (final : Option LiveOutputReference) {config : Deployment}
    (hrun : CapturedRun raw receipt grant approvalDigest commandDigest config)
    (hhost : host.artifact.Ready config) :
    (∃ retained, retainReceiptCommandOutput crypto host receipt grant approvalDigest commandDigest
        final config = .ok retained) ↔
      outputArtifactRequired receipt config.limits.maxModelOutputBytes = false ∨
        ArtifactFits receipt grant host.artifact.now config := by
  have hstep := retainCommandOutputBytes_ok_iff hcrypto hrun hhost
  rw [retainReceiptCommandOutput, if_neg (not_not.mpr hrun.terminal),
    retainedReceiptOutputBytes_microVm hrun.backend]
  cases hrequired : outputArtifactRequired receipt config.limits.maxModelOutputBytes with
  | false => exact iff_of_true ⟨receipt, if_pos ⟨rfl, rfl⟩⟩ (.inl rfl)
  | true =>
    simp only [Bool.true_eq_false, false_and, if_false, false_or, ← hstep]
    cases hbytes : retainCommandOutputBytes crypto host.artifact receipt.runId
        (utf8Encode receipt.output) grant.limits.outputBytes approvalDigest commandDigest
        config with
    | error error => exact iff_of_false (fun ⟨_, h⟩ => by cases h) fun ⟨_, h⟩ => by cases h
    | ok artifact => exact iff_of_true ⟨_, rfl⟩ ⟨artifact, rfl⟩

/-- The receipt of a terminal run in a microVM is kept exactly when it needs no
artifact or the encoded text and the record are within their limits; that the
captured bytes are within the grant's limit is not enough. -/
theorem output_kept_iff (crypto : Crypto) (hcrypto : crypto.Sized) (host : ExecutionHost)
    (raw : List UInt8) (receipt : SandboxReceipt) (grant : ExecutionGrant)
    (profile : SandboxProfile) (approvalDigest commandDigest : String)
    (final : Option LiveOutputReference) (config : Deployment)
    (hrun : CapturedRun raw receipt grant approvalDigest commandDigest config)
    (hhost : host.output.artifact.Ready config) :
    OutputKept crypto host receipt grant profile approvalDigest commandDigest final config ↔
      outputArtifactRequired receipt config.limits.maxModelOutputBytes = false ∨
        ArtifactFits receipt grant host.output.artifact.now config := by
  have hstep := retainReceiptCommandOutput_ok_iff hcrypto final hrun hhost
  rw [← hstep]
  constructor
  · rintro ⟨hok, -⟩
    cases hanswer : retainReceiptCommandOutput crypto host.output receipt grant approvalDigest
        commandDigest final config with
    | error error => exact absurd hanswer (hok error)
    | ok retained => exact ⟨retained, rfl⟩
  · rintro ⟨retained, hretained⟩
    refine ⟨fun error herror => ?_, fun hfailed => ?_⟩
    · rw [hretained] at herror
      cases herror
    · have hlocal : ¬(grant.backend = .localOs ∧
          (receipt.status = .exited ∨ receipt.status = .killed) ∧ final = none) := by
        rw [hrun.backend]
        exact fun h => by cases h.1
      rw [receiptWithOutputArtifact, if_neg hlocal, hretained] at hfailed
      have hstatus := congrArg SandboxReceipt.status
        ((retainReceiptCommandOutput_ok hretained).symm.trans hfailed)
      have hterminal := hrun.terminal
      change receipt.status = .failed at hstatus
      rw [hstatus] at hterminal
      exact absurd hterminal (by decide)

/-- The sample deployment with a microVM registered. -/
def sampleVmDeployment : Deployment :=
  { sampleDeployment with
    workspaces := [("book", { sampleWorkspace with allowedBackends := [.microVm] })]
    aenBackends := [("vm",
      { baseUrl := "https://aen.internal"
        apiKey := "key"
        executorImageRef := "registry.internal/executor@sha256:00"
        expectedVcpuCount := 1
        expectedRootDiskMib := 64
        provisionerUrl := "https://provisioner.internal"
        provisionerApiKey := "key"
        provisionerReceiptKey := "0123456789abcdef0123456789abcdef"
        provisionerKeyId := "key-1"
        workspaceRegistryRepository := "registry.internal/book"
        maxWorkspaceBytes := 1048576
        guestWorkspace := "/workspace"
        guestScratch := "/scratch"
        guestAttester := "/usr/bin/attester"
        guestSupervisor := "/usr/bin/supervisor"
        executorRootDigest := ""
        guestAttesterDigest := ""
        guestSupervisorDigest := ""
        toolRegistryDigest := ""
        guestTools := [("shell-compat", "/bin/sh")] })] }

/-- A grant for that microVM with room for eight bytes of output. -/
def sampleVmGrant : ExecutionGrant :=
  { sampleShellGrant "true" with
    backend := .microVm
    backendConfigId := "vm"
    limits := ⟨1000, 10, 64, 64, 8, 8⟩ }

/-- A digest of zeros. -/
def sampleZeros : String := String.ofList (List.replicate 64 '0')

/-- A run of the sample grant. -/
theorem capturedRun_sample {raw : List UInt8} {receipt : SandboxReceipt} (hraw : raw.length ≤ 8)
    (hterminal : receipt.status = .exited ∨ receipt.status = .killed)
    (houtput : receipt.output = decodeLossy raw) (hrun : receipt.runId = "run-1") :
    CapturedRun raw receipt sampleVmGrant sampleZeros sampleZeros sampleVmDeployment where
  backend := rfl
  terminal := hterminal
  output := houtput
  within := Int.ofNat_le.mpr hraw
  runId := hrun
  accepted := by
    have hvalid : validateGrant 0 sampleVmGrant ⟨3, "approval-1"⟩ sampleVmDeployment.config =
        "" := by
      decide
    exact grantAccepted_of_validateGrant hvalid
  limits := by decide
  keyId := by decide
  approval := by decide
  command := by decide

/-- The sample host with a store for artifacts. -/
def sampleVmHost : ExecutionHost :=
  { sampleToolHost with
    output := ⟨none, 0, ⟨none, none, none, 0, none⟩,
      ⟨true, some (List.replicate 16 0), 0, true⟩⟩ }

/-- The sample host does its part. -/
theorem sampleVmHost_ready : sampleVmHost.output.artifact.Ready sampleVmDeployment :=
  ⟨rfl, ⟨_, rfl, rfl⟩, by decide, by decide, rfl⟩

/-- The profile of the sample grant. -/
def sampleVmProfile : SandboxProfile :=
  profileForGrant sampleVmGrant sampleWorkspace
    (allocatedScratch (List.replicate 16 0) sampleVmDeployment) none
    (liveOutputRoot sampleVmDeployment)

/-- The receipt of a run that was stopped after it had printed a word. -/
def sampleTextReceipt : SandboxReceipt :=
  killedReceipt "run-1" .microVm .enforced "" (decodeLossy (utf8Encode "done")) true "output_bytes"

/-- The text of the sample receipt and the record of its artifact are within their limits. -/
theorem artifactFits_sample :
    ArtifactFits sampleTextReceipt sampleVmGrant sampleVmHost.output.artifact.now
      sampleVmDeployment :=
  ⟨by decide, by decide⟩

/-- The output of the sample receipt needs an artifact, which fits, so that the receipt is kept. -/
theorem output_kept_text :
    outputArtifactRequired sampleTextReceipt sampleVmDeployment.limits.maxModelOutputBytes =
        true ∧
      OutputKept Crypto.standard sampleVmHost sampleTextReceipt sampleVmGrant sampleVmProfile
        sampleZeros sampleZeros none sampleVmDeployment :=
  ⟨rfl, (output_kept_iff Crypto.standard Crypto.standard_sized sampleVmHost (utf8Encode "done")
    sampleTextReceipt sampleVmGrant sampleVmProfile sampleZeros sampleZeros none sampleVmDeployment
    (capturedRun_sample (by decide) (.inr rfl) rfl rfl) sampleVmHost_ready).mpr
      (.inr artifactFits_sample)⟩

/-- The receipt of a run that was stopped after eight bytes that are not text. -/
def sampleBinaryReceipt : SandboxReceipt :=
  killedReceipt "run-1" .microVm .enforced "" (decodeLossy (List.replicate 8 0xFF)) true
    "output_bytes"

/-- Eight bytes that are not text decode to eight replacement characters, which
are 24 bytes. -/
theorem output_kept_binary :
    ¬∀ (crypto : Crypto) (host : ExecutionHost) (raw : List UInt8) (receipt : SandboxReceipt)
      (grant : ExecutionGrant) (profile : SandboxProfile) (approvalDigest commandDigest : String)
      (final : Option LiveOutputReference) (config : Deployment), crypto.Sized →
      CapturedRun raw receipt grant approvalDigest commandDigest config →
      host.output.artifact.Ready config →
      OutputKept crypto host receipt grant profile approvalDigest commandDigest final config := by
  intro h
  have hrun : CapturedRun (List.replicate 8 0xFF) sampleBinaryReceipt sampleVmGrant sampleZeros
      sampleZeros sampleVmDeployment := capturedRun_sample (by decide) (.inr rfl) rfl rfl
  have hkept :=
    h Crypto.standard sampleVmHost _ _ _ sampleVmProfile _ _ none _ Crypto.standard_sized hrun
    sampleVmHost_ready
  have hstep := retainReceiptCommandOutput_ok_iff Crypto.standard_sized none hrun
    sampleVmHost_ready
  cases hanswer : retainReceiptCommandOutput Crypto.standard sampleVmHost.output sampleBinaryReceipt
      sampleVmGrant sampleZeros sampleZeros none sampleVmDeployment with
  | error error => exact hkept.1 error hanswer
  | ok retained =>
    rcases hstep.mp ⟨retained, hanswer⟩ with hrequired | hfits
    · exact absurd hrequired (by decide)
    · exact absurd hfits.output (by decide)

end Moonfort.Executor
