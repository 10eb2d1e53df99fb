import Moonfort.Executor.Digest
import Moonfort.Executor.OutputRetention
import Moonfort.Executor.ScratchRetention

/-!
# The execution of an approved grant

`execute_invocation` with all its exits: it consumes a grant, allocates a scratch
directory, runs the grant's command through a backend, retains the output, and
retains or discards the directory. What the store, the file system and the backends
answer is a parameter. Where the program catches an error, the error is the answer
`false` or `none`.
-/

namespace Moonfort.Executor

open MoonBit Sandbox

variable {σ τ : Type}

/-- `ExecutorResponse`. -/
structure ExecutorResponse where
  protocolVersion : ℤ
  approvalId : String
  receipt : Option SandboxReceipt
  error : Option ExecutorProtocolError
  liveOutput : Option LiveOutputReference
  deriving DecidableEq

/-- `completed_response`. -/
def completedResponse (approvalId : String) (receipt : SandboxReceipt) : ExecutorResponse :=
  ⟨3, approvalId, some receipt, none, none⟩

/-- `rejected_response`. -/
def rejectedResponse (approvalId code message : String) : ExecutorResponse :=
  ⟨3, approvalId, none, some ⟨code, message⟩, none⟩

/-- `ExecutorResponse::with_live_output`. -/
def ExecutorResponse.withLiveOutput (response : ExecutorResponse)
    (reference : LiveOutputReference) : ExecutorResponse :=
  { response with liveOutput := some reference }

/-- `failed_receipt`. -/
def failedReceipt (runId : String) (backend : SandboxBackendKind)
    (enforcement : SandboxEnforcement) (profileDigest reason : String) : SandboxReceipt :=
  { refusedReceipt runId backend profileDigest reason with enforcement := enforcement }

/-- `SandboxReceipt::with_approval_binding`. -/
def withApprovalBinding (receipt : SandboxReceipt)
    (approvalId approvalDigest commandDigest : String) (cleanupVerified : Bool)
    (retentionId : Option String) : SandboxReceipt :=
  { receipt with
    approvalId := approvalId
    approvalDigest := approvalDigest
    commandDigest := commandDigest
    cleanupVerified := cleanupVerified
    retentionId := retentionId }

/-- `LocalSandboxTool`. -/
structure LocalSandboxTool where
  capabilityLabel : String
  executablePath : String
  deriving DecidableEq

/-- `AenExecutionConfig`: a trusted deployment for one workspace. -/
structure AenExecutionConfig extends TrustedAenConfig where
  workspaceId : String
  deriving DecidableEq

/-- How `discard_scratch_tree` ends. -/
inductive Discarding where
  | removed
  /-- An error, with or without the directory left in place. -/
  | refused (leaves : Bool)
  deriving DecidableEq

/-- The directory is still there. -/
def Discarding.leaves : Discarding → Bool
  | removed => false
  | refused leaves => leaves

/-- What the host answers while a record of a live output is written. -/
structure LiveRecordWriting where
  /-- `live_output_root_is_private`. -/
  rootIsPrivate : Bool
  now : ℤ
  /-- The record is staged, verified, moved into place and synchronized. -/
  written : Bool

/-- What the store, the file system and the backends answer during one execution. -/
structure ExecutionHost where
  /-- `consume_grant`. -/
  consumed : Option ExecutionGrant
  now : ℤ
  /-- `@env.rand(16)`. -/
  random : Option (List UInt8)
  /-- The scratch directory can be made. -/
  created : Bool
  /-- It is canonical and a directory; `none` when the host raises an error. -/
  verified : Option Bool
  discard : Discarding
  begin : LiveRecordWriting
  /-- A configured tool is still a regular file at its canonical path. -/
  toolUnchanged : String → Bool
  /-- `run_local_sandbox`; `none` when it raises an error. -/
  runLocalSandbox : SandboxProfile → SandboxCommand → List LocalSandboxTool → String →
    Option SandboxReceipt
  /-- `execute_aen_sandbox`; `none` when it raises an error. -/
  executeAenSandbox : SandboxProfile → SandboxCommand → AenExecutionConfig → String →
    Option SandboxReceipt
  finalize : FinalizeReading
  finalRecord : LiveRecordWriting
  output : OutputRetention
  retention : RetentionReading

/-- The scratch directory that an execution has made, and the record under which it is
retained. -/
structure ScratchEnd where
  path : String
  present : Bool
  record : Option RetentionRecord

/-- How an execution ends: its response, none when it raises an error, and its scratch
directory, none when none was made. -/
structure ExecutionOutcome where
  response : Option ExecutorResponse
  scratch : Option ScratchEnd

/-- The receipt that the caller is given. -/
def ExecutionOutcome.receipt (outcome : ExecutionOutcome) : Option SandboxReceipt :=
  outcome.response.bind (·.receipt)

/-! ## The steps of an execution -/

/-- `allocate_scratch`: the directory and its retention ID, and the directory that is left
when the call fails. -/
def allocateScratch (host : ExecutionHost) (config : Deployment) :
    Except (Option ScratchEnd) (String × String) :=
  match host.random with
  | none => .error none
  | some random =>
    let retentionId := bytesToHexString random
    let scratch := allocatedScratch random config
    if !host.created then .error none
    else
      match host.verified with
      | none => .error (some ⟨scratch, true, none⟩)
      | some false => .error (some ⟨scratch, host.discard.leaves, none⟩)
      | some true => .ok (scratch, retentionId)

/-- `write_live_output_record`. -/
def writeLiveOutputRecord (crypto : Crypto) (host : LiveRecordWriting) (record : LiveOutputRecord)
    (config : Deployment) : Bool :=
  host.rootIsPrivate && liveOutputRecordWritable crypto record config && host.written

/-- `begin_live_output`. -/
def startLiveOutput (crypto : Crypto) (host : LiveRecordWriting)
    (runId approvalId approvalDigest : String) (config : Deployment) :
    Option LiveOutputReference :=
  match beginLiveOutput crypto runId approvalId approvalDigest host.now config with
  | none => none
  | some reference =>
    if writeLiveOutputRecord crypto host ⟨reference, approvalId, approvalDigest⟩ config then
      some reference
    else none

/-- `finalize_live_output`. -/
def endLiveOutput (crypto : Crypto) (reading : FinalizeReading) (host : LiveRecordWriting)
    (started : LiveOutputReference) (approvalId approvalDigest : String)
    (receipt : SandboxReceipt) (config : Deployment) : Option LiveOutputReference :=
  match finalizeLiveOutput crypto reading started approvalId approvalDigest receipt.status
      config with
  | none => none
  | some reference =>
    if writeLiveOutputRecord crypto host ⟨reference, approvalId, approvalDigest⟩ config then
      some reference
    else none

/-- `selected[label] = configured`. -/
def setTool (label configured : String) : List (String × String) → List (String × String)
  | [] => [(label, configured)]
  | (other, old) :: rest =>
    if other = label then (label, configured) :: rest
    else (other, old) :: setTool label configured rest

/-- The loop of `local_bindings`, with the tools selected and bound so far. -/
def bindTools (host : ExecutionHost) (config : Deployment) :
    List (String × String) → List LocalSandboxTool → List String →
      Option (List (String × String) × List LocalSandboxTool)
  | selected, bindings, [] => some (selected, bindings)
  | selected, bindings, label :: rest =>
    if label = shellCompatibilityCommandLabel then bindTools host config selected bindings rest
    else
      match config.localTools.lookup label with
      | none => none
      | some configured =>
        if host.toolUnchanged configured then
          bindTools host config (setTool label configured selected)
            (bindings ++ [⟨label, configured⟩]) rest
        else none

/-- `local_bindings`. -/
def localBindings (host : ExecutionHost) (grant : ExecutionGrant) (config : Deployment) :
    Option (List (String × String) × List LocalSandboxTool) :=
  bindTools host config [] [] grant.allowedCommands

/-- `trusted_aen_execution_config`. -/
def trustedAenExecutionConfig (trusted : TrustedAenConfig) (workspaceId : String) :
    AenExecutionConfig :=
  { trusted with workspaceId := workspaceId }

/-- What the run through the backend leads to. -/
inductive BackendRun where
  /-- The execution is refused before the backend runs. -/
  | refused (code message : String)
  /-- The backend raises an error. -/
  | raised
  | ran (selectedTools : List (String × String)) (bindingDigest : String)
    (receipt : SandboxReceipt)

/-- The part of `execute_invocation` that runs the command. -/
def runBackend (crypto : Crypto) (host : ExecutionHost) (grant : ExecutionGrant)
    (profile : SandboxProfile) (config : Deployment) : BackendRun :=
  match grant.backend with
  | .localOs =>
    match localBindings host grant config with
    | none =>
      .refused "tool-registry-refused" "trusted local executable binding could not be verified"
    | some (selected, bindings) =>
      match host.runLocalSandbox profile grant.command bindings grant.workingDirectory with
      | none => .raised
      | some receipt => .ran selected (trustedLocalBindingDigest crypto selected) receipt
  | .microVm =>
    match config.aenBackends.lookup grant.backendConfigId with
    | none => .refused "backend-refused" "trusted AEN deployment disappeared"
    | some trusted =>
      match host.executeAenSandbox profile grant.command
          (trustedAenExecutionConfig trusted grant.workspaceId) grant.workingDirectory with
      | none => .raised
      | some receipt => .ran [] (trustedAenBindingDigest crypto trusted) receipt
  | .unavailable =>
    .ran [] "" (refusedReceipt grant.requestId .unavailable
      (profileDigest crypto.digestText profile) "unavailable backend cannot execute")

/-- `receipt_with_output_artifact`: the receipt of the backend with its output retained. -/
def receiptWithOutputArtifact (crypto : Crypto) (host : ExecutionHost) (grant : ExecutionGrant)
    (profile : SandboxProfile) (approvalDigest commandDigest : String) (receipt : SandboxReceipt)
    (final : Option LiveOutputReference) (config : Deployment) : SandboxReceipt :=
  let failed := failedReceipt grant.requestId grant.backend receipt.enforcement
    (profileDigest crypto.digestText profile) "complete command output could not be retained"
  if grant.backend = .localOs ∧ (receipt.status = .exited ∨ receipt.status = .killed) ∧
      final = none then failed
  else
    match retainReceiptCommandOutput crypto host.output receipt grant approvalDigest commandDigest
        final config with
    | .error _ => failed
    | .ok retained => retained

/-- `backend_terminal_cleanup`. -/
def backendTerminalCleanup (backend : SandboxBackendKind) (receipt : SandboxReceipt) : Bool :=
  match backend with
  | .microVm => receipt.cleanupVerified
  | .localOs => receipt.enforcement == .degraded &&
      (receipt.status == .exited || receipt.status == .killed)
  | .unavailable => false

/-- The last part of `execute_invocation`: the scratch directory is retained or discarded,
and the receipt is bound to the approval. -/
def settleScratch (crypto : Crypto) (lib : RetentionLibrary τ) (host : ExecutionHost)
    (invocation : SandboxInvocation) (grant : ExecutionGrant) (profile : SandboxProfile)
    (scratch retentionId approvalDigest commandDigest : String) (receipt : SandboxReceipt)
    (final : Option LiveOutputReference) (config : Deployment) : ExecutionOutcome :=
  let digest := profileDigest crypto.digestText profile
  let record := retainExecutionResult lib host.retention grant.backend receipt scratch retentionId
    grant.workspaceId digest approvalDigest commandDigest config
  let hostCleanupVerified := record.isSome || host.discard == .removed
  let cleanupVerified := backendTerminalCleanup grant.backend receipt && hostCleanupVerified
  let shown :=
    if config.limits.maxChangedPaths < receipt.changedPaths.length then
      refusedReceipt grant.requestId grant.backend digest
        "changed path count exceeds deployment limit"
    else receipt
  let response := completedResponse invocation.approvalId
    (withApprovalBinding shown invocation.approvalId approvalDigest commandDigest cleanupVerified
      (if record.isSome then some retentionId else receipt.retentionId))
  { response := some
      (match final with
      | some reference => response.withLiveOutput reference
      | none => response)
    scratch := some ⟨scratch, record.isSome || host.discard.leaves, record⟩ }

/-- The reference of the stream that an execution begins. -/
def startedLiveOutput (crypto : Crypto) (grants : GrantLibrary σ) (host : ExecutionHost)
    (invocation : SandboxInvocation) (grant : ExecutionGrant) (config : Deployment) :
    Option LiveOutputReference :=
  if grant.backend = .localOs then
    startLiveOutput crypto host.begin grant.requestId invocation.approvalId
      (grantDigest grants grant) config
  else none

/-- The part of `execute_invocation` after the scratch directory is allocated. -/
def executeAllocated (crypto : Crypto) (grants : GrantLibrary σ) (lib : RetentionLibrary τ)
    (host : ExecutionHost) (invocation : SandboxInvocation) (grant : ExecutionGrant)
    (workspace : DeployedWorkspace) (scratch retentionId : String) (config : Deployment) :
    ExecutionOutcome :=
  let approvalDigest := grantDigest grants grant
  let started := startedLiveOutput crypto grants host invocation grant config
  let profile := profileForGrant grant workspace scratch started (liveOutputRoot config)
  match runBackend crypto host grant profile config with
  | .refused code message =>
    { response := some (rejectedResponse invocation.approvalId code message)
      scratch := some ⟨scratch, host.discard.leaves, none⟩ }
  | .raised => { response := none, scratch := some ⟨scratch, true, none⟩ }
  | .ran selectedTools bindingDigest receipt =>
    let command := commandDigest crypto grant profile selectedTools grant.backendConfigId
      bindingDigest
    let final := started.bind fun reference =>
      endLiveOutput crypto host.finalize host.finalRecord reference invocation.approvalId
        approvalDigest receipt config
    settleScratch crypto lib host invocation grant profile scratch retentionId approvalDigest
      command
      (receiptWithOutputArtifact crypto host grant profile approvalDigest command receipt final
        config)
      final config

/-- `execute_invocation`. Its sweeps of expired files come before the directory is made. -/
def executeInvocation (crypto : Crypto) (grants : GrantLibrary σ) (lib : RetentionLibrary τ)
    (host : ExecutionHost) (invocation : SandboxInvocation) (config : Deployment) :
    ExecutionOutcome :=
  match host.consumed with
  | none =>
    { response := some (rejectedResponse invocation.approvalId "approval-refused"
        "approval is unknown, invalid, expired, or already consumed")
      scratch := none }
  | some grant =>
    let rejection := validateGrant host.now grant invocation config.config
    if rejection ≠ "" then
      { response := some (rejectedResponse invocation.approvalId "grant-refused" rejection)
        scratch := none }
    else
      match config.workspaces.lookup grant.workspaceId with
      | none =>
        { response := some (rejectedResponse invocation.approvalId "workspace-refused"
            "trusted workspace registry changed")
          scratch := none }
      | some workspace =>
        match allocateScratch host config with
        | .error directory =>
          { response := some (rejectedResponse invocation.approvalId "scratch-refused"
              "executor-owned scratch could not be created")
            scratch := directory }
        | .ok (scratch, retentionId) =>
          executeAllocated crypto grants lib host invocation grant workspace scratch retentionId
            config

end Moonfort.Executor
