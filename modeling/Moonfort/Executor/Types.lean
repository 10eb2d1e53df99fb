import Moonfort.Sandbox.Types

/-!
# Values of the executor

Grants, the deployment's configuration, and the requests and responses of the
grant publisher and the executor.
-/

namespace Moonfort.Executor

open MoonBit Sandbox

/-- `SandboxInvocation`: the request that names a grant. -/
structure SandboxInvocation where
  protocolVersion : ℤ
  approvalId : String
  deriving DecidableEq

/-- `ExecutionGrant`. -/
structure ExecutionGrant where
  protocolVersion : ℤ
  approvalId : String
  requestId : String
  workspaceId : String
  backend : SandboxBackendKind
  enforcementRequirement : SandboxEnforcementRequirement
  network : SandboxNetworkMode
  allowedEgress : List String
  allowedCommands : List String
  limits : SandboxLimits
  workingDirectory : String
  command : SandboxCommand
  backendConfigId : String
  expiresAtMs : ℤ
  deriving DecidableEq

/-- `GrantPublicationRequest`. -/
structure GrantPublicationRequest where
  protocolVersion : ℤ
  grant : ExecutionGrant
  deriving DecidableEq

/-- `ExecutorProtocolError`. -/
structure ExecutorProtocolError where
  code : String
  message : String
  deriving DecidableEq

/-- `GrantPublicationResponse`. -/
structure GrantPublicationResponse where
  protocolVersion : ℤ
  approvalId : String
  approvalDigest : String
  published : Bool
  error : Option ExecutorProtocolError
  deriving DecidableEq

/-- `RetentionPromotionRequest`. -/
structure RetentionPromotionRequest where
  protocolVersion : ℤ
  retentionId : String
  workspaceId : String
  approvalDigest : String
  commandDigest : String
  items : List SandboxPromotionRequest
  deriving DecidableEq

/-- `RetentionPromotionResponse`. -/
structure RetentionPromotionResponse where
  protocolVersion : ℤ
  retentionId : String
  workspaceId : String
  approvalDigest : String
  commandDigest : String
  promotedPaths : List String
  destinationOutcome : String
  uncertainPaths : List String
  completed : Bool
  error : Option ExecutorProtocolError
  deriving DecidableEq

/-- `RetentionRecord`. -/
structure RetentionRecord where
  retentionId : String
  scratchPath : String
  expiresAtMs : ℤ
  workspaceId : String
  profileDigest : String
  approvalDigest : String
  commandDigest : String
  reviewableFiles : List ScratchEntry
  deriving DecidableEq

/-- `PromotionClaim`. -/
structure PromotionClaim where
  record : RetentionRecord
  item : SandboxPromotionItem
  phase : String
  workspaceRootBinding : Option String
  deriving DecidableEq

/-- The limits of `ExecutorLimits` that the store and the grant checks use. -/
structure ExecutorLimits where
  maxProtocolBytes : ℤ
  maxWallClockMs : ℤ
  maxCpuSeconds : ℤ
  maxMemoryMib : ℤ
  maxDiskMib : ℤ
  maxProcesses : ℤ
  maxOutputBytes : ℤ
  maxCommandArgs : ℤ
  maxArgumentBytes : ℤ
  maxChangedPaths : ℤ

/-- `WorkspacePolicy`. -/
structure WorkspacePolicy where
  root : String
  allowedBackends : List SandboxBackendKind
  allowedNetworks : List SandboxNetworkMode
  allowedEgress : List String
  allowedCommands : List String
  allowDegraded : Bool

/-- `ExecutorConfig`, with the registries as association lists and the AEN
deployments by their IDs. -/
structure ExecutorConfig where
  scratchRoot : String
  workspaces : List (String × WorkspacePolicy)
  localTools : List (String × String)
  aenBackends : List String
  limits : ExecutorLimits

end Moonfort.Executor
