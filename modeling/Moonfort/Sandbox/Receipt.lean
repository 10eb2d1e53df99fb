import Moonfort.Sandbox.ScratchDiff

/-!
# Receipts

What a backend reports about one run, and the constructors of receipts.
-/

namespace Moonfort.Sandbox

/-- `SandboxEnforcement`. -/
inductive SandboxEnforcement where
  | enforced
  | degraded
  | refused
  deriving DecidableEq

/-- `SandboxRunStatus`. -/
inductive SandboxRunStatus where
  | created
  | running
  | exited
  | killed
  | failed
  deriving DecidableEq

/-- `CommandOutputArtifactRef`. -/
structure CommandOutputArtifactRef where
  artifactId : String
  runId : String
  sha256 : String
  sizeBytes : ℤ
  mediaType : String
  expiresAtMs : ℤ
  keyId : String
  signature : String
  deriving DecidableEq

/-- `SandboxReceipt`. -/
structure SandboxReceipt where
  runId : String
  approvalId : String
  approvalDigest : String
  commandDigest : String
  backend : SandboxBackendKind
  enforcement : SandboxEnforcement
  status : SandboxRunStatus
  profileDigest : String
  exitCode : Option ℤ
  output : String
  outputTruncated : Bool
  outputArtifact : Option CommandOutputArtifactRef
  limitReason : Option String
  unverifiedLimits : List String
  changedPaths : List String
  changes : List ScratchDiffEntry
  artifacts : List String
  denialReason : Option String
  cleanupVerified : Bool
  retentionId : Option String
  deriving DecidableEq

/-- `refused_receipt`. -/
def refusedReceipt (runId : String) (backend : SandboxBackendKind)
    (profileDigest reason : String) : SandboxReceipt where
  runId := runId
  approvalId := ""
  approvalDigest := ""
  commandDigest := ""
  backend := backend
  enforcement := .refused
  status := .failed
  profileDigest := profileDigest
  exitCode := none
  output := ""
  outputTruncated := false
  outputArtifact := none
  limitReason := none
  unverifiedLimits := []
  changedPaths := []
  changes := []
  artifacts := []
  denialReason := some reason
  cleanupVerified := false
  retentionId := none

/-- `killed_receipt`. -/
def killedReceipt (runId : String) (backend : SandboxBackendKind)
    (enforcement : SandboxEnforcement) (profileDigest output : String) (outputTruncated : Bool)
    (limitReason : String) : SandboxReceipt :=
  { refusedReceipt runId backend profileDigest "" with
    enforcement := enforcement
    status := .killed
    output := output
    outputTruncated := outputTruncated
    limitReason := some limitReason
    denialReason := none }

end Moonfort.Sandbox
