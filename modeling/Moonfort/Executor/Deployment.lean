import Moonfort.Executor.Validation

/-!
# The deployment

The executor's configuration with every field, and the checks that loading it
makes, in the order in which the program makes them. What the file system
answers is a parameter; the empty text means that the configuration is accepted.
-/

namespace Moonfort.Executor

open MoonBit Sandbox

/-- `TrustedAenConfig`. -/
structure TrustedAenConfig where
  baseUrl : String
  apiKey : String
  executorImageRef : String
  expectedVcpuCount : ℤ
  expectedRootDiskMib : ℤ
  provisionerUrl : String
  provisionerApiKey : String
  provisionerReceiptKey : String
  provisionerKeyId : String
  workspaceRegistryRepository : String
  maxWorkspaceBytes : ℤ
  guestWorkspace : String
  guestScratch : String
  guestAttester : String
  guestSupervisor : String
  executorRootDigest : String
  guestAttesterDigest : String
  guestSupervisorDigest : String
  toolRegistryDigest : String
  guestTools : List (String × String)
  deriving DecidableEq

/-- `WorkspacePolicy` with its read-only roots. -/
structure DeployedWorkspace extends WorkspacePolicy where
  readOnlyRoots : List String

/-- `ExecutorLimits` with the limits of model output and retention. -/
structure DeployedLimits extends ExecutorLimits where
  maxModelOutputBytes : ℤ
  retentionMs : ℤ

/-- `ExecutorConfig` with every field. -/
structure Deployment where
  approvalRoot : String
  scratchRoot : String
  retentionRoot : String
  artifactKeyId : String
  artifactSigningKey : String
  workspaces : List (String × DeployedWorkspace)
  localTools : List (String × String)
  aenBackends : List (String × TrustedAenConfig)
  limits : DeployedLimits

/-- The part of the configuration that the grant checks read. -/
def Deployment.config (deployment : Deployment) : ExecutorConfig where
  scratchRoot := deployment.scratchRoot
  workspaces := deployment.workspaces.map fun entry => (entry.1, entry.2.toWorkspacePolicy)
  localTools := deployment.localTools
  aenBackends := deployment.aenBackends.map Prod.fst
  limits := deployment.limits.toExecutorLimits

/-- `path_contains` of the executor: a root contains itself. -/
def pathContains (root candidate : String) : Bool :=
  root == candidate ||
    (if root == "/" then hasPrefix candidate "/" else hasPrefix candidate (root ++ "/"))

/-- `paths_overlap`. -/
def pathsOverlap (left right : String) : Bool := pathContains left right || pathContains right left

/-- What the host tells about a path while the configuration is loaded. -/
structure HostFiles where
  /-- `@fs.realpath(path) == path`. -/
  isRealPath : String → Bool
  kind : String → Option FileKind
  privateDirectory : String → Bool
  trustedDirectory : String → Bool
  trustedExecutable : String → Bool

/-- `retention_window_is_valid`. -/
def retentionWindowIsValid (value : ℤ) : Bool := 0 < value && value ≤ 31536000000

/-- The text before the last occurrence of a pattern and the text after it. -/
def splitAtLast (pattern : List Char) : List Char → Option (List Char × List Char)
  | [] => if pattern = [] then some ([], []) else none
  | c :: rest =>
    match splitAtLast pattern rest with
    | some (front, back) => some (c :: front, back)
    | none =>
      if pattern.isPrefixOf (c :: rest) then some ([], (c :: rest).drop pattern.length) else none

/-- `immutable_oci_reference`. -/
def immutableOciReference (value : String) : Bool :=
  !containsText value " " && !containsText value "\n" && !containsText value "\r" &&
    !containsText value "\t" &&
    match splitAtLast "@sha256:".toList value.toList with
    | some (front, digest) => !front.isEmpty && sha256Digest (String.ofList digest)
    | none => false

/-- `immutable_oci_repository`. -/
def immutableOciRepository (value : String) : Bool :=
  3 ≤ utf16Length value && utf16Length value ≤ 1024 && !hasPrefix value "/" &&
    !hasSuffix value "/" && !containsText value "//" && !containsText value "@" &&
    !containsText value "://" && !containsText value " " && !containsText value "\n" &&
    !containsText value "\r" && !containsText value "\t" &&
    !((splitPath value).any fun component => component == "." || component == "..") &&
    allChars value fun c => isAsciiAlphabetic c || isAsciiDigit c || c == '.' || c == '_' ||
      c == '-' || c == '/' || c == ':'

/-- `canonical_https_origin`. -/
def canonicalHttpsOrigin (value : String) : Bool :=
  hasPrefix value "https://" &&
    let authority := String.ofList (value.toList.drop 8)
    authority != "" && !containsText authority "/" && !containsText authority "?" &&
      !containsText authority "#" && !containsText authority "@"

/-- `trusted_aen_config_is_valid`. -/
def trustedAenConfigIsValid (backend : TrustedAenConfig) : Bool :=
  canonicalHttpsOrigin backend.baseUrl && trim backend.apiKey != "" &&
    immutableOciReference backend.executorImageRef && 0 < backend.expectedVcpuCount &&
    1024 ≤ backend.expectedRootDiskMib && backend.expectedRootDiskMib % 1024 == 0 &&
    canonicalHttpsOrigin backend.provisionerUrl && trim backend.provisionerApiKey != "" &&
    32 ≤ utf16Length backend.provisionerReceiptKey && safeIdentifier backend.provisionerKeyId &&
    immutableOciRepository backend.workspaceRegistryRepository && 0 < backend.maxWorkspaceBytes &&
    hasPrefix backend.guestWorkspace "/" && hasPrefix backend.guestScratch "/" &&
    hasPrefix backend.guestAttester "/" && hasPrefix backend.guestSupervisor "/" &&
    sha256Digest backend.executorRootDigest && sha256Digest backend.guestAttesterDigest &&
    sha256Digest backend.guestSupervisorDigest && sha256Digest backend.toolRegistryDigest

/-- A directory at its canonical path. -/
def HostFiles.isCanonicalDirectory (files : HostFiles) (path : String) : Bool :=
  files.isRealPath path && files.kind path == some .directory

/-- The limits that a deployment may have. -/
def limitsAreValid (limits : DeployedLimits) : Bool :=
  0 < limits.maxProtocolBytes && limits.maxProtocolBytes ≤ 1048576 &&
    0 < limits.maxWallClockMs && limits.maxWallClockMs ≤ 86400000 &&
    0 < limits.maxCpuSeconds && limits.maxCpuSeconds ≤ 86400 &&
    0 < limits.maxMemoryMib && limits.maxMemoryMib ≤ 1048576 &&
    0 < limits.maxDiskMib && limits.maxDiskMib ≤ 1048576 &&
    0 < limits.maxProcesses && limits.maxProcesses ≤ 65536 &&
    0 < limits.maxOutputBytes && limits.maxOutputBytes ≤ 1073741824 &&
    0 < limits.maxModelOutputBytes && limits.maxModelOutputBytes ≤ limits.maxOutputBytes &&
    limits.maxModelOutputBytes ≤ limits.maxProtocolBytes / 2 &&
    0 < limits.maxCommandArgs && limits.maxCommandArgs ≤ 4096 &&
    0 < limits.maxArgumentBytes && limits.maxArgumentBytes ≤ 1048576 &&
    0 < limits.maxChangedPaths && limits.maxChangedPaths ≤ 1000000 &&
    retentionWindowIsValid limits.retentionMs

/-- A root of a workspace: a trusted directory apart from the executor's own roots. -/
def rootIsValid (files : HostFiles) (deployment : Deployment) (root : String) : Bool :=
  canonicalAbsolutePath root && files.isCanonicalDirectory root && files.trustedDirectory root &&
    !pathsOverlap root deployment.approvalRoot && !pathsOverlap root deployment.scratchRoot &&
    !pathsOverlap root deployment.retentionRoot

/-- The checks of one entry of the workspace registry. -/
def workspaceEntryError (files : HostFiles) (deployment : Deployment)
    (entry : String × DeployedWorkspace) : String :=
  if !(safeIdentifier entry.1 && rootIsValid files deployment entry.2.root) then
    "workspace registry contains an invalid root"
  else if !(entry.2.readOnlyRoots.all fun root => rootIsValid files deployment root) then
    "workspace registry contains an invalid read root"
  else if !(entry.2.readOnlyRoots.any fun root => pathContains root entry.2.root) then
    "workspace registry read roots do not cover its root"
  else ""

/-- An entry of the local tool registry. -/
def localToolIsValid (files : HostFiles) (entry : String × String) : Bool :=
  safeIdentifier entry.1 && entry.1 != shellCompatibilityCommandLabel &&
    canonicalAbsolutePath entry.2 && files.isRealPath entry.2 &&
    files.kind entry.2 == some .regular && files.trustedExecutable entry.2

/-- The last part of `load_executor_config`: the three registries. -/
def registriesError (files : HostFiles) (deployment : Deployment) : String :=
  match deployment.workspaces.find? fun entry =>
      workspaceEntryError files deployment entry != "" with
  | some entry => workspaceEntryError files deployment entry
  | none =>
    if !(deployment.localTools.all fun entry => localToolIsValid files entry) then
      "local tool registry contains an invalid executable"
    else if !(deployment.aenBackends.all fun entry =>
        safeIdentifier entry.1 && trustedAenConfigIsValid entry.2) then
      "AEN registry contains an invalid trusted deployment"
    else ""

/-- The checks of `load_executor_config`. -/
def deploymentError (files : HostFiles) (deployment : Deployment) : String :=
  if !(canonicalAbsolutePath deployment.approvalRoot &&
      files.isCanonicalDirectory deployment.approvalRoot) then
    "approval root is not a canonical trusted directory"
  else if !files.privateDirectory deployment.approvalRoot then
    "approval root ownership or permissions are unsafe"
  else if !(canonicalAbsolutePath deployment.scratchRoot &&
      files.isCanonicalDirectory deployment.scratchRoot) then
    "scratch root is not a canonical trusted directory"
  else if !files.privateDirectory deployment.scratchRoot then
    "scratch root ownership or permissions are unsafe"
  else if !(canonicalAbsolutePath deployment.retentionRoot &&
      files.isCanonicalDirectory deployment.retentionRoot) then
    "retention root is not a canonical trusted directory"
  else if !files.privateDirectory deployment.retentionRoot then
    "retention root ownership or permissions are unsafe"
  else if !(files.isCanonicalDirectory (deployment.retentionRoot ++ "/output-artifacts") &&
      files.privateDirectory (deployment.retentionRoot ++ "/output-artifacts")) then
    "output artifact root is not a canonical private directory"
  else if !(files.isCanonicalDirectory (deployment.retentionRoot ++ "/live-output") &&
      files.privateDirectory (deployment.retentionRoot ++ "/live-output")) then
    "live output root is not a canonical private directory"
  else if !(!pathsOverlap deployment.approvalRoot deployment.scratchRoot &&
      !pathsOverlap deployment.approvalRoot deployment.retentionRoot &&
      !pathsOverlap deployment.scratchRoot deployment.retentionRoot) then
    "executor-owned roots must be pairwise disjoint"
  else if !limitsAreValid deployment.limits then "executor deployment limits are invalid"
  else if !(safeIdentifier deployment.artifactKeyId &&
      32 ≤ utf16Length deployment.artifactSigningKey) then
    "output artifact signing configuration is invalid"
  else registriesError files deployment

/-- A host on which every path is canonical and private, with one tool. -/
def sampleHostFiles : HostFiles where
  isRealPath _ := true
  kind path := some (if path = "/usr/bin/moon" then .regular else .directory)
  privateDirectory _ := true
  trustedDirectory _ := true
  trustedExecutable _ := true

/-- The workspace of the sample deployment. -/
def sampleWorkspace : DeployedWorkspace where
  root := "/srv/book"
  readOnlyRoots := ["/srv/book"]
  allowedBackends := [.localOs]
  allowedNetworks := [.deny]
  allowedEgress := []
  allowedCommands := ["moon", "shell-compat"]
  allowDegraded := true

/-- A deployment with one workspace and one local tool. -/
def sampleDeployment : Deployment where
  approvalRoot := "/var/approvals"
  scratchRoot := "/var/scratch"
  retentionRoot := "/var/retention"
  artifactKeyId := "key-1"
  artifactSigningKey := "0123456789abcdef0123456789abcdef"
  workspaces := [("book", sampleWorkspace)]
  localTools := [("moon", "/usr/bin/moon")]
  aenBackends := []
  limits :=
    { maxProtocolBytes := 4096
      maxWallClockMs := 1000
      maxCpuSeconds := 10
      maxMemoryMib := 64
      maxDiskMib := 64
      maxProcesses := 8
      maxOutputBytes := 65536
      maxModelOutputBytes := 1024
      maxCommandArgs := 16
      maxArgumentBytes := 1024
      maxChangedPaths := 100
      retentionMs := 60000 }

/-- A grant on the sample deployment for a shell script. -/
def sampleShellGrant (script : String) : ExecutionGrant where
  protocolVersion := 3
  approvalId := "approval-1"
  requestId := "run-1"
  workspaceId := "book"
  backend := .localOs
  enforcementRequirement := .allowDegraded
  network := .deny
  allowedEgress := []
  allowedCommands := ["shell-compat"]
  limits := ⟨1000, 10, 64, 64, 8, 65536⟩
  workingDirectory := ""
  command := .shell script
  backendConfigId := "local"
  expiresAtMs := 100

end Moonfort.Executor
