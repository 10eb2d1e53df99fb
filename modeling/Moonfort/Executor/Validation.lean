import Moonfort.Executor.Types

/-!
# Grant validation

The checks of `validation.mbt`, each as the program makes it: the empty text
means that the grant is accepted.
-/

namespace Moonfort.Executor

open MoonBit Sandbox

/-- An ASCII letter. -/
def isAsciiAlphabetic (c : Char) : Bool := ('a' ≤ c && c ≤ 'z') || ('A' ≤ c && c ≤ 'Z')

/-- An ASCII digit. -/
def isAsciiDigit (c : Char) : Bool := '0' ≤ c && c ≤ '9'

/-- `safe_identifier`. -/
def safeIdentifier (value : String) : Bool :=
  1 ≤ utf16Length value && utf16Length value ≤ 128 &&
    allChars value fun c => isAsciiAlphabetic c || isAsciiDigit c || c == '-' || c == '_'

/-- `canonical_absolute_path`. -/
def canonicalAbsolutePath (path : String) : Bool :=
  hasPrefix path "/" && !containsText path "//" && !containsText path "\x00" &&
    !((splitPath path).any fun component => component == "." || component == "..") &&
    (path == "/" || !hasSuffix path "/")

/-- `safe_relative_directory`. -/
def safeRelativeDirectory (path : String) : Bool :=
  path == "" ||
    (!hasPrefix path "/" && !hasSuffix path "/" && !containsText path "//" &&
      !containsText path "\x00" && utf8Length path ≤ 4096 &&
      !((splitPath path).any fun component => component == "." || component == ".."))

/-- `subset`. -/
def subset (values allowed : List String) : Bool := values.all fun value => allowed.contains value

/-- `unique`. -/
def unique : List String → Bool
  | [] => true
  | value :: rest => !rest.contains value && unique rest

/-- `command_shape_error`. -/
def commandShapeError (command : SandboxCommand) (limits : ExecutorLimits) : String :=
  match command with
  | .exec tool args =>
    if !safeIdentifier tool && tool != "shell-compat" then "unsafe command capability label"
    else if limits.maxCommandArgs < args.length then
      "command argument count exceeds deployment limit"
    else if args.any fun arg =>
        containsText arg "\x00" || decide (limits.maxArgumentBytes < utf8Length arg) then
      "command argument exceeds deployment limit"
    else ""
  | .shell script =>
    if containsText script "\x00" || decide (limits.maxArgumentBytes < utf8Length script) then
      "shell script exceeds deployment limit"
    else ""

/-- `grant_capability`. -/
def grantCapability : SandboxCommand → String
  | .exec tool _ => tool
  | .shell _ => shellCompatibilityCommandLabel

/-- `validate_limits`. -/
def validateLimits (requested : SandboxLimits) (ceiling : ExecutorLimits) : String :=
  if requested.wallClockMs ≤ 0 ∨ ceiling.maxWallClockMs < requested.wallClockMs then
    "wall clock limit " ++ toString requested.wallClockMs ++
      "ms is outside deployment policy (1.." ++ toString ceiling.maxWallClockMs ++ "ms)"
  else if requested.cpuSeconds ≤ 0 ∨ ceiling.maxCpuSeconds < requested.cpuSeconds then
    "CPU limit is outside deployment policy"
  else if requested.memoryMib ≤ 0 ∨ ceiling.maxMemoryMib < requested.memoryMib then
    "memory limit is outside deployment policy"
  else if requested.diskMib ≤ 0 ∨ ceiling.maxDiskMib < requested.diskMib then
    "disk limit is outside deployment policy"
  else if requested.processes ≤ 0 ∨ ceiling.maxProcesses < requested.processes then
    "process limit is outside deployment policy"
  else if requested.outputBytes ≤ 0 ∨ ceiling.maxOutputBytes < requested.outputBytes then
    "output limit is outside deployment policy"
  else ""

/-- The last part of `validate_grant`: the grant's deployment. -/
def backendConfigError (grant : ExecutionGrant) (config : ExecutorConfig) : String :=
  match grant.backend with
  | .localOs =>
    if grant.backendConfigId ≠ "local" then "local grant must select the local deployment"
    else if grant.allowedCommands.any fun label =>
        !canonicalAbsolutePath (if label == shellCompatibilityCommandLabel then "/bin/sh"
          else (config.localTools.lookup label).getD "") then
      "approved local capability has no trusted executable"
    else ""
  | .microVm =>
    if !safeIdentifier grant.backendConfigId ||
        !config.aenBackends.contains grant.backendConfigId then
      "grant names an unknown AEN deployment"
    else ""
  | .unavailable => "grant cannot select an unavailable backend"

/-- The part of `validate_grant` after the workspace is found. -/
def workspaceGrantError (grant : ExecutionGrant) (workspace : WorkspacePolicy)
    (config : ExecutorConfig) : String :=
  if !workspace.allowedBackends.contains grant.backend then
    "backend is not authorized for workspace"
  else if !workspace.allowedNetworks.contains grant.network then
    "network mode is not authorized for workspace"
  else if !unique grant.allowedEgress || !subset grant.allowedEgress workspace.allowedEgress then
    "egress set is not authorized for workspace"
  else if !unique grant.allowedCommands ||
      !subset grant.allowedCommands workspace.allowedCommands then
    "command capability set is not authorized for workspace"
  else if !grant.allowedCommands.contains (grantCapability grant.command) then
    "command is not included in approved capabilities"
  else if grant.enforcementRequirement = .allowDegraded ∧ !workspace.allowDegraded then
    "degraded execution is not authorized for workspace"
  else
    let limitError := validateLimits grant.limits config.limits
    if limitError ≠ "" then limitError
    else if !safeRelativeDirectory grant.workingDirectory then
      "working directory is not a safe workspace-relative path"
    else
      let commandError := commandShapeError grant.command config.limits
      if commandError ≠ "" then commandError else backendConfigError grant config

/-- `validate_grant`, at the time `now` that it reads. -/
def validateGrant (now : ℤ) (grant : ExecutionGrant) (invocation : SandboxInvocation)
    (config : ExecutorConfig) : String :=
  if grant.protocolVersion ≠ 3 then "unsupported grant protocol version"
  else if grant.approvalId ≠ invocation.approvalId then
    "grant approval ID does not match invocation"
  else if !safeIdentifier grant.requestId || !safeIdentifier grant.workspaceId then
    "grant request or workspace ID is invalid"
  else if grant.expiresAtMs ≤ now then "grant is expired"
  else
    match config.workspaces.lookup grant.workspaceId with
    | none => "grant names an unknown workspace"
    | some workspace => workspaceGrantError grant workspace config

end Moonfort.Executor
