import Moonfort.Sandbox.Profile
import Moonfort.Sandbox.Receipt

/-!
# Command preflight

`prepare_sandbox_command`: the policy checks between a profile with a command
and the opaque prepared value that a backend runs.
-/

namespace Moonfort.Sandbox

open MoonBit

/-- `SandboxCommandKind`. -/
inductive SandboxCommandKind where
  | execCommand
  | shellCompatibilityCommand
  deriving DecidableEq

/-- `SandboxBackendReadiness`. -/
inductive SandboxBackendReadiness where
  | backendEnforced
  | backendDegraded (reason : String)
  | backendUnavailable (reason : String)
  deriving DecidableEq

/-- `SandboxPreparationRefusal`. -/
inductive SandboxPreparationRefusal where
  | invalidProfile (reason : String)
  | emptyCommand (kind : SandboxCommandKind)
  | invalidExecToolLabel (label : String)
  | commandContainsNul (kind : SandboxCommandKind) (argumentIndex : ℕ)
  | commandNotAllowed (label : String)
  | backendUnavailable (backend : SandboxBackendKind) (reason : String)
  | localBackendCannotClaimEnforced
  | degradedNotAllowed (backend : SandboxBackendKind) (reason : String)
  deriving DecidableEq

/-- `PreparedSandboxCommand`. -/
structure PreparedSandboxCommand where
  profile : SandboxProfile
  profileDigest : String
  command : SandboxCommand
  capabilityLabel : String
  enforcement : SandboxEnforcement
  deriving DecidableEq

/-- An ASCII letter or digit. -/
def isAsciiAlphanumeric (c : Char) : Bool :=
  ('a' ≤ c && c ≤ 'z') || ('A' ≤ c && c ≤ 'Z') || ('0' ≤ c && c ≤ '9')

/-- `exec_tool_label_is_safe`. -/
def execToolLabelIsSafe (label : String) : Bool :=
  (match label.toList.head? with
    | some first => isAsciiAlphanumeric first
    | none => false) &&
  allChars label (fun c =>
    isAsciiAlphanumeric c || c == '_' || c == '-' || c == '.' || c == '+') &&
  label != shellCompatibilityCommandLabel

/-- `command_capability`. -/
def commandCapability (command : SandboxCommand) : Except SandboxPreparationRefusal String :=
  match command with
  | .exec tool args =>
    if trim tool == "" then .error (.emptyCommand .execCommand)
    else if !execToolLabelIsSafe tool then .error (.invalidExecToolLabel tool)
    else
      match args.findIdx? fun argument => containsText argument "\x00" with
      | some index => .error (.commandContainsNul .execCommand index)
      | none => .ok tool
  | .shell script =>
    if trim script == "" then .error (.emptyCommand .shellCompatibilityCommand)
    else if containsText script "\x00" then
      .error (.commandContainsNul .shellCompatibilityCommand 0)
    else .ok shellCompatibilityCommandLabel

/-- `normalized_reason`. -/
def normalizedReason (reason : String) : String :=
  if trim reason == "" then "backend supplied no reason" else reason

/-- `preparation_enforcement`. -/
def preparationEnforcement (backend : SandboxBackendKind) (readiness : SandboxBackendReadiness)
    (requirement : SandboxEnforcementRequirement) :
    Except SandboxPreparationRefusal SandboxEnforcement :=
  if backend = .unavailable then
    .error (.backendUnavailable .unavailable "no execution backend selected")
  else
    match readiness with
    | .backendUnavailable reason => .error (.backendUnavailable backend (normalizedReason reason))
    | .backendEnforced =>
      if backend = .localOs then .error .localBackendCannotClaimEnforced else .ok .enforced
    | .backendDegraded reason =>
      match requirement with
      | .requireEnforced => .error (.degradedNotAllowed backend (normalizedReason reason))
      | .allowDegraded => .ok .degraded

/-- `prepare_sandbox_command`. -/
def prepareSandboxCommand (sha256Hex : String → String) (profile : SandboxProfile)
    (command : SandboxCommand) (readiness : SandboxBackendReadiness) :
    Except SandboxPreparationRefusal PreparedSandboxCommand :=
  if profileRejection profile ≠ "" then .error (.invalidProfile (profileRejection profile))
  else
    match commandCapability command with
    | .error reason => .error reason
    | .ok capability =>
      if !profile.allowedCommands.contains capability then .error (.commandNotAllowed capability)
      else
        match preparationEnforcement profile.backend readiness profile.enforcementRequirement with
        | .error reason => .error reason
        | .ok enforcement =>
          .ok ⟨profile, profileDigest sha256Hex profile, command, capability, enforcement⟩

end Moonfort.Sandbox
