import Moonfort.MoonBit.Json
import Moonfort.Sandbox.Types

/-!
# Sandbox profiles

The profile of one run, the checks of `profile_rejection` in the order in which
the program makes them, and the digest that binds a profile. The empty text
means that the profile is accepted.
-/

namespace Moonfort.Sandbox

open MoonBit

/-- `SandboxProfile`. -/
structure SandboxProfile where
  runId : String
  workspaceRoot : String
  scratchRoot : String
  backend : SandboxBackendKind
  enforcementRequirement : SandboxEnforcementRequirement
  network : SandboxNetworkMode
  readOnlyRoots : List String
  allowedEgress : List String
  allowedCommands : List String
  limits : SandboxLimits
  readOnlyWorkspace : Bool
  /-- Executor-owned private evidence root. Empty disables live output. -/
  executorEvidenceRoot : String
  /-- The identifier of the live output below `executorEvidenceRoot`. -/
  liveOutputId : String
  deriving DecidableEq

/-- `path_contains`. -/
def pathContains (root candidate : String) : Bool :=
  if root == "/" then hasPrefix candidate "/" else hasPrefix candidate (root ++ "/")

/-- The loop of `strip_trailing_slashes`, on the characters from the last one on. -/
def stripLeadingSlashes : List Char → List Char
  | '/' :: c :: rest => stripLeadingSlashes (c :: rest)
  | cs => cs

/-- `strip_trailing_slashes`. -/
def stripTrailingSlashes (path : String) : String :=
  String.ofList (stripLeadingSlashes path.toList.reverse).reverse

/-- `roots_overlap`. -/
def rootsOverlap (left right : String) : Bool :=
  let left := stripTrailingSlashes left
  let right := stripTrailingSlashes right
  left == right || pathContains left right || pathContains right left

/-- The executor's evidence root meets a root of the sandbox. -/
def evidenceRootOverlaps (profile : SandboxProfile) : Bool :=
  rootsOverlap profile.executorEvidenceRoot profile.workspaceRoot ||
    rootsOverlap profile.executorEvidenceRoot profile.scratchRoot ||
    profile.readOnlyRoots.any fun root => rootsOverlap profile.executorEvidenceRoot root

/-- The last part of `profile_rejection`: limits and network. -/
def limitsRejection (profile : SandboxProfile) : String :=
  if profile.limits.wallClockMs ≤ 0 then "wall_clock_ms must be positive"
  else if profile.limits.cpuSeconds ≤ 0 then "cpu_seconds must be positive"
  else if profile.limits.memoryMib ≤ 0 then "memory_mib must be positive"
  else if profile.limits.diskMib ≤ 0 then "disk_mib must be positive"
  else if profile.limits.processes ≤ 0 then "processes must be positive"
  else if profile.limits.outputBytes ≤ 0 then "output_bytes must be positive"
  else if profile.network = .deny ∧ profile.allowedEgress ≠ [] then
    "allowed_egress requires AllowList network mode"
  else if profile.network = .unrestricted ∧ profile.allowedEgress ≠ [] then
    "allowed_egress is invalid for Unrestricted network mode"
  else ""

/-- The middle part of `profile_rejection`: the read-only roots. -/
def readOnlyRootsRejection (profile : SandboxProfile) : String :=
  if !profile.readOnlyWorkspace then "workspace must be read-only"
  else if profile.readOnlyRoots.isEmpty then "at least one read_only_root is required"
  else if profile.readOnlyRoots.any fun root => trim root == "" then
    "read_only_roots must not contain empty paths"
  else if profile.readOnlyRoots.any fun root => !pathIsCanonicalAbsolute root then
    "read_only_roots must be canonical absolute paths"
  else if !profile.readOnlyRoots.any fun root =>
      root == profile.workspaceRoot || pathContains root profile.workspaceRoot then
    "read_only_roots must cover workspace_root"
  else if profile.readOnlyRoots.any fun root => rootsOverlap root profile.scratchRoot then
    "scratch_root must be disjoint from read_only_roots"
  else limitsRejection profile

/-- `profile_rejection`. -/
def profileRejection (profile : SandboxProfile) : String :=
  if trim profile.runId == "" then "run_id is required"
  else if trim profile.workspaceRoot == "" then "workspace_root is required"
  else if trim profile.scratchRoot == "" then "scratch_root is required"
  else if !pathIsCanonicalAbsolute profile.workspaceRoot then
    "workspace_root must be a canonical absolute path"
  else if !pathIsCanonicalAbsolute profile.scratchRoot then
    "scratch_root must be a canonical absolute path"
  else if rootsOverlap profile.workspaceRoot profile.scratchRoot then
    "scratch_root must be disjoint from workspace_root"
  else if (profile.executorEvidenceRoot == "") != (profile.liveOutputId == "") then
    "executor evidence root and live output id must be enabled together"
  else if profile.executorEvidenceRoot != "" &&
      !pathIsCanonicalAbsolute profile.executorEvidenceRoot then
    "executor evidence root must be a canonical absolute path"
  else if profile.executorEvidenceRoot != "" && evidenceRootOverlaps profile then
    "executor evidence root must be disjoint from sandbox roots"
  else if profile.liveOutputId != "" && !allChars profile.liveOutputId isHexDigit then
    "live output id must be lowercase hexadecimal"
  else readOnlyRootsRejection profile

/-- `SandboxBackendKind::to_json`. -/
def SandboxBackendKind.toJson : SandboxBackendKind → Json
  | .localOs => .string "LocalOs"
  | .microVm => .string "MicroVm"
  | .unavailable => .string "Unavailable"

/-- `SandboxNetworkMode::to_json`. -/
def SandboxNetworkMode.toJson : SandboxNetworkMode → Json
  | .deny => .string "Deny"
  | .allowList => .string "AllowList"
  | .unrestricted => .string "Unrestricted"

/-- `SandboxEnforcementRequirement::to_json`. -/
def SandboxEnforcementRequirement.toJson : SandboxEnforcementRequirement → Json
  | .requireEnforced => .string "RequireEnforced"
  | .allowDegraded => .string "AllowDegraded"

/-- `SandboxLimits::to_json`. -/
def SandboxLimits.toJson (limits : SandboxLimits) : Json :=
  .object [("wall_clock_ms", .number limits.wallClockMs),
    ("cpu_seconds", .number limits.cpuSeconds), ("memory_mib", .number limits.memoryMib),
    ("disk_mib", .number limits.diskMib), ("processes", .number limits.processes),
    ("output_bytes", .number limits.outputBytes)]

/-- A list of strings as JSON. -/
def stringsJson (values : List String) : Json := .array (values.map .string)

/-- `SandboxProfile::to_json`. -/
def SandboxProfile.toJson (profile : SandboxProfile) : Json :=
  .object [("run_id", .string profile.runId), ("workspace_root", .string profile.workspaceRoot),
    ("scratch_root", .string profile.scratchRoot), ("backend", profile.backend.toJson),
    ("enforcement_requirement", profile.enforcementRequirement.toJson),
    ("network", profile.network.toJson), ("read_only_roots", stringsJson profile.readOnlyRoots),
    ("allowed_egress", stringsJson profile.allowedEgress),
    ("allowed_commands", stringsJson profile.allowedCommands), ("limits", profile.limits.toJson),
    ("read_only_workspace", .bool profile.readOnlyWorkspace),
    ("executor_evidence_root", .string profile.executorEvidenceRoot),
    ("live_output_id", .string profile.liveOutputId)]

/-- `profile_digest`, over the SHA-256 of a text in hexadecimal. -/
def profileDigest (sha256Hex : String → String) (profile : SandboxProfile) : String :=
  sha256Hex (SandboxProfile.toJson { profile with
    readOnlyRoots := sortStrings profile.readOnlyRoots
    allowedEgress := sortStrings profile.allowedEgress
    allowedCommands := sortStrings profile.allowedCommands }).stringify

end Moonfort.Sandbox
