import Moonfort.Executor.Validation
import Moonfort.Sandbox.ProfileAcceptance

/-!
# Accepted grants

What `validate_grant` accepts: the checks that later steps rely on, one
condition for each.
-/

namespace Moonfort.Executor

open MoonBit Sandbox

/-- What `validate_grant` establishes about a grant. -/
structure GrantAccepted (grant : ExecutionGrant) (config : ExecutorConfig) : Prop where
  requestId : safeIdentifier grant.requestId = true
  capability : grant.allowedCommands.contains (grantCapability grant.command) = true
  limits_ok : validateLimits grant.limits config.limits = ""
  shape_ok : commandShapeError grant.command config.limits = ""
  backend_ok : backendConfigError grant config = ""

/-- A validated grant has what the executor accepts. -/
theorem grantAccepted_of_validateGrant {now : ℤ} {grant : ExecutionGrant}
    {invocation : SandboxInvocation} {config : ExecutorConfig}
    (h : validateGrant now grant invocation config = "") : GrantAccepted grant config := by
  unfold validateGrant at h
  simp (disch := decide) only [message_eq_empty_iff] at h
  obtain ⟨-, -, hid, -, h⟩ := h
  rw [Bool.or_eq_true, not_or, Bool.not_eq_true', Bool.not_eq_false] at hid
  split at h
  next => exact absurd h (by decide)
  next workspace _ =>
    unfold workspaceGrantError at h
    simp (disch := decide) only [message_eq_empty_iff] at h
    obtain ⟨-, -, -, -, hcapability, -, h⟩ := h
    rw [Bool.not_eq_true', Bool.not_eq_false] at hcapability
    by_cases hlimits : validateLimits grant.limits config.limits = ""
    · rw [if_neg (not_not.mpr hlimits), message_eq_empty_iff (by decide)] at h
      by_cases hshape : commandShapeError grant.command config.limits = ""
      · rw [if_neg (not_not.mpr hshape)] at h
        exact ⟨hid.1, hcapability, hlimits, hshape, h.2⟩
      · rw [if_pos hshape] at h
        exact absurd h.2 hshape
    · rw [if_pos hlimits] at h
      exact absurd h hlimits

/-- The limits of an accepted grant are those of its deployment at most. -/
theorem limits_within_of_accepted {requested : SandboxLimits} {ceiling : ExecutorLimits}
    (h : validateLimits requested ceiling = "") :
    (0 < requested.wallClockMs ∧ requested.wallClockMs ≤ ceiling.maxWallClockMs) ∧
      (0 < requested.cpuSeconds ∧ requested.cpuSeconds ≤ ceiling.maxCpuSeconds) ∧
      (0 < requested.memoryMib ∧ requested.memoryMib ≤ ceiling.maxMemoryMib) ∧
      (0 < requested.diskMib ∧ requested.diskMib ≤ ceiling.maxDiskMib) ∧
      (0 < requested.processes ∧ requested.processes ≤ ceiling.maxProcesses) ∧
      0 < requested.outputBytes ∧ requested.outputBytes ≤ ceiling.maxOutputBytes := by
  have hmessage : ∀ a b : ℤ, "wall clock limit " ++ toString a ++
      "ms is outside deployment policy (1.." ++ toString b ++ "ms)" ≠ "" := by
    intro a b
    rw [ne_eq, String.append_eq_empty_iff]
    exact fun hempty => absurd hempty.2 (by decide)
  unfold validateLimits at h
  rw [message_eq_empty_iff (hmessage _ _)] at h
  simp (disch := decide) only [message_eq_empty_iff] at h
  omega

/-- The limits of an accepted grant are positive. -/
theorem limits_pos_of_accepted {requested : SandboxLimits} {ceiling : ExecutorLimits}
    (h : validateLimits requested ceiling = "") :
    0 < requested.wallClockMs ∧ 0 < requested.cpuSeconds ∧ 0 < requested.memoryMib ∧
      0 < requested.diskMib ∧ 0 < requested.processes ∧ 0 < requested.outputBytes := by
  obtain ⟨hwall, hcpu, hmemory, hdisk, hprocesses, houtput⟩ := limits_within_of_accepted h
  exact ⟨hwall.1, hcpu.1, hmemory.1, hdisk.1, hprocesses.1, houtput.1⟩

/-- An accepted grant for a microVM names a deployment of the registry. -/
theorem aenBackend_of_accepted {grant : ExecutionGrant} {config : ExecutorConfig}
    (h : GrantAccepted grant config) (hbackend : grant.backend = .microVm) :
    grant.backendConfigId ∈ config.aenBackends := by
  have herror := h.backend_ok
  rw [backendConfigError, hbackend] at herror
  dsimp only at herror
  rw [message_eq_empty_iff (by decide), Bool.or_eq_true, not_or, Bool.not_eq_true',
    Bool.not_eq_false, Bool.not_eq_true', Bool.not_eq_false] at herror
  exact List.contains_iff_mem.mp herror.1.2

end Moonfort.Executor
