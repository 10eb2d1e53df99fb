import Moonfort.Executor.Execution
import Moonfort.Executor.GrantRehearsal
import Moonfort.Executor.GrantStoreRuns

/-!
# The account of a scratch directory

A scratch directory that an execution makes is deleted, retained, or reported in the
receipt, except on five exits of the execution. They are named here, and the
directory is accounted for exactly when none of them is taken.
-/

namespace Moonfort.Executor

open MoonBit Sandbox

variable {σ τ : Type}

/-- The directory is gone. -/
def ScratchEnd.Deleted (directory : ScratchEnd) : Prop := directory.present = false

/-- The directory is there, under a record that the store accepts and whose ID the response
names. -/
def ScratchEnd.Retained (directory : ScratchEnd) (lib : RetentionLibrary τ)
    (config : ExecutorConfig) (outcome : ExecutionOutcome) : Prop :=
  directory.present = true ∧
    ∃ record ∈ directory.record, record.scratchPath = directory.path ∧
      recordIsConsistent lib record record.retentionId config = true ∧
      ∃ receipt ∈ outcome.receipt, receipt.retentionId = some record.retentionId

/-- The directory is left behind, and the receipt says that cleanup is not verified. -/
def ScratchEnd.Reported (directory : ScratchEnd) (outcome : ExecutionOutcome) : Prop :=
  directory.present = true ∧ ∃ receipt ∈ outcome.receipt, receipt.cleanupVerified = false

/-- Exactly one of three statements is true. -/
def ExactlyOne (p q r : Prop) : Prop :=
  (p ∧ ¬ q ∧ ¬ r) ∨ (¬ p ∧ q ∧ ¬ r) ∨ (¬ p ∧ ¬ q ∧ r)

/-- The directory of an execution ends in exactly one of the three ways. -/
def ExecutionOutcome.Accounted (outcome : ExecutionOutcome) (lib : RetentionLibrary τ)
    (config : ExecutorConfig) : Prop :=
  ∀ directory ∈ outcome.scratch,
    ExactlyOne directory.Deleted (directory.Retained lib config outcome)
      (directory.Reported outcome)

/-- A directory is retained only for a run whose result may be reviewed. -/
def ExecutionOutcome.RetainedOnly (outcome : ExecutionOutcome) (lib : RetentionLibrary τ)
    (host : ExecutionHost) (config : Deployment) : Prop :=
  ∀ directory ∈ outcome.scratch, ∀ record ∈ directory.record,
    ∃ grant ∈ host.consumed, ∃ receipt ∈ outcome.receipt,
      RetainableRun lib host.retention receipt directory.path config grant.backend

/-- An execution whose grant is accepted makes its scratch directory. -/
structure ScratchMade (host : ExecutionHost) (invocation : SandboxInvocation)
    (config : Deployment) (grant : ExecutionGrant) (workspace : DeployedWorkspace)
    (random : List UInt8) : Prop where
  consumed : host.consumed = some grant
  accepted : validateGrant host.now grant invocation config.config = ""
  workspace_eq : config.workspaces.lookup grant.workspaceId = some workspace
  random_eq : host.random = some random
  created : host.created = true

/-- The profile under which an execution runs its command. -/
def executionProfile (crypto : Crypto) (grants : GrantLibrary σ) (host : ExecutionHost)
    (invocation : SandboxInvocation) (config : Deployment) (grant : ExecutionGrant)
    (workspace : DeployedWorkspace) (random : List UInt8) : SandboxProfile :=
  profileForGrant grant workspace (allocatedScratch random config)
    (startedLiveOutput crypto grants host invocation grant config) (liveOutputRoot config)

/-- The exits of an execution that leave a scratch directory behind and say nothing of it. -/
inductive ScratchForgotten (crypto : Crypto) (grants : GrantLibrary σ) (host : ExecutionHost)
    (invocation : SandboxInvocation) (config : Deployment) : Prop
  /-- The host raises an error while the new directory is checked. -/
  | unchecked {grant : ExecutionGrant} {workspace : DeployedWorkspace} {random : List UInt8}
      (hmade : ScratchMade host invocation config grant workspace random)
      (hverified : host.verified = none)
  /-- The new directory is not the one asked for, and stays when it is discarded. -/
  | misplaced {grant : ExecutionGrant} {workspace : DeployedWorkspace} {random : List UInt8}
      (hmade : ScratchMade host invocation config grant workspace random)
      (hverified : host.verified = some false) (hleaves : host.discard.leaves = true)
  /-- A local tool cannot be bound, and the directory stays when it is discarded. -/
  | unbound {grant : ExecutionGrant} {workspace : DeployedWorkspace} {random : List UInt8}
      (hmade : ScratchMade host invocation config grant workspace random)
      (hverified : host.verified = some true) (hbackend : grant.backend = .localOs)
      (hbindings : localBindings host grant config = none) (hleaves : host.discard.leaves = true)
  /-- The local backend raises an error. -/
  | localRaised {grant : ExecutionGrant} {workspace : DeployedWorkspace} {random : List UInt8}
      (hmade : ScratchMade host invocation config grant workspace random)
      (hverified : host.verified = some true) (hbackend : grant.backend = .localOs)
      (selected : List (String × String)) (bindings : List LocalSandboxTool)
      (hbindings : localBindings host grant config = some (selected, bindings))
      (hraised : host.runLocalSandbox
        (executionProfile crypto grants host invocation config grant workspace random)
        grant.command bindings grant.workingDirectory = none)
  /-- The AEN backend raises an error. -/
  | aenRaised {grant : ExecutionGrant} {workspace : DeployedWorkspace} {random : List UInt8}
      (hmade : ScratchMade host invocation config grant workspace random)
      (hverified : host.verified = some true) (hbackend : grant.backend = .microVm)
      (trusted : TrustedAenConfig)
      (htrusted : config.aenBackends.lookup grant.backendConfigId = some trusted)
      (hraised : host.executeAenSandbox
        (executionProfile crypto grants host invocation config grant workspace random)
        grant.command (trustedAenExecutionConfig trusted grant.workspaceId)
        grant.workingDirectory = none)

/-! ## The exits that settle the directory -/

section

variable {crypto : Crypto} {grants : GrantLibrary σ} {lib : RetentionLibrary τ}
  {host : ExecutionHost} {invocation : SandboxInvocation} {config : Deployment}

/-- A directory that is gone is accounted for. -/
theorem accounted_of_deleted {outcome : ExecutionOutcome} {config : ExecutorConfig}
    (h : ∀ directory ∈ outcome.scratch, directory.present = false) :
    outcome.Accounted lib config := by
  intro directory hdirectory
  have hgone := h directory hdirectory
  refine .inl ⟨hgone, fun hretained => ?_, fun hreported => ?_⟩
  · exact absurd (hgone.symm.trans hretained.1) (by decide)
  · exact absurd (hgone.symm.trans hreported.1) (by decide)

/-- A directory that is there without a receipt is not accounted for. -/
theorem not_accounted_of_left {outcome : ExecutionOutcome} {config : ExecutorConfig}
    (directory : ScratchEnd) (hdirectory : outcome.scratch = some directory)
    (hpresent : directory.present = true) (hreceipt : outcome.receipt = none) :
    ¬ outcome.Accounted lib config := by
  intro h
  have hnone : ∀ receipt, ¬ receipt ∈ outcome.receipt := by
    intro receipt hmem
    rw [hreceipt] at hmem
    cases hmem
  rcases h directory hdirectory with ⟨hgone, -, -⟩ | ⟨-, hretained, -⟩ | ⟨-, -, hreported⟩
  · exact absurd (hpresent.symm.trans hgone) (by decide)
  · obtain ⟨-, -, -, -, -, receipt, hmem, -⟩ := hretained
    exact hnone receipt hmem
  · obtain ⟨-, receipt, hmem, -⟩ := hreported
    exact hnone receipt hmem

/-- The workspace of an accepted grant has a safe identifier. -/
theorem safeIdentifier_workspaceId {now : ℤ} {grant : ExecutionGrant} {config : ExecutorConfig}
    (h : validateGrant now grant invocation config = "") :
    safeIdentifier grant.workspaceId = true := by
  unfold validateGrant at h
  simp (disch := decide) only [message_eq_empty_iff] at h
  obtain ⟨-, -, hid, -⟩ := h
  rw [Bool.or_eq_true, not_or, Bool.not_eq_true', Bool.not_eq_false, Bool.not_eq_true',
    Bool.not_eq_false] at hid
  exact hid.2

/-- Only the output of a receipt that may be reviewed is left to the host. -/
theorem backendTerminalCleanup_of_retainable {backend : SandboxBackendKind}
    {receipt : SandboxReceipt} {scratch : String}
    (h : RetainableRun lib host.retention receipt scratch config backend) :
    backendTerminalCleanup backend receipt = true := by
  cases h with
  | «local» hstatus henforcement =>
    rw [backendTerminalCleanup, hstatus, henforcement]
    rfl
  | microVm inventory hstatus henforcement hcleanup hinventory hmatches => exact hcleanup

/-- Binding a receipt to its approval leaves the run that it describes as it is. -/
theorem RetainableRun.withApprovalBinding {backend : SandboxBackendKind}
    {receipt : SandboxReceipt} {scratch approvalId approvalDigest commandDigest : String}
    {retentionId : Option String}
    (h : RetainableRun lib host.retention receipt scratch config backend) :
    RetainableRun lib host.retention
      (withApprovalBinding receipt approvalId approvalDigest commandDigest true retentionId)
      scratch config backend := by
  cases h with
  | «local» hstatus henforcement => exact .local hstatus henforcement
  | microVm inventory hstatus henforcement hcleanup hinventory hmatches =>
    exact .microVm inventory hstatus henforcement rfl hinventory ⟨hmatches.files, hmatches.others⟩

variable {grant : ExecutionGrant} {profile : SandboxProfile}
  {scratch retentionId approvalDigest commandDigest : String} {receipt : SandboxReceipt}
  {final : Option LiveOutputReference}

variable (invocation final) in
/-- The end of an execution whose directory is retained. -/
theorem settleScratch_retained {record : RetentionRecord}
    (hrecord : retainExecutionResult lib host.retention grant.backend receipt scratch retentionId
      grant.workspaceId (profileDigest crypto.digestText profile) approvalDigest commandDigest
      config = some record)
    (hrun : RetainableRun lib host.retention receipt scratch config grant.backend)
    (hlimit : (receipt.changedPaths.length : ℤ) ≤ config.limits.maxChangedPaths) :
    (settleScratch crypto lib host invocation grant profile scratch retentionId approvalDigest
        commandDigest receipt final config).scratch = some ⟨scratch, true, some record⟩ ∧
      (settleScratch crypto lib host invocation grant profile scratch retentionId approvalDigest
        commandDigest receipt final config).receipt =
        some (withApprovalBinding receipt invocation.approvalId approvalDigest commandDigest true
          (some retentionId)) := by
  have hcleanup := backendTerminalCleanup_of_retainable hrun
  have hshown : ¬ config.limits.maxChangedPaths < receipt.changedPaths.length := by omega
  constructor
  · simp only [settleScratch, hrecord, Option.isSome_some, Bool.true_or]
  · simp only [settleScratch, hrecord, hcleanup, if_neg hshown, Option.isSome_some, Bool.true_or,
      Bool.and_self, if_true]
    cases final <;> rfl

variable (invocation final) in
/-- The end of an execution whose directory is discarded. -/
theorem settleScratch_discarded
    (hrecord : retainExecutionResult lib host.retention grant.backend receipt scratch retentionId
      grant.workspaceId (profileDigest crypto.digestText profile) approvalDigest commandDigest
      config = none) :
    (settleScratch crypto lib host invocation grant profile scratch retentionId approvalDigest
        commandDigest receipt final config).scratch =
        some ⟨scratch, host.discard.leaves, none⟩ ∧
      ∃ shown ∈ (settleScratch crypto lib host invocation grant profile scratch retentionId
          approvalDigest commandDigest receipt final config).receipt,
        host.discard.leaves = true → shown.cleanupVerified = false := by
  constructor
  · simp only [settleScratch, hrecord, Option.isSome_none, Bool.false_or]
  · have hleaves : host.discard.leaves = true → (host.discard == .removed) = false := by
      intro h
      rw [beq_eq_false_iff_ne]
      rintro hremoved
      rw [hremoved] at h
      cases h
    simp only [settleScratch, hrecord, Option.isSome_none, Bool.false_or]
    have hcleanup : host.discard.leaves = true →
        (backendTerminalCleanup grant.backend receipt && host.discard == .removed) = false := by
      intro h
      rw [hleaves h, Bool.and_false]
    cases final with
    | none => exact ⟨_, rfl, hcleanup⟩
    | some reference => exact ⟨_, rfl, hcleanup⟩

/-- The last part of an execution settles the directory: it is retained, discarded, or left
behind with a receipt that says so. -/
theorem settleScratch_accounted (hworkspace : safeIdentifier grant.workspaceId = true) :
    (settleScratch crypto lib host invocation grant profile scratch retentionId approvalDigest
        commandDigest receipt final config).Accounted lib config.config ∧
      ∀ directory ∈ (settleScratch crypto lib host invocation grant profile scratch retentionId
          approvalDigest commandDigest receipt final config).scratch,
        ∀ record ∈ directory.record,
          ∃ shown ∈ (settleScratch crypto lib host invocation grant profile scratch retentionId
              approvalDigest commandDigest receipt final config).receipt,
            RetainableRun lib host.retention shown directory.path config grant.backend := by
  cases hrecord : retainExecutionResult lib host.retention grant.backend receipt scratch
      retentionId grant.workspaceId (profileDigest crypto.digestText profile) approvalDigest
      commandDigest config with
  | some record =>
    obtain ⟨hrun, hlimit, hid, hpath, hconsistent⟩ :=
      retainExecutionResult_eq_some hrecord hworkspace
    obtain ⟨hscratch, hreceipt⟩ := settleScratch_retained invocation final hrecord hrun
      hlimit
    rw [ExecutionOutcome.Accounted, hscratch, hreceipt]
    constructor
    · rintro directory ⟨⟩
      refine .inr (.inl ⟨fun hgone => ?_, ⟨rfl, record, rfl, hpath, ?_, ?_⟩, fun hreported => ?_⟩)
      · exact Bool.noConfusion hgone
      · rw [hid]
        exact hconsistent
      · rw [hreceipt]
        exact ⟨_, rfl, congrArg some hid.symm⟩
      · obtain ⟨-, shown, hshown, hcleanup⟩ := hreported
        rw [hreceipt] at hshown
        cases hshown
        exact Bool.noConfusion hcleanup
    · rintro directory ⟨⟩ kept ⟨⟩
      exact ⟨_, rfl, hrun.withApprovalBinding⟩
  | none =>
    obtain ⟨hscratch, shown, hshown, hcleanup⟩ := settleScratch_discarded invocation final hrecord
    rw [ExecutionOutcome.Accounted, hscratch]
    constructor
    · rintro directory ⟨⟩
      cases hleaves : host.discard.leaves with
      | false =>
        refine .inl ⟨rfl, fun hretained => ?_, fun hreported => ?_⟩
        · exact Bool.noConfusion hretained.1
        · exact Bool.noConfusion hreported.1
      | true =>
        refine .inr (.inr ⟨fun hgone => ?_, fun hretained => ?_, rfl, shown, hshown,
          hcleanup hleaves⟩)
        · exact Bool.noConfusion hgone
        · obtain ⟨-, record, hmem, -⟩ := hretained
          cases hmem
    · rintro directory ⟨⟩ record ⟨⟩

/-! ## The whole execution -/

variable {workspace : DeployedWorkspace} {random : List UInt8}

/-- An execution whose directory is made and verified goes on to run its command. -/
theorem executeInvocation_of_verified
    (hmade : ScratchMade host invocation config grant workspace random)
    (hverified : host.verified = some true) :
    executeInvocation crypto grants lib host invocation config =
      executeAllocated crypto grants lib host invocation grant workspace
        (allocatedScratch random config) (bytesToHexString random) config := by
  have hallocated : allocateScratch host config =
      .ok (allocatedScratch random config, bytesToHexString random) := by
    simp only [allocateScratch, hmade.random_eq, hmade.created, hverified, Bool.not_true,
      Bool.false_eq_true, if_false]
  simp only [executeInvocation, hmade.consumed, hmade.accepted, hmade.workspace_eq, hallocated,
    ne_eq, not_true_eq_false, if_false]

/-- A directory that is made and cannot be checked stays. -/
theorem allocateScratch_of_unchecked
    (hmade : ScratchMade host invocation config grant workspace random)
    (hverified : host.verified = none) :
    allocateScratch host config =
      .error (some ⟨allocatedScratch random config, true, none⟩) := by
  simp only [allocateScratch, hmade.random_eq, hmade.created, hverified, Bool.not_true,
    Bool.false_eq_true, if_false]

/-- A directory that is made and found wrong is discarded. -/
theorem allocateScratch_of_misplaced
    (hmade : ScratchMade host invocation config grant workspace random)
    (hverified : host.verified = some false) :
    allocateScratch host config =
      .error (some ⟨allocatedScratch random config, host.discard.leaves, none⟩) := by
  simp only [allocateScratch, hmade.random_eq, hmade.created, hverified, Bool.not_true,
    Bool.false_eq_true, if_false]

variable (crypto grants lib) in
/-- An execution whose directory is made and not verified ends with that directory. -/
theorem executeInvocation_of_unverified {directory : ScratchEnd}
    (hmade : ScratchMade host invocation config grant workspace random)
    (hallocated : allocateScratch host config = .error (some directory)) :
    (executeInvocation crypto grants lib host invocation config).scratch = some directory ∧
      (executeInvocation crypto grants lib host invocation config).receipt = none := by
  simp only [executeInvocation, hmade.consumed, hmade.accepted, hmade.workspace_eq, hallocated,
    ne_eq, not_true_eq_false, if_false]
  exact ⟨trivial, rfl⟩

/-- On each of its five exits the directory is there and no receipt says so. -/
theorem not_accounted_of_forgotten
    (h : ScratchForgotten crypto grants host invocation config) :
    ¬ (executeInvocation crypto grants lib host invocation config).Accounted lib
      config.config := by
  cases h with
  | @unchecked grant workspace random hmade hverified =>
    have hallocated := allocateScratch_of_unchecked hmade hverified
    obtain ⟨hscratch, hreceipt⟩ :=
      executeInvocation_of_unverified crypto grants lib hmade hallocated
    exact not_accounted_of_left _ hscratch rfl hreceipt
  | @misplaced grant workspace random hmade hverified hleaves =>
    have hallocated := allocateScratch_of_misplaced hmade hverified
    obtain ⟨hscratch, hreceipt⟩ :=
      executeInvocation_of_unverified crypto grants lib hmade hallocated
    exact not_accounted_of_left _ hscratch hleaves hreceipt
  | @unbound grant workspace random hmade hverified hbackend hbindings hleaves =>
    rw [executeInvocation_of_verified hmade hverified]
    apply not_accounted_of_left ⟨allocatedScratch random config, host.discard.leaves, none⟩ _
      hleaves
    · simp only [executeAllocated, runBackend, hbackend, hbindings]
      rfl
    · simp only [executeAllocated, runBackend, hbackend, hbindings]
  | @localRaised grant workspace random hmade hverified hbackend selected bindings hbindings
      hraised =>
    rw [executeInvocation_of_verified hmade hverified]
    rw [executionProfile] at hraised
    apply not_accounted_of_left ⟨allocatedScratch random config, true, none⟩ _ rfl
    · simp only [executeAllocated, runBackend, hbackend, hbindings, hraised]
      rfl
    · simp only [executeAllocated, runBackend, hbackend, hbindings, hraised]
  | @aenRaised grant workspace random hmade hverified hbackend trusted htrusted hraised =>
    rw [executeInvocation_of_verified hmade hverified]
    rw [executionProfile] at hraised
    apply not_accounted_of_left ⟨allocatedScratch random config, true, none⟩ _ rfl
    · simp only [executeAllocated, runBackend, hbackend, htrusted, hraised]
      rfl
    · simp only [executeAllocated, runBackend, hbackend, htrusted, hraised]

/-- A directory that is made and verified is forgotten, discarded before the command runs, or
settled with the receipt. -/
theorem executeAllocated_cases
    (hmade : ScratchMade host invocation config grant workspace random)
    (hverified : host.verified = some true) :
    (ScratchForgotten crypto grants host invocation config ∧
      ∃ directory ∈ (executeAllocated crypto grants lib host invocation grant workspace
          (allocatedScratch random config) (bytesToHexString random) config).scratch,
        directory.record = none) ∨
      (∃ directory ∈ (executeAllocated crypto grants lib host invocation grant workspace
          (allocatedScratch random config) (bytesToHexString random) config).scratch,
        directory.present = false ∧ directory.record = none) ∨
      ∃ profile scratch retentionId approvalDigest commandDigest receipt final,
        executeAllocated crypto grants lib host invocation grant workspace
            (allocatedScratch random config) (bytesToHexString random) config =
          settleScratch crypto lib host invocation grant profile scratch retentionId
            approvalDigest commandDigest receipt final config := by
  cases hbackend : grant.backend with
  | localOs =>
    cases hbindings : localBindings host grant config with
    | none =>
      cases hleaves : host.discard.leaves with
      | true =>
        refine .inl ⟨.unbound hmade hverified hbackend hbindings hleaves, ?_⟩
        simp only [executeAllocated, runBackend, hbackend, hbindings]
        exact ⟨_, rfl, rfl⟩
      | false =>
        refine .inr (.inl ?_)
        simp only [executeAllocated, runBackend, hbackend, hbindings, hleaves]
        exact ⟨_, rfl, rfl, rfl⟩
    | some bound =>
      obtain ⟨selected, bindings⟩ := bound
      cases hraised : host.runLocalSandbox
          (executionProfile crypto grants host invocation config grant workspace random)
          grant.command bindings grant.workingDirectory with
      | none =>
        refine .inl ⟨.localRaised hmade hverified hbackend selected bindings hbindings hraised, ?_⟩
        rw [executionProfile] at hraised
        simp only [executeAllocated, runBackend, hbackend, hbindings, hraised]
        exact ⟨_, rfl, rfl⟩
      | some receipt =>
        refine .inr (.inr ?_)
        rw [executionProfile] at hraised
        simp only [executeAllocated, runBackend, hbackend, hbindings, hraised]
        exact ⟨_, _, _, _, _, _, _, rfl⟩
  | microVm =>
    obtain ⟨trusted, htrusted⟩ :=
      exists_aenBackend (grantAccepted_of_validateGrant hmade.accepted) hbackend
    cases hraised : host.executeAenSandbox
        (executionProfile crypto grants host invocation config grant workspace random)
        grant.command (trustedAenExecutionConfig trusted grant.workspaceId)
        grant.workingDirectory with
    | none =>
      refine .inl ⟨.aenRaised hmade hverified hbackend trusted htrusted hraised, ?_⟩
      rw [executionProfile] at hraised
      simp only [executeAllocated, runBackend, hbackend, htrusted, hraised]
      exact ⟨_, rfl, rfl⟩
    | some receipt =>
      refine .inr (.inr ?_)
      rw [executionProfile] at hraised
      simp only [executeAllocated, runBackend, hbackend, htrusted, hraised]
      exact ⟨_, _, _, _, _, _, _, rfl⟩
  | unavailable =>
    refine .inr (.inr ?_)
    simp only [executeAllocated, runBackend, hbackend]
    exact ⟨_, _, _, _, _, _, _, rfl⟩

/-- A directory that is made is forgotten, discarded before the command runs, or settled with
the receipt. -/
theorem executeInvocation_cases_of_made
    (hmade : ScratchMade host invocation config grant workspace random) :
    (ScratchForgotten crypto grants host invocation config ∧
      ∃ directory ∈ (executeInvocation crypto grants lib host invocation config).scratch,
        directory.record = none) ∨
      (∃ directory ∈ (executeInvocation crypto grants lib host invocation config).scratch,
        directory.present = false ∧ directory.record = none) ∨
      ∃ profile scratch retentionId approvalDigest commandDigest receipt final,
        executeInvocation crypto grants lib host invocation config =
          settleScratch crypto lib host invocation grant profile scratch retentionId
            approvalDigest commandDigest receipt final config := by
  match hverified : host.verified with
  | none =>
    have hallocated := allocateScratch_of_unchecked hmade hverified
    have hscratch := (executeInvocation_of_unverified crypto grants lib hmade hallocated).1
    exact .inl ⟨.unchecked hmade hverified, _, hscratch, rfl⟩
  | some false =>
    have hallocated := allocateScratch_of_misplaced hmade hverified
    have hscratch := (executeInvocation_of_unverified crypto grants lib hmade hallocated).1
    cases hleaves : host.discard.leaves with
    | true => exact .inl ⟨.misplaced hmade hverified hleaves, _, hscratch, rfl⟩
    | false => exact .inr (.inl ⟨_, hscratch, hleaves, rfl⟩)
  | some true =>
    rw [executeInvocation_of_verified hmade hverified]
    exact executeAllocated_cases hmade hverified

variable (crypto grants lib host invocation config) in
/-- An execution makes no directory, forgets it, discards it before its command runs, or
reaches its last part. -/
theorem executeInvocation_cases :
    (executeInvocation crypto grants lib host invocation config).scratch = none ∨
      (ScratchForgotten crypto grants host invocation config ∧
        ∃ directory ∈ (executeInvocation crypto grants lib host invocation config).scratch,
          directory.record = none) ∨
      (∃ directory ∈ (executeInvocation crypto grants lib host invocation config).scratch,
        directory.present = false ∧ directory.record = none) ∨
      ∃ grant ∈ host.consumed, validateGrant host.now grant invocation config.config = "" ∧
        ∃ profile scratch retentionId approvalDigest commandDigest receipt final,
          executeInvocation crypto grants lib host invocation config =
            settleScratch crypto lib host invocation grant profile scratch retentionId
              approvalDigest commandDigest receipt final config := by
  cases hconsumed : host.consumed with
  | none =>
    left
    simp only [executeInvocation, hconsumed]
  | some grant =>
    by_cases haccepted : validateGrant host.now grant invocation config.config = ""
    · cases hworkspace : config.workspaces.lookup grant.workspaceId with
      | none =>
        left
        simp only [executeInvocation, hconsumed, haccepted, hworkspace, ne_eq, not_true_eq_false,
          if_false]
      | some workspace =>
        cases hrandom : host.random with
        | none =>
          left
          simp only [executeInvocation, hconsumed, haccepted, hworkspace, ne_eq, not_true_eq_false,
            if_false, allocateScratch, hrandom]
        | some random =>
          cases hcreated : host.created with
          | false =>
            left
            simp only [executeInvocation, hconsumed, haccepted, hworkspace, ne_eq,
              not_true_eq_false, if_false, allocateScratch, hrandom, hcreated, Bool.not_false,
              if_true]
          | true =>
            have hmade : ScratchMade host invocation config grant workspace random :=
              ⟨hconsumed, haccepted, hworkspace, hrandom, hcreated⟩
            rcases executeInvocation_cases_of_made hmade with hforgotten | hdiscarded | hsettled
            · exact .inr (.inl hforgotten)
            · exact .inr (.inr (.inl hdiscarded))
            · exact .inr (.inr (.inr ⟨grant, rfl, haccepted, hsettled⟩))
    · left
      simp only [executeInvocation, hconsumed, ne_eq, haccepted, not_false_eq_true, if_true]

/-- Every other exit settles the directory. -/
theorem accounted_of_not_forgotten
    (h : ¬ ScratchForgotten crypto grants host invocation config) :
    (executeInvocation crypto grants lib host invocation config).Accounted lib
      config.config := by
  rcases executeInvocation_cases crypto grants lib host invocation config with
    hnone | ⟨hforgotten, -⟩ | ⟨directory, hscratch, hgone, -⟩ |
    ⟨grant, -, haccepted, profile, scratch, retentionId, approvalDigest, commandDigest, receipt,
      final, hsettled⟩
  · apply accounted_of_deleted
    rw [hnone]
    rintro directory ⟨⟩
  · exact absurd hforgotten h
  · apply accounted_of_deleted
    rw [Option.mem_def.mp hscratch]
    rintro _ ⟨⟩
    exact hgone
  · rw [hsettled]
    exact (settleScratch_accounted (safeIdentifier_workspaceId haccepted)).1

variable (crypto grants lib host invocation config) in
/-- Only the directories of retainable runs are retained. -/
theorem executeInvocation_retainedOnly :
    (executeInvocation crypto grants lib host invocation config).RetainedOnly lib host config := by
  rcases executeInvocation_cases crypto grants lib host invocation config with
    hnone | ⟨-, directory, hscratch, hrecord⟩ | ⟨directory, hscratch, -, hrecord⟩ |
    ⟨grant, hconsumed, haccepted, profile, scratch, retentionId, approvalDigest, commandDigest,
      receipt, final, hsettled⟩
  · rw [ExecutionOutcome.RetainedOnly, hnone]
    rintro directory ⟨⟩
  · rw [ExecutionOutcome.RetainedOnly, Option.mem_def.mp hscratch]
    rintro _ ⟨⟩ record hmem
    rw [hrecord] at hmem
    cases hmem
  · rw [ExecutionOutcome.RetainedOnly, Option.mem_def.mp hscratch]
    rintro _ ⟨⟩ record hmem
    rw [hrecord] at hmem
    cases hmem
  · rw [ExecutionOutcome.RetainedOnly, hsettled]
    intro directory hdirectory record hrecord
    exact ⟨grant, hconsumed, (settleScratch_accounted (safeIdentifier_workspaceId haccepted)).2
      directory hdirectory record hrecord⟩

end

variable (crypto : Crypto) (grants : GrantLibrary σ) (lib : RetentionLibrary τ)
  (host : ExecutionHost) (invocation : SandboxInvocation) (config : Deployment)

/-- The scratch directory of an execution is accounted for exactly when the execution takes
none of the exits that forget it, and it is only ever retained for a run whose result may be
reviewed. -/
theorem scratch_accounted_iff :
    ((executeInvocation crypto grants lib host invocation config).Accounted lib config.config ∧
        (executeInvocation crypto grants lib host invocation config).RetainedOnly lib host
          config) ↔
      ¬ ScratchForgotten crypto grants host invocation config := by
  constructor
  · rintro ⟨haccounted, -⟩ hforgotten
    exact not_accounted_of_forgotten hforgotten haccounted
  · intro h
    exact ⟨accounted_of_not_forgotten h,
      executeInvocation_retainedOnly crypto grants lib host invocation config⟩

/-- A grant for the compiler of the sample deployment. -/
def sampleToolGrant : ExecutionGrant :=
  { sampleShellGrant "true" with
    allowedCommands := ["moon"]
    command := .exec "moon" ["check"] }

/-- A host on which the compiler has changed since the deployment was loaded, and the new
directory cannot be discarded. -/
def sampleToolHost : ExecutionHost where
  consumed := some sampleToolGrant
  now := 0
  random := some (List.replicate 16 0)
  created := true
  verified := some true
  discard := .refused true
  begin := ⟨true, 0, true⟩
  toolUnchanged _ := false
  runLocalSandbox _ _ _ _ := none
  executeAenSandbox _ _ _ _ := none
  finalize := ⟨false, false, false, none, ⟨none, none, none, 0, none⟩⟩
  finalRecord := ⟨true, 0, true⟩
  output := ⟨none, 0, ⟨none, none, none, 0, none⟩, ⟨true, none, 0, false⟩⟩
  retention := ⟨fun _ _ => none, fun _ _ => none, 0, false, false, false⟩

/-- The scratch directory of a refused execution is left behind, and nothing says so. -/
theorem scratch_unaccounted_sample :
    ¬ (executeInvocation Crypto.standard sampleLibrary sampleRetentionLibrary sampleToolHost
        ⟨3, "approval-1"⟩ sampleDeployment).Accounted sampleRetentionLibrary
        sampleDeployment.config :=
  not_accounted_of_forgotten (.unbound
    ⟨rfl, by decide, rfl, rfl, rfl⟩ rfl rfl rfl rfl)

end Moonfort.Executor
