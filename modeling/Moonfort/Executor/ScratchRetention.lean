import Moonfort.Executor.RetentionBrowser
import Moonfort.Sandbox.Receipt

/-!
# Retaining a scratch directory

`retain_execution_result` decides whether the scratch directory of a run is kept for
review, and `retain_scratch` writes the record under which it is kept. What the host
answers is a parameter; an error that the program catches is the answer `false` or
`none`.
-/

namespace Moonfort.Executor

open MoonBit Sandbox

variable {τ : Type}

/-- What the host answers while a scratch directory is retained. -/
structure RetentionReading where
  /-- `inventory_scratch`, of a root within a number of bytes. -/
  inventoryScratch : String → ℤ → Option ScratchInventory
  /-- `inspect_sandbox_destination`: the size and the fingerprint of a regular file. -/
  inspectDestination : String → String → Option (ℤ × String)
  now : ℤ
  /-- `prune_retention_directory` removes all that is not retained. -/
  pruned : Bool
  /-- The record is created and synchronized. -/
  written : Bool
  /-- The record is then a regular file. -/
  recordRegular : Bool

/-- The loop over the changes of a receipt: the regular files that it adds or modifies;
`none` when such a change has no entry. -/
def reviewableFiles : List ScratchDiffEntry → Option (List ScratchEntry)
  | [] => some []
  | change :: rest =>
    match change.change with
    | .removed => reviewableFiles rest
    | .added | .modified =>
      match change.after with
      | none => none
      | some entry =>
        (reviewableFiles rest).map fun files =>
          if entry.kind = .regularFile then entry :: files else files

/-- `aen_export_matches_receipt`. -/
def aenExportMatchesReceipt (lib : RetentionLibrary τ) (host : RetentionReading)
    (receipt : SandboxReceipt) (scratch : String) (config : Deployment) : Bool :=
  match reviewableFiles receipt.changes with
  | none => false
  | some files =>
    let expected := lib.sortedByPath files
    if !(!expected.isEmpty &&
        sortStrings receipt.artifacts == sortStrings (files.map (·.relativePath))) then false
    else
      match host.inventoryScratch scratch (config.limits.maxDiskMib * 1048576) with
      | none => false
      | some inventory =>
        inventory.entries.filter (·.kind == .regularFile) == expected &&
          inventory.entries.all fun entry =>
            entry.kind == .directoryEntry || expected.contains entry

/-- `RetentionRecord::to_json`. -/
def RetentionRecord.toJson (record : RetentionRecord) : Json :=
  .object [("retention_id", .string record.retentionId),
    ("scratch_path", .string record.scratchPath),
    ("expires_at_ms", .string (intText record.expiresAtMs)),
    ("workspace_id", .string record.workspaceId),
    ("profile_digest", .string record.profileDigest),
    ("approval_digest", .string record.approvalDigest),
    ("command_digest", .string record.commandDigest),
    ("reviewable_files", .array (record.reviewableFiles.map scratchEntryJson))]

/-- `retain_scratch`: the record that is in place when the call answers `true`. -/
def retainScratch (lib : RetentionLibrary τ) (host : RetentionReading)
    (scratch retentionId workspaceId profileDigest approvalDigest commandDigest : String)
    (files : List ScratchEntry) (config : Deployment) : Option RetentionRecord :=
  if !(safeIdentifier retentionId && retentionWindowIsValid config.limits.retentionMs &&
      sha256Digest profileDigest && sha256Digest approvalDigest && sha256Digest commandDigest &&
      scratch == scratchPathOf config.config retentionId) then none
  else
    let manifest := lib.sortedByPath files
    if !retentionManifestIsValid lib manifest config.config then none
    else if !(manifest.all fun expected =>
        host.inspectDestination scratch expected.relativePath ==
          some (expected.sizeBytes, expected.fingerprint)) then none
    else if ¬ (0 ≤ host.now ∧ config.limits.retentionMs ≤ 9223372036854775807 - host.now) then none
    else
      let record : RetentionRecord :=
        { retentionId := retentionId
          scratchPath := scratch
          expiresAtMs := host.now + config.limits.retentionMs
          workspaceId := workspaceId
          profileDigest := profileDigest
          approvalDigest := approvalDigest
          commandDigest := commandDigest
          reviewableFiles := manifest }
      if !((utf8Length record.toJson.stringify : ℤ) ≤ config.limits.maxProtocolBytes) then none
      else if host.pruned && host.written && host.recordRegular then some record
      else none

/-- `retain_execution_result`. -/
def retainExecutionResult (lib : RetentionLibrary τ) (host : RetentionReading)
    (backend : SandboxBackendKind) (receipt : SandboxReceipt)
    (scratch retentionId workspaceId profileDigest approvalDigest commandDigest : String)
    (config : Deployment) : Option RetentionRecord :=
  match reviewableFiles receipt.changes with
  | none => none
  | some files =>
    let withinPathLimit := !receipt.changedPaths.isEmpty &&
      decide ((receipt.changedPaths.length : ℤ) ≤ config.limits.maxChangedPaths)
    let retainLocal := backend == .localOs && receipt.status == .exited &&
      receipt.enforcement == .degraded && withinPathLimit
    let retainAen := backend == .microVm && receipt.status == .exited &&
      receipt.enforcement == .enforced && receipt.cleanupVerified && withinPathLimit &&
      aenExportMatchesReceipt lib host receipt scratch config
    if !(retainLocal || retainAen) then none
    else
      retainScratch lib host scratch retentionId workspaceId profileDigest approvalDigest
        commandDigest files config

/-! ## What is retained -/

/-- The regular files of a scratch directory are those that a receipt reports as added or
modified, and it holds nothing else but directories. -/
structure ExportMatches (lib : RetentionLibrary τ) (entries : List ScratchEntry)
    (receipt : SandboxReceipt) : Prop where
  files : ∃ files, reviewableFiles receipt.changes = some files ∧
    entries.filter (·.kind == .regularFile) = lib.sortedByPath files ∧
    lib.sortedByPath files ≠ [] ∧ receipt.artifacts.Perm (files.map (·.relativePath))
  others : ∀ entry ∈ entries, entry.kind = .directoryEntry ∨ entry.kind = .regularFile

/-- The runs whose scratch directory may be retained. -/
inductive RetainableRun (lib : RetentionLibrary τ) (host : RetentionReading)
    (receipt : SandboxReceipt) (scratch : String) (config : Deployment) :
    SandboxBackendKind → Prop
  | local (hstatus : receipt.status = .exited) (henforcement : receipt.enforcement = .degraded) :
      RetainableRun lib host receipt scratch config .localOs
  | microVm (inventory : ScratchInventory) (hstatus : receipt.status = .exited)
      (henforcement : receipt.enforcement = .enforced) (hcleanup : receipt.cleanupVerified = true)
      (hinventory : host.inventoryScratch scratch (config.limits.maxDiskMib * 1048576) =
        some inventory)
      (hmatches : ExportMatches lib inventory.entries receipt) :
      RetainableRun lib host receipt scratch config .microVm

section

variable {lib : RetentionLibrary τ} {host : RetentionReading} {receipt : SandboxReceipt}
  {scratch retentionId workspaceId profileDigest approvalDigest commandDigest : String}
  {config : Deployment}

/-- An export that the executor takes for matching matches the receipt. -/
theorem exportMatches_of_aenExportMatchesReceipt
    (h : aenExportMatchesReceipt lib host receipt scratch config = true) :
    ∃ inventory, host.inventoryScratch scratch (config.limits.maxDiskMib * 1048576) =
      some inventory ∧ ExportMatches lib inventory.entries receipt := by
  unfold aenExportMatchesReceipt at h
  split at h
  next => cases h
  next files hfiles =>
    dsimp only at h
    split at h
    next => cases h
    next hguard =>
      split at h
      next => cases h
      next inventory hinventory =>
        simp only [Bool.not_eq_true', Bool.not_eq_false, Bool.and_eq_true, beq_iff_eq,
          List.isEmpty_eq_false_iff] at hguard
        simp only [Bool.and_eq_true, beq_iff_eq, List.all_eq_true, Bool.or_eq_true,
          List.contains_iff_mem] at h
        obtain ⟨hnonempty, hartifacts⟩ := hguard
        obtain ⟨hregular, hall⟩ := h
        refine ⟨inventory, hinventory, ⟨files, hfiles, hregular, hnonempty, ?_⟩, ?_⟩
        · have hleft := sortStrings_perm receipt.artifacts
          rw [hartifacts] at hleft
          exact hleft.symm.trans (sortStrings_perm _)
        · intro entry hentry
          rcases hall entry hentry with hdirectory | hexpected
          · exact .inl hdirectory
          · rw [← hregular, List.mem_filter, beq_iff_eq] at hexpected
            exact .inr hexpected.2

/-- A record that `retain_scratch` writes is the one it is asked for, and the store will
accept it. -/
theorem retainScratch_eq_some {files : List ScratchEntry} {record : RetentionRecord}
    (h : retainScratch lib host scratch retentionId workspaceId profileDigest approvalDigest
      commandDigest files config = some record) (hworkspace : safeIdentifier workspaceId = true) :
    record.retentionId = retentionId ∧ record.scratchPath = scratch ∧
      recordIsConsistent lib record retentionId config.config = true := by
  unfold retainScratch at h
  split at h
  next => cases h
  next hguard =>
    dsimp only at h
    split at h
    next => cases h
    next hmanifest =>
      repeat' split at h
      all_goals cases h
      simp only [Bool.not_eq_true', Bool.not_eq_false, Bool.and_eq_true, beq_iff_eq] at hguard
      rw [Bool.not_eq_true', Bool.not_eq_false] at hmanifest
      obtain ⟨⟨⟨⟨⟨-, -⟩, hprofile⟩, happroval⟩, hcommand⟩, hscratch⟩ := hguard
      refine ⟨rfl, rfl, ?_⟩
      simp only [recordIsConsistent, Bool.and_eq_true, beq_iff_eq]
      exact ⟨⟨⟨⟨⟨⟨trivial, hscratch⟩, hworkspace⟩, hprofile⟩, happroval⟩, hcommand⟩, hmanifest⟩

/-- Only the scratch directories of retainable runs are retained. -/
theorem retainExecutionResult_eq_some {backend : SandboxBackendKind} {record : RetentionRecord}
    (h : retainExecutionResult lib host backend receipt scratch retentionId workspaceId
      profileDigest approvalDigest commandDigest config = some record)
    (hworkspace : safeIdentifier workspaceId = true) :
    RetainableRun lib host receipt scratch config backend ∧
      (receipt.changedPaths.length : ℤ) ≤ config.limits.maxChangedPaths ∧
      record.retentionId = retentionId ∧ record.scratchPath = scratch ∧
      recordIsConsistent lib record retentionId config.config = true := by
  unfold retainExecutionResult at h
  split at h
  next => cases h
  next files hfiles =>
    dsimp only at h
    split at h
    next => cases h
    next hrun =>
      have hrecord := retainScratch_eq_some h hworkspace
      simp only [Bool.not_eq_true', Bool.not_eq_false, Bool.or_eq_true, Bool.and_eq_true,
        beq_iff_eq, decide_eq_true_eq] at hrun
      rcases hrun with ⟨⟨⟨hbackend, hstatus⟩, henforcement⟩, -, hlimit⟩ |
        ⟨⟨⟨⟨⟨hbackend, hstatus⟩, henforcement⟩, hcleanup⟩, -, hlimit⟩, hexport⟩
      · rw [hbackend]
        exact ⟨.local hstatus henforcement, hlimit, hrecord⟩
      · obtain ⟨inventory, hinventory, hmatches⟩ := exportMatches_of_aenExportMatchesReceipt hexport
        rw [hbackend]
        exact ⟨.microVm inventory hstatus henforcement hcleanup hinventory hmatches, hlimit,
          hrecord⟩

end

end Moonfort.Executor
