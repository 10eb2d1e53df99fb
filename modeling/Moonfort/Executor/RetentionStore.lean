import Moonfort.Executor.FileStore
import Moonfort.Executor.Validation
import Moonfort.Sandbox.ArtifactPromotion

/-!
# The retention store

`promote_retention` and `sweep_expired_retentions` of `store.mbt`, with the claim,
rollback and restore steps of a promotion, as programs over the files of the
retention directory and the steps of the sandbox.
-/

namespace Moonfort.Executor

open Concurrent MoonBit Sandbox

/-- The names of the retention directory that the store uses. -/
inductive RetentionName where
  /-- `<retention_id>.json`. -/
  | available (retentionId : String)
  /-- `<retention_id>.promoting`. -/
  | promoting (retentionId : String)
  /-- `<retention_id>.claim`. -/
  | claim (retentionId : String)
  deriving DecidableEq

/-- One step of the executor on the retention directory or in the sandbox. -/
abbrev RetentionOp (τ : Type) := FileOp RetentionName τ SandboxOp

/-- The answers to the steps. -/
abbrev RetentionOp.Res {τ : Type} : RetentionOp τ → Type := FileOp.Res SandboxOp.Res

/-- A call on the retention store. -/
abbrev RetentionProgram (τ α : Type) := FileProgram RetentionName τ SandboxOp.Res α

/-- What the store calls and takes from its host: the JSON forms of records and
claims, the order of paths, SHA-256 and the process ID. -/
structure RetentionLibrary (τ : Type) where
  /-- The JSON form of a record. -/
  records : Codec τ RetentionRecord
  /-- The JSON form of a claim. -/
  claims : Codec τ PromotionClaim
  /-- `entries.sort_by_key(entry => entry.relative_path)`. -/
  sortedByPath : List ScratchEntry → List ScratchEntry
  /-- The digest of file contents. -/
  sha256 : List UInt8 → Digest
  /-- `getpid()`. -/
  pid : ℕ

variable {τ : Type}

/-! ## Records and claims -/

/-- The loop of `retention_manifest_is_valid`, with the paths seen and the bytes
counted so far. -/
def manifestEntriesValid (byteLimit : ℤ) : List String → ℤ → List ScratchEntry → Bool
  | _, _, [] => true
  | seen, total, entry :: rest =>
    entry.kind == .regularFile && scratchRelativePathIsSafe entry.relativePath &&
      !seen.contains entry.relativePath && 0 ≤ entry.sizeBytes &&
      sha256Digest entry.fingerprint && entry.sizeBytes ≤ byteLimit - total &&
      manifestEntriesValid byteLimit (entry.relativePath :: seen) (total + entry.sizeBytes) rest

/-- `retention_manifest_is_valid`. -/
def retentionManifestIsValid (lib : RetentionLibrary τ) (files : List ScratchEntry)
    (config : ExecutorConfig) : Bool :=
  !files.isEmpty && files.length ≤ config.limits.maxChangedPaths &&
    lib.sortedByPath files == files &&
    manifestEntriesValid (config.limits.maxDiskMib * 1048576) [] 0 files

/-- The scratch tree of a retention. -/
def scratchPathOf (config : ExecutorConfig) (retentionId : String) : String :=
  config.scratchRoot ++ "/" ++ retentionId

/-- The checks on a record that its uses share. -/
def recordIsConsistent (lib : RetentionLibrary τ) (record : RetentionRecord)
    (retentionId : String) (config : ExecutorConfig) : Bool :=
  record.retentionId == retentionId &&
    record.scratchPath == scratchPathOf config retentionId &&
    safeIdentifier record.workspaceId && sha256Digest record.profileDigest &&
    sha256Digest record.approvalDigest && sha256Digest record.commandDigest &&
    retentionManifestIsValid lib record.reviewableFiles config

/-- `claim_item_is_bound`. -/
def claimItemIsBound (lib : RetentionLibrary τ) (claim : PromotionClaim)
    (config : ExecutorConfig) : Bool :=
  claim.phase == "prepared" && claim.record.retentionId != "" &&
    safeIdentifier claim.record.retentionId &&
    recordIsConsistent lib claim.record claim.record.retentionId config &&
    scratchRelativePathIsSafe claim.item.sourceRelativePath &&
    scratchRelativePathIsSafe claim.item.destinationRelativePath &&
    0 ≤ claim.item.sizeBytes && sha256Digest claim.item.expectedSourceFingerprint &&
    (claim.record.reviewableFiles.any fun entry =>
      entry.kind == .regularFile && entry.relativePath == claim.item.sourceRelativePath &&
        entry.sizeBytes == claim.item.sizeBytes &&
        entry.fingerprint == claim.item.expectedSourceFingerprint) &&
    match claim.item.expectedDestinationState with
    | .reviewedDestinationAbsent => true
    | .reviewedDestinationRegular size fingerprint => 0 ≤ size && sha256Digest fingerprint

/-! ## Steps shared by the calls -/

/-- Run a program of the sandbox. -/
def inSandbox {α : Type} (p : SandboxProgram α) : RetentionProgram τ α :=
  ExceptT.mk ((p.run.embed FileOp.elsewhere fun _ result => result).bind fun outcome =>
    .ret (outcome.mapError fun _ => .external))

/-- `@fs.kind(path, follow_symlink=false) is Regular && protected_regular_file(path)`. -/
def protectedRegular (path : RetentionName) : RetentionProgram τ Bool := do
  let kind ← Fs.kind path
  if kind = .regular then Fs.protectedRegularFile path else pure false

/-- `@fs.exists(path) && @fs.kind(path, follow_symlink=false) is Regular`. -/
def existsRegular (path : RetentionName) : RetentionProgram τ Bool := do
  let present ← Fs.pathExists path
  if present then
    let kind ← Fs.kind path
    pure (kind = .regular)
  else pure false

/-- The last part of the check of `load_retention_record`: the record has not
expired, and its scratch tree is there. -/
def recordIsLive (record : RetentionRecord) : RetentionProgram τ Bool := do
  let now ← Fs.now
  if record.expiresAtMs ≤ now then pure false
  else
    let scratch ← inSandbox (realpath record.scratchPath)
    if scratch ≠ record.scratchPath then pure false
    else
      let scratchKind ← inSandbox (kind record.scratchPath)
      pure (scratchKind = .directory)

/-- `load_retention_record`. -/
def loadRetentionRecord (lib : RetentionLibrary τ) (retentionId : String)
    (config : ExecutorConfig) : RetentionProgram τ RetentionRecord := do
  Program.ensure (safeIdentifier retentionId) (.failed "invalid retention ID")
  let isProtected ← protectedRegular (.available retentionId)
  Program.ensure isProtected (.failed "retention record is unavailable")
  let text ← Fs.boundedRegularFile (.available retentionId) config.limits.maxProtocolBytes
  let record ← orRaise (lib.records.parse text)
  Program.ensure (recordIsConsistent lib record retentionId config)
    (.failed "retention record is expired or inconsistent")
  let live ← recordIsLive record
  Program.ensure live (.failed "retention record is expired or inconsistent")
  pure record

/-! ## Claims -/

/-- Whether `rollback_pre_rename_claim` proves that the rename has not happened. -/
def provenPreRename (retentionId : String) : RetentionProgram τ Bool := do
  let isProtected ← protectedRegular (.available retentionId)
  if isProtected then
    let renamed ← Fs.pathExists (.promoting retentionId)
    pure !renamed
  else pure false

/-- The removal in `rollback_pre_rename_claim`. -/
def removeClaim (retentionId : String) : RetentionProgram τ Bool := do
  let present ← Fs.pathExists (.claim retentionId)
  if present then
    let kind ← Fs.kind (.claim retentionId)
    if kind ≠ .regular then pure false
    else
      Fs.remove (.claim retentionId)
      Fs.sync
  else Fs.sync

/-- `rollback_pre_rename_claim`. -/
def rollbackPreRenameClaim (retentionId : String) : RetentionProgram τ Bool := do
  let proven ← tryCatch (provenPreRename retentionId) fun _ => pure false
  if !proven then pure false
  else tryCatch (removeClaim retentionId) fun _ => pure false

/-- Whether `claim_retention_for_promotion` can verify the claim it wrote. -/
def claimVerified (retentionId : String) : RetentionProgram τ Bool := do
  let isProtected ← protectedRegular (.claim retentionId)
  if isProtected then Fs.sync else pure false

/-- The part of `claim_retention_for_promotion` after the claim is written. -/
def lockRetention (retentionId : String) : RetentionProgram τ Unit := do
  let verified ← tryCatch (claimVerified retentionId) fun _ => pure false
  if !verified then
    let _ ← rollbackPreRenameClaim retentionId
    throw (.failed "claimed retention record could not be verified")
  else
    tryCatch (Fs.rename (.available retentionId) (.promoting retentionId)) fun _ => do
      let _ ← rollbackPreRenameClaim retentionId
      throw (.failed "retention could not be atomically claimed")
    let synced ← Fs.sync
    Program.ensure synced (.failed "promotion claim could not be durably committed")

/-- `claim_retention_for_promotion`. -/
def claimRetentionForPromotion (texts : Texts τ) (lib : RetentionLibrary τ)
    (record : RetentionRecord) (item : SandboxPromotionItem) (workspaceRoot : String)
    (config : ExecutorConfig) : RetentionProgram τ Unit := do
  match ← inSandbox (workspaceRootBindingDigest record.workspaceId workspaceRoot) with
  | none => throw (.failed "workspace root identity is unavailable")
  | some rootBinding =>
    let encoded := lib.claims.stringify ⟨record, item, "prepared", some rootBinding.hex⟩
    Program.ensure (texts.byteLength encoded ≤ config.limits.maxProtocolBytes)
      (.failed "promotion claim exceeds the protocol bound")
    tryCatch (Fs.writeFile (.claim record.retentionId) encoded) fun _ =>
      throw (.failed "retention is already being promoted or is unavailable")
    lockRetention record.retentionId

/-- `restore_claimed_retention`. -/
def restoreClaimedRetention (retentionId : String) : RetentionProgram τ Bool := do
  let restored ← tryCatch (do
    Fs.rename (.promoting retentionId) (.available retentionId)
    Fs.sync) fun _ => pure false
  if !restored then pure false
  else
    let removed ← tryCatch (do
      Fs.remove (.claim retentionId)
      pure true) fun _ => pure false
    if removed then Fs.sync else pure false

/-! ## Promotion -/

/-- The response to a promotion that is refused. -/
def refusedPromotion (retentionId message : String) : RetentionPromotionResponse where
  protocolVersion := 4
  retentionId := retentionId
  workspaceId := ""
  approvalDigest := ""
  commandDigest := ""
  promotedPaths := []
  destinationOutcome := "not-applied"
  uncertainPaths := []
  completed := false
  error := some ⟨"promotion-refused", message⟩

/-- The response to a promotion that was tried. -/
def triedPromotion (retentionId : String) (record : RetentionRecord)
    (promotedPaths : List String) (destinationOutcome : String) (uncertainPaths : List String)
    (error : Option ExecutorProtocolError) : RetentionPromotionResponse where
  protocolVersion := 4
  retentionId := retentionId
  workspaceId := record.workspaceId
  approvalDigest := record.approvalDigest
  commandDigest := record.commandDigest
  promotedPaths := promotedPaths
  destinationOutcome := destinationOutcome
  uncertainPaths := uncertainPaths
  completed := error.isNone
  error := error

/-- The records of a promotion are removed after its scratch tree. -/
def removeRecords (request : RetentionPromotionRequest) (record : RetentionRecord) :
    RetentionProgram τ Bool := do
  Fs.remove (.promoting record.retentionId)
  Fs.remove (.claim request.retentionId)
  Fs.sync

/-- The cleanup after an applied promotion. -/
def finishPromotion (request : RetentionPromotionRequest) (record : RetentionRecord)
    (promotedPaths : List String) : RetentionProgram τ RetentionPromotionResponse := do
  let scratchRemoved ← inSandbox (discardScratchTree record.scratchPath)
  let tried := triedPromotion request.retentionId record promotedPaths "applied-durable" []
  let unverified := tried
    (some ⟨"promotion-cleanup-unverified",
      "files were promoted but retention cleanup could not be verified"⟩)
  if !scratchRemoved then pure unverified
  else
    let recordsRemoved ← tryCatch (removeRecords request record) fun _ => pure false
    pure (if recordsRemoved then tried none else unverified)

/-- What follows a promotion that was not applied. -/
def undoPromotion (request : RetentionPromotionRequest) (record : RetentionRecord)
    (reason : SandboxPromotionRefusal) : RetentionProgram τ RetentionPromotionResponse := do
  let restored ← restoreClaimedRetention record.retentionId
  pure (if restored then refusedPromotion request.retentionId
      ("promotion apply failed before destination mutation: " ++ reason.code)
    else triedPromotion request.retentionId record [] "not-applied" []
        (some ⟨"promotion-recovery-required",
      "destination was not applied but the durable retention claim could not be restored"⟩))

/-- The part of `promote_retention` that is protected from cancellation. -/
def promotePlanned (texts : Texts τ) (lib : RetentionLibrary τ)
    (request : RetentionPromotionRequest) (record : RetentionRecord) (plan : SandboxPromotionPlan)
    (item : SandboxPromotionItem) (workspaceRoot : String) (config : ExecutorConfig) :
    RetentionProgram τ RetentionPromotionResponse := do
  let claimed ← tryCatch (do
    claimRetentionForPromotion texts lib record item workspaceRoot config
    pure true) fun _ => pure false
  if !claimed then
    pure (refusedPromotion request.retentionId
      "retention is already being promoted or unavailable")
  else
    match ← inSandbox (applySandboxPromotion lib.sha256 lib.pid record.scratchPath plan
      (config.limits.maxDiskMib * 1024 * 1024)) with
    | .appliedDurable promotedPaths => finishPromotion request record promotedPaths
    | .notApplied reason => undoPromotion request record reason
    | .recoveryRequired destinationPath nativeStatus =>
      pure (triedPromotion request.retentionId record [] "recovery-required" [destinationPath]
        (some ⟨"promotion-recovery-required", "destination outcome is uncertain for " ++
          destinationPath ++ "; retention remains locked (native status " ++
          toString nativeStatus ++ ")"⟩))

/-- The part of `promote_retention` after the record is loaded. -/
def promoteRecord (texts : Texts τ) (lib : RetentionLibrary τ)
    (request : RetentionPromotionRequest) (record : RetentionRecord) (workspace : WorkspacePolicy)
    (config : ExecutorConfig) : RetentionProgram τ RetentionPromotionResponse := do
  let refused := fun message => refusedPromotion request.retentionId message
  if record.approvalDigest ≠ request.approvalDigest ∨
      record.commandDigest ≠ request.commandDigest ∨
      record.workspaceId ≠ request.workspaceId then
    pure (refused "promotion digests do not match the retained execution")
  else
    match ← inSandbox (inventoryScratch record.scratchPath
      (config.limits.maxDiskMib * 1024 * 1024)) with
    | .error _ => pure (refused "retained scratch could not be safely inventoried")
    | .ok retained =>
      if !(record.reviewableFiles.all fun expected => retained.entries.contains expected) then
        pure (refused "retained review manifest no longer matches scratch")
      else
        let inventory := ScratchInventory.mk record.reviewableFiles
          (record.reviewableFiles.map (·.sizeBytes)).sum
        match ← inSandbox (planSandboxPromotion inventory workspace.root request.items) with
        | .error reason => pure (refused ("promotion planning failed: " ++ reason.code))
        | .ok plan =>
          match plan.items with
          | [item] => promotePlanned texts lib request record plan item workspace.root config
          | _ => pure (refused "promotion plan does not contain exactly one item")

/-- `promote_retention`. -/
def promoteRetention (texts : Texts τ) (lib : RetentionLibrary τ)
    (request : RetentionPromotionRequest) (config : ExecutorConfig) :
    RetentionProgram τ RetentionPromotionResponse := do
  let refused := fun message => refusedPromotion request.retentionId message
  if request.protocolVersion ≠ 4 ∨ !safeIdentifier request.workspaceId ∨ request.items.isEmpty ∨
      config.limits.maxChangedPaths < request.items.length then
    pure (refused "promotion request is invalid or exceeds deployment policy")
  else
    match config.workspaces.lookup request.workspaceId with
    | none => pure (refused "promotion names an unknown workspace")
    | some workspace =>
      let loaded ← tryCatch (do
        let record ← loadRetentionRecord lib request.retentionId config
        pure (some record)) fun _ => pure none
      match loaded with
      | none => pure (refused "retention is unavailable, expired, or invalid")
      | some record => promoteRecord texts lib request record workspace config

/-! ## Sweeping -/

/-- Whether `sweep_expired_retentions` finds the retention claimed. -/
def heldForPromotion (retentionId : String) : RetentionProgram τ Bool := do
  let promoting ← existsRegular (.promoting retentionId)
  if promoting then pure true else existsRegular (.claim retentionId)

/-- The record that `sweep_expired_retentions` reads, if it can. -/
def readSwept (lib : RetentionLibrary τ) (retentionId : String) (config : ExecutorConfig) :
    RetentionProgram τ (Option RetentionRecord) :=
  tryCatch (do
    let text ← Fs.boundedRegularFile (.available retentionId) config.limits.maxProtocolBytes
    let record ← orRaise (lib.records.parse text)
    pure (some record)) fun _ => pure none

/-- The round of `sweep_expired_retentions` for a record's name: whether it
removed the retention. -/
def sweepRetention (lib : RetentionLibrary τ) (retentionId : String) (now : ℤ)
    (config : ExecutorConfig) : RetentionProgram τ Bool := do
  if !safeIdentifier retentionId then pure false
  else
    let held ← heldForPromotion retentionId
    if held then pure false
    else
      match ← readSwept lib retentionId config with
      | none => pure false
      | some record =>
        if !recordIsConsistent lib record retentionId config ∨ now < record.expiresAtMs then
          pure false
        else
          let discarded ← inSandbox (discardScratchTree record.scratchPath)
          if !discarded then pure false
          else
            Fs.remove (.available retentionId)
            pure true

/-- The loop of `sweep_expired_retentions`. -/
def sweepNames (lib : RetentionLibrary τ) (now : ℤ) (config : ExecutorConfig) :
    List RetentionName → ℤ → RetentionProgram τ ℤ
  | [], removed => pure removed
  | .available retentionId :: rest, removed => do
    let swept ← sweepRetention lib retentionId now config
    sweepNames lib now config rest (if swept then removed + 1 else removed)
  | _ :: rest, removed => sweepNames lib now config rest removed

/-- `sweep_expired_retentions`. -/
def sweepExpiredRetentions (lib : RetentionLibrary τ) (config : ExecutorConfig) :
    RetentionProgram τ ℤ := do
  let now ← Fs.now
  let names ← Fs.readdir
  sweepNames lib now config names 0

/-! ## Inspection -/

/-- `load_locked_promotion_claim`, on a store that nobody changes meanwhile. -/
def loadLockedPromotionClaim (texts : Texts τ) (lib : RetentionLibrary τ)
    (files : RetentionName → Option τ) (retentionId : String) (config : ExecutorConfig) :
    Option PromotionClaim := do
  guard (safeIdentifier retentionId)
  guard (files (.available retentionId)).isNone
  let promoting ← files (.promoting retentionId)
  let claimText ← files (.claim retentionId)
  guard (0 < config.limits.maxProtocolBytes)
  guard ((texts.byteLength promoting : ℤ) ≤ config.limits.maxProtocolBytes)
  let record ← lib.records.parse promoting
  guard ((texts.byteLength claimText : ℤ) ≤ config.limits.maxProtocolBytes)
  let claim ← lib.claims.parse claimText
  guard (claim.record = record ∧ record.retentionId = retentionId ∧
    claimItemIsBound lib claim config = true)
  pure claim

/-! ## Calls on one store -/

/-- One call on the retention store. -/
inductive RetentionCall where
  | promote (request : RetentionPromotionRequest)
  | sweep

/-- How a call ends. -/
inductive RetentionOutcome where
  | promoted (outcome : Except Failure RetentionPromotionResponse)
  | swept (outcome : Except Failure ℤ)

/-- The program of a call. -/
def RetentionCall.program (texts : Texts τ) (lib : RetentionLibrary τ) (config : ExecutorConfig) :
    RetentionCall → Program (RetentionOp τ) RetentionOp.Res RetentionOutcome
  | promote request => (promoteRetention texts lib request config).run.bind (.ret ∘ .promoted)
  | sweep => (sweepExpiredRetentions lib config).run.bind (.ret ∘ .swept)

/-- The retention directory and what lies outside it. -/
abbrev RetentionState (ι τ S : Type) := FileState ι RetentionName τ S

/-- One step of a call on the retention store. -/
abbrev RetentionEvent (ι τ S : Type) :=
  Event ι (RetentionOp τ) RetentionOp.Res (RetentionState ι τ S)

/-- The retention directory and the steps that led to it. -/
abbrev RetentionHistory (ι τ S : Type) :=
  History ι (RetentionOp τ) RetentionOp.Res (RetentionState ι τ S)

/-- A run in progress. -/
abbrev RetentionConfig (ι τ S : Type) :=
  Config ι (RetentionOp τ) RetentionOp.Res (RetentionState ι τ S) RetentionOutcome

/-- The names of a store that only keeps records. -/
def retainedFiles {ι : Type} (retained : String → Option (Entry ι τ)) :
    RetentionName → Option (Entry ι τ)
  | .available retentionId => retained retentionId
  | _ => none

/-- The calls before any of them starts, on a store that keeps these records. -/
def retentionStart {ι S : Type} (texts : Texts τ) (lib : RetentionLibrary τ)
    (config : ExecutorConfig) (calls : ι → RetentionCall)
    (retained : String → Option (Entry ι τ)) (outside : S) : RetentionConfig ι τ S :=
  .start (.initial (retainedFiles retained) outside) fun i => (calls i).program texts lib config

end Moonfort.Executor
