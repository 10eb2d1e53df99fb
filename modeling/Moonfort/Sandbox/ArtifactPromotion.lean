import Moonfort.Sandbox.NativePromotion

/-!
# Artifact promotion

`artifact_promotion.mbt`: planning a promotion of one retained file and applying
it, over the steps the sandbox takes in the file system. The native routine is
part of it call by call; scanning a scratch tree is one step.
-/

namespace Moonfort.Sandbox

open Concurrent MoonBit

/-- An error that a step raises, with its text and whether it is a cancellation. -/
structure SandboxError where
  text : String
  cancelled : Bool

/-- `SecureDestinationState`. -/
inductive SecureDestinationState where
  | absent
  | regular (sizeBytes : ℕ) (fingerprint : Digest)
  | error (status : ℤ)

/-- One step of the sandbox. -/
inductive SandboxOp where
  /-- `@fs.realpath(path)`. -/
  | realpath (path : String)
  /-- `@fs.kind(path, follow_symlink=false)`. -/
  | kind (path : String)
  /-- `@fs.readdir(path)`. -/
  | readdir (path : String)
  /-- `inventory_scratch`: the refusal's code, or the inventory. -/
  | inventoryScratch (scratchRoot : String) (diskLimitBytes : ℤ)
  /-- `secure_destination_state`. -/
  | secureDestinationState (destinationRoot destinationPath : String)
  /-- A system call of `moonfort_secure_promote_regular`. -/
  | native (op : NativeOp)
  /-- `directory_identity`, hashed with the workspace and its root. -/
  | workspaceRootBindingDigest (workspaceId workspaceRoot : String)
  /-- `moonfort_secure_discard_tree` opens a tree that has this many entries. -/
  | openTree (path : String)
  /-- It removes one of them. -/
  | removeEntry (path : String)

/-- The answers to the steps. -/
@[reducible] def SandboxOp.Res : SandboxOp → Type
  | realpath _ => Except SandboxError String
  | kind _ => Except SandboxError FileKind
  | readdir _ => Except SandboxError (List String)
  | inventoryScratch _ _ => Except SandboxError (Except String ScratchInventory)
  | secureDestinationState _ _ => SecureDestinationState
  | native op => op.Res
  | workspaceRootBindingDigest _ _ => Option Digest
  | openTree _ => Option ℕ
  | removeEntry _ => Bool

/-- A program of the sandbox. -/
abbrev SandboxProgram (α : Type) := Program.Raising SandboxOp SandboxOp.Res SandboxError α

/-- `SandboxPromotionPlan`. -/
structure SandboxPromotionPlan where
  destinationRoot : String
  items : List SandboxPromotionItem

/-- `SandboxPromotionRefusal`. -/
inductive SandboxPromotionRefusal where
  | emptyPromotionPlan
  | multiplePromotionItems (count : ℕ)
  | unsafeSourcePath (path : String)
  | unsafeDestinationPath (path : String)
  | sourceNotFound (path : String)
  | sourceNotRegularFile (path : String) (kind : ScratchEntryKind)
  | duplicateDestinationPath (path : String)
  | destinationRootNotCanonical (expected actual : String)
  | destinationRootInvalid (path : String)
  | destinationSymlink (path : String)
  | destinationParentNotDirectory (path : String)
  | destinationIsDirectory (path : String)
  | destinationUnsupported (path kind : String)
  | destinationStateChanged (path : String)
  | sourceFingerprintMismatch (path : String)
  | destinationIo (text : String)

/-- `SandboxPromotionRefusal::code`. -/
def SandboxPromotionRefusal.code : SandboxPromotionRefusal → String
  | emptyPromotionPlan => "empty-promotion-plan"
  | multiplePromotionItems _ => "multiple-promotion-items"
  | unsafeSourcePath _ => "unsafe-source-path"
  | unsafeDestinationPath _ => "unsafe-destination-path"
  | sourceNotFound _ => "source-not-found"
  | sourceNotRegularFile _ _ => "source-not-regular-file"
  | duplicateDestinationPath _ => "duplicate-destination-path"
  | destinationRootNotCanonical _ _ => "destination-root-not-canonical"
  | destinationRootInvalid _ => "destination-root-invalid"
  | destinationSymlink _ => "destination-symlink"
  | destinationParentNotDirectory _ => "destination-parent-not-directory"
  | destinationIsDirectory _ => "destination-is-directory"
  | destinationUnsupported _ _ => "destination-unsupported"
  | destinationStateChanged _ => "destination-state-changed"
  | sourceFingerprintMismatch _ => "source-fingerprint-mismatch"
  | destinationIo _ => "destination-io"

/-- `SandboxPromotionOutcome`. -/
inductive SandboxPromotionOutcome where
  | appliedDurable (promotedPaths : List String)
  | notApplied (reason : SandboxPromotionRefusal)
  | recoveryRequired (destinationPath : String) (nativeStatus : ℤ)

/-- `secure_fs_status_code`. -/
def secureFsStatusCode (status : ℤ) : String :=
  if status = 0 then "ok"
  else if status = 1 then "invalid-path"
  else if status = 2 then "source-changed-or-unsafe"
  else if status = 3 then "destination-changed-or-unsafe"
  else if status = 4 then "io"
  else if status = 5 then "unsupported-entry"
  else "native-protocol"

/-- `promotion_outcome_from_native_status`. -/
def promotionOutcomeFromNativeStatus (item : SandboxPromotionItem) (status : ℤ) :
    SandboxPromotionOutcome :=
  if status = 0 then .appliedDurable [item.destinationRelativePath]
  else if status = 1 ∨ status = 3 then
    .notApplied (.destinationStateChanged item.destinationRelativePath)
  else if status = 2 then .notApplied (.sourceFingerprintMismatch item.sourceRelativePath)
  else if status = 4 then .recoveryRequired item.destinationRelativePath status
  else if status = 5 then .notApplied (.destinationIo (secureFsStatusCode status))
  else .recoveryRequired item.destinationRelativePath status

/-! ## Steps -/

/-- The result of a step that may have raised. -/
def orThrow {α : Type} : Except SandboxError α → SandboxProgram α
  | .ok value => pure value
  | .error error => throw error

/-- `@fs.realpath(path)`. -/
def realpath (path : String) : SandboxProgram String :=
  Program.attempt (SandboxOp.realpath path) >>= orThrow

/-- `@fs.kind(path, follow_symlink=false)`. -/
def kind (path : String) : SandboxProgram FileKind :=
  Program.attempt (SandboxOp.kind path) >>= orThrow

/-- `@fs.readdir(path)`. -/
def readdir (path : String) : SandboxProgram (List String) :=
  Program.attempt (SandboxOp.readdir path) >>= orThrow

/-- `inventory_scratch`. -/
def inventoryScratch (scratchRoot : String) (diskLimitBytes : ℤ) :
    SandboxProgram (Except String ScratchInventory) :=
  Program.attempt (SandboxOp.inventoryScratch scratchRoot diskLimitBytes) >>= orThrow

/-- `secure_destination_state`. -/
def secureDestinationState (destinationRoot destinationPath : String) :
    SandboxProgram SecureDestinationState :=
  Program.attempt (SandboxOp.secureDestinationState destinationRoot destinationPath)

/-- `workspace_root_binding_digest`. -/
def workspaceRootBindingDigest (workspaceId workspaceRoot : String) :
    SandboxProgram (Option Digest) :=
  Program.attempt (SandboxOp.workspaceRootBindingDigest workspaceId workspaceRoot)

/-- The removal of the entries of an open tree. -/
def removeEntries (path : String) : ℕ → SandboxProgram Bool
  | 0 => pure true
  | entries + 1 => do
    let removed ← Program.attempt (SandboxOp.removeEntry path)
    if removed then removeEntries path entries else pure false

/-- `discard_scratch_tree`: whether the whole tree was removed. -/
def discardScratchTree (scratchRoot : String) : SandboxProgram Bool := do
  if !pathIsCanonicalAbsolute scratchRoot then pure false
  else
    match ← Program.attempt (SandboxOp.openTree scratchRoot) with
    | none => pure false
    | some entries => removeEntries scratchRoot entries

/-! ## Planning -/

/-- `find_scratch_entry`. -/
def findScratchEntry (inventory : ScratchInventory) (relativePath : String) :
    Option ScratchEntry :=
  inventory.entries.find? fun entry => entry.relativePath == relativePath

/-- The loop of `validate_destination_confinement` over the path components. -/
def confineComponents (destinationPath : String) :
    String → List String → SandboxProgram (Option SandboxPromotionRefusal)
  | _, [] => pure none
  | current, component :: rest => do
    let names ← readdir current
    if !names.contains component then
      pure (if rest.isEmpty then none else some (.destinationParentNotDirectory destinationPath))
    else
      match ← kind (current ++ "/" ++ component) with
      | .symLink => pure (some (.destinationSymlink destinationPath))
      | .directory =>
        if rest.isEmpty then pure (some (.destinationIsDirectory destinationPath))
        else confineComponents destinationPath (current ++ "/" ++ component) rest
      | .regular =>
        if rest.isEmpty then pure none
        else pure (some (.destinationParentNotDirectory destinationPath))
      | other => pure (some (.destinationUnsupported destinationPath (fsKindLabel other)))

/-- `validate_destination_confinement`. -/
def validateDestinationConfinement (destinationRoot destinationPath : String) :
    SandboxProgram (Option SandboxPromotionRefusal) :=
  confineComponents destinationPath destinationRoot (splitPath destinationPath)

/-- The item of a plan, from what the review finds at the destination. -/
def reviewItem (destinationRoot : String) (request : SandboxPromotionRequest)
    (source : ScratchEntry) :
    SandboxProgram (Except SandboxPromotionRefusal SandboxPromotionPlan) := do
  let item := SandboxPromotionItem.mk request.artifactPath request.destinationPath
    source.fingerprint source.sizeBytes
  match ← secureDestinationState destinationRoot request.destinationPath with
  | .absent => pure (.ok ⟨destinationRoot, [item .reviewedDestinationAbsent]⟩)
  | .regular size digest =>
    pure (.ok ⟨destinationRoot, [item (.reviewedDestinationRegular size digest.hex)]⟩)
  | .error status =>
    pure (.error (.destinationIo ("destination-review-" ++ secureFsStatusCode status)))

/-- The round of the loop of `plan_sandbox_promotion`, which is its only one. -/
def planItem (inventory : ScratchInventory) (destinationRoot : String)
    (request : SandboxPromotionRequest) :
    SandboxProgram (Except SandboxPromotionRefusal SandboxPromotionPlan) := do
  if !scratchRelativePathIsSafe request.artifactPath then
    pure (.error (.unsafeSourcePath request.artifactPath))
  else if !scratchRelativePathIsSafe request.destinationPath then
    pure (.error (.unsafeDestinationPath request.destinationPath))
  else
    match findScratchEntry inventory request.artifactPath with
    | none => pure (.error (.sourceNotFound request.artifactPath))
    | some source =>
      if source.kind ≠ .regularFile then
        pure (.error (.sourceNotRegularFile request.artifactPath source.kind))
      else
        match ← validateDestinationConfinement destinationRoot request.destinationPath with
        | some reason => pure (.error reason)
        | none => reviewItem destinationRoot request source

/-- The `try` block of `plan_sandbox_promotion`. -/
def planWithin (inventory : ScratchInventory) (destinationRoot : String)
    (request : SandboxPromotionRequest) :
    SandboxProgram (Except SandboxPromotionRefusal SandboxPromotionPlan) := do
  let actualRoot ← realpath destinationRoot
  if actualRoot ≠ destinationRoot then
    pure (.error (.destinationRootNotCanonical destinationRoot actualRoot))
  else
    let rootKind ← kind destinationRoot
    if rootKind ≠ .directory then pure (.error (.destinationRootInvalid destinationRoot))
    else planItem inventory destinationRoot request

/-- `plan_sandbox_promotion`. -/
def planSandboxPromotion (inventory : ScratchInventory) (destinationRoot : String)
    (requests : List SandboxPromotionRequest) :
    SandboxProgram (Except SandboxPromotionRefusal SandboxPromotionPlan) :=
  match requests with
  | [] => pure (.error .emptyPromotionPlan)
  | [request] =>
    if !pathIsCanonicalAbsolute destinationRoot then
      pure (.error (.destinationRootInvalid destinationRoot))
    else
      tryCatch (planWithin inventory destinationRoot request) fun error =>
        if error.cancelled then throw error else pure (.error (.destinationIo error.text))
  | requests => pure (.error (.multiplePromotionItems requests.length))

/-! ## Applying -/

/-- The arguments of the native routine for an item. -/
def nativePromotion (scratchRoot destinationRoot : String) (item : SandboxPromotionItem) :
    NativePromotion where
  sourceRoot := scratchRoot
  sourcePath := item.sourceRelativePath
  destinationRoot := destinationRoot
  destinationPath := item.destinationRelativePath
  expectedSize := item.sizeBytes
  expectedFingerprint := item.expectedSourceFingerprint
  expectedDestinationKind :=
    match item.expectedDestinationState with
    | .reviewedDestinationAbsent => 0
    | .reviewedDestinationRegular _ _ => 1
  expectedDestinationSize :=
    match item.expectedDestinationState with
    | .reviewedDestinationAbsent => 0
    | .reviewedDestinationRegular size _ => size
  expectedDestinationFingerprint :=
    match item.expectedDestinationState with
    | .reviewedDestinationAbsent => ""
    | .reviewedDestinationRegular _ fingerprint => fingerprint

/-- `secure_promote_regular`. -/
def securePromote (sha256 : List UInt8 → Digest) (pid : ℕ) (p : NativePromotion) :
    SandboxProgram ℤ :=
  ExceptT.lift ((securePromoteRegular sha256 pid p).embed SandboxOp.native fun _ result => result)

/-- The part of `apply_sandbox_promotion` after the source is found unchanged. -/
def applyItem (sha256 : List UInt8 → Digest) (pid : ℕ) (scratchRoot : String)
    (plan : SandboxPromotionPlan) (item : SandboxPromotionItem) :
    SandboxProgram SandboxPromotionOutcome := do
  match ← validateDestinationConfinement plan.destinationRoot item.destinationRelativePath with
  | some reason => pure (.notApplied reason)
  | none =>
    let status ← securePromote sha256 pid (nativePromotion scratchRoot plan.destinationRoot item)
    pure (promotionOutcomeFromNativeStatus item status)

/-- The `try` block of `apply_sandbox_promotion`, for its only item. -/
def applyWithin (sha256 : List UInt8 → Digest) (pid : ℕ) (scratchRoot : String)
    (plan : SandboxPromotionPlan) (item : SandboxPromotionItem) (diskLimitBytes : ℤ) :
    SandboxProgram SandboxPromotionOutcome := do
  let actualScratch ← realpath scratchRoot
  if actualScratch ≠ scratchRoot then
    pure (.notApplied (.destinationRootInvalid plan.destinationRoot))
  else
    let actualRoot ← realpath plan.destinationRoot
    if actualRoot ≠ plan.destinationRoot then
      pure (.notApplied (.destinationRootInvalid plan.destinationRoot))
    else
      match ← inventoryScratch scratchRoot diskLimitBytes with
      | .error code => pure (.notApplied (.destinationIo code))
      | .ok current =>
        match findScratchEntry current item.sourceRelativePath with
        | none => pure (.notApplied (.sourceNotFound item.sourceRelativePath))
        | some entry =>
          if entry.kind ≠ .regularFile ∨ entry.fingerprint ≠ item.expectedSourceFingerprint ∨
              entry.sizeBytes ≠ item.sizeBytes then
            pure (.notApplied (.sourceFingerprintMismatch item.sourceRelativePath))
          else applyItem sha256 pid scratchRoot plan item

/-- `apply_sandbox_promotion`. -/
def applySandboxPromotion (sha256 : List UInt8 → Digest) (pid : ℕ) (scratchRoot : String)
    (plan : SandboxPromotionPlan) (diskLimitBytes : ℤ) : SandboxProgram SandboxPromotionOutcome :=
  match plan.items with
  | [] => pure (.notApplied .emptyPromotionPlan)
  | [item] =>
    tryCatch (applyWithin sha256 pid scratchRoot plan item diskLimitBytes) fun error =>
      if error.cancelled then throw error else pure (.notApplied (.destinationIo error.text))
  | items => pure (.notApplied (.multiplePromotionItems items.length))

/-! ## What a plan contains -/

/-- An item of a plan names a retained regular file and a reviewed destination. -/
structure PlannedFrom (inventory : ScratchInventory) (item : SandboxPromotionItem) : Prop where
  source : ∃ entry ∈ inventory.entries, entry.kind = .regularFile ∧
    entry.relativePath = item.sourceRelativePath ∧ entry.sizeBytes = item.sizeBytes ∧
    entry.fingerprint = item.expectedSourceFingerprint
  sourceSafe : scratchRelativePathIsSafe item.sourceRelativePath = true
  destinationSafe : scratchRelativePathIsSafe item.destinationRelativePath = true
  reviewed : ∀ size fingerprint,
    item.expectedDestinationState = .reviewedDestinationRegular size fingerprint →
      0 ≤ size ∧ sha256Digest fingerprint = true

/-- What a plan that is made contains. -/
def PlanSound (inventory : ScratchInventory) :
    Except SandboxPromotionRefusal SandboxPromotionPlan → Prop
  | .ok plan => ∀ item ∈ plan.items, PlannedFrom inventory item
  | .error _ => True

/-- The review of a retained regular file. -/
theorem reviewItem_returns {inventory : ScratchInventory} {destinationRoot : String}
    {request : SandboxPromotionRequest} {source : ScratchEntry}
    (hsafe : scratchRelativePathIsSafe request.artifactPath = true)
    (hdestination : scratchRelativePathIsSafe request.destinationPath = true)
    (hfind : findScratchEntry inventory request.artifactPath = some source)
    (hkind : source.kind = .regularFile) :
    Program.Returns (reviewItem destinationRoot request source) (PlanSound inventory) := by
  have hmem := List.mem_of_find?_eq_some hfind
  have hpath : source.relativePath = request.artifactPath := by
    simpa using List.find?_some hfind
  have hplanned {state : SandboxPromotionDestinationState}
      (hstate : ∀ size fingerprint, state = .reviewedDestinationRegular size fingerprint →
        0 ≤ size ∧ sha256Digest fingerprint = true) :
      PlanSound inventory (.ok ⟨destinationRoot, [⟨request.artifactPath, request.destinationPath,
        source.fingerprint, source.sizeBytes, state⟩]⟩) := by
    intro item hitem
    obtain rfl := List.mem_singleton.mp hitem
    exact ⟨⟨source, hmem, hkind, hpath, rfl, rfl⟩, hsafe, hdestination, hstate⟩
  refine Program.returns_bind fun state => ?_
  cases state with
  | absent => exact hplanned nofun
  | regular size digest =>
    refine hplanned fun size' fingerprint hstate => ?_
    cases hstate
    exact ⟨Int.natCast_nonneg size, digest.valid⟩
  | error status => trivial

/-- Every plan promotes a retained regular file to a reviewed destination. -/
theorem planSandboxPromotion_returns (inventory : ScratchInventory) (destinationRoot : String)
    (requests : List SandboxPromotionRequest) :
    Program.Returns (planSandboxPromotion inventory destinationRoot requests)
      (PlanSound inventory) := by
  have hitem (request : SandboxPromotionRequest) :
      Program.Returns (planItem inventory destinationRoot request) (PlanSound inventory) := by
    unfold planItem
    split
    · trivial
    split
    · trivial
    split
    · trivial
    split
    · trivial
    rename_i hsafe hdestination _ source hfind hkind
    refine Program.returns_bind fun refusal => ?_
    cases refusal with
    | some reason => trivial
    | none =>
      exact reviewItem_returns (by simpa using hsafe) (by simpa using hdestination) hfind
        (not_not.mp hkind)
  unfold planSandboxPromotion
  split
  · trivial
  · split
    · trivial
    refine Program.Returns.catch (Program.returns_bind fun actualRoot => ?_) fun error => ?_
    · split
      · trivial
      refine Program.returns_bind fun rootKind => ?_
      split
      · trivial
      exact hitem _
    · split <;> trivial
  · trivial

/-! ## What the programs call -/

/-- The steps that look without changing anything. -/
def SandboxOp.LooksOnly : SandboxOp → Prop
  | .native _ | .openTree _ | .removeEntry _ => False
  | _ => True

/-- The steps of a discard of this tree. -/
def SandboxOp.Discards (path : String) (op : SandboxOp) : Prop :=
  op = .openTree path ∨ op = .removeEntry path

/-- Passing on the result of a step calls nothing. -/
theorem orThrow_calls {α : Type} {ok : SandboxOp → Prop} (result : Except SandboxError α) :
    Program.Calls (orThrow result) ok := by
  cases result <;> trivial

/-- A step that may raise calls itself. -/
theorem attempt_orThrow_calls {α : Type} {ok : SandboxOp → Prop} {op : SandboxOp}
    {f : op.Res → Except SandboxError α} (hop : ok op) :
    Program.Calls (Program.attempt op >>= fun result => orThrow (f result)) ok :=
  Program.Calls.bind ⟨hop, fun _ => trivial⟩ fun _ => orThrow_calls _

/-- Confining a destination only looks. -/
theorem confineComponents_calls (destinationPath : String) (components : List String)
    (current : String) :
    Program.Calls (confineComponents destinationPath current components) SandboxOp.LooksOnly := by
  induction components generalizing current with
  | nil => trivial
  | cons component rest ih =>
    unfold confineComponents
    refine Program.Calls.bind (attempt_orThrow_calls trivial) fun names => ?_
    split
    · trivial
    refine Program.Calls.bind (attempt_orThrow_calls trivial) fun kind => ?_
    cases kind with
    | directory =>
      dsimp only
      split
      · trivial
      · exact ih _
    | regular => dsimp only; split <;> trivial
    | _ => trivial

/-- Planning a promotion only looks. -/
theorem planSandboxPromotion_calls (inventory : ScratchInventory) (destinationRoot : String)
    (requests : List SandboxPromotionRequest) :
    Program.Calls (planSandboxPromotion inventory destinationRoot requests)
      SandboxOp.LooksOnly := by
  have hreview (request : SandboxPromotionRequest) (source : ScratchEntry) :
      Program.Calls (reviewItem destinationRoot request source) SandboxOp.LooksOnly :=
    Program.Calls.bind (⟨trivial, fun _ => trivial⟩ : Program.Calls
      (secureDestinationState destinationRoot request.destinationPath) SandboxOp.LooksOnly)
      fun state => by cases state <;> trivial
  have hitem (request : SandboxPromotionRequest) :
      Program.Calls (planItem inventory destinationRoot request) SandboxOp.LooksOnly := by
    unfold planItem
    split
    · trivial
    split
    · trivial
    split
    · trivial
    split
    · trivial
    refine Program.Calls.bind (confineComponents_calls _ _ _) fun refusal => ?_
    cases refusal with
    | some reason => trivial
    | none => exact hreview _ _
  unfold planSandboxPromotion
  split
  · trivial
  · split
    · trivial
    refine Program.Calls.catch ?_ fun error => by split <;> trivial
    refine Program.Calls.bind (attempt_orThrow_calls trivial) fun actualRoot => ?_
    split
    · trivial
    refine Program.Calls.bind (attempt_orThrow_calls trivial) fun rootKind => ?_
    split
    · trivial
    · exact hitem _
  · trivial

/-- Discarding a tree calls the steps of its discard. -/
theorem discardScratchTree_calls (scratchRoot : String) :
    Program.Calls (discardScratchTree scratchRoot) (SandboxOp.Discards scratchRoot) := by
  have hremove (entries : ℕ) :
      Program.Calls (removeEntries scratchRoot entries) (SandboxOp.Discards scratchRoot) := by
    induction entries with
    | zero => trivial
    | succ entries ih =>
      unfold removeEntries
      refine Program.Calls.bind ⟨.inr rfl, fun _ => trivial⟩ fun removed => ?_
      split
      · exact ih
      · trivial
  unfold discardScratchTree
  split
  · trivial
  refine Program.Calls.bind ⟨.inl rfl, fun _ => trivial⟩ fun opened => ?_
  cases opened with
  | none => trivial
  | some entries => exact hremove entries

end Moonfort.Sandbox
