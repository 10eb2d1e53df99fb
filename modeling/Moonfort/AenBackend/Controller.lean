import Moonfort.AenBackend.ConnectStream
import Moonfort.Executor.Deployment
import Moonfort.Methods
import Moonfort.MoonBit.Crypto
import Moonfort.Sandbox.CommandPreflight

/-!
# The AgentENV controller

The fields of `AenBackend`, the requests it makes of the provider, the readers of
the provider's JSON answers, and the deletion of the VMs that the controller knows.
-/

namespace Moonfort.AenBackend

open Methods MoonBit Sandbox

/-! ## Values -/

/-- `AenLifecycleState`. -/
inductive AenLifecycleState where
  | created
  | running
  | paused
  | stopped
  | refused
  deriving DecidableEq

/-- `AenWorkspaceLease`. -/
structure AenWorkspaceLease where
  protocolVersion : ℤ
  leaseId : String
  runId : String
  workspaceId : String
  profileDigest : String
  workspaceDigest : String
  imageRef : String
  entryCount : ℤ
  totalBytes : ℤ
  stagingCleanupVerified : Bool
  receiptKeyId : String
  receiptMac : String
  deriving DecidableEq

/-- The fields of `AenBackend` that never change. -/
structure Backend where
  apiKey : String
  executorImageRef : String
  workspaceLease : AenWorkspaceLease
  expectedVcpuCount : ℤ
  expectedRootDiskMib : ℤ
  guestWorkspace : String
  guestScratch : String
  guestAttester : String
  guestSupervisor : String
  executorRootDigest : String
  guestAttesterDigest : String
  guestSupervisorDigest : String
  toolRegistryDigest : String
  requireGuestAttestation : Bool
  warmSnapshotCompat : Bool
  guestTools : List (String × String)
  profile : SandboxProfile
  digest : String

/-- The fields of `AenBackend` that change. -/
structure Controller where
  createInFlight : Bool
  sandboxId : Option String
  pendingChildIds : List String
  state : AenLifecycleState

/-- The errors that pass through the controller. -/
inductive AenFailure where
  /-- An error of the backend. -/
  | raised (error : AenBackendError)
  /-- The task is cancelled. -/
  | cancelled
  /-- Another error of the transport. -/
  | external
  deriving DecidableEq

/-- How a method ends without a value. -/
inductive AenError where
  | failed (failure : AenFailure)
  /-- The program aborts, which no handler catches. -/
  | aborted
  deriving DecidableEq

/-- `AenResponse`. -/
structure AenResponse where
  status : ℤ
  body : Bytes

/-- A streamed response: its chunks in order, and the error with which the transport
ends, if any. -/
structure StreamAnswer where
  chunks : List Bytes
  failure : Option AenFailure

/-- The requests of the controller that are answered as a whole. -/
inductive AenRequest where
  /-- `POST /sandboxes-cold`, or `POST /sandboxes` for a warm snapshot. -/
  | create (warm : Bool) (body : Json)
  /-- `GET /sandboxes/<id>`. -/
  | detail (id : String)
  /-- `DELETE /sandboxes/<id>`. -/
  | delete (id : String)
  /-- `POST /sandboxes/<id>/pause`. -/
  | pause (id : String)
  /-- `POST /sandboxes/<id>/resume`. -/
  | resume (id : String) (timeout : ℤ)
  /-- `POST /sandboxes/<id>/snapshots`. -/
  | snapshot (id : String) (name : Option String)
  /-- `POST /sandboxes/<id>/fork`. -/
  | fork (id : String) (count timeout : ℤ)
  /-- `CreateWatcher` of a directory in the guest. -/
  | createWatcher (id path : String)
  /-- `GetWatcherEvents`. -/
  | watcherEvents (id watcher : String)
  /-- `RemoveWatcher`. -/
  | removeWatcher (id watcher : String)
  /-- `SendSignal` with SIGKILL. -/
  | sendSignal (id : String) (pid : Int32)

/-- What the controller asks of the world outside. -/
inductive AenCall where
  /-- `transport.request`. -/
  | request (request : AenRequest)
  /-- `transport.stream` of the `Start` of a process in the guest. -/
  | stream (id executable : String) (arguments : List String) (cwd : String)
      (timeoutMs responseBytes : ℤ)
  /-- The end of a section that is protected from cancellation. -/
  | protectionEnds

/-- What a call answers. -/
abbrev AenCall.Res : AenCall → Type
  | .request _ => Except AenFailure AenResponse
  | .stream .. => StreamAnswer
  -- Whether the section raises because the task was cancelled meanwhile.
  | .protectionEnds => Bool

/-- The methods of the controller. -/
abbrev AenMethod (α : Type) : Type := Method AenCall AenCall.Res Controller AenError α

/-- What the controller calls of its libraries. -/
structure AenLibrary where
  crypto : Crypto
  /-- `@json.parse`. -/
  parseJson : String → Option Json
  /-- `@json.from_json` of an inventory. -/
  inventoryOfJson : Json → Option ScratchInventory

/-! ## Methods -/

/-- Raise an error of the backend. -/
def raise {α : Type} (error : AenBackendError) : AenMethod α := throw (.failed (.raised error))

/-- `x catch { error => handler(error) }`. -/
def rescue {α : Type} (x : AenMethod α) (handler : AenFailure → AenMethod α) : AenMethod α :=
  tryCatch x fun
    | .failed failure => handler failure
    | .aborted => throw .aborted

/-- A value, or the error that is raised instead. -/
def orRaise {α : Type} : Except AenFailure α → AenMethod α
  | .ok value => pure value
  | .error failure => throw (.failed failure)

/-- A decoded value, or the error of the decoder. -/
def orFault {α : Type} : Except Fault α → AenMethod α
  | .ok value => pure value
  | .error (.raised error) => raise error
  | .error _ => throw .aborted

/-- `transport.request`. -/
def request (request : AenRequest) : AenMethod AenResponse := do
  let answer ← perform (AenCall.request request)
  orRaise answer

/-! ## Answers of the provider -/

/-- `expect_status`. -/
def expectStatus (response : AenResponse) (expected : ℤ) : Except AenBackendError Unit :=
  if response.status = expected then .ok ()
  else .error (.transportFailure
    ("AgentENV returned HTTP " ++ intText response.status ++ ", expected " ++ intText expected))

/-- `json_object`. -/
def jsonObject (value : Json) (context : String) : Except AenBackendError (List (String × Json)) :=
  match value with
  | .object object => .ok object
  | _ => .error (.protocolFailure ("AgentENV " ++ context ++ " response must be an object"))

/-- `required_string`. -/
def requiredString (object : List (String × Json)) (key : String) :
    Except AenBackendError String :=
  match object.lookup key with
  | some (.string value) =>
    if value ≠ "" then .ok value
    else .error (.protocolFailure ("AgentENV response is missing " ++ key))
  | _ => .error (.protocolFailure ("AgentENV response is missing " ++ key))

/-- `guard condition else { raise ProtocolFailure(message) }`. -/
def guardProtocol (condition : Bool) (message : String) : Except AenBackendError Unit :=
  if condition then .ok () else .error (.protocolFailure message)

/-- `safe_provider_identifier`. -/
def safeProviderIdentifier (value : String) : Bool :=
  1 ≤ utf16Length value && utf16Length value ≤ 128 &&
    allChars value fun c => isAsciiAlphanumeric c || c == '-' || c == '_' || c == '.' || c == ':'

/-- `opaque_provider_identifier`. -/
def opaqueProviderIdentifier (lib : AenLibrary) (value : String) : String :=
  if safeProviderIdentifier value then value else "sha256-" ++ lib.crypto.digestText value

/-! ## Receipts -/

/-- The texts with a separator between them. -/
def joinWith (separator : String) : List String → String
  | [] => ""
  | [text] => text
  | text :: rest => text ++ separator ++ joinWith separator rest

/-- The VMs that the controller knows, as `retained_vm_id` collects them. -/
def Controller.knownIds (c : Controller) : List String := c.pendingChildIds ++ c.sandboxId.toList

/-- `retained_vm_id`. -/
def Controller.retainedVmId (lib : AenLibrary) (c : Controller) : Option String :=
  if c.knownIds.isEmpty then none
  else some ("aen-vms:" ++
    joinWith "," ((sortStrings c.knownIds).map (opaqueProviderIdentifier lib)))

/-- `cleanup_suffix`. -/
def cleanupSuffix (cleanupVerified : Bool) : String :=
  if cleanupVerified then "VM cleanup verified" else "VM cleanup unverified"

section Control

variable (lib : AenLibrary) (backend : Backend)

/-- `base_receipt`. -/
def baseReceipt (c : Controller) (status : SandboxRunStatus) : SandboxReceipt :=
  { refusedReceipt backend.profile.runId .microVm backend.digest "" with
    enforcement := .enforced
    status := status
    denialReason := none
    retentionId := c.retainedVmId lib }

/-- `refused_after_cleanup`. -/
def refusedAfterCleanup (reason : String) (cleanupVerified : Bool) : AenMethod SandboxReceipt := do
  modify fun c => { c with state := .refused }
  let c ← get
  pure { refusedReceipt backend.profile.runId .microVm backend.digest
      (reason ++ "; " ++ cleanupSuffix cleanupVerified) with
    cleanupVerified := cleanupVerified
    retentionId := if cleanupVerified then none else c.retainedVmId lib }

/-! ## Deleting the VMs -/

/-- `delete_known_id`. -/
def deleteKnownId (id : String) : AenMethod Bool := do
  let answer ← perform (AenCall.request (.delete id))
  match answer with
  | .ok response => pure (response.status = 204 || response.status = 404)
  | .error _ => pure false

/-- The loop of `discard_checked`: the children whose deletion is not verified. -/
def deleteChildren : List String → AenMethod (List String)
  | [] => pure []
  | childId :: rest => do
    let deleted ← deleteKnownId childId
    let remaining ← deleteChildren rest
    pure (if deleted then remaining else childId :: remaining)

/-- The part of `discard_checked` about the VM itself. -/
def deleteSandbox (verified : Bool) : AenMethod Bool := do
  let c ← get
  match c.sandboxId with
  | some id => do
    let deleted ← deleteKnownId id
    if deleted then do
      modify fun c => { c with createInFlight := false, sandboxId := none }
      pure verified
    else pure false
  -- A create request may have reached the provider without returning an ID.
  | none => pure (verified && !c.createInFlight)

/-- `discard_checked`. -/
def discardChecked : AenMethod Bool := do
  let c ← get
  let remaining ← deleteChildren c.pendingChildIds
  modify fun c => { c with pendingChildIds := remaining }
  let verified ← deleteSandbox remaining.isEmpty
  if verified then do
    modify fun c => { c with state := .stopped }
    pure true
  else pure false

/-- `discard_protected`. -/
def discardProtected : AenMethod Bool := do
  let verified ← discardChecked
  let cancelled : Bool ← perform AenCall.protectionEnds
  pure (verified && !cancelled)

end Control

end Moonfort.AenBackend
