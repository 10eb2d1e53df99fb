import Moonfort.Executor.FileStore
import Moonfort.Executor.Validation

/-!
# The grant store

`consume_grant` and `publish_grant` of `store.mbt`, as programs over the files of
the approval directory.
-/

namespace Moonfort.Executor

open Concurrent Sandbox

/-- The names of the approval directory that the store uses. -/
inductive GrantName where
  /-- `pending/<approval_id>.json`. -/
  | pending (approvalId : String)
  /-- `consumed/<approval_id>.json`. -/
  | consumed (approvalId : String)
  /-- `pending/.publish-<random>.tmp`. -/
  | staging (random : ℕ)
  deriving DecidableEq

/-- The grant store has no business outside its directory. -/
abbrev GrantOp (τ : Type) := FileOp GrantName τ Empty

/-- The answers to the steps of the grant store. -/
abbrev GrantOp.Res {τ : Type} : GrantOp τ → Type := FileOp.Res Empty.elim

/-- The approval directory. -/
abbrev GrantState (ι τ : Type) := FileState ι GrantName τ Unit

/-- A call on the grant store. -/
abbrev GrantProgram (τ α : Type) := FileProgram GrantName τ Empty.elim α

/-- The libraries the store calls: the JSON form of grants, the order in which an
array of strings is sorted, and SHA-256. -/
structure GrantLibrary (τ : Type) where
  /-- The JSON form of a grant. -/
  grants : Codec τ ExecutionGrant
  /-- `values.sort()`. -/
  sorted : List String → List String
  /-- The hexadecimal SHA-256 digest of a text. -/
  sha256Hex : τ → String

variable {τ : Type}

/-- `grant_digest`: the digest of the grant with its sets sorted. -/
def grantDigest (lib : GrantLibrary τ) (grant : ExecutionGrant) : String :=
  lib.sha256Hex (lib.grants.stringify
    { grant with
      allowedEgress := lib.sorted grant.allowedEgress
      allowedCommands := lib.sorted grant.allowedCommands })

/-- `consume_grant`. -/
def consumeGrant (lib : GrantLibrary τ) (config : ExecutorConfig)
    (invocation : SandboxInvocation) : GrantProgram τ ExecutionGrant := do
  Program.ensure (invocation.protocolVersion == 3 && safeIdentifier invocation.approvalId)
    (.failed "invalid invocation")
  let available ← Fs.available
  Program.ensure available (.failed "grant store is unavailable")
  let pending := GrantName.pending invocation.approvalId
  let consumed := GrantName.consumed invocation.approvalId
  let kind ← Fs.kind pending
  Program.ensure (kind == .regular)
    (.failed "approval is unknown, expired, or already consumed")
  tryCatch (Fs.rename pending consumed) fun _ =>
    throw (.failed "approval is unknown, expired, or already consumed")
  let text ← Fs.boundedRegularFile consumed config.limits.maxProtocolBytes
  orRaise (lib.grants.parse text)

/-- The response to a publication that is not made. -/
def refusedPublication (approvalId code message : String) : GrantPublicationResponse :=
  ⟨3, approvalId, "", false, some ⟨code, message⟩⟩

/-- The response to a publication of an identity already in use. -/
def conflictingPublication (approvalId : String) : GrantPublicationResponse :=
  refusedPublication approvalId "grant-conflict"
    "approval identity was already published or consumed"

/-- The text with which `publish_grant` refuses a request, at the time `now` that
it reads. -/
def publicationRefusal (now : ℤ) (request : GrantPublicationRequest) (config : ExecutorConfig) :
    String :=
  if request.protocolVersion ≠ 3 then "unsupported publication protocol"
  else if !safeIdentifier request.grant.approvalId then "invalid approval identity"
  else validateGrant now request.grant ⟨3, request.grant.approvalId⟩ config

/-- The `try` block of `publish_grant`: stage the grant and move it into place. -/
def stageAndPublish (lib : GrantLibrary τ) (grant : ExecutionGrant) (staging : GrantName) :
    GrantProgram τ GrantPublicationResponse := do
  Fs.writeFile staging (lib.grants.stringify grant)
  let kind ← Fs.kind staging
  Program.ensure (kind == .regular) (.failed "staged grant could not be verified")
  let canonical ← Fs.realpath staging
  Program.ensure canonical (.failed "staged grant could not be verified")
  Fs.rename staging (.pending grant.approvalId)
  pure ⟨3, grant.approvalId, grantDigest lib grant, true, none⟩

/-- The `catch` block of `publish_grant`. -/
def abandonStaging (grant : ExecutionGrant) (staging : GrantName) :
    GrantProgram τ GrantPublicationResponse := do
  tryCatch (Fs.remove staging) fun _ => pure ()
  pure (refusedPublication grant.approvalId "publication-refused"
    "grant could not be published atomically")

/-- The part of `publish_grant` after the identity is found unused. -/
def publishUnused (lib : GrantLibrary τ) (grant : ExecutionGrant) :
    GrantProgram τ GrantPublicationResponse := do
  match ← Fs.rand with
  | none =>
    pure (refusedPublication grant.approvalId "publication-refused"
      "secure publication identity is unavailable")
  | some random =>
    tryCatch (stageAndPublish lib grant (.staging random)) fun _ =>
      abandonStaging grant (.staging random)

/-- The part of `publish_grant` after the request is accepted. -/
def publishAccepted (lib : GrantLibrary τ) (grant : ExecutionGrant) :
    GrantProgram τ GrantPublicationResponse := do
  let available ← Fs.available
  if !available then
    pure (refusedPublication grant.approvalId "publication-refused"
      "grant store is unavailable")
  else
    let pendingExists ← Fs.pathExists (.pending grant.approvalId)
    if pendingExists then pure (conflictingPublication grant.approvalId)
    else
      let consumedExists ← Fs.pathExists (.consumed grant.approvalId)
      if consumedExists then pure (conflictingPublication grant.approvalId)
      else publishUnused lib grant

/-- `publish_grant`. The clock is read within `validate_grant`. -/
def publishGrant (lib : GrantLibrary τ) (config : ExecutorConfig)
    (request : GrantPublicationRequest) : GrantProgram τ GrantPublicationResponse := do
  let now ← Fs.now
  if publicationRefusal now request config ≠ "" then
    pure (refusedPublication request.grant.approvalId "grant-refused"
      (publicationRefusal now request config))
  else publishAccepted lib request.grant

/-! ## Calls on one store -/

/-- One call of the executor or of the grant publisher. -/
inductive GrantCall where
  | consume (invocation : SandboxInvocation)
  | publish (request : GrantPublicationRequest)
  deriving DecidableEq

/-- How a call ends. -/
inductive GrantOutcome where
  | consumed (outcome : Except Failure ExecutionGrant)
  | published (outcome : Except Failure GrantPublicationResponse)

/-- The program of a call. -/
def GrantCall.program (lib : GrantLibrary τ) (config : ExecutorConfig) :
    GrantCall → Program (GrantOp τ) GrantOp.Res GrantOutcome
  | consume invocation => (consumeGrant lib config invocation).run.bind (.ret ∘ .consumed)
  | publish request => (publishGrant lib config request).run.bind (.ret ∘ .published)

variable {ι : Type} [DecidableEq ι]

/-- The approval directory under any number of calls. -/
def grantWorld (texts : Texts τ) :
    World ι (GrantOp τ) GrantOp.Res (FileChoice GrantName τ Unit) (GrantState ι τ) :=
  fileWorld texts ⟨fun _ op => op.elim⟩

/-- One step of a call on the grant store. -/
abbrev GrantEvent (ι τ : Type) := Event ι (GrantOp τ) GrantOp.Res (GrantState ι τ)

/-- The approval directory and the steps that led to it. -/
abbrev GrantHistory (ι τ : Type) := History ι (GrantOp τ) GrantOp.Res (GrantState ι τ)

/-- A run in progress. -/
abbrev GrantConfig (ι τ : Type) :=
  Config ι (GrantOp τ) GrantOp.Res (GrantState ι τ) GrantOutcome

/-- The calls before any of them starts, on an empty store. -/
def grantStart (lib : GrantLibrary τ) (config : ExecutorConfig) (calls : ι → GrantCall) :
    GrantConfig ι τ :=
  .start (.initial (fun _ => none) ()) fun i => (calls i).program lib config

end Moonfort.Executor
