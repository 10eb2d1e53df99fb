import Moonfort.Executor.Digest
import Moonfort.Executor.GrantAcceptance
import Moonfort.MoonBit.StringOrder
import Mathlib.Logic.Function.Basic

/-!
# Reviewed publication

A rehearsal checks a candidate grant and answers a digest over everything that
was reviewed; publication rehearses again and requires the same digest.
-/

namespace Moonfort.Executor

open Concurrent MoonBit Sandbox

/-- `GrantCorrection`. -/
structure GrantCorrection where
  field : String
  message : String
  nextStep : String
  deriving DecidableEq

/-- `GrantRehearsal`. -/
structure GrantRehearsal where
  protocolVersion : ℤ
  readyForReview : Bool
  reviewDigest : String
  candidate : Option ExecutionGrant
  correction : Option GrantCorrection
  notice : String
  deriving DecidableEq

/-- The field that `grant_correction` finds in the text of a refusal. -/
def correctionField (reason : String) : String :=
  if containsText reason "protocol" then "protocol_version"
  else if containsText reason "approval" then "approval_id"
  else if containsText reason "expired" then "expires_at_ms"
  else if containsText reason "request or workspace" then "request_id / workspace_id"
  else if containsText reason "unknown workspace" then "workspace_id"
  else if containsText reason "egress" then "allowed_egress"
  else if containsText reason "network" then "network"
  else if containsText reason "wall-clock" then "limits.wall_clock_ms"
  else if containsText reason "CPU" then "limits.cpu_seconds"
  else if containsText reason "memory" then "limits.memory_mib"
  else if containsText reason "disk" then "limits.disk_mib"
  else if containsText reason "process limit" then "limits.processes"
  else if containsText reason "output limit" then "limits.output_bytes"
  else if containsText reason "working directory" then "working_directory"
  else if containsText reason "degraded" then "enforcement_requirement"
  else if containsText reason "backend" || containsText reason "AEN deployment" ||
      containsText reason "local deployment" then
    "backend / backend_config_id"
  else "command / allowed_commands"

/-- `grant_correction`. -/
def grantCorrection (reason : String) : GrantCorrection where
  field := correctionField reason
  message := reason
  nextStep := "Correct this candidate field within the existing trusted policy, then run " ++
    "--check again. Do not weaken policy to make it pass."

/-- The backend's part of the review manifest. -/
def reviewedBackend (crypto : Crypto) (grant : ExecutionGrant) (config : Deployment) : String :=
  match grant.backend with
  | .microVm =>
    match config.aenBackends.lookup grant.backendConfigId with
    | some value => trustedAenBindingDigest crypto value
    | none => ""
  | _ => trustedLocalBindingDigest crypto config.localTools

/-- The manifest of `grant_review_digest`. -/
def reviewManifest (crypto : Crypto) (lib : GrantLibrary String) (grant : ExecutionGrant)
    (workspace : DeployedWorkspace) (config : Deployment) : Json :=
  .object [("schema", .string "moonfort-grant-review-v1"),
    ("grant_digest", .string (grantDigest lib grant)), ("workspace_root", .string workspace.root),
    ("read_only_roots", stringsJson workspace.readOnlyRoots),
    ("allowed_backends", .array (workspace.allowedBackends.map SandboxBackendKind.toJson)),
    ("allowed_networks", .array (workspace.allowedNetworks.map SandboxNetworkMode.toJson)),
    ("allowed_egress", stringsJson workspace.allowedEgress),
    ("allowed_commands", stringsJson workspace.allowedCommands),
    ("allow_degraded", .bool workspace.allowDegraded),
    ("backend_binding", .string (reviewedBackend crypto grant config))]

/-- `grant_review_digest`. -/
def grantReviewDigest (crypto : Crypto) (lib : GrantLibrary String) (grant : ExecutionGrant)
    (config : Deployment) : String :=
  match config.workspaces.lookup grant.workspaceId with
  | none => ""
  | some workspace => crypto.digestText (reviewManifest crypto lib grant workspace config).stringify

/-- `rehearse_grant`, at the time `now` that `validate_grant` reads. -/
def rehearseGrant (crypto : Crypto) (lib : GrantLibrary String) (now : ℤ)
    (request : GrantPublicationRequest) (config : Deployment) : GrantRehearsal :=
  let reason := publicationRefusal now request config.config
  let ready := reason == ""
  { protocolVersion := 1
    readyForReview := ready
    reviewDigest := if ready then grantReviewDigest crypto lib request.grant config else ""
    candidate := if ready then some request.grant else none
    correction := if ready then none else some (grantCorrection reason)
    notice := "Check only: nothing published or executed. Review this exact candidate with the " ++
      "named approver before --publish-reviewed. Backend availability and enforcement remain " ++
      "execution-time gates." }

/-- `publish_reviewed_grant`. -/
def publishReviewedGrant (crypto : Crypto) (lib : GrantLibrary String)
    (request : GrantPublicationRequest) (expectedReviewDigest : String) (config : Deployment) :
    GrantProgram String GrantPublicationResponse := do
  let now ← Fs.now
  let check := rehearseGrant crypto lib now request config
  if !check.readyForReview || !sha256Digest expectedReviewDigest ||
      expectedReviewDigest != check.reviewDigest then
    pure (refusedPublication request.grant.approvalId "review-stale"
      ("Candidate or trusted scope changed, review is missing, or policy no longer permits it. " ++
        "Run --check and obtain fresh approval."))
  else publishGrant lib config.config request

/-- The binding of the backend that a grant selects is the same in two deployments. -/
def SameBackendBinding (grant : ExecutionGrant) (config config' : Deployment) : Prop :=
  match grant.backend with
  | .microVm => ∃ value value', config.aenBackends.lookup grant.backendConfigId = some value ∧
      config'.aenBackends.lookup grant.backendConfigId = some value' ∧ SameAenBinding value value'
  | _ => SameMap config.localTools config'.localTools

/-- What a reviewer saw of a candidate is what another candidate has. -/
structure SameReview (grant grant' : ExecutionGrant) (config config' : Deployment) : Prop where
  candidate : SameCandidate grant grant'
  workspace : ∃ workspace, config.workspaces.lookup grant.workspaceId = some workspace ∧
    config'.workspaces.lookup grant'.workspaceId = some workspace
  backend : SameBackendBinding grant' config config'

/-- The JSON of a list determines it when that of its elements does. -/
theorem map_toJson_inj {α : Type} {f : α → Json} (hf : Function.Injective f) {a b : List α}
    (h : Json.array (a.map f) = Json.array (b.map f)) : a = b :=
  List.map_injective_iff.mpr hf (Json.array.inj h)

/-- The review manifest determines the workspace policy, and the digests it holds. -/
theorem reviewManifest_inj {crypto : Crypto} {lib : GrantLibrary String}
    {grant grant' : ExecutionGrant} {workspace workspace' : DeployedWorkspace}
    {config config' : Deployment}
    (h : reviewManifest crypto lib grant workspace config =
      reviewManifest crypto lib grant' workspace' config') :
    grantDigest lib grant = grantDigest lib grant' ∧ workspace = workspace' ∧
      reviewedBackend crypto grant config = reviewedBackend crypto grant' config' := by
  simp only [reviewManifest, Json.object.injEq, List.cons.injEq, Prod.mk.injEq, Json.bool.injEq,
    Json.string.injEq, true_and, and_true] at h
  obtain ⟨hgrant, hroot, hroots, hbackends, hnetworks, hegress, hcommands, hdegraded, hbackend⟩ := h
  have hbackends' := map_toJson_inj (fun _ _ h => SandboxBackendKind.toJson_inj h) hbackends
  have hnetworks' := map_toJson_inj (fun _ _ h => SandboxNetworkMode.toJson_inj h) hnetworks
  have hroots' := stringsJson_inj hroots
  have hegress' := stringsJson_inj hegress
  have hcommands' := stringsJson_inj hcommands
  refine ⟨hgrant, ?_, hbackend⟩
  obtain ⟨⟨⟩⟩ := workspace
  obtain ⟨⟨⟩⟩ := workspace'
  simp only at hroot hroots' hbackends' hnetworks' hegress' hcommands' hdegraded
  rw [hroot, hroots', hbackends', hnetworks', hegress', hcommands', hdegraded]

/-- A candidate that passes its checks is accepted. -/
theorem grantAccepted_of_publication {now : ℤ} {request : GrantPublicationRequest}
    {config : ExecutorConfig} (h : publicationRefusal now request config = "") :
    GrantAccepted request.grant config := by
  unfold publicationRefusal at h
  simp (disch := decide) only [message_eq_empty_iff] at h
  exact grantAccepted_of_validateGrant h.2.2

/-- An accepted grant for a microVM finds its deployment. -/
theorem exists_aenBackend {grant : ExecutionGrant} {config : Deployment}
    (h : GrantAccepted grant config.config) (hbackend : grant.backend = .microVm) :
    ∃ value, config.aenBackends.lookup grant.backendConfigId = some value := by
  obtain ⟨entry, hentry, heq⟩ := List.mem_map.mp (aenBackend_of_accepted h hbackend)
  rw [← Option.isSome_iff_exists, List.lookup_isSome_iff]
  exact ⟨entry, hentry, beq_iff_eq.mpr heq.symm⟩

/-- Without collisions the reviewed backend determines the binding. -/
theorem sameBackendBinding_of_reviewed {crypto : Crypto} (hcrypto : crypto.Ideal)
    {grant grant' : ExecutionGrant} {config config' : Deployment}
    (haccepted : GrantAccepted grant config.config)
    (haccepted' : GrantAccepted grant' config'.config) (hbackend : grant.backend = grant'.backend)
    (hid : grant.backendConfigId = grant'.backendConfigId)
    (h : reviewedBackend crypto grant config = reviewedBackend crypto grant' config') :
    SameBackendBinding grant' config config' := by
  unfold reviewedBackend at h
  unfold SameBackendBinding
  cases hkind : grant'.backend with
  | microVm =>
    rw [hbackend] at h
    obtain ⟨value, hvalue⟩ := exists_aenBackend haccepted (hbackend.trans hkind)
    obtain ⟨value', hvalue'⟩ := exists_aenBackend haccepted' hkind
    rw [hkind, hvalue, hvalue'] at h
    exact ⟨value, value', hid ▸ hvalue, hvalue', trustedAenBindingDigest_inj hcrypto h⟩
  | localOs =>
    rw [hbackend, hkind] at h
    exact trustedLocalBindingDigest_inj hcrypto h
  | unavailable =>
    rw [hbackend, hkind] at h
    exact trustedLocalBindingDigest_inj hcrypto h

/-- A rehearsal with a digest is of an accepted candidate in a known workspace. -/
theorem rehearseGrant_digest {crypto : Crypto} {lib : GrantLibrary String} {now : ℤ}
    {request : GrantPublicationRequest} {config : Deployment}
    (h : (rehearseGrant crypto lib now request config).reviewDigest ≠ "") :
    GrantAccepted request.grant config.config ∧
      ∃ workspace, config.workspaces.lookup request.grant.workspaceId = some workspace ∧
        (rehearseGrant crypto lib now request config).reviewDigest =
          crypto.digestText
            (reviewManifest crypto lib request.grant workspace config).stringify := by
  unfold rehearseGrant at h ⊢
  by_cases hready : publicationRefusal now request config.config = ""
  · simp only [hready, beq_self_eq_true, if_true] at h ⊢
    refine ⟨grantAccepted_of_publication hready, ?_⟩
    unfold grantReviewDigest at h ⊢
    split at h
    next => exact absurd rfl h
    next workspace hworkspace => exact ⟨workspace, hworkspace, rfl⟩
  · simp only [beq_iff_eq, hready, if_false] at h
    exact absurd rfl h

/-- Without collisions, equal digests of two rehearsals are digests of the same review. -/
theorem sameReview_of_digest {crypto : Crypto} (hcrypto : crypto.Ideal)
    {parse : String → Option ExecutionGrant}
    {hparse : ∀ grant : ExecutionGrant, parse grant.toJson.stringify = some grant}
    {now now' : ℤ} {request request' : GrantPublicationRequest} {config config' : Deployment}
    (hne : (rehearseGrant crypto (jsonGrantLibrary crypto parse hparse) now request
      config).reviewDigest ≠ "")
    (h : (rehearseGrant crypto (jsonGrantLibrary crypto parse hparse) now request
        config).reviewDigest =
      (rehearseGrant crypto (jsonGrantLibrary crypto parse hparse) now' request'
        config').reviewDigest) :
    SameReview request.grant request'.grant config config' := by
  obtain ⟨haccepted, workspace, hworkspace, hdigest⟩ := rehearseGrant_digest hne
  obtain ⟨haccepted', workspace', hworkspace', hdigest'⟩ := rehearseGrant_digest (h ▸ hne)
  rw [hdigest, hdigest'] at h
  have hmanifest := Json.stringify_inj (hcrypto.digestText_inj h)
  obtain ⟨hgrant, hpolicy, hbackend⟩ := reviewManifest_inj hmanifest
  have hcandidate := grantDigest_inj hcrypto hgrant
  exact
    { candidate := hcandidate
      workspace := ⟨workspace, hworkspace, hpolicy ▸ hworkspace'⟩
      backend := sameBackendBinding_of_reviewed hcrypto haccepted haccepted' hcandidate.backend
        hcandidate.backendConfigId hbackend }

/-- Whatever its calls on the store answer, publication under the digest of an
earlier rehearsal publishes only what was reviewed there: the candidate up to
the order of its egress and command sets, its workspace policy and its backend
binding. -/
theorem reviewed_publication_binds (crypto : Crypto) (hcrypto : crypto.Ideal)
    (parse : String → Option ExecutionGrant)
    (hparse : ∀ grant : ExecutionGrant, parse grant.toJson.stringify = some grant) (now : ℤ)
    (reviewed request : GrantPublicationRequest) (config config' : Deployment) :
    Program.Returns
      (publishReviewedGrant crypto (jsonGrantLibrary crypto parse hparse) request
        (rehearseGrant crypto (jsonGrantLibrary crypto parse hparse) now reviewed
          config).reviewDigest config')
      fun response => response.published = true →
        SameReview reviewed.grant request.grant config config' := by
  apply Program.returns_bind
  intro now'
  dsimp only
  split
  next =>
    intro hpublished
    cases hpublished
  next hcheck =>
    simp only [Bool.or_eq_true, Bool.not_eq_true', bne_iff_ne, not_or, ne_eq, not_not,
      Bool.not_eq_false] at hcheck
    obtain ⟨⟨-, hhex⟩, hdigest⟩ := hcheck
    have hne : (rehearseGrant crypto (jsonGrantLibrary crypto parse hparse) now reviewed
        config).reviewDigest ≠ "" := by
      intro hempty
      rw [hempty] at hhex
      exact absurd hhex (by decide)
    have hreview := sameReview_of_digest hcrypto hne hdigest
    exact (Program.returns_true _).mono fun outcome _ => by
      cases outcome with
      | ok response => exact fun _ => hreview
      | error error => trivial

/-- The grant that is reviewed. -/
def sampleReviewedGrant : ExecutionGrant :=
  { sampleShellGrant "true" with allowedCommands := ["moon", "shell-compat"] }

/-- The grant that is published, with its commands in the other order. -/
def samplePublishedGrant : ExecutionGrant :=
  { sampleShellGrant "true" with allowedCommands := ["shell-compat", "moon"] }

/-- What the JSON library reads back from the text of a grant. -/
noncomputable def parseGrant : String → Option ExecutionGrant :=
  Function.partialInv fun grant : ExecutionGrant => grant.toJson.stringify

/-- It reads back what is written. -/
theorem parseGrant_stringify (grant : ExecutionGrant) :
    parseGrant grant.toJson.stringify = some grant :=
  Function.partialInv_left (fun _ _ h => ExecutionGrant.toJson_inj (Json.stringify_inj h)) grant

/-- The review manifest of the grant. -/
def sampleManifest : Json :=
  .object [("schema", .string "moonfort-grant-review-v1"),
    ("grant_digest", .string "2cd48cf42a1b03d1d6b557d701612885d17393fbf4d0fa07e65096871e8eace3"),
    ("workspace_root", .string "/srv/book"), ("read_only_roots", stringsJson ["/srv/book"]),
    ("allowed_backends", stringsJson ["LocalOs"]), ("allowed_networks", stringsJson ["Deny"]),
    ("allowed_egress", stringsJson []), ("allowed_commands", stringsJson ["moon", "shell-compat"]),
    ("allow_degraded", .bool true),
    ("backend_binding",
      .string "dee06f2086c79c12eb80b7bfe52c2051461c198225e24052899a26a469c7c9a3")]

/-- The SHA-256 of the manifest, of the local tools and of the grant with its commands sorted. -/
def sampleDigests : List (List UInt8 × List UInt8) :=
  [(utf8Encode sampleManifest.stringify,
    [55, 218, 98, 150, 108, 75, 58, 28, 163, 36, 163, 183, 134, 166, 130, 55, 1, 189, 133, 130, 179,
      75, 201, 116, 240, 153, 55, 217, 1, 164, 222, 227]),
    (utf8Encode (sortedMapEntries sampleDeployment.localTools).stringify,
    [222, 224, 111, 32, 134, 199, 156, 18, 235, 128, 183, 191, 229, 44, 32, 81, 70, 28, 25, 130,
      37, 226, 64, 82, 137, 154, 38, 164, 105, 199, 201, 163]),
    (utf8Encode sampleReviewedGrant.toJson.stringify,
    [44, 212, 140, 244, 42, 27, 3, 209, 214, 181, 87, 215, 1, 97, 40, 133, 209, 115, 147, 251, 244,
      208, 250, 7, 230, 80, 150, 135, 30, 142, 172, 227])]

/-- SHA-256 on the texts of the sample review, and no collisions elsewhere. -/
def sampleReviewCrypto : Crypto := ⟨Crypto.tabled sampleDigests, fun _ message => message⟩

/-- The sample functions are injective. -/
theorem sampleReviewCrypto_ideal : sampleReviewCrypto.Ideal where
  sha256 := Crypto.tabled_injective
    (List.forall_mem_cons.mpr
      ⟨rfl, List.forall_mem_cons.mpr ⟨rfl, List.forall_mem_singleton.mpr rfl⟩⟩)
    (by
      rw [sampleDigests, List.map_cons]
      decide)
  hmac _ := fun _ _ h => h

/-- The sample digest of a text is looked up in the table. -/
theorem digestText_sampleReviewCrypto (text : String) : sampleReviewCrypto.digestText text =
    bytesToHexString (Crypto.tabled sampleDigests (utf8Encode text)) := rfl

/-- The libraries of the sample. -/
noncomputable def sampleReviewLibrary : GrantLibrary String :=
  jsonGrantLibrary sampleReviewCrypto parseGrant parseGrant_stringify

/-- An empty store in which every step goes through. -/
def sampleStoreAnswer : (op : GrantOp String) → op.Res
  | .available => true
  | .now => (0 : ℤ)
  | .rand => some (7 : ℕ)
  | .kind _ => some FileKind.regular
  | .pathExists _ => some false
  | .realpath _ => some true
  | .protectedRegularFile _ => true
  | .readdir => some []
  | .boundedRegularFile _ _ => none
  | .create _ => true
  | .write _ _ => true
  | .rename _ _ => true
  | .remove _ => true
  | .sync => true
  | .elsewhere op => op.elim

/-- The publication of the reordered grant under the digest of the reviewed one. -/
noncomputable def samplePublicationRun : Except Failure GrantPublicationResponse :=
  Program.answered sampleStoreAnswer
    (publishReviewedGrant sampleReviewCrypto sampleReviewLibrary ⟨3, samplePublishedGrant⟩
      (rehearseGrant sampleReviewCrypto sampleReviewLibrary 0 ⟨3, sampleReviewedGrant⟩
        sampleDeployment).reviewDigest sampleDeployment).run

/-- The commands of both grants in the order of the digest. -/
theorem sortStrings_commands :
    sortStrings ["shell-compat", "moon"] = ["moon", "shell-compat"] ∧
      sortStrings ["moon", "shell-compat"] = ["moon", "shell-compat"] := by
  rw [sortStrings_eq_insertionSort, sortStrings_eq_insertionSort]
  decide

/-- The digest of the local tools. -/
theorem digest_sampleTools :
    trustedLocalBindingDigest sampleReviewCrypto sampleDeployment.localTools =
    "dee06f2086c79c12eb80b7bfe52c2051461c198225e24052899a26a469c7c9a3" := by
  have hne : utf8Encode (sortedMapEntries sampleDeployment.localTools).stringify ≠
      utf8Encode sampleManifest.stringify := by
    intro h
    cases Json.stringify_inj (utf8Encode_inj h)
  rw [trustedLocalBindingDigest, digestText_sampleReviewCrypto, sampleDigests,
    Crypto.tabled_cons_of_ne hne, Crypto.tabled_head]
  decide

/-- The digest of the grant with its commands sorted. -/
theorem digest_sampleGrant : sampleReviewCrypto.digestText sampleReviewedGrant.toJson.stringify =
    "2cd48cf42a1b03d1d6b557d701612885d17393fbf4d0fa07e65096871e8eace3" := by
  have hmanifest : utf8Encode sampleReviewedGrant.toJson.stringify ≠
      utf8Encode sampleManifest.stringify := by
    intro h
    have hjson := Json.stringify_inj (utf8Encode_inj h)
    simp [ExecutionGrant.toJson, sampleManifest] at hjson
  have htools : utf8Encode sampleReviewedGrant.toJson.stringify ≠
      utf8Encode (sortedMapEntries sampleDeployment.localTools).stringify := by
    intro h
    cases Json.stringify_inj (utf8Encode_inj h)
  rw [digestText_sampleReviewCrypto, sampleDigests, Crypto.tabled_cons_of_ne hmanifest,
    Crypto.tabled_cons_of_ne htools, Crypto.tabled_head]
  decide

/-- Both grants have this digest, as it is of the sorted commands. -/
theorem grantDigest_samples :
    grantDigest sampleReviewLibrary sampleReviewedGrant =
        "2cd48cf42a1b03d1d6b557d701612885d17393fbf4d0fa07e65096871e8eace3" ∧
      grantDigest sampleReviewLibrary samplePublishedGrant =
        "2cd48cf42a1b03d1d6b557d701612885d17393fbf4d0fa07e65096871e8eace3" := by
  have hempty : sortStrings [] = [] := List.mergeSort_nil
  have hcanonical (commands : List String) (h : sortStrings commands = ["moon", "shell-compat"]) :
      grantDigest sampleReviewLibrary { sampleShellGrant "true" with allowedCommands := commands } =
        sampleReviewCrypto.digestText sampleReviewedGrant.toJson.stringify := by
    change sampleReviewCrypto.digestText (ExecutionGrant.toJson { sampleShellGrant "true" with
      allowedEgress := sortStrings []
      allowedCommands := sortStrings commands }).stringify = _
    rw [h, hempty]
    rfl
  rw [← digest_sampleGrant]
  exact ⟨hcanonical _ sortStrings_commands.2, hcanonical _ sortStrings_commands.1⟩

/-- The digest of the review of a grant with the digest above. -/
theorem grantReviewDigest_sample {grant : ExecutionGrant} (hworkspace : grant.workspaceId = "book")
    (hbackend : grant.backend = .localOs)
    (hdigest : grantDigest sampleReviewLibrary grant =
      "2cd48cf42a1b03d1d6b557d701612885d17393fbf4d0fa07e65096871e8eace3") :
    grantReviewDigest sampleReviewCrypto sampleReviewLibrary grant sampleDeployment =
      "37da62966c4b3a1ca324a3b786a6823701bd8582b34bc974f09937d901a4dee3" := by
  have hfind : sampleDeployment.workspaces.lookup grant.workspaceId = some sampleWorkspace := by
    rw [hworkspace, sampleDeployment, List.lookup_cons_self]
  have hmanifest : reviewManifest sampleReviewCrypto sampleReviewLibrary grant sampleWorkspace
      sampleDeployment = sampleManifest := by
    rw [reviewManifest, hdigest, reviewedBackend, hbackend]
    dsimp only
    rw [digest_sampleTools]
    rfl
  rw [grantReviewDigest, hfind]
  dsimp only
  rw [hmanifest, digestText_sampleReviewCrypto, sampleDigests, Crypto.tabled_head]
  decide

/-- The rehearsals of both grants. -/
theorem rehearseGrant_sample (grant : ExecutionGrant)
    (hready : publicationRefusal 0 ⟨3, grant⟩ sampleDeployment.config = "")
    (hworkspace : grant.workspaceId = "book") (hbackend : grant.backend = .localOs)
    (hdigest : grantDigest sampleReviewLibrary grant =
      "2cd48cf42a1b03d1d6b557d701612885d17393fbf4d0fa07e65096871e8eace3") :
    (rehearseGrant sampleReviewCrypto sampleReviewLibrary 0 ⟨3, grant⟩
        sampleDeployment).readyForReview = true ∧
      (rehearseGrant sampleReviewCrypto sampleReviewLibrary 0 ⟨3, grant⟩
        sampleDeployment).reviewDigest =
          "37da62966c4b3a1ca324a3b786a6823701bd8582b34bc974f09937d901a4dee3" := by
  simp only [rehearseGrant, hready, beq_self_eq_true, if_true, true_and]
  exact grantReviewDigest_sample hworkspace hbackend hdigest

/-- The reordered grant is published. -/
theorem samplePublicationRun_eq :
    samplePublicationRun = .ok ⟨3, "approval-1",
      "2cd48cf42a1b03d1d6b557d701612885d17393fbf4d0fa07e65096871e8eace3", true, none⟩ := by
  have hrefusal : publicationRefusal 0 ⟨3, samplePublishedGrant⟩ sampleDeployment.config = "" := by
    decide
  obtain ⟨-, hreviewed⟩ := rehearseGrant_sample sampleReviewedGrant (by decide)
    rfl rfl grantDigest_samples.1
  obtain ⟨hready, hpublished⟩ := rehearseGrant_sample samplePublishedGrant hrefusal rfl
    rfl grantDigest_samples.2
  have hhex : sha256Digest "37da62966c4b3a1ca324a3b786a6823701bd8582b34bc974f09937d901a4dee3" =
      true := by
    decide
  rw [samplePublicationRun, hreviewed, publishReviewedGrant, Program.answered_bind 0 rfl]
  simp only [hready, hpublished, hhex, Bool.not_true, bne_self_eq_false, Bool.or_self,
    Bool.false_eq_true, if_false]
  rw [publishGrant, Program.answered_bind 0 rfl, if_neg (not_not.mpr hrefusal),
    ← grantDigest_samples.2]
  rfl

/-- The reordered grant is published, and what was reviewed is what it has. -/
theorem reviewed_publication_sample :
    (∃ response, samplePublicationRun = .ok response ∧ response.published = true) ∧
      SameReview sampleReviewedGrant samplePublishedGrant sampleDeployment sampleDeployment := by
  have hreturns := reviewed_publication_binds sampleReviewCrypto sampleReviewCrypto_ideal parseGrant
    parseGrant_stringify 0 ⟨3, sampleReviewedGrant⟩ ⟨3, samplePublishedGrant⟩ sampleDeployment
    sampleDeployment
  exact ⟨⟨_, samplePublicationRun_eq, rfl⟩, hreturns.answered samplePublicationRun_eq rfl⟩

end Moonfort.Executor
