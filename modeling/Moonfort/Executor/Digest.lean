import Moonfort.Executor.Deployment
import Moonfort.Executor.GrantStore
import Moonfort.MoonBit.Crypto
import Moonfort.Sandbox.Profile

/-!
# Canonical digests

The JSON forms of `digest.mbt` and the digests over them. Each form determines
what it was built from, up to the order of what is sorted first.
-/

namespace Moonfort.Sandbox

open MoonBit

/-- `SandboxCommand::to_json`. -/
def SandboxCommand.toJson : SandboxCommand → Json
  | .exec tool args =>
    .array [.string "Exec", .object [("tool", .string tool), ("args", stringsJson args)]]
  | .shell script => .array [.string "Shell", .object [("script", .string script)]]

/-- The JSON of strings determines them. -/
theorem stringsJson_inj {a b : List String} (h : stringsJson a = stringsJson b) : a = b :=
  List.map_injective_iff.mpr (fun _ _ h => Json.string.inj h) (Json.array.inj h)

/-- The JSON of a backend kind determines it. -/
theorem SandboxBackendKind.toJson_inj {a b : SandboxBackendKind} (h : a.toJson = b.toJson) :
    a = b := by
  cases a <;> cases b <;> first | rfl | simp [toJson] at h

/-- The JSON of a network mode determines it. -/
theorem SandboxNetworkMode.toJson_inj {a b : SandboxNetworkMode} (h : a.toJson = b.toJson) :
    a = b := by
  cases a <;> cases b <;> first | rfl | simp [toJson] at h

/-- The JSON of an enforcement requirement determines it. -/
theorem SandboxEnforcementRequirement.toJson_inj {a b : SandboxEnforcementRequirement}
    (h : a.toJson = b.toJson) : a = b := by
  cases a <;> cases b <;> first | rfl | simp [toJson] at h

/-- The JSON of limits determines them. -/
theorem SandboxLimits.toJson_inj {a b : SandboxLimits} (h : a.toJson = b.toJson) : a = b := by
  simp only [toJson, Json.object.injEq, List.cons.injEq, Prod.mk.injEq, Json.number.injEq,
    true_and, and_true] at h
  cases a
  cases b
  simpa only [mk.injEq] using h

/-- The JSON of a command determines it. -/
theorem SandboxCommand.toJson_inj {a b : SandboxCommand} (h : a.toJson = b.toJson) : a = b := by
  cases a with
  | exec tool args =>
    cases b with
    | exec tool' args' =>
      simp only [toJson, Json.array.injEq, Json.object.injEq, List.cons.injEq, Prod.mk.injEq,
        Json.string.injEq, true_and, and_true] at h
      rw [h.1, stringsJson_inj h.2]
    | shell script => simp [toJson] at h
  | shell script =>
    cases b with
    | exec tool args => simp [toJson] at h
    | shell script' =>
      simp only [toJson, Json.array.injEq, Json.object.injEq, List.cons.injEq, Prod.mk.injEq,
        Json.string.injEq, true_and, and_true] at h
      rw [h]

end Moonfort.Sandbox

namespace Moonfort.Executor

open MoonBit Sandbox

/-- `ExecutionGrant::to_json`. -/
def ExecutionGrant.toJson (grant : ExecutionGrant) : Json :=
  .object [("protocol_version", .number grant.protocolVersion),
    ("approval_id", .string grant.approvalId), ("request_id", .string grant.requestId),
    ("workspace_id", .string grant.workspaceId), ("backend", grant.backend.toJson),
    ("enforcement_requirement", grant.enforcementRequirement.toJson),
    ("network", grant.network.toJson), ("allowed_egress", stringsJson grant.allowedEgress),
    ("allowed_commands", stringsJson grant.allowedCommands), ("limits", grant.limits.toJson),
    ("working_directory", .string grant.workingDirectory), ("command", grant.command.toJson),
    ("backend_config_id", .string grant.backendConfigId),
    ("expires_at_ms", .string (intText grant.expiresAtMs))]

/-- The JSON of a grant determines it. -/
theorem ExecutionGrant.toJson_inj {a b : ExecutionGrant} (h : a.toJson = b.toJson) : a = b := by
  simp only [toJson, Json.object.injEq, List.cons.injEq, Prod.mk.injEq, Json.number.injEq,
    Json.string.injEq, true_and, and_true] at h
  obtain ⟨hversion, hid, hrequest, hworkspace, hbackend, henforcement, hnetwork, hegress,
    hcommands, hlimits, hdirectory, hcommand, hconfig, hexpires⟩ := h
  cases a
  cases b
  simp only [mk.injEq]
  exact ⟨hversion, hid, hrequest, hworkspace, SandboxBackendKind.toJson_inj hbackend,
    SandboxEnforcementRequirement.toJson_inj henforcement, SandboxNetworkMode.toJson_inj hnetwork,
    stringsJson_inj hegress, stringsJson_inj hcommands, SandboxLimits.toJson_inj hlimits,
    hdirectory, SandboxCommand.toJson_inj hcommand, hconfig, intText_inj hexpires⟩

/-- The libraries of the grant store, with the JSON form of grants. What the JSON
library reads back from a text is a parameter. -/
def jsonGrantLibrary (crypto : Crypto) (parse : String → Option ExecutionGrant)
    (hparse : ∀ grant : ExecutionGrant, parse grant.toJson.stringify = some grant) :
    GrantLibrary String where
  grants := ⟨fun grant => grant.toJson.stringify, parse, hparse⟩
  sorted := sortStrings
  sha256Hex := crypto.digestText

/-- `sorted_map_entries`. -/
def sortedMapEntries (values : List (String × String)) : Json :=
  .array ((sortStrings (values.map Prod.fst)).map fun key =>
    .object [("label", .string key), ("path", .string ((values.lookup key).getD ""))])

/-- `command_digest`. -/
def commandDigest (crypto : Crypto) (grant : ExecutionGrant) (profile : SandboxProfile)
    (localTools : List (String × String)) (backendConfigId backendBindingDigest : String) :
    String :=
  crypto.digestText (Json.object [("approval_id", .string grant.approvalId),
    ("request_id", .string grant.requestId),
    ("profile_digest", .string (profileDigest crypto.digestText profile)),
    ("working_directory", .string grant.workingDirectory), ("command", grant.command.toJson),
    ("local_tools", sortedMapEntries localTools), ("backend_config_id", .string backendConfigId),
    ("backend_binding_digest", .string backendBindingDigest)]).stringify

/-- The manifest of `trusted_aen_binding_digest`: the deployment without its secrets. -/
def trustedAenManifest (config : TrustedAenConfig) : Json :=
  .object [("base_url", .string config.baseUrl),
    ("executor_image_ref", .string config.executorImageRef),
    ("expected_vcpu_count", .number config.expectedVcpuCount),
    ("expected_root_disk_mib", .number config.expectedRootDiskMib),
    ("provisioner_url", .string config.provisionerUrl),
    ("provisioner_key_id", .string config.provisionerKeyId),
    ("workspace_registry_repository", .string config.workspaceRegistryRepository),
    ("max_workspace_bytes", .string (intText config.maxWorkspaceBytes)),
    ("guest_workspace", .string config.guestWorkspace),
    ("guest_scratch", .string config.guestScratch),
    ("guest_attester", .string config.guestAttester),
    ("guest_supervisor", .string config.guestSupervisor),
    ("executor_root_digest", .string config.executorRootDigest),
    ("guest_attester_digest", .string config.guestAttesterDigest),
    ("guest_supervisor_digest", .string config.guestSupervisorDigest),
    ("tool_registry_digest", .string config.toolRegistryDigest),
    ("guest_tools", sortedMapEntries config.guestTools)]

/-- `trusted_aen_binding_digest`. -/
def trustedAenBindingDigest (crypto : Crypto) (config : TrustedAenConfig) : String :=
  crypto.digestText (trustedAenManifest config).stringify

/-- `trusted_local_binding_digest`. -/
def trustedLocalBindingDigest (crypto : Crypto) (bindings : List (String × String)) : String :=
  crypto.digestText (sortedMapEntries bindings).stringify

/-- Two association lists are the same map. -/
def SameMap (a b : List (String × String)) : Prop := ∀ key, a.lookup key = b.lookup key

/-- A key is looked up in a map exactly when it is one of its keys. -/
theorem mem_keys_iff (values : List (String × String)) (key : String) :
    key ∈ sortStrings (values.map Prod.fst) ↔ ∃ value, values.lookup key = some value := by
  rw [(sortStrings_perm _).mem_iff, ← Option.isSome_iff_exists, List.lookup_isSome_iff]
  simp only [List.mem_map, beq_iff_eq]
  constructor
  · rintro ⟨entry, hmem, rfl⟩
    exact ⟨entry, hmem, rfl⟩
  · rintro ⟨entry, hmem, heq⟩
    exact ⟨entry, hmem, heq.symm⟩

/-- The sorted entries of a map determine it. -/
theorem sortedMapEntries_inj {a b : List (String × String)}
    (h : sortedMapEntries a = sortedMapEntries b) : SameMap a b := by
  rw [sortedMapEntries, sortedMapEntries, Json.array.injEq] at h
  obtain ⟨entry, hentry⟩ : ∃ entry : String × String → Json,
      entry = fun pair => .object [("label", .string pair.1), ("path", .string pair.2)] := ⟨_, rfl⟩
  have hentry_inj : Function.Injective entry := by
    intro x y hxy
    rw [hentry] at hxy
    simp only [Json.object.injEq, List.cons.injEq, Prod.mk.injEq, Json.string.injEq, true_and,
      and_true] at hxy
    exact Prod.ext hxy.1 hxy.2
  have hpairs : (sortStrings (a.map Prod.fst)).map (fun key => (key, (a.lookup key).getD "")) =
      (sortStrings (b.map Prod.fst)).map fun key => (key, (b.lookup key).getD "") := by
    apply List.map_injective_iff.mpr hentry_inj
    rw [List.map_map, List.map_map, hentry]
    exact h
  have hkeys : sortStrings (a.map Prod.fst) = sortStrings (b.map Prod.fst) := by
    have hfst := congrArg (List.map Prod.fst) hpairs
    simpa only [List.map_map, Function.comp_def, List.map_id'] using hfst
  intro key
  by_cases hmem : key ∈ sortStrings (a.map Prod.fst)
  · obtain ⟨x, hx⟩ := (mem_keys_iff a key).mp hmem
    obtain ⟨y, hy⟩ := (mem_keys_iff b key).mp (hkeys ▸ hmem)
    have hvalue : (a.lookup key).getD "" = (b.lookup key).getD "" := by
      rw [hkeys, List.map_inj_left] at hpairs
      exact (Prod.mk.inj (hpairs key (hkeys ▸ hmem))).2
    rw [hx, hy, Option.getD_some, Option.getD_some] at hvalue
    rw [hx, hy, hvalue]
  · have hmem' : key ∉ sortStrings (b.map Prod.fst) := hkeys ▸ hmem
    rw [mem_keys_iff, not_exists, ← Option.eq_none_iff_forall_ne_some] at hmem hmem'
    rw [hmem, hmem']

/-- Two AEN deployments differ at most in their secrets. -/
structure SameAenBinding (a b : TrustedAenConfig) : Prop where
  baseUrl : a.baseUrl = b.baseUrl
  executorImageRef : a.executorImageRef = b.executorImageRef
  expectedVcpuCount : a.expectedVcpuCount = b.expectedVcpuCount
  expectedRootDiskMib : a.expectedRootDiskMib = b.expectedRootDiskMib
  provisionerUrl : a.provisionerUrl = b.provisionerUrl
  provisionerKeyId : a.provisionerKeyId = b.provisionerKeyId
  workspaceRegistryRepository : a.workspaceRegistryRepository = b.workspaceRegistryRepository
  maxWorkspaceBytes : a.maxWorkspaceBytes = b.maxWorkspaceBytes
  guestWorkspace : a.guestWorkspace = b.guestWorkspace
  guestScratch : a.guestScratch = b.guestScratch
  guestAttester : a.guestAttester = b.guestAttester
  guestSupervisor : a.guestSupervisor = b.guestSupervisor
  executorRootDigest : a.executorRootDigest = b.executorRootDigest
  guestAttesterDigest : a.guestAttesterDigest = b.guestAttesterDigest
  guestSupervisorDigest : a.guestSupervisorDigest = b.guestSupervisorDigest
  toolRegistryDigest : a.toolRegistryDigest = b.toolRegistryDigest
  guestTools : SameMap a.guestTools b.guestTools

/-- The manifest of an AEN configuration determines what it binds. -/
theorem trustedAenManifest_inj {a b : TrustedAenConfig}
    (h : trustedAenManifest a = trustedAenManifest b) : SameAenBinding a b := by
  simp only [trustedAenManifest, Json.object.injEq, List.cons.injEq, Prod.mk.injEq,
    Json.number.injEq, Json.string.injEq, true_and, and_true] at h
  obtain ⟨h1, h2, h3, h4, h5, h6, h7, h8, h9, h10, h11, h12, h13, h14, h15, h16, htools⟩ := h
  exact ⟨h1, h2, h3, h4, h5, h6, h7, intText_inj h8, h9, h10, h11, h12, h13, h14, h15, h16,
    sortedMapEntries_inj htools⟩

/-- Without collisions the binding digest determines the deployment but for its secrets. -/
theorem trustedAenBindingDigest_inj {crypto : Crypto} (hcrypto : crypto.Ideal)
    {a b : TrustedAenConfig}
    (h : trustedAenBindingDigest crypto a = trustedAenBindingDigest crypto b) :
    SameAenBinding a b :=
  trustedAenManifest_inj (Json.stringify_inj (hcrypto.digestText_inj h))

/-- Without collisions the binding digest determines the tools. -/
theorem trustedLocalBindingDigest_inj {crypto : Crypto} (hcrypto : crypto.Ideal)
    {a b : List (String × String)}
    (h : trustedLocalBindingDigest crypto a = trustedLocalBindingDigest crypto b) : SameMap a b :=
  sortedMapEntries_inj (Json.stringify_inj (hcrypto.digestText_inj h))

/-- Two grants differ at most in the order of their egress and command sets. -/
structure SameCandidate (a b : ExecutionGrant) : Prop where
  egress : a.allowedEgress.Perm b.allowedEgress
  commands : a.allowedCommands.Perm b.allowedCommands
  rest : { a with allowedEgress := [], allowedCommands := [] } =
    { b with allowedEgress := [], allowedCommands := [] }

/-- Such grants select the same backend. -/
theorem SameCandidate.backend {a b : ExecutionGrant} (h : SameCandidate a b) :
    a.backend = b.backend := by
  have hbackend := congrArg ExecutionGrant.backend h.rest
  exact hbackend

/-- Such grants name the same deployment. -/
theorem SameCandidate.backendConfigId {a b : ExecutionGrant} (h : SameCandidate a b) :
    a.backendConfigId = b.backendConfigId := by
  have hid := congrArg ExecutionGrant.backendConfigId h.rest
  exact hid

/-- Without collisions the grant digest determines the grant up to the order of its sets. -/
theorem grantDigest_inj {crypto : Crypto} (hcrypto : crypto.Ideal)
    {parse : String → Option ExecutionGrant}
    {hparse : ∀ grant : ExecutionGrant, parse grant.toJson.stringify = some grant}
    {a b : ExecutionGrant}
    (h : grantDigest (jsonGrantLibrary crypto parse hparse) a =
      grantDigest (jsonGrantLibrary crypto parse hparse) b) : SameCandidate a b := by
  have hcanonical := ExecutionGrant.toJson_inj (Json.stringify_inj (hcrypto.digestText_inj h))
  have hegress : sortStrings a.allowedEgress = sortStrings b.allowedEgress :=
    congrArg ExecutionGrant.allowedEgress hcanonical
  have hcommands : sortStrings a.allowedCommands = sortStrings b.allowedCommands :=
    congrArg ExecutionGrant.allowedCommands hcanonical
  exact
    { egress := (sortStrings_perm _).symm.trans (hegress ▸ sortStrings_perm b.allowedEgress)
      commands := (sortStrings_perm _).symm.trans (hcommands ▸ sortStrings_perm b.allowedCommands)
      rest := congrArg (fun grant : ExecutionGrant =>
        { grant with allowedEgress := [], allowedCommands := [] }) hcanonical }

end Moonfort.Executor
