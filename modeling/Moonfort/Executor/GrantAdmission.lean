import Moonfort.Executor.GrantAcceptance
import Moonfort.Executor.LiveOutput
import Moonfort.MoonBit.StandardCrypto
import Moonfort.Sandbox.CanonicalPath
import Moonfort.Sandbox.CommandPreflight
import Moonfort.Sandbox.HexDigest
import Mathlib.Data.List.TakeWhile

/-!
# Grant admission and command preflight

A grant is checked twice: by the executor when it is published and consumed, and
by the preflight of the sandbox, on the profile that the executor derives from
it. This file says what the second check asks beyond the first.
-/

namespace Moonfort.Sandbox

/-- A refusal by a static check, independent of the backend's readiness. -/
def SandboxPreparationRefusal.isStatic : SandboxPreparationRefusal → Bool
  | .invalidProfile _ | .emptyCommand _ | .invalidExecToolLabel _ | .commandContainsNul _ _
  | .commandNotAllowed _ => true
  | .backendUnavailable _ _ | .localBackendCannotClaimEnforced | .degradedNotAllowed _ _ => false

/-- The preflight refuses by a static check. -/
def StaticallyRefused (result : Except SandboxPreparationRefusal PreparedSandboxCommand) : Prop :=
  ∃ refusal, result = .error refusal ∧ refusal.isStatic = true

/-- Every refusal of a command is static. -/
theorem isStatic_of_commandCapability {command : SandboxCommand}
    {refusal : SandboxPreparationRefusal} (h : commandCapability command = .error refusal) :
    refusal.isStatic = true := by
  unfold commandCapability at h
  repeat' split at h
  all_goals cases h
  all_goals rfl

/-- No refusal for lack of enforcement is static. -/
theorem isStatic_of_preparationEnforcement {backend : SandboxBackendKind}
    {readiness : SandboxBackendReadiness} {requirement : SandboxEnforcementRequirement}
    {refusal : SandboxPreparationRefusal}
    (h : preparationEnforcement backend readiness requirement = .error refusal) :
    refusal.isStatic = false := by
  unfold preparationEnforcement at h
  repeat' split at h
  all_goals cases h
  all_goals rfl

/-- The static checks pass when the profile is accepted and the command's capability is allowed. -/
theorem not_staticallyRefused_iff {sha256Hex : String → String} {profile : SandboxProfile}
    {command : SandboxCommand} {readiness : SandboxBackendReadiness} :
    ¬ StaticallyRefused (prepareSandboxCommand sha256Hex profile command readiness) ↔
      profileRejection profile = "" ∧
        ∃ capability, commandCapability command = .ok capability ∧
          profile.allowedCommands.contains capability = true := by
  unfold prepareSandboxCommand
  by_cases hprofile : profileRejection profile = ""
  · rw [if_neg (not_not.mpr hprofile)]
    cases hcommand : commandCapability command with
    | error refusal =>
      constructor
      · intro h
        exact absurd ⟨refusal, rfl, isStatic_of_commandCapability hcommand⟩ h
      · rintro ⟨-, capability, h, -⟩
        cases h
    | ok capability =>
      cases hallowed : profile.allowedCommands.contains capability with
      | false =>
        constructor
        · intro h
          exact absurd ⟨.commandNotAllowed capability, by simp only [hallowed]; rfl, rfl⟩ h
        · rintro ⟨-, other, h, hother⟩
          cases h
          rw [hallowed] at hother
          cases hother
      | true =>
        refine ⟨fun _ => ⟨hprofile, capability, rfl, hallowed⟩, ?_⟩
        rintro - ⟨refusal, h, hstatic⟩
        simp only [hallowed, Bool.not_true, Bool.false_eq_true, if_false] at h
        split at h
        next hready =>
          cases h
          rw [isStatic_of_preparationEnforcement hready] at hstatic
          cases hstatic
        next => cases h
  · rw [if_pos hprofile]
    constructor
    · intro h
      exact absurd ⟨_, rfl, rfl⟩ h
    · exact fun h => absurd h.1 hprofile

end Moonfort.Sandbox

namespace Moonfort.Executor

open MoonBit Sandbox

/-- `profile_for_grant`. -/
def profileForGrant (grant : ExecutionGrant) (workspace : DeployedWorkspace) (scratch : String)
    (liveOutput : Option LiveOutputReference) (evidenceRoot : String) : SandboxProfile where
  runId := grant.requestId
  workspaceRoot := workspace.root
  scratchRoot := scratch
  backend := grant.backend
  enforcementRequirement := grant.enforcementRequirement
  network := grant.network
  readOnlyRoots := workspace.readOnlyRoots
  allowedEgress := grant.allowedEgress
  allowedCommands := grant.allowedCommands
  limits := grant.limits
  readOnlyWorkspace := true
  executorEvidenceRoot := if liveOutput.isSome then evidenceRoot else ""
  liveOutputId :=
    match liveOutput with
    | some reference => reference.streamId
    | none => ""

/-- The directory that `allocate_scratch` creates from its random bytes. -/
def allocatedScratch (random : List UInt8) (config : Deployment) : String :=
  config.scratchRoot ++ "/" ++ bytesToHexString random

/-- `paths_overlap` of the executor is the overlap of the sandbox. -/
theorem pathsOverlap_iff (left right : String) :
    pathsOverlap left right = true ↔ Overlaps left right := by
  have hcontains : ∀ root path, pathContains root path = true ↔
      root = path ∨ Sandbox.pathContains root path = true := by
    intro root path
    rw [pathContains, Bool.or_eq_true, beq_iff_eq, Sandbox.pathContains]
  rw [pathsOverlap, Bool.or_eq_true, hcontains, hcontains, Overlaps]
  constructor
  · rintro ((h | h) | (h | h))
    · exact .inl h
    · exact .inr (.inl h)
    · exact .inl h.symm
    · exact .inr (.inr h)
  · rintro (h | h | h)
    · exact .inl (.inl h)
    · exact .inl (.inr h)
    · exact .inr (.inr h)

/-- The executor's canonical paths are canonical for the sandbox. -/
theorem pathIsCanonicalAbsolute_of_canonical {path : String}
    (h : canonicalAbsolutePath path = true) : pathIsCanonicalAbsolute path = true := by
  simp only [canonicalAbsolutePath, pathIsCanonicalAbsolute, Bool.and_eq_true] at h ⊢
  exact ⟨⟨⟨h.1.1.1.1, h.1.1.1.2⟩, h.1.2⟩, h.2⟩

/-- A root that the configuration accepts for a workspace. -/
structure RootAccepted (deployment : Deployment) (root : String) : Prop where
  canonical : pathIsCanonicalAbsolute root = true
  scratch_apart : ¬ Overlaps root deployment.scratchRoot
  retention_apart : ¬ Overlaps root deployment.retentionRoot

variable {deployment : Deployment} {files : HostFiles}

/-- A valid root is one the deployment accepts. -/
theorem rootAccepted_of_valid {root : String}
    (h : rootIsValid files deployment root = true) : RootAccepted deployment root := by
  simp only [rootIsValid, Bool.and_eq_true, Bool.not_eq_true', Bool.eq_false_iff, ne_eq,
    pathsOverlap_iff] at h
  exact
    { canonical := pathIsCanonicalAbsolute_of_canonical h.1.1.1.1.1
      scratch_apart := h.1.2
      retention_apart := h.2 }

/-- A workspace that the configuration accepts. -/
structure WorkspaceAccepted (deployment : Deployment) (workspace : DeployedWorkspace) : Prop where
  root : RootAccepted deployment workspace.root
  readOnlyRoots : ∀ root ∈ workspace.readOnlyRoots, RootAccepted deployment root
  covered : ∃ root ∈ workspace.readOnlyRoots,
    root = workspace.root ∨ Sandbox.pathContains root workspace.root = true

/-- What loading establishes about the executor's own roots and its workspaces. -/
structure DeploymentAccepted (deployment : Deployment) : Prop where
  scratch_canonical : pathIsCanonicalAbsolute deployment.scratchRoot = true
  retention_canonical : pathIsCanonicalAbsolute deployment.retentionRoot = true
  scratch_ne_root : deployment.scratchRoot ≠ "/"
  retention_ne_root : deployment.retentionRoot ≠ "/"
  own_apart : ¬ Overlaps deployment.scratchRoot deployment.retentionRoot
  keyId : safeIdentifier deployment.artifactKeyId = true
  workspaces : ∀ entry ∈ deployment.workspaces, WorkspaceAccepted deployment entry.2

/-- A workspace without an error is accepted. -/
theorem workspaceAccepted_of_entry
    {entry : String × DeployedWorkspace} (h : workspaceEntryError files deployment entry = "") :
    WorkspaceAccepted deployment entry.2 := by
  unfold workspaceEntryError at h
  simp (disch := decide) only [message_eq_empty_iff, Bool.not_eq_true', Bool.not_eq_false,
    Bool.and_eq_true, List.all_eq_true, List.any_eq_true, and_true] at h
  obtain ⟨⟨-, hroot⟩, hroots, root, hmem, hcover⟩ := h
  have hcontains : root = entry.2.root ∨ Sandbox.pathContains root entry.2.root = true := by
    rw [pathContains, Bool.or_eq_true, beq_iff_eq] at hcover
    simpa only [Sandbox.pathContains, beq_iff_eq] using hcover
  exact
    { root := rootAccepted_of_valid hroot
      readOnlyRoots := fun root hroot => rootAccepted_of_valid (hroots root hroot)
      covered := ⟨root, hmem, hcontains⟩ }

/-- Registries without an error have none in any workspace. -/
theorem workspaceEntryError_of_registries (h : registriesError files deployment = "") :
    ∀ entry ∈ deployment.workspaces, workspaceEntryError files deployment entry = "" := by
  unfold registriesError at h
  split at h
  next entry hfind =>
    have hentry := List.find?_some hfind
    rw [h] at hentry
    cases hentry
  next hfind =>
    intro entry hmem
    have hentry := List.find?_eq_none.mp hfind entry hmem
    rwa [bne_iff_ne, not_not] at hentry

/-- The checks of a deployment that later steps rely on. -/
structure DeploymentChecked (files : HostFiles) (deployment : Deployment) : Prop where
  scratch : canonicalAbsolutePath deployment.scratchRoot = true
  retention : canonicalAbsolutePath deployment.retentionRoot = true
  own_apart : ¬ Overlaps deployment.scratchRoot deployment.retentionRoot
  limits : limitsAreValid deployment.limits = true
  keyId : safeIdentifier deployment.artifactKeyId = true
  workspaces : ∀ entry ∈ deployment.workspaces, workspaceEntryError files deployment entry = ""

/-- A deployment without an error has passed every check. -/
theorem deploymentChecked_of_error
    (h : deploymentError files deployment = "") : DeploymentChecked files deployment := by
  unfold deploymentError at h
  simp (disch := decide) only [message_eq_empty_iff] at h
  obtain ⟨-, -, hscratch, -, hretention, -, -, -, hapart, hlimits, hkey, hregistries⟩ := h
  simp only [Bool.not_eq_true', Bool.not_eq_false, Bool.and_eq_true] at hscratch hretention hkey
  rw [Bool.not_eq_true', Bool.not_eq_false] at hapart hlimits
  simp only [Bool.and_eq_true, Bool.not_eq_true', Bool.eq_false_iff, ne_eq, pathsOverlap_iff]
    at hapart
  exact
    { scratch := hscratch.1
      retention := hretention.1
      own_apart := hapart.2
      limits := hlimits
      keyId := hkey.1
      workspaces := workspaceEntryError_of_registries hregistries }

/-- A deployment without an error is accepted. -/
theorem deploymentAccepted_of_error
    (h : deploymentError files deployment = "") : DeploymentAccepted deployment := by
  have hchecked := deploymentChecked_of_error h
  have hscratch := pathIsCanonicalAbsolute_of_canonical hchecked.scratch
  have hretention := pathIsCanonicalAbsolute_of_canonical hchecked.retention
  exact
    { scratch_canonical := hscratch
      retention_canonical := hretention
      scratch_ne_root := fun h => hchecked.own_apart (h ▸ overlaps_root hretention)
      retention_ne_root := fun h => hchecked.own_apart (h ▸ (overlaps_root hscratch).symm)
      own_apart := hchecked.own_apart
      keyId := hchecked.keyId
      workspaces := fun entry hmem => workspaceAccepted_of_entry (hchecked.workspaces entry hmem) }

/-- The hexadecimal text of some bytes is not empty. -/
theorem bytesToHexString_ne_nil {bytes : List UInt8} (h : bytes ≠ []) :
    (bytesToHexString bytes).toList ≠ [] := by
  obtain ⟨byte, rest, rfl⟩ := List.exists_cons_of_ne_nil h
  rw [bytesToHexString, String.toList_ofList, List.flatMap_cons, hexPair]
  exact List.cons_ne_nil _ _

/-- The hexadecimal text of some bytes names a directory entry. -/
theorem isEntryName_bytesToHexString {bytes : List UInt8} (h : bytes ≠ []) :
    IsEntryName (bytesToHexString bytes) := by
  have hhex := allChars_bytesToHexString bytes
  rw [allChars, List.all_eq_true] at hhex
  have hdot : '.' ∉ (bytesToHexString bytes).toList := fun hmem =>
    absurd (hhex _ hmem) (by decide)
  exact
    { nonempty := bytesToHexString_ne_nil h
      noSlash := fun hmem => absurd (hhex _ hmem) (by decide)
      ne_dot := fun heq => hdot (heq ▸ by decide)
      ne_dotdot := fun heq => hdot (heq ▸ by decide) }

/-- A text whose first character is not blank is not blank. -/
theorem trim_ne_empty {value : String} {c : Char} {rest : List Char}
    (hvalue : value.toList = c :: rest) (hc : isTrimmed c = false) : trim value ≠ "" := by
  intro h
  have hnil := congrArg String.toList h
  rw [trim, String.toList_ofList, hvalue, List.dropWhile_cons_of_neg (by rw [hc]; decide),
    show "".toList = [] from rfl, List.reverse_eq_nil_iff, List.dropWhile_eq_nil_iff] at hnil
  have htrimmed := hnil c (List.mem_reverse.mpr List.mem_cons_self)
  rw [hc] at htrimmed
  cases htrimmed

/-- A canonical path is not blank. -/
theorem trim_canonical_ne_empty {path : String} (h : pathIsCanonicalAbsolute path = true) :
    trim path ≠ "" := by
  obtain ⟨rest, hrest⟩ := (hasPrefix_iff _ _).mp (hasPrefix_of_canonical h)
  exact trim_ne_empty hrest.symm (by decide)

/-- The characters of an identifier. -/
theorem safeIdentifier_cases {value : String} (h : safeIdentifier value = true) :
    ∃ c rest, value.toList = c :: rest ∧
      ∀ d ∈ c :: rest, isAsciiAlphanumeric d = true ∨ d = '-' ∨ d = '_' := by
  simp only [safeIdentifier, Bool.and_eq_true, decide_eq_true_eq] at h
  have hne : value.toList ≠ [] := by
    intro hnil
    rw [utf16Length, hnil] at h
    exact absurd h.1.1 (by decide)
  obtain ⟨c, rest, heq⟩ := List.exists_cons_of_ne_nil hne
  refine ⟨c, rest, heq, ?_⟩
  rw [allChars, heq, List.all_eq_true] at h
  intro d hd
  have hd' := h.2 d hd
  simp only [Bool.or_eq_true, beq_iff_eq] at hd'
  rw [isAsciiAlphanumeric]
  rcases hd' with ((halpha | hdigit) | hdash) | hunderscore
  · left
    rw [isAsciiAlphabetic] at halpha
    rw [halpha, Bool.true_or]
  · left
    rw [isAsciiDigit] at hdigit
    rw [hdigit, Bool.or_true]
  · exact .inr (.inl hdash)
  · exact .inr (.inr hunderscore)

/-- Letters and digits are not blank, and neither are the other characters of identifiers. -/
theorem isTrimmed_eq_false {c : Char} (h : isAsciiAlphanumeric c = true ∨ c = '-' ∨ c = '_') :
    isTrimmed c = false := by
  rw [Bool.eq_false_iff]
  intro htrimmed
  simp only [isTrimmed, Bool.or_eq_true, beq_iff_eq] at htrimmed
  rcases htrimmed with ((rfl | rfl) | rfl) | rfl <;> revert h <;> decide

/-- A command whose tool is neither reserved nor begins with a mark, or whose script is not
blank. -/
def CommandReady : SandboxCommand → Prop
  | .exec tool _ =>
    tool ≠ shellCompatibilityCommandLabel ∧ hasPrefix tool "-" = false ∧ hasPrefix tool "_" = false
  | .shell script => trim script ≠ ""

/-- What the preflight asks of a grant beyond its validation. -/
structure PreflightReady (grant : ExecutionGrant) : Prop where
  egress : grant.allowedEgress ≠ [] → grant.network = .allowList
  command : CommandReady grant.command

/-- An identifier is a safe label of a tool unless it is reserved or begins with a mark. -/
theorem execToolLabelIsSafe_iff {tool : String} (h : safeIdentifier tool = true) :
    execToolLabelIsSafe tool = true ↔
      tool ≠ shellCompatibilityCommandLabel ∧ hasPrefix tool "-" = false ∧
        hasPrefix tool "_" = false := by
  obtain ⟨c, rest, htool, hchars⟩ := safeIdentifier_cases h
  have hprefix : ∀ mark : Char, ([mark].isPrefixOf tool.toList = false ↔ c ≠ mark) := by
    intro mark
    rw [htool, List.isPrefixOf_cons_cons, List.isPrefixOf_nil_left, Bool.and_true,
      beq_eq_false_iff_ne]
    exact ne_comm
  have hall : allChars tool (fun c =>
      isAsciiAlphanumeric c || c == '_' || c == '-' || c == '.' || c == '+') = true := by
    rw [allChars, htool, List.all_eq_true]
    intro d hd
    rcases hchars d hd with hd | rfl | rfl
    · simp only [hd, Bool.true_or]
    · rfl
    · rfl
  rw [execToolLabelIsSafe, hall, htool, List.head?_cons, Bool.and_true, Bool.and_eq_true,
    bne_iff_ne, hasPrefix, hasPrefix, show "-".toList = ['-'] from rfl,
    show "_".toList = ['_'] from rfl, hprefix, hprefix]
  constructor
  · rintro ⟨hc, hlabel⟩
    refine ⟨hlabel, ?_, ?_⟩
    · rintro rfl
      exact absurd hc (by decide)
    · rintro rfl
      exact absurd hc (by decide)
  · rintro ⟨hlabel, hdash, hunderscore⟩
    rcases hchars c List.mem_cons_self with hc | hc | hc
    · exact ⟨hc, hlabel⟩
    · exact absurd hc hdash
    · exact absurd hc hunderscore

/-- On an accepted command the preflight finds the capability that the grant check found. -/
theorem commandCapability_iff {command : SandboxCommand} {limits : ExecutorLimits}
    (h : commandShapeError command limits = "") (capability : String) :
    commandCapability command = .ok capability ↔
      grantCapability command = capability ∧ CommandReady command := by
  cases command with
  | exec tool args =>
    unfold commandShapeError at h
    simp (disch := decide) only [message_eq_empty_iff] at h
    obtain ⟨htool, -, hargs, -⟩ := h
    have hsafe : safeIdentifier tool = true := by
      by_contra hreserved
      rw [Bool.not_eq_true] at hreserved
      rw [hreserved, Bool.not_false, Bool.true_and, bne_iff_ne, not_not] at htool
      rw [htool] at hreserved
      exact absurd hreserved (by decide)
    obtain ⟨c, rest, hchars, hall⟩ := safeIdentifier_cases hsafe
    have htrim : trim tool ≠ "" :=
      trim_ne_empty hchars (isTrimmed_eq_false (hall c List.mem_cons_self))
    have hnul : args.findIdx? (fun argument => containsText argument "\x00") = none := by
      rw [List.findIdx?_eq_none_iff]
      rw [Bool.not_eq_true, List.any_eq_false] at hargs
      intro argument hmem
      have hargument := hargs argument hmem
      rw [Bool.or_eq_true, not_or, Bool.not_eq_true] at hargument
      exact hargument.1
    rw [CommandReady, ← execToolLabelIsSafe_iff hsafe, commandCapability,
      beq_eq_false_iff_ne.mpr htrim, if_neg Bool.false_ne_true, hnul]
    cases execToolLabelIsSafe tool with
    | false => simp
    | true => simp [grantCapability]
  | shell script =>
    unfold commandShapeError at h
    simp (disch := decide) only [message_eq_empty_iff, and_true, Bool.or_eq_true, not_or,
      Bool.not_eq_true] at h
    rw [CommandReady, commandCapability, h.1]
    by_cases hblank : trim script = ""
    · simp [hblank]
    · simp [hblank, grantCapability]

/-- The roots that a sandbox gets from the deployment: its scratch directory and the evidence
root are canonical, and lie apart from each other and from every root of a workspace. -/
structure DeploymentRoots (deployment : Deployment) (random : List UInt8) : Prop where
  scratch : pathIsCanonicalAbsolute (allocatedScratch random deployment) = true
  evidence : pathIsCanonicalAbsolute (liveOutputRoot deployment) = true
  scratch_apart : ∀ root, RootAccepted deployment root →
    rootsOverlap root (allocatedScratch random deployment) = false
  evidence_apart : ∀ root, RootAccepted deployment root →
    rootsOverlap (liveOutputRoot deployment) root = false
  evidence_scratch :
    rootsOverlap (liveOutputRoot deployment) (allocatedScratch random deployment) = false

/-- The roots of an accepted deployment. -/
theorem DeploymentAccepted.roots {random : List UInt8}
    (hdeployment : DeploymentAccepted deployment) (hrandom : random ≠ []) :
    DeploymentRoots deployment random := by
  have hname := isEntryName_bytesToHexString hrandom
  have hne : bytesToHexString random ≠ "" := fun h => hname.nonempty (by rw [h]; rfl)
  have hlive_name : IsEntryName "live-output" := by
    constructor <;> decide
  have hroot_text : liveOutputRoot deployment =
      deployment.retentionRoot ++ "/" ++ "live-output" := by
    rw [liveOutputRoot, String.append_assoc]
    rfl
  have hscratch : pathIsCanonicalAbsolute (allocatedScratch random deployment) = true :=
    canonical_entry hdeployment.scratch_canonical hdeployment.scratch_ne_root hname
  have hevidence : pathIsCanonicalAbsolute (liveOutputRoot deployment) = true := by
    rw [hroot_text]
    exact canonical_entry hdeployment.retention_canonical hdeployment.retention_ne_root hlive_name
  have hscratch_below : closedPath deployment.scratchRoot <+:
      closedPath (allocatedScratch random deployment) :=
    closedPath_prefix_entry hdeployment.scratch_ne_root hne
  have hevidence_below : closedPath deployment.retentionRoot <+:
      closedPath (liveOutputRoot deployment) := by
    rw [hroot_text]
    exact closedPath_prefix_entry hdeployment.retention_ne_root (by decide)
  refine ⟨hscratch, hevidence, fun root hroot => ?_, fun root hroot => ?_, ?_⟩
  · rw [Bool.eq_false_iff, ne_eq, rootsOverlap_iff hroot.canonical hscratch]
    exact fun h => hroot.scratch_apart (Overlaps.of_below hroot.canonical
      hdeployment.scratch_canonical hroot.canonical hscratch (List.prefix_refl _) hscratch_below h)
  · rw [Bool.eq_false_iff, ne_eq, rootsOverlap_iff hevidence hroot.canonical]
    exact fun h => hroot.retention_apart (Overlaps.of_below hdeployment.retention_canonical
      hroot.canonical hevidence hroot.canonical hevidence_below (List.prefix_refl _) h).symm
  · rw [Bool.eq_false_iff, ne_eq, rootsOverlap_iff hevidence hscratch]
    exact fun h => hdeployment.own_apart (Overlaps.of_below hdeployment.retention_canonical
      hdeployment.scratch_canonical hevidence hscratch hevidence_below hscratch_below h).symm

/-- The profile of an accepted grant passes, but for its network and egress. -/
theorem profileRejection_profileForGrant_iff {grant : ExecutionGrant}
    {config : ExecutorConfig} {workspace : DeployedWorkspace} {random : List UInt8}
    {live : Option LiveOutputReference} (hdeployment : DeploymentAccepted deployment)
    (hgrant : GrantAccepted grant config) (hworkspace : WorkspaceAccepted deployment workspace)
    (hrandom : random ≠ []) (hlive : ∀ reference ∈ live,
      reference.streamId ≠ "" ∧ allChars reference.streamId isHexDigit = true) :
    profileRejection (profileForGrant grant workspace (allocatedScratch random deployment) live
        (liveOutputRoot deployment)) = "" ↔
      (grant.allowedEgress ≠ [] → grant.network = .allowList) := by
  obtain ⟨hscratch, hevidence, hroots_scratch, hevidence_roots, hevidence_scratch⟩ :=
    hdeployment.roots hrandom
  have hevidence_ne : liveOutputRoot deployment ≠ "" := fun h =>
    toList_ne_nil_of_canonical hevidence (by rw [h]; rfl)
  obtain ⟨c, rest, hid, hchars⟩ := safeIdentifier_cases hgrant.requestId
  obtain ⟨hwall, hcpu, hmemory, hdisk, hprocesses, houtput⟩ :=
    limits_pos_of_accepted hgrant.limits_ok
  have hroots_apart : (workspace.readOnlyRoots.any fun root =>
      rootsOverlap (liveOutputRoot deployment) root) = false := by
    rw [List.any_eq_false]
    intro root hmem
    rw [hevidence_roots root (hworkspace.readOnlyRoots root hmem)]
    decide
  rw [profileRejection_eq_empty_iff]
  constructor
  · intro h hegress
    cases hnetwork : grant.network with
    | allowList => rfl
    | deny => exact absurd (h.deny_egress hnetwork) hegress
    | unrestricted => exact absurd (h.unrestricted_egress hnetwork) hegress
  · intro hegress
    exact
      { runId := trim_ne_empty hid (isTrimmed_eq_false (hchars c List.mem_cons_self))
        workspaceRoot := trim_canonical_ne_empty hworkspace.root.canonical
        scratchRoot := trim_canonical_ne_empty hscratch
        workspace_canonical := hworkspace.root.canonical
        scratch_canonical := hscratch
        scratch_apart := hroots_scratch _ hworkspace.root
        evidence_with_id := by
          cases live with
          | none => exact iff_of_true rfl rfl
          | some reference => exact iff_of_false hevidence_ne (hlive reference rfl).1
        evidence_canonical := by
          cases live with
          | none => exact fun h => absurd rfl h
          | some reference => exact fun _ => hevidence
        evidence_apart := by
          cases live with
          | none => exact fun h => absurd rfl h
          | some reference =>
            intro _
            change (rootsOverlap (liveOutputRoot deployment) workspace.root ||
              rootsOverlap (liveOutputRoot deployment) (allocatedScratch random deployment) ||
              workspace.readOnlyRoots.any fun root =>
                rootsOverlap (liveOutputRoot deployment) root) = false
            rw [hevidence_roots _ hworkspace.root, hevidence_scratch, hroots_apart]
            rfl
        id_hex := by
          cases live with
          | none => exact fun h => absurd rfl h
          | some reference => exact fun _ => (hlive reference rfl).2
        readOnlyWorkspace := rfl
        roots_nonempty := by
          obtain ⟨root, hmem, -⟩ := hworkspace.covered
          exact List.ne_nil_of_mem hmem
        roots_nonblank := fun root hmem =>
          trim_canonical_ne_empty (hworkspace.readOnlyRoots root hmem).canonical
        roots_canonical := fun root hmem => (hworkspace.readOnlyRoots root hmem).canonical
        roots_cover := hworkspace.covered
        roots_apart := fun root hmem => hroots_scratch root (hworkspace.readOnlyRoots root hmem)
        wallClockMs := hwall
        cpuSeconds := hcpu
        memoryMib := hmemory
        diskMib := hdisk
        processes := hprocesses
        outputBytes := houtput
        deny_egress := by
          intro hdeny
          by_contra hne
          have hnetwork : grant.network = .allowList := hegress hne
          rw [show grant.network = .deny from hdeny] at hnetwork
          cases hnetwork
        unrestricted_egress := by
          intro hopen
          by_contra hne
          have hnetwork : grant.network = .allowList := hegress hne
          rw [show grant.network = .unrestricted from hopen] at hnetwork
          cases hnetwork }

/-- A stream that has begun is named by hexadecimal digits. -/
theorem streamId_of_beginLiveOutput {crypto : Crypto} (hcrypto : crypto.Sized)
    {runId approvalId approvalDigest : String} {now : ℤ} {deployment : Deployment}
    {reference : LiveOutputReference}
    (h : beginLiveOutput crypto runId approvalId approvalDigest now deployment = some reference) :
    reference.streamId ≠ "" ∧ allChars reference.streamId isHexDigit = true := by
  have hstream : reference.streamId = liveOutputStreamId crypto approvalId deployment := by
    unfold beginLiveOutput at h
    repeat' split at h
    all_goals cases h
    rfl
  rw [hstream, liveOutputStreamId, Crypto.tag]
  refine ⟨?_, allChars_bytesToHexString _⟩
  intro hempty
  have hlength := hcrypto.hmac (utf8Encode deployment.artifactSigningKey)
    (utf8Encode (streamIdPayload approvalId))
  have hbytes : crypto.hmac (utf8Encode deployment.artifactSigningKey)
      (utf8Encode (streamIdPayload approvalId)) ≠ [] := by
    intro hnil
    rw [hnil] at hlength
    cases hlength
  exact bytesToHexString_ne_nil hbytes (by rw [hempty]; rfl)

/-- A workspace that a configuration lists is accepted with it. -/
theorem workspaceAccepted_of_lookup {id : String}
    {workspace : DeployedWorkspace} (hdeployment : DeploymentAccepted deployment)
    (h : deployment.workspaces.lookup id = some workspace) :
    WorkspaceAccepted deployment workspace := by
  obtain ⟨before, after, heq, -⟩ := List.lookup_eq_some_iff.mp h
  have hmem : (id, workspace) ∈ deployment.workspaces := by
    rw [heq]
    exact List.mem_append_right _ List.mem_cons_self
  exact hdeployment.workspaces _ hmem

/-- On a grant that the executor accepts under an accepted configuration, the
static checks of the preflight pass exactly when the grant is ready for them:
its egress set is empty or its network is the allow list, its tool is neither
reserved nor begins with a mark, and its script is not blank. -/
theorem admission_agrees_iff (crypto : Crypto) (hcrypto : crypto.Sized) (files : HostFiles)
    (deployment : Deployment) (grant : ExecutionGrant) (invocation : SandboxInvocation)
    (now begun : ℤ) (workspace : DeployedWorkspace) (random : List UInt8)
    (live : Option LiveOutputReference) (approvalDigest : String)
    (readiness : SandboxBackendReadiness) (hdeployment : deploymentError files deployment = "")
    (hgrant : validateGrant now grant invocation deployment.config = "")
    (hworkspace : deployment.workspaces.lookup grant.workspaceId = some workspace)
    (hrandom : random.length = 16)
    (hlive : ∀ reference ∈ live, beginLiveOutput crypto grant.requestId invocation.approvalId
      approvalDigest begun deployment = some reference) :
    ¬ StaticallyRefused (prepareSandboxCommand crypto.digestText
        (profileForGrant grant workspace (allocatedScratch random deployment) live
          (liveOutputRoot deployment)) grant.command readiness) ↔
      PreflightReady grant := by
  have hdeployment' := deploymentAccepted_of_error hdeployment
  have hgrant' := grantAccepted_of_validateGrant hgrant
  have hworkspace' := workspaceAccepted_of_lookup hdeployment' hworkspace
  have hrandom' : random ≠ [] := by
    rintro rfl
    cases hrandom
  have hstream : ∀ reference ∈ live,
      reference.streamId ≠ "" ∧ allChars reference.streamId isHexDigit = true :=
    fun reference hmem => streamId_of_beginLiveOutput hcrypto (hlive reference hmem)
  rw [not_staticallyRefused_iff,
    profileRejection_profileForGrant_iff hdeployment' hgrant' hworkspace' hrandom' hstream]
  constructor
  · rintro ⟨hegress, capability, hcapability, -⟩
    exact ⟨hegress, ((commandCapability_iff hgrant'.shape_ok capability).mp hcapability).2⟩
  · rintro ⟨hegress, hcommand⟩
    have hcapability := (commandCapability_iff hgrant'.shape_ok _).mpr ⟨rfl, hcommand⟩
    exact ⟨hegress, _, hcapability, hgrant'.capability⟩

/-- The preflight of a sample grant, in a scratch directory named by zeros. -/
noncomputable def samplePreflight (script : String) :
    Except SandboxPreparationRefusal PreparedSandboxCommand :=
  prepareSandboxCommand Crypto.standard.digestText
    (profileForGrant (sampleShellGrant script) sampleWorkspace
      (allocatedScratch (List.replicate 16 0) sampleDeployment) none
      (liveOutputRoot sampleDeployment)) (sampleShellGrant script).command (.backendDegraded "")

/-- The sample deployment is accepted. -/
theorem sampleDeployment_accepted : deploymentError sampleHostFiles sampleDeployment = "" := by
  decide

/-- The sample grant for a script meets what the preflight asks beyond the executor. -/
theorem preflightReady_sample : PreflightReady (sampleShellGrant "true") where
  egress h := absurd rfl h
  command := by
    change trim "true" ≠ ""
    decide

/-- The sample deployment is accepted, and so is its grant for a script; the preflight passes. -/
theorem admission_agrees_sample :
    PreflightReady (sampleShellGrant "true") ∧ ¬ StaticallyRefused (samplePreflight "true") :=
  ⟨preflightReady_sample,
    (admission_agrees_iff Crypto.standard Crypto.standard_sized sampleHostFiles sampleDeployment
      (sampleShellGrant "true") ⟨3, "approval-1"⟩ 0 0 sampleWorkspace (List.replicate 16 0) none ""
      (.backendDegraded "") sampleDeployment_accepted (by decide) rfl rfl
      (fun _ h => by cases h)).mpr preflightReady_sample⟩

/-- A grant for an empty script is accepted by the executor and refused by the preflight. -/
theorem admission_disagrees_sample :
    deploymentError sampleHostFiles sampleDeployment = "" ∧
      validateGrant 0 (sampleShellGrant "") ⟨3, "approval-1"⟩ sampleDeployment.config = "" ∧
      sampleDeployment.workspaces.lookup (sampleShellGrant "").workspaceId = some sampleWorkspace ∧
      StaticallyRefused (samplePreflight "") :=
  ⟨sampleDeployment_accepted, by decide, rfl,
    .emptyCommand .shellCompatibilityCommand, by decide, rfl⟩

end Moonfort.Executor
