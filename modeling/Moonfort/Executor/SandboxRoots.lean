import Moonfort.Executor.GrantAdmission
import Moonfort.Sandbox.PathComponents

/-!
# The roots of a sandbox

What `profile_rejection` says about the roots of a profile, read as lists of
components, and why every profile that the executor derives from a grant is
confined in the same way, whether or not its other fields pass.
-/

namespace Moonfort.Sandbox

open MoonBit

/-- The executor's evidence root, where there is one. -/
def SandboxProfile.evidenceRoots (profile : SandboxProfile) : List String :=
  if profile.executorEvidenceRoot = "" then [] else [profile.executorEvidenceRoot]

/-- The roots that the scratch directory is kept apart from. -/
def SandboxProfile.protectedRoots (profile : SandboxProfile) : List String :=
  profile.workspaceRoot :: profile.readOnlyRoots ++ profile.evidenceRoots

/-- All roots of a profile. -/
def SandboxProfile.roots (profile : SandboxProfile) : List String :=
  profile.scratchRoot :: profile.protectedRoots

/-- The scratch directory has no path in common with another root, every root is canonical, and
the workspace lies inside a read-only root. -/
structure RootsConfined (profile : SandboxProfile) : Prop where
  disjoint : ∀ root ∈ profile.protectedRoots, ∀ path,
    ¬(Inside path profile.scratchRoot ∧ Inside path root)
  canonical : ∀ root ∈ profile.roots, CanonicalRoot root
  covered : ∃ root ∈ profile.readOnlyRoots, Inside (pathComponents profile.workspaceRoot) root

/-- Canonical roots without overlap are confined. -/
theorem rootsConfined_of_apart {profile : SandboxProfile}
    (hcanonical : ∀ root ∈ profile.roots, pathIsCanonicalAbsolute root = true)
    (hapart : ∀ root ∈ profile.protectedRoots, ¬Overlaps root profile.scratchRoot)
    (hcover : ∃ root ∈ profile.readOnlyRoots,
      root = profile.workspaceRoot ∨ pathContains root profile.workspaceRoot = true) :
    RootsConfined profile := by
  have hscratch := hcanonical _ List.mem_cons_self
  have hworkspace := hcanonical profile.workspaceRoot (by simp [SandboxProfile.roots,
    SandboxProfile.protectedRoots])
  refine ⟨fun root hroot path ⟨hinside, hinside'⟩ => ?_, fun root hroot =>
    canonicalRoot_of_canonical (hcanonical root hroot), ?_⟩
  · exact hapart root hroot ((overlaps_iff_inside
      (hcanonical root (List.mem_cons_of_mem _ hroot)) hscratch).mpr ⟨path, hinside', hinside⟩)
  · obtain ⟨root, hmem, hcontains⟩ := hcover
    have hroot := hcanonical root (by simp [SandboxProfile.roots, SandboxProfile.protectedRoots,
      hmem])
    refine ⟨root, hmem, ?_⟩
    rw [← closedPath_prefix_iff_components (hasPrefix_of_canonical hroot)
      (hasPrefix_of_canonical hworkspace), closedPath_prefix_iff hroot hworkspace]
    exact hcontains

/-- An accepted profile is confined. -/
theorem ProfileAccepted.rootsConfined {profile : SandboxProfile} (h : ProfileAccepted profile) :
    RootsConfined profile := by
  have hevidence : ∀ root ∈ profile.evidenceRoots,
      root = profile.executorEvidenceRoot ∧ profile.executorEvidenceRoot ≠ "" := by
    intro root hroot
    rw [SandboxProfile.evidenceRoots] at hroot
    split at hroot
    · cases hroot
    next hne => exact ⟨List.mem_singleton.mp hroot, hne⟩
  have hcanonical : ∀ root ∈ profile.roots, pathIsCanonicalAbsolute root = true := by
    intro root hroot
    simp only [SandboxProfile.roots, SandboxProfile.protectedRoots, List.cons_append,
      List.mem_cons, List.mem_append] at hroot
    rcases hroot with rfl | rfl | hroot | hroot
    · exact h.scratch_canonical
    · exact h.workspace_canonical
    · exact h.roots_canonical root hroot
    · obtain ⟨rfl, hne⟩ := hevidence root hroot
      exact h.evidence_canonical hne
  have hscratch := h.scratch_canonical
  refine rootsConfined_of_apart hcanonical (fun root hroot => ?_) h.roots_cover
  have hroot' := hcanonical root (List.mem_cons_of_mem _ hroot)
  rw [← rootsOverlap_iff hroot' hscratch, Bool.not_eq_true]
  simp only [SandboxProfile.protectedRoots, List.cons_append, List.mem_cons,
    List.mem_append] at hroot
  rcases hroot with rfl | hroot | hroot
  · exact h.scratch_apart
  · exact h.roots_apart root hroot
  · obtain ⟨rfl, hne⟩ := hevidence root hroot
    have hapart := h.evidence_apart hne
    simp only [evidenceRootOverlaps, Bool.or_eq_false_iff] at hapart
    exact hapart.1.2

end Moonfort.Sandbox

namespace Moonfort.Executor

open MoonBit Sandbox

/-- A path without the character NUL. -/
def NulFree (path : String) : Prop := '\x00' ∉ path.toList

instance (path : String) : Decidable (NulFree path) := inferInstanceAs (Decidable (¬_))

/-- A canonical path has no NUL. -/
theorem nulFree_of_canonical {path : String} (h : canonicalAbsolutePath path = true) :
    NulFree path := by
  simp only [canonicalAbsolutePath, Bool.and_eq_true, Bool.not_eq_true'] at h
  by_contra hnul
  rw [(containsText_nul_iff path).mpr (not_not.mp hnul)] at h
  exact absurd h.1.1.2 (by decide)

/-- Texts without NUL have none behind each other. -/
theorem NulFree.append {a b : String} (ha : NulFree a) (hb : NulFree b) : NulFree (a ++ b) := by
  rw [NulFree, String.toList_append, List.mem_append, not_or]
  exact ⟨ha, hb⟩

/-- What a deployment's checks say about NUL in its paths. -/
theorem nulFree_of_deploymentError {files : HostFiles} {deployment : Deployment}
    (h : deploymentError files deployment = "") :
    NulFree deployment.scratchRoot ∧ NulFree deployment.retentionRoot ∧
      ∀ entry ∈ deployment.workspaces,
        NulFree entry.2.root ∧ ∀ root ∈ entry.2.readOnlyRoots, NulFree root := by
  have hchecked := deploymentChecked_of_error h
  refine ⟨nulFree_of_canonical hchecked.scratch, nulFree_of_canonical hchecked.retention,
    fun entry hentry => ?_⟩
  have herror := hchecked.workspaces entry hentry
  unfold workspaceEntryError at herror
  simp (disch := decide) only [message_eq_empty_iff, Bool.not_eq_true', Bool.not_eq_false,
    Bool.and_eq_true, List.all_eq_true, rootIsValid] at herror
  obtain ⟨⟨-, hroot⟩, hroots, -⟩ := herror
  exact ⟨nulFree_of_canonical hroot.1.1.1.1.1,
    fun root hmem => nulFree_of_canonical (hroots root hmem).1.1.1.1.1⟩

/-- A hexadecimal text has no NUL. -/
theorem nulFree_bytesToHexString (bytes : List UInt8) : NulFree (bytesToHexString bytes) := by
  have hhex := allChars_bytesToHexString bytes
  rw [allChars, List.all_eq_true] at hhex
  exact fun hmem => absurd (hhex _ hmem) (by decide)

section Grant

variable {deployment : Deployment} {grant : ExecutionGrant} {workspace : DeployedWorkspace}
  {random : List UInt8} {live : Option LiveOutputReference}

/-- What the scratch directory of a grant is kept apart from. -/
theorem mem_protectedRoots_profileForGrant {scratch root : String}
    (hroot : root ∈ (profileForGrant grant workspace scratch live
      (liveOutputRoot deployment)).protectedRoots) :
    root = workspace.root ∨ root ∈ workspace.readOnlyRoots ∨ root = liveOutputRoot deployment := by
  simp only [SandboxProfile.protectedRoots, List.cons_append, List.mem_cons,
    List.mem_append] at hroot
  refine hroot.imp_right (Or.imp_right fun hevidence => ?_)
  rw [SandboxProfile.evidenceRoots] at hevidence
  split at hevidence
  · cases hevidence
  next hne =>
    rw [List.mem_singleton] at hevidence
    rw [hevidence]
    cases live with
    | none => exact absurd rfl hne
    | some reference => rfl

/-- The profile of a grant is confined on an accepted deployment. -/
theorem rootsConfined_profileForGrant (hdeployment : DeploymentAccepted deployment)
    (hworkspace : WorkspaceAccepted deployment workspace) (hrandom : random ≠ []) :
    RootsConfined (profileForGrant grant workspace (allocatedScratch random deployment) live
      (liveOutputRoot deployment)) := by
  obtain ⟨hscratch, hevidence, hroots_scratch, -, hevidence_scratch⟩ := hdeployment.roots hrandom
  have hcanonical : ∀ root, RootAccepted deployment root ∨ root = liveOutputRoot deployment →
      pathIsCanonicalAbsolute root = true := by
    rintro root (hroot | rfl)
    · exact hroot.canonical
    · exact hevidence
  have hapart : ∀ root, RootAccepted deployment root ∨ root = liveOutputRoot deployment →
      rootsOverlap root (allocatedScratch random deployment) = false := by
    rintro root (hroot | rfl)
    · exact hroots_scratch root hroot
    · exact hevidence_scratch
  have hprotected : ∀ root ∈ (profileForGrant grant workspace (allocatedScratch random deployment)
      live (liveOutputRoot deployment)).protectedRoots,
        RootAccepted deployment root ∨ root = liveOutputRoot deployment := by
    intro root hroot
    rcases mem_protectedRoots_profileForGrant hroot with rfl | hroot | rfl
    · exact .inl hworkspace.root
    · exact .inl (hworkspace.readOnlyRoots root hroot)
    · exact .inr rfl
  refine rootsConfined_of_apart (fun root hroot => ?_) (fun root hroot => ?_) hworkspace.covered
  · rcases List.mem_cons.mp hroot with rfl | hroot
    · exact hscratch
    · exact hcanonical root (hprotected root hroot)
  · have hroot' := hprotected root hroot
    have hnone : ¬Overlaps root (allocatedScratch random deployment) := by
      rw [← rootsOverlap_iff (hcanonical root hroot') hscratch, hapart root hroot']
      exact Bool.false_ne_true
    exact hnone

/-- No root of the profile of a grant has a NUL in it. -/
theorem nulFree_profileForGrant {files : HostFiles} (h : deploymentError files deployment = "")
    {id : String} (hlookup : deployment.workspaces.lookup id = some workspace) :
    ∀ root ∈ (profileForGrant grant workspace (allocatedScratch random deployment) live
      (liveOutputRoot deployment)).roots, NulFree root := by
  obtain ⟨hscratch, hretention, hworkspaces⟩ := nulFree_of_deploymentError h
  obtain ⟨before, after, heq, -⟩ := List.lookup_eq_some_iff.mp hlookup
  obtain ⟨hroot, hroots⟩ := hworkspaces (id, workspace) (by
    rw [heq]
    exact List.mem_append_right _ List.mem_cons_self)
  intro root hmem
  rcases List.mem_cons.mp hmem with rfl | hmem
  · exact (hscratch.append (by decide)).append (nulFree_bytesToHexString random)
  · rcases mem_protectedRoots_profileForGrant hmem with rfl | hmem | rfl
    · exact hroot
    · exact hroots root hmem
    · exact hretention.append (by decide)

end Grant

/-- Every profile that `profile_rejection` accepts is confined. The profile of every accepted
grant on an accepted deployment, in a scratch directory that the executor allocates, is confined
too, and its roots are free of NUL. -/
theorem sandbox_roots_confined :
    (∀ profile : SandboxProfile, profileRejection profile = "" → RootsConfined profile) ∧
    ∀ (files : HostFiles) (deployment : Deployment) (grant : ExecutionGrant)
      (invocation : SandboxInvocation) (now : ℤ) (workspace : DeployedWorkspace)
      (random : List UInt8) (live : Option LiveOutputReference),
      deploymentError files deployment = "" →
      validateGrant now grant invocation deployment.config = "" →
      deployment.workspaces.lookup grant.workspaceId = some workspace →
      random.length = 16 →
      RootsConfined (profileForGrant grant workspace (allocatedScratch random deployment) live
        (liveOutputRoot deployment)) ∧
      ∀ root ∈ (profileForGrant grant workspace (allocatedScratch random deployment) live
        (liveOutputRoot deployment)).roots, NulFree root := by
  constructor
  · intro profile h
    exact ((profileRejection_eq_empty_iff profile).mp h).rootsConfined
  · intro files deployment grant invocation now workspace random live hdeployment hgrant hlookup
      hrandom
    have hdeployment' := deploymentAccepted_of_error hdeployment
    have hrandom' : random ≠ [] := by
      rintro rfl
      cases hrandom
    exact ⟨rootsConfined_profileForGrant hdeployment'
      (workspaceAccepted_of_lookup hdeployment' hlookup) hrandom',
      nulFree_profileForGrant hdeployment hlookup⟩

/-- A profile of the workspace at a path. -/
def sampleRootsProfile (workspace : String) : SandboxProfile where
  runId := "run-1"
  workspaceRoot := workspace
  scratchRoot := "/var/scratch/1"
  backend := .localOs
  enforcementRequirement := .requireEnforced
  network := .deny
  readOnlyRoots := [workspace]
  allowedEgress := []
  allowedCommands := ["moon"]
  limits := ⟨1000, 10, 64, 64, 8, 65536⟩
  readOnlyWorkspace := true
  executorEvidenceRoot := ""
  liveOutputId := ""

/-- The roots of an accepted profile and of one that was built from a grant. -/
theorem sandbox_roots_confined_sample :
    RootsConfined (sampleRootsProfile "/srv/book") ∧
      RootsConfined (profileForGrant (sampleShellGrant "true") sampleWorkspace
        (allocatedScratch (List.replicate 16 0) sampleDeployment) none
        (liveOutputRoot sampleDeployment)) :=
  ⟨sandbox_roots_confined.1 (sampleRootsProfile "/srv/book") (by decide),
    (sandbox_roots_confined.2 sampleHostFiles sampleDeployment (sampleShellGrant "true")
      ⟨3, "approval-1"⟩ 0 sampleWorkspace (List.replicate 16 0) none sampleDeployment_accepted
      (by decide) rfl rfl).1⟩

/-- An accepted profile has a read-only root that holds the workspace, and its roots may have a
NUL in them. -/
theorem sandbox_roots_exposed_sample :
    ¬(∀ profile : SandboxProfile, profileRejection profile = "" →
      (∀ root ∈ profile.readOnlyRoots, ¬Inside (pathComponents profile.workspaceRoot) root)) ∧
    ¬(∀ profile : SandboxProfile, profileRejection profile = "" →
      ∀ root ∈ profile.roots, NulFree root) := by
  constructor
  · intro h
    exact h (sampleRootsProfile "/srv/book") (by decide) "/srv/book"
      List.mem_cons_self (List.prefix_refl _)
  · intro h
    exact h (sampleRootsProfile "/srv/b\x00") (by decide) "/srv/b\x00"
      (List.mem_cons_of_mem _ List.mem_cons_self) (by decide)

end Moonfort.Executor
