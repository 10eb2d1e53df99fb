import Moonfort.Sandbox.Profile

/-!
# Accepted profiles

Roots that overlap, for paths in canonical form, and what `profile_rejection`
accepts: one condition for each of its checks.
-/

namespace Moonfort.Sandbox

open MoonBit

/-- A check that answers with a message passes when its condition fails and the rest passes. -/
theorem message_eq_empty_iff {c : Prop} [Decidable c] {message rest : String}
    (hmessage : message ≠ "") : (if c then message else rest) = "" ↔ ¬ c ∧ rest = "" := by
  by_cases hc : c
  · rw [if_pos hc]
    exact ⟨fun h => absurd h hmessage, fun h => absurd hc h.1⟩
  · rw [if_neg hc]
    exact ⟨fun h => ⟨hc, h⟩, fun h => h.2⟩

/-- Two roots are the same, or one lies inside the other. -/
def Overlaps (left right : String) : Prop :=
  left = right ∨ pathContains left right = true ∨ pathContains right left = true

instance (left right : String) : Decidable (Overlaps left right) :=
  inferInstanceAs (Decidable (_ ∨ _))

/-- Overlapping is symmetric. -/
theorem Overlaps.symm {left right : String} (h : Overlaps left right) : Overlaps right left := by
  rcases h with h | h | h
  · exact .inl h.symm
  · exact .inr (.inr h)
  · exact .inr (.inl h)

/-- A canonical path begins with a slash. -/
theorem hasPrefix_of_canonical {path : String} (h : pathIsCanonicalAbsolute path = true) :
    hasPrefix path "/" = true := by
  simp only [pathIsCanonicalAbsolute, Bool.and_eq_true] at h
  exact h.1.1.1

/-- A canonical path other than the root does not end with a slash. -/
theorem hasSuffix_of_canonical {path : String} (h : pathIsCanonicalAbsolute path = true)
    (hroot : path ≠ "/") : hasSuffix path "/" = false := by
  simp only [pathIsCanonicalAbsolute, Bool.and_eq_true, Bool.or_eq_true, beq_iff_eq, hroot,
    false_or, Bool.not_eq_true'] at h
  exact h.2

/-- Nothing is stripped from a canonical path. -/
theorem stripTrailingSlashes_of_canonical {path : String}
    (h : pathIsCanonicalAbsolute path = true) : stripTrailingSlashes path = path := by
  by_cases hroot : path = "/"
  · rw [hroot]
    decide
  · have hsuffix := hasSuffix_of_canonical h hroot
    have hstrip : stripLeadingSlashes path.toList.reverse = path.toList.reverse := by
      rw [stripLeadingSlashes.eq_def]
      split
      · rename_i c rest heq
        have hlast : path.toList = (c :: rest).reverse ++ ['/'] := by
          rw [← List.reverse_reverse path.toList, heq, List.reverse_cons]
        rw [hasSuffix, hlast] at hsuffix
        have : ['/'].isSuffixOf ((c :: rest).reverse ++ ['/']) = true :=
          List.isSuffixOf_iff_suffix.mpr (List.suffix_append _ _)
        rw [show "/".toList = ['/'] from rfl, this] at hsuffix
        cases hsuffix
      · rfl
    rw [stripTrailingSlashes, hstrip, List.reverse_reverse, String.ofList_toList]

/-- `roots_overlap` on canonical paths. -/
theorem rootsOverlap_iff {left right : String} (hleft : pathIsCanonicalAbsolute left = true)
    (hright : pathIsCanonicalAbsolute right = true) :
    rootsOverlap left right = true ↔ Overlaps left right := by
  rw [rootsOverlap, stripTrailingSlashes_of_canonical hleft,
    stripTrailingSlashes_of_canonical hright]
  simp only [Bool.or_eq_true, beq_iff_eq, Overlaps, or_assoc]

/-- The root overlaps every canonical path. -/
theorem overlaps_root {path : String} (h : pathIsCanonicalAbsolute path = true) :
    Overlaps "/" path := by
  right
  left
  rw [pathContains, if_pos (by decide)]
  exact hasPrefix_of_canonical h

/-- A profile that `profile_rejection` accepts, check by check. -/
structure ProfileAccepted (profile : SandboxProfile) : Prop where
  runId : trim profile.runId ≠ ""
  workspaceRoot : trim profile.workspaceRoot ≠ ""
  scratchRoot : trim profile.scratchRoot ≠ ""
  workspace_canonical : pathIsCanonicalAbsolute profile.workspaceRoot = true
  scratch_canonical : pathIsCanonicalAbsolute profile.scratchRoot = true
  scratch_apart : rootsOverlap profile.workspaceRoot profile.scratchRoot = false
  evidence_with_id : (profile.executorEvidenceRoot = "") ↔ (profile.liveOutputId = "")
  evidence_canonical : profile.executorEvidenceRoot ≠ "" →
    pathIsCanonicalAbsolute profile.executorEvidenceRoot = true
  evidence_apart : profile.executorEvidenceRoot ≠ "" → evidenceRootOverlaps profile = false
  id_hex : profile.liveOutputId ≠ "" → allChars profile.liveOutputId isHexDigit = true
  readOnlyWorkspace : profile.readOnlyWorkspace = true
  roots_nonempty : profile.readOnlyRoots ≠ []
  roots_nonblank : ∀ root ∈ profile.readOnlyRoots, trim root ≠ ""
  roots_canonical : ∀ root ∈ profile.readOnlyRoots, pathIsCanonicalAbsolute root = true
  roots_cover : ∃ root ∈ profile.readOnlyRoots,
    root = profile.workspaceRoot ∨ pathContains root profile.workspaceRoot = true
  roots_apart : ∀ root ∈ profile.readOnlyRoots, rootsOverlap root profile.scratchRoot = false
  wallClockMs : 0 < profile.limits.wallClockMs
  cpuSeconds : 0 < profile.limits.cpuSeconds
  memoryMib : 0 < profile.limits.memoryMib
  diskMib : 0 < profile.limits.diskMib
  processes : 0 < profile.limits.processes
  outputBytes : 0 < profile.limits.outputBytes
  deny_egress : profile.network = .deny → profile.allowedEgress = []
  unrestricted_egress : profile.network = .unrestricted → profile.allowedEgress = []

/-- The limits are accepted when all of them are positive and fit the network mode. -/
theorem limitsRejection_eq_empty_iff (profile : SandboxProfile) :
    limitsRejection profile = "" ↔
      (0 < profile.limits.wallClockMs ∧ 0 < profile.limits.cpuSeconds ∧
        0 < profile.limits.memoryMib ∧ 0 < profile.limits.diskMib ∧
        0 < profile.limits.processes ∧ 0 < profile.limits.outputBytes ∧
        (profile.network = .deny → profile.allowedEgress = []) ∧
        (profile.network = .unrestricted → profile.allowedEgress = [])) := by
  unfold limitsRejection
  simp (disch := decide) only [message_eq_empty_iff, not_le, not_and, not_not, and_true]

/-- What the read-only roots have to satisfy. -/
theorem readOnlyRootsRejection_eq_empty_iff (profile : SandboxProfile) :
    readOnlyRootsRejection profile = "" ↔
      (profile.readOnlyWorkspace = true ∧ profile.readOnlyRoots ≠ [] ∧
        (∀ root ∈ profile.readOnlyRoots, trim root ≠ "") ∧
        (∀ root ∈ profile.readOnlyRoots, pathIsCanonicalAbsolute root = true) ∧
        (∃ root ∈ profile.readOnlyRoots,
          root = profile.workspaceRoot ∨ pathContains root profile.workspaceRoot = true) ∧
        (∀ root ∈ profile.readOnlyRoots, rootsOverlap root profile.scratchRoot = false) ∧
        limitsRejection profile = "") := by
  unfold readOnlyRootsRejection
  simp (disch := decide) only [message_eq_empty_iff, Bool.not_eq_true', Bool.not_eq_false,
    Bool.not_eq_true, List.isEmpty_iff, List.any_eq_true, List.any_eq_false, beq_iff_eq,
    Bool.or_eq_true, ne_eq, not_exists, not_and, not_forall, not_not, exists_prop]

/-- `profile_rejection` accepts exactly the profiles that pass every check. -/
theorem profileRejection_eq_empty_iff (profile : SandboxProfile) :
    profileRejection profile = "" ↔ ProfileAccepted profile := by
  have hpair : (profile.executorEvidenceRoot == "") = (profile.liveOutputId == "") ↔
      (profile.executorEvidenceRoot = "" ↔ profile.liveOutputId = "") := by
    rw [Bool.eq_iff_iff, beq_iff_eq, beq_iff_eq]
  unfold profileRejection
  simp (disch := decide) only [message_eq_empty_iff, beq_iff_eq, Bool.not_eq_true',
    Bool.not_eq_false, Bool.and_eq_true, Bool.not_eq_true, bne_iff_ne, not_and, ne_eq, not_not,
    hpair, readOnlyRootsRejection_eq_empty_iff, limitsRejection_eq_empty_iff]
  constructor
  · rintro ⟨h1, h2, h3, h4, h5, h6, h7, h8, h9, h10, h11, h12, h13, h14, h15, h16, h17, h18, h19,
      h20, h21, h22, h23, h24⟩
    exact ⟨h1, h2, h3, h4, h5, h6, h7, h8, h9, h10, h11, h12, h13, h14, h15, h16, h17, h18, h19,
      h20, h21, h22, h23, h24⟩
  · intro h
    exact ⟨h.runId, h.workspaceRoot, h.scratchRoot, h.workspace_canonical, h.scratch_canonical,
      h.scratch_apart, h.evidence_with_id, h.evidence_canonical, h.evidence_apart, h.id_hex,
      h.readOnlyWorkspace, h.roots_nonempty, h.roots_nonblank, h.roots_canonical, h.roots_cover,
      h.roots_apart, h.wallClockMs, h.cpuSeconds, h.memoryMib, h.diskMib, h.processes,
      h.outputBytes, h.deny_egress, h.unrestricted_egress⟩

end Moonfort.Sandbox
