import Moonfort.Executor.RetentionBundle
import Moonfort.Executor.RetentionStoreSafety

/-!
# The state behind the readers of a retention

What the calls that read one retention share: the record with the content of its files, the
answers of the host that agree with it, and the files in the order of their paths.
-/

namespace Moonfort.Executor

open MoonBit Sandbox

variable {τ : Type}

/-- Why a call on a retention raises. -/
inductive RetentionFault where
  | failed (message : String)
  /-- The store, the reader of a file or a decoder below the call. -/
  | store
  deriving DecidableEq

/-- A record and the content of its files. -/
structure RetainedState where
  record : RetentionRecord
  content : String → List UInt8

/-- The host answers what is retained, or nothing. -/
structure RetainedState.Agrees (state : RetainedState) (host : BundleReading) : Prop where
  record : ∀ record ∈ host.first.manifest, record = state.record
  content : ∀ path, ∀ bytes ∈ (host.artifact path).file, bytes = state.content path

/-- `@utf8.decode`. -/
def decodeText (bytes : List UInt8) : Option String :=
  ((utf8Items .idle bytes).mapM id).map String.ofList

/-- `export_retained_artifact`. -/
def exportRetainedArtifact (crypto : Crypto) (lib : RetentionLibrary τ) (host : BundleReading)
    (binding : RetentionArtifactBinding) (config : Deployment) (path : String) :
    Option (List UInt8) :=
  (verifiedRetainedArtifact crypto lib (host.artifact path) binding path config).map
    fun found => found.2.2

/-- A response fits the protocol limit with a reserve. -/
def withinBudget (config : Deployment) (reserve : ℤ) (json : Json) : Bool :=
  decide ((utf8Length json.stringify : ℤ) + reserve ≤ config.limits.maxProtocolBytes)

/-- `files.sort_by((a, b) => a.relative_path[:].lexical_compare(b.relative_path[:]))`. -/
def sortByPath (files : List ScratchEntry) : List ScratchEntry :=
  files.mergeSort fun a b => decide (utf16Units a.relativePath ≤ utf16Units b.relativePath)

/-! ## Records -/

/-- The files of a record have different paths, none of them empty. -/
structure DistinctPaths (files : List ScratchEntry) : Prop where
  nodup : (files.map ScratchEntry.relativePath).Nodup
  nonempty : ∀ file ∈ files, file.relativePath ≠ ""

/-- A valid manifest has distinct paths, none of them seen before. -/
theorem distinctPaths_of_valid {byteLimit total : ℤ} {seen : List String}
    {files : List ScratchEntry} (h : manifestEntriesValid byteLimit seen total files = true) :
    DistinctPaths files ∧ ∀ file ∈ files, file.relativePath ∉ seen := by
  induction files generalizing seen total with
  | nil => exact ⟨⟨List.nodup_nil, nofun⟩, nofun⟩
  | cons file rest ih =>
    simp only [manifestEntriesValid, Bool.and_eq_true, Bool.not_eq_true', List.contains_eq_mem,
      decide_eq_false_iff_not] at h
    obtain ⟨⟨⟨⟨⟨⟨-, hsafe⟩, hseen⟩, -⟩, -⟩, -⟩, hrest⟩ := h
    obtain ⟨⟨hnodup, hnonempty⟩, hnot⟩ := ih hrest
    have hfile : file.relativePath ≠ "" := by
      intro hempty
      rw [hempty] at hsafe
      exact absurd hsafe (by decide)
    refine ⟨⟨?_, List.forall_mem_cons.mpr ⟨hfile, hnonempty⟩⟩,
      List.forall_mem_cons.mpr ⟨hseen, fun other hother hmem =>
        hnot other hother (List.mem_cons_of_mem _ hmem)⟩⟩
    rw [List.map_cons, List.nodup_cons]
    refine ⟨fun hmem => ?_, hnodup⟩
    obtain ⟨other, hother, heq⟩ := List.mem_map.mp hmem
    exact hnot other hother (heq ▸ List.mem_cons_self)

/-- The record of a binding is the one in the manifest. -/
theorem boundArtifactRecord_manifest {lib : RetentionLibrary τ} {host : RecordReading}
    {binding : RetentionArtifactBinding} {config : Deployment} {record : RetentionRecord}
    (h : boundArtifactRecord lib host binding config = some record) :
    host.manifest = some record ∧ DistinctPaths record.reviewableFiles := by
  unfold boundArtifactRecord at h
  split at h
  next => cases h
  next =>
    split at h
    next => cases h
    next loaded hloaded =>
      split at h
      next =>
        cases h
        unfold retentionRecordFrom at hloaded
        split at hloaded
        next => cases hloaded
        next =>
          split at hloaded
          next => cases hloaded
          next found hmanifest =>
            split at hloaded
            next hconsistent =>
              cases hloaded
              simp only [recordIsConsistent, retentionManifestIsValid, Bool.and_eq_true]
                at hconsistent
              exact ⟨hmanifest, (distinctPaths_of_valid hconsistent.1.1.2.2).1⟩
            next => cases hloaded
      next => cases h

/-- What is exported is the content. -/
theorem exportRetainedArtifact_eq_some {crypto : Crypto} {lib : RetentionLibrary τ}
    {state : RetainedState} {host : BundleReading} {binding : RetentionArtifactBinding}
    {config : Deployment} {path : String} {bytes : List UInt8} (hhost : state.Agrees host)
    (h : exportRetainedArtifact crypto lib host binding config path = some bytes) :
    bytes = state.content path := by
  obtain ⟨⟨record, entry, found⟩, hfound, rfl⟩ := Option.map_eq_some_iff.mp h
  exact hhost.content path _ (verifiedRetainedArtifact_eq_some hfound).1.1

/-! ## The order of the paths -/

/-- Sorting keeps the files. -/
theorem sortByPath_perm (files : List ScratchEntry) : (sortByPath files).Perm files :=
  List.mergeSort_perm _ _

/-- Files with different paths are strictly in order. -/
theorem pairwise_sortByPath {files : List ScratchEntry}
    (h : (files.map ScratchEntry.relativePath).Nodup) :
    (sortByPath files).Pairwise fun a b =>
      utf16Units a.relativePath < utf16Units b.relativePath := by
  have htrans : ∀ a b c : ScratchEntry,
      decide (utf16Units a.relativePath ≤ utf16Units b.relativePath) = true →
      decide (utf16Units b.relativePath ≤ utf16Units c.relativePath) = true →
      decide (utf16Units a.relativePath ≤ utf16Units c.relativePath) = true := by
    simp only [decide_eq_true_eq]
    exact fun a b c => le_trans
  have htotal : ∀ a b : ScratchEntry,
      (decide (utf16Units a.relativePath ≤ utf16Units b.relativePath) ||
        decide (utf16Units b.relativePath ≤ utf16Units a.relativePath)) = true := by
    simp only [Bool.or_eq_true, decide_eq_true_eq]
    exact fun a b => le_total _ _
  have hnodup : ((sortByPath files).map ScratchEntry.relativePath).Nodup :=
    ((sortByPath_perm files).map _).nodup_iff.mpr h
  rw [List.Nodup, List.pairwise_map] at hnodup
  refine ((List.pairwise_mergeSort htrans htotal files).and hnodup).imp fun hboth => ?_
  exact lt_of_le_of_ne (of_decide_eq_true hboth.1) fun heq => hboth.2 (utf16Units_inj heq)

/-- A part of distinct paths is distinct. -/
theorem DistinctPaths.filter {files : List ScratchEntry} (h : DistinctPaths files)
    (test : ScratchEntry → Bool) : DistinctPaths (files.filter test) where
  nodup := h.nodup.sublist (List.filter_sublist.map _)
  nonempty file hfile := h.nonempty file (List.mem_of_mem_filter hfile)

end Moonfort.Executor
