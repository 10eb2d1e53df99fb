import Moonfort.LinkedMap
import Moonfort.Sandbox.Types

/-!
# Differences of scratch inventories

`diff_scratch` compares two inventories path by path. It reports nothing exactly
when both inventories record the same entry at every path.
-/

namespace Moonfort.Sandbox

open MoonBit

/-- `ScratchChangeKind`. -/
inductive ScratchChangeKind where
  | added
  | modified
  | removed
  deriving DecidableEq

/-- `ScratchDiffEntry`. -/
structure ScratchDiffEntry where
  relativePath : String
  change : ScratchChangeKind
  before : Option ScratchEntry
  after : Option ScratchEntry
  deriving DecidableEq

/-- `ScratchDiff`. -/
structure ScratchDiff where
  entries : List ScratchDiffEntry
  beforeBytes : ℤ
  afterBytes : ℤ
  deriving DecidableEq

/-- The entries of an inventory by their paths: `map[path] = entry` for each of them. -/
def entriesByPath (inventory : ScratchInventory) : List (String × ScratchEntry) :=
  inventory.entries.foldl (fun map entry => LinkedMap.set entry.relativePath entry map) []

/-- `compare_relative_paths(left, right) <= 0`. -/
def relativePathLe (left right : String) : Bool := decide (utf16Units left ≤ utf16Units right)

/-- What `diff_scratch` records about a path of the first inventory. -/
def removedOrModified (after : List (String × ScratchEntry)) :
    String × ScratchEntry → Option ScratchDiffEntry
  | (path, old) =>
    match LinkedMap.get path after with
    | none => some ⟨path, .removed, some old, none⟩
    | some new => if new = old then none else some ⟨path, .modified, some old, some new⟩

/-- What `diff_scratch` records about a path of the second inventory. -/
def addedEntry (before : List (String × ScratchEntry)) :
    String × ScratchEntry → Option ScratchDiffEntry
  | (path, new) =>
    if (LinkedMap.get path before).isSome then none else some ⟨path, .added, none, some new⟩

/-- `diff_scratch`. -/
def diffScratch (before after : ScratchInventory) : ScratchDiff :=
  let beforeByPath := entriesByPath before
  let afterByPath := entriesByPath after
  let changes := beforeByPath.filterMap (removedOrModified afterByPath) ++
    afterByPath.filterMap (addedEntry beforeByPath)
  ⟨changes.mergeSort fun left right => relativePathLe left.relativePath right.relativePath,
    before.totalBytes, after.totalBytes⟩

/-- The paths of an inventory occur once in its map. -/
theorem entriesByPath_nodup (inventory : ScratchInventory) :
    (LinkedMap.keys (entriesByPath inventory)).Nodup :=
  List.foldlRecOn (motive := fun map => (LinkedMap.keys map).Nodup) inventory.entries _
    List.nodup_nil fun _ hmap _ _ => LinkedMap.nodup_keys_set hmap

/-- A difference is empty exactly when the two inventories agree at every path. -/
theorem diffScratch_entries_eq_nil_iff (before after : ScratchInventory) :
    (diffScratch before after).entries = [] ↔
      ∀ path, LinkedMap.get path (entriesByPath before) =
        LinkedMap.get path (entriesByPath after) := by
  have hbefore := entriesByPath_nodup before
  have hafter := entriesByPath_nodup after
  have hnil : (diffScratch before after).entries = [] ↔
      (∀ item ∈ entriesByPath before, removedOrModified (entriesByPath after) item = none) ∧
        ∀ item ∈ entriesByPath after, addedEntry (entriesByPath before) item = none := by
    rw [diffScratch, ← List.length_eq_zero_iff, List.length_mergeSort, List.length_eq_zero_iff,
      List.append_eq_nil_iff, List.filterMap_eq_nil_iff, List.filterMap_eq_nil_iff]
  rw [hnil]
  constructor
  · rintro ⟨hremoved, hadded⟩ path
    cases hold : LinkedMap.get path (entriesByPath before) with
    | some old =>
      have hentry := hremoved _ ((LinkedMap.get_eq_some_iff hbefore).mp hold)
      rw [removedOrModified] at hentry
      split at hentry
      · cases hentry
      · rename_i new hnew
        split at hentry
        · rename_i heq
          rw [hnew, heq]
        · cases hentry
    | none =>
      cases hnew : LinkedMap.get path (entriesByPath after) with
      | none => rfl
      | some new =>
        have hentry := hadded _ ((LinkedMap.get_eq_some_iff hafter).mp hnew)
        rw [addedEntry, hold] at hentry
        cases hentry
  · intro hagree
    constructor
    · rintro ⟨path, old⟩ hmem
      have hold := (LinkedMap.get_eq_some_iff hbefore).mpr hmem
      rw [removedOrModified, ← hagree path, hold]
      exact if_pos rfl
    · rintro ⟨path, new⟩ hmem
      have hnew := (LinkedMap.get_eq_some_iff hafter).mpr hmem
      rw [addedEntry, hagree path, hnew]
      rfl

end Moonfort.Sandbox
