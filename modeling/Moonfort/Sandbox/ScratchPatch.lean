import Moonfort.KeyedDiff
import Moonfort.LinkedMap
import Moonfort.Sandbox.ScratchDiff
import Mathlib.Logic.Function.Basic
import Mathlib.Data.List.Sort

/-!
# What a scratch difference does

An inventory as a map from paths to entries, and a difference as a script that
turns one such map into another. The entries of `diff_scratch` are the changes
between the maps of its inventories, one for each path that differs.
-/

namespace Moonfort.Sandbox

open KeyedDiff MoonBit

/-- Each path occurs in one entry of the inventory. -/
def ScratchInventory.UniquePaths (inventory : ScratchInventory) : Prop :=
  (inventory.entries.map (·.relativePath)).Nodup

instance (inventory : ScratchInventory) : Decidable inventory.UniquePaths :=
  inferInstanceAs (Decidable (List.Nodup _))

/-- The map of an inventory: the entry at a path. -/
def ScratchInventory.entryAt (inventory : ScratchInventory) (path : String) : Option ScratchEntry :=
  inventory.entries.find? (·.relativePath = path)

/-- Make one change; none where the map does not hold what was there before the change. -/
def applyEntry (map : String → Option ScratchEntry) (entry : ScratchDiffEntry) :
    Option (String → Option ScratchEntry) :=
  match entry.change, entry.before, entry.after with
  | .added, none, some new =>
    if map entry.relativePath = none then some (Function.update map entry.relativePath (some new))
    else none
  | .removed, some old, none =>
    if map entry.relativePath = some old then some (Function.update map entry.relativePath none)
    else none
  | .modified, some old, some new =>
    if map entry.relativePath = some old then
      some (Function.update map entry.relativePath (some new))
    else none
  | _, _, _ => none

/-- Make the changes of a difference one after another. -/
def applyEntries (map : String → Option ScratchEntry) (entries : List ScratchDiffEntry) :
    Option (String → Option ScratchEntry) :=
  entries.foldlM applyEntry map

/-- Additions become removals and removals additions. -/
def ScratchChangeKind.swap : ScratchChangeKind → ScratchChangeKind
  | .added => .removed
  | .modified => .modified
  | .removed => .added

/-- A change with its sides exchanged. -/
def ScratchDiffEntry.swap (entry : ScratchDiffEntry) : ScratchDiffEntry :=
  ⟨entry.relativePath, entry.change.swap, entry.after, entry.before⟩

/-- A difference with its sides exchanged. -/
def ScratchDiff.swap (diff : ScratchDiff) : ScratchDiff :=
  ⟨diff.entries.map ScratchDiffEntry.swap, diff.afterBytes, diff.beforeBytes⟩

/-! ## The maps of `diff_scratch` -/

/-- With unique paths the map of an inventory has its entries in their order. -/
theorem entriesByPath_of_unique {inventory : ScratchInventory} (h : inventory.UniquePaths) :
    entriesByPath inventory =
      inventory.entries.map fun entry => (entry.relativePath, entry) := by
  have hfold : ∀ (entries : List ScratchEntry) (map : List (String × ScratchEntry)),
      (map.map Prod.fst ++ entries.map (·.relativePath)).Nodup →
        entries.foldl (fun map entry => LinkedMap.set entry.relativePath entry map) map =
          map ++ entries.map fun entry => (entry.relativePath, entry) := by
    intro entries
    induction entries with
    | nil => exact fun map _ => (List.append_nil map).symm
    | cons entry entries ih =>
      intro map hnodup
      have hnew : entry.relativePath ∉ map.map Prod.fst := by
        intro hmem
        exact (List.nodup_append.mp hnodup).2.2 _ hmem _ List.mem_cons_self rfl
      rw [List.foldl_cons, LinkedMap.set_of_notMem hnew, ih]
      · simp
      · simpa using hnodup
  have hall := hfold inventory.entries [] (by
    rw [List.map_nil, List.nil_append]
    exact h)
  rwa [List.nil_append] at hall

/-- With unique paths the map gives the entry at a path. -/
theorem get_entriesByPath {inventory : ScratchInventory} (h : inventory.UniquePaths)
    (path : String) : LinkedMap.get path (entriesByPath inventory) = inventory.entryAt path := by
  rw [entriesByPath_of_unique h, ScratchInventory.entryAt]
  induction inventory.entries with
  | nil => rfl
  | cons entry entries ih =>
    rw [List.map_cons, LinkedMap.get_cons, List.find?_cons]
    by_cases heq : entry.relativePath = path
    · simp [heq]
    · simp [heq, ih]

/-! ## The entries of a difference -/

/-- The entry of a difference for what a path has before and after. -/
def entryOf (path : String) : Option ScratchEntry → Option ScratchEntry → Option ScratchDiffEntry
  | none, none => none
  | some old, none => some ⟨path, .removed, some old, none⟩
  | none, some new => some ⟨path, .added, none, some new⟩
  | some old, some new =>
    if new = old then none else some ⟨path, .modified, some old, some new⟩

/-- The entry of a path that was there before. -/
theorem removedOrModified_eq (after : List (String × ScratchEntry)) (path : String)
    (old : ScratchEntry) :
    removedOrModified after (path, old) = entryOf path (some old) (LinkedMap.get path after) := by
  rw [removedOrModified]
  cases LinkedMap.get path after <;> rfl

/-- The entry of a path that was not there before. -/
theorem addedEntry_eq (before : List (String × ScratchEntry)) (path : String)
    (new : ScratchEntry) :
    addedEntry before (path, new) =
      if LinkedMap.get path before = none then entryOf path none (some new) else none := by
  rw [addedEntry]
  cases LinkedMap.get path before <;> rfl

/-- An entry records its path and both sides. -/
theorem entryOf_eq_some {path : String} {old new : Option ScratchEntry} {entry : ScratchDiffEntry}
    (h : entryOf path old new = some entry) :
    entry.relativePath = path ∧ entry.before = old ∧ entry.after = new := by
  cases old <;> cases new
  case none.none => cases h
  case some.some old new =>
    rw [entryOf] at h
    split at h
    · cases h
    · obtain rfl := Option.some.inj h
      exact ⟨rfl, rfl, rfl⟩
  all_goals
    obtain rfl := Option.some.inj h
    exact ⟨rfl, rfl, rfl⟩

/-- There is an entry exactly where the sides differ. -/
theorem entryOf_eq_none_iff {path : String} {old new : Option ScratchEntry} :
    entryOf path old new = none ↔ old = new := by
  cases old <;> cases new <;> simp [entryOf, eq_comm]

/-- The entry the other way round has its sides exchanged. -/
theorem entryOf_swap (path : String) (old new : Option ScratchEntry) :
    entryOf path new old = (entryOf path old new).map ScratchDiffEntry.swap := by
  cases old <;> cases new
  case some.some old new =>
    by_cases heq : new = old
    · simp [entryOf, heq]
    · simp [entryOf, heq, Ne.symm heq, ScratchDiffEntry.swap, ScratchChangeKind.swap]
  all_goals rfl

section Diff

variable {before after : ScratchInventory}

/-- A difference has the entry of every path at which the inventories differ. -/
theorem mem_diffScratch (hbefore : before.UniquePaths) (hafter : after.UniquePaths)
    {entry : ScratchDiffEntry} :
    entry ∈ (diffScratch before after).entries ↔
      entryOf entry.relativePath (before.entryAt entry.relativePath)
        (after.entryAt entry.relativePath) = some entry := by
  have hnodup := entriesByPath_nodup before
  have hnodup' := entriesByPath_nodup after
  rw [diffScratch, List.mem_mergeSort, List.mem_append, List.mem_filterMap, List.mem_filterMap,
    ← get_entriesByPath hbefore, ← get_entriesByPath hafter]
  constructor
  · rintro (⟨⟨path, old⟩, hmem, hentry⟩ | ⟨⟨path, new⟩, hmem, hentry⟩)
    · rw [removedOrModified_eq] at hentry
      obtain ⟨rfl, -, -⟩ := entryOf_eq_some hentry
      rw [(LinkedMap.get_eq_some_iff hnodup).mpr hmem]
      exact hentry
    · rw [addedEntry_eq] at hentry
      split at hentry
      next hnone =>
        obtain ⟨rfl, -, -⟩ := entryOf_eq_some hentry
        rw [(LinkedMap.get_eq_some_iff hnodup').mpr hmem, hnone]
        exact hentry
      next => cases hentry
  · intro hentry
    cases hold : LinkedMap.get entry.relativePath (entriesByPath before) with
    | some old =>
      left
      refine ⟨(entry.relativePath, old), (LinkedMap.get_eq_some_iff hnodup).mp hold, ?_⟩
      rw [removedOrModified_eq, ← hold]
      exact hentry
    | none =>
      rw [hold] at hentry
      cases hnew : LinkedMap.get entry.relativePath (entriesByPath after) with
      | none =>
        rw [hnew] at hentry
        cases hentry
      | some new =>
        right
        refine ⟨(entry.relativePath, new), (LinkedMap.get_eq_some_iff hnodup').mp hnew, ?_⟩
        rw [addedEntry_eq, if_pos hold, ← hnew]
        exact hentry

/-- No entry of a difference occurs twice. -/
theorem diffScratch_nodup (before after : ScratchInventory) :
    (diffScratch before after).entries.Nodup := by
  rw [diffScratch, (List.mergeSort_perm _ _).nodup_iff, List.nodup_append]
  refine ⟨?_, ?_, ?_⟩
  · refine (entriesByPath_nodup before).of_map.filterMap ?_
    rintro ⟨path, old⟩ ⟨path', old'⟩ entry hentry hentry'
    rw [Option.mem_def, removedOrModified_eq] at hentry hentry'
    obtain ⟨rfl, hold, -⟩ := entryOf_eq_some hentry
    obtain ⟨rfl, hold', -⟩ := entryOf_eq_some hentry'
    rw [Option.some.inj (hold.symm.trans hold')]
  · refine (entriesByPath_nodup after).of_map.filterMap ?_
    rintro ⟨path, new⟩ ⟨path', new'⟩ entry hentry hentry'
    rw [Option.mem_def, addedEntry_eq] at hentry hentry'
    split at hentry
    next =>
      split at hentry'
      next =>
        obtain ⟨rfl, -, hnew⟩ := entryOf_eq_some hentry
        obtain ⟨rfl, -, hnew'⟩ := entryOf_eq_some hentry'
        rw [Option.some.inj (hnew.symm.trans hnew')]
      next => cases hentry'
    next => cases hentry
  · rintro entry hentry other hother rfl
    obtain ⟨⟨path, old⟩, -, hentry⟩ := List.mem_filterMap.mp hentry
    obtain ⟨⟨path', new⟩, -, hother⟩ := List.mem_filterMap.mp hother
    rw [removedOrModified_eq] at hentry
    rw [addedEntry_eq] at hother
    split at hother
    next =>
      have hsome := (entryOf_eq_some hentry).2.1
      rw [(entryOf_eq_some hother).2.1] at hsome
      cases hsome
    next => cases hother

/-- The declared order of paths: that of their code units. -/
def PathBefore (left right : ScratchDiffEntry) : Prop :=
  utf16Units left.relativePath < utf16Units right.relativePath

/-- The paths of a difference increase strictly. -/
theorem diffScratch_sorted (hbefore : before.UniquePaths) (hafter : after.UniquePaths) :
    (diffScratch before after).entries.Pairwise PathBefore := by
  have hsorted : (diffScratch before after).entries.Pairwise fun left right =>
      relativePathLe left.relativePath right.relativePath = true := by
    refine List.pairwise_mergeSort ?_ ?_ _
    · intro a b c hab hbc
      rw [relativePathLe, decide_eq_true_eq] at *
      exact le_trans hab hbc
    · intro a b
      simp only [relativePathLe, Bool.or_eq_true, decide_eq_true_eq]
      exact le_total _ _
  refine (hsorted.and (diffScratch_nodup before after)).imp_of_mem ?_
  rintro left right hleft hright ⟨hle, hne⟩
  rw [relativePathLe, decide_eq_true_eq] at hle
  rcases lt_or_eq_of_le hle with hlt | heq
  · exact hlt
  · have hpath := utf16Units_inj heq
    rw [mem_diffScratch hbefore hafter] at hleft hright
    rw [hpath, hright] at hleft
    exact absurd (Option.some.inj hleft).symm hne

/-! ## Applying a difference -/

/-- The change that an entry records. -/
def ScratchDiffEntry.toChange (entry : ScratchDiffEntry) : Change String ScratchEntry :=
  ⟨entry.relativePath, entry.before, entry.after⟩

/-- The entries are the changes between the maps at their paths. -/
theorem diffScratch_toChange (hbefore : before.UniquePaths) (hafter : after.UniquePaths) :
    (diffScratch before after).entries.map ScratchDiffEntry.toChange =
      diff ((diffScratch before after).entries.map (·.relativePath)) before.entryAt
        after.entryAt := by
  rw [diff, List.filterMap_map, ← List.filterMap_eq_map]
  refine List.filterMap_congr fun entry hentry => ?_
  rw [mem_diffScratch hbefore hafter] at hentry
  obtain ⟨-, hold, hnew⟩ := entryOf_eq_some hentry
  have hne : before.entryAt entry.relativePath ≠ after.entryAt entry.relativePath := by
    intro heq
    rw [entryOf_eq_none_iff.mpr heq] at hentry
    cases hentry
  rw [Function.comp_apply, Function.comp_apply, changeAt, if_neg hne, ScratchDiffEntry.toChange,
    hold, hnew]

/-- One entry is applied where the map holds its first side. -/
theorem applyEntry_entryOf {map : String → Option ScratchEntry} {new : Option ScratchEntry}
    {entry : ScratchDiffEntry}
    (h : entryOf entry.relativePath (map entry.relativePath) new = some entry) :
    applyEntry map entry = some (Function.update map entry.relativePath entry.after) := by
  obtain ⟨path, change, old, new'⟩ := entry
  dsimp only at h ⊢
  cases hold : map path <;> cases new <;> rw [hold] at h
  case none.none => cases h
  case some.some old new =>
    rw [entryOf] at h
    split at h
    · cases h
    · cases h
      exact if_pos hold
  all_goals
    cases h
    exact if_pos hold

/-- The first change of a key is the one that counts. -/
theorem patch_cons (map : String → Option ScratchEntry) (change : Change String ScratchEntry)
    (changes : List (Change String ScratchEntry)) :
    patch map (change :: changes) =
      Function.update (patch map changes) change.key change.after := by
  funext key
  rw [patch, List.find?_cons]
  by_cases h : key = change.key
  · simp [h]
  · simp [h, Ne.symm h, patch]

/-- A change of one key and changes of others may be made in any order. -/
theorem patch_update {map : String → Option ScratchEntry} {path : String}
    (value : Option ScratchEntry) {changes : List (Change String ScratchEntry)}
    (h : ∀ change ∈ changes, change.key ≠ path) :
    patch (Function.update map path value) changes =
      Function.update (patch map changes) path value := by
  funext key
  by_cases hkey : key = path
  · obtain rfl := hkey
    have hnone : changes.find? (fun change => change.key = key) = none := by
      rw [List.find?_eq_none]
      intro change hchange
      simpa using h change hchange
    rw [patch, hnone, Function.update_self, Function.update_self]
  · rw [patch, Function.update_of_ne hkey, Function.update_of_ne hkey, patch]

/-- Entries of different paths, each with what the map holds first, are all applied. -/
theorem applyEntries_eq_patch {entries : List ScratchDiffEntry}
    {map new : String → Option ScratchEntry}
    (hpaths : (entries.map (·.relativePath)).Nodup)
    (hentries : ∀ entry ∈ entries,
      entryOf entry.relativePath (map entry.relativePath) (new entry.relativePath) = some entry) :
    applyEntries map entries = some (patch map (entries.map ScratchDiffEntry.toChange)) := by
  induction entries generalizing map with
  | nil => rfl
  | cons entry rest ih =>
    rw [List.map_cons, List.nodup_cons] at hpaths
    have happly := applyEntry_entryOf (hentries entry List.mem_cons_self)
    have hother : ∀ other ∈ rest, other.relativePath ≠ entry.relativePath := by
      intro other hother heq
      exact hpaths.1 (List.mem_map.mpr ⟨other, hother, heq⟩)
    have hrest : applyEntries (Function.update map entry.relativePath entry.after) rest =
        some (patch (Function.update map entry.relativePath entry.after)
          (rest.map ScratchDiffEntry.toChange)) := by
      refine ih hpaths.2 fun other hmem => ?_
      rw [Function.update_of_ne (hother other hmem)]
      exact hentries other (List.mem_cons_of_mem _ hmem)
    have hkeys : ∀ change ∈ rest.map ScratchDiffEntry.toChange,
        change.key ≠ entry.relativePath := by
      intro change hchange
      obtain ⟨other, hmem, rfl⟩ := List.mem_map.mp hchange
      exact hother other hmem
    rw [patch_update _ hkeys] at hrest
    rw [applyEntries, List.foldlM_cons, happly, List.map_cons, patch_cons]
    exact hrest

/-- Applying a difference to the first map gives the second. -/
theorem applyEntries_diffScratch (hbefore : before.UniquePaths) (hafter : after.UniquePaths) :
    applyEntries before.entryAt (diffScratch before after).entries = some after.entryAt := by
  have hpaths : ((diffScratch before after).entries.map (·.relativePath)).Nodup := by
    rw [List.Nodup, List.pairwise_map]
    refine (diffScratch_sorted hbefore hafter).imp ?_
    intro left right hlt heq
    rw [PathBefore, heq] at hlt
    exact lt_irrefl _ hlt
  rw [applyEntries_eq_patch hpaths fun entry hentry => (mem_diffScratch hbefore hafter).mp hentry,
    diffScratch_toChange hbefore hafter, patch_diff]
  intro path hne
  cases hentry : entryOf path (before.entryAt path) (after.entryAt path) with
  | none => exact absurd (entryOf_eq_none_iff.mp hentry) hne
  | some entry =>
    have hpath := (entryOf_eq_some hentry).1
    exact List.mem_map.mpr
      ⟨entry, (mem_diffScratch hbefore hafter).mpr (hpath ▸ hentry), hpath⟩

/-- The difference back is the difference with its sides exchanged. -/
theorem diffScratch_swap (hbefore : before.UniquePaths) (hafter : after.UniquePaths) :
    diffScratch after before = (diffScratch before after).swap := by
  have hswap : ∀ entry : ScratchDiffEntry, entry.swap.swap = entry := by
    rintro ⟨path, change, old, new⟩
    cases change <;> rfl
  have hinj : Function.Injective ScratchDiffEntry.swap :=
    Function.LeftInverse.injective hswap
  have hmem : ∀ entry, entry ∈ (diffScratch after before).entries ↔
      entry ∈ (diffScratch before after).entries.map ScratchDiffEntry.swap := by
    intro entry
    rw [mem_diffScratch hafter hbefore, entryOf_swap, Option.map_eq_some_iff, List.mem_map]
    constructor
    · rintro ⟨other, hother, rfl⟩
      exact ⟨other, (mem_diffScratch hbefore hafter).mpr hother, rfl⟩
    · rintro ⟨other, hother, rfl⟩
      exact ⟨other, (mem_diffScratch hbefore hafter).mp hother, rfl⟩
  have hperm : (diffScratch after before).entries.Perm
      ((diffScratch before after).entries.map ScratchDiffEntry.swap) :=
    (List.perm_ext_iff_of_nodup (diffScratch_nodup after before)
      ((diffScratch_nodup before after).map hinj)).mpr hmem
  have hentries : (diffScratch after before).entries =
      (diffScratch before after).entries.map ScratchDiffEntry.swap := by
    refine hperm.eq_of_pairwise ?_ (diffScratch_sorted hafter hbefore)
      (List.pairwise_map.mpr (diffScratch_sorted hbefore hafter))
    intro left right _ _ hlt hlt'
    exact absurd hlt (lt_asymm hlt')
  rw [ScratchDiff.swap, ← hentries]
  rfl

end Diff

/-- The entries of a difference, applied to the first inventory's map, give the
second's; there are none exactly when the maps are equal; their paths increase
strictly; and the difference back has every entry with its sides exchanged. -/
theorem scratch_diff_exact (before after : ScratchInventory) (hbefore : before.UniquePaths)
    (hafter : after.UniquePaths) :
    applyEntries before.entryAt (diffScratch before after).entries = some after.entryAt ∧
    ((diffScratch before after).entries = [] ↔ before.entryAt = after.entryAt) ∧
    (diffScratch before after).entries.Pairwise PathBefore ∧
    diffScratch after before = (diffScratch before after).swap := by
  refine ⟨applyEntries_diffScratch hbefore hafter, ?_, diffScratch_sorted hbefore hafter,
    diffScratch_swap hbefore hafter⟩
  rw [diffScratch_entries_eq_nil_iff, funext_iff]
  simp only [get_entriesByPath hbefore, get_entriesByPath hafter]

/-- An inventory with a file, and one where a directory has replaced it. -/
def sampleBefore : ScratchInventory := ⟨[⟨"a", .regularFile, 1, "f"⟩], 1⟩

/-- A directory in the place of a file, beside a new file. -/
def sampleAfter : ScratchInventory :=
  ⟨[⟨"b", .regularFile, 2, "g"⟩, ⟨"a", .directoryEntry, 0, "directory"⟩], 2⟩

/-- A file that a directory has replaced, and a file that was added. -/
theorem scratch_diff_exact_sample :
    applyEntries sampleBefore.entryAt (diffScratch sampleBefore sampleAfter).entries =
      some sampleAfter.entryAt ∧
    ((diffScratch sampleBefore sampleAfter).entries = [] ↔
      sampleBefore.entryAt = sampleAfter.entryAt) ∧
    (diffScratch sampleBefore sampleAfter).entries.Pairwise PathBefore ∧
    diffScratch sampleAfter sampleBefore = (diffScratch sampleBefore sampleAfter).swap :=
  scratch_diff_exact sampleBefore sampleAfter (by decide) (by decide)

end Moonfort.Sandbox
