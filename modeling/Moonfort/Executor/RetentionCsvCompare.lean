import Moonfort.KeyedDiff
import Moonfort.LinkedMap
import Moonfort.Executor.RetentionCsv

/-!
# Comparing retained CSV

The comparison of two tables by the columns that make up a row's key. It is the
difference of the two maps from keys to rows, so it partitions both tables, and
patching the one map with it gives the other. The order of the rows does not matter.
-/

namespace Moonfort.Executor

open MoonBit KeyedDiff

/-! ## The comparison -/

/-- `RetentionCsvChange`. -/
structure RetentionCsvChange where
  key : List String
  change : String
  beforeRow : Option ℕ
  afterRow : Option ℕ
  before : Option (List String)
  after : Option (List String)
  changedColumns : List ℕ
  deriving DecidableEq

/-- The entries and counts that `compare_retained_csv_records` returns. -/
structure CsvComparison where
  entries : List RetentionCsvChange
  added : ℕ
  removed : ℕ
  changed : ℕ
  unchanged : ℕ
  deriving DecidableEq

/-- `columns.map(column => record[column - 1])`. -/
def csvKey (columns : List ℤ) (record : List String) : List String :=
  columns.map fun column => record.getD (column - 1).toNat ""

/-- `ToJson::to_json(key).stringify()`. -/
def csvIdentity (key : List String) : String := (Json.array (key.map .string)).stringify

/-- The loop of `retained_csv_key_index`, from the row with the given number. -/
def csvKeyIndexFrom (columns : List ℤ) (side : String) :
    (row : ℕ) → List (List String) → List (String × ℕ) → Except String (List (String × ℕ))
  | _, [], index => .ok index
  | row, record :: rest, index =>
    let key := csvKey columns record
    match (key.zip columns).find? fun cell => cell.1 = "" with
    | some (_, column) =>
      .error (side ++ " CSV data row " ++ toString row ++ " has an empty key in column " ++
        toString column)
    | none =>
      match LinkedMap.get (csvIdentity key) index with
      | some previous =>
        .error (side ++ " CSV data row " ++ toString row ++ " repeats the key of data row " ++
          toString previous)
      | none =>
        csvKeyIndexFrom columns side (row + 1) rest (LinkedMap.set (csvIdentity key) row index)

/-- `retained_csv_key_index`. -/
def retainedCsvKeyIndex (records : List (List String)) (columns : List ℤ) (side : String) :
    Except String (List (String × ℕ)) :=
  csvKeyIndexFrom columns side 1 records.tail []

/-- The loop that collects the keys of one side. -/
def collectKeys (records : List (List String)) (columns : List ℤ) (index : List (String × ℕ))
    (keys : List (String × List String)) : List (String × List String) :=
  index.foldl
    (fun keys (identity, row) => LinkedMap.set identity (csvKey columns (records.getD row [])) keys)
    keys

/-- The comparison of two keys, component by component in the order of code units. -/
def csvKeyLe : List String → List String → Bool
  | [], _ => true
  | _ :: _, [] => false
  | a :: as, b :: bs =>
    if a = b then csvKeyLe as bs else decide (utf16Units a ≤ utf16Units b)

/-- The check of the key columns: in range and not among those before. -/
def keyColumnsValid (width : ℕ) : (seen columns : List ℤ) → Bool
  | _, [] => true
  | seen, column :: rest =>
    (1 ≤ column && column ≤ width && !seen.contains column) &&
      keyColumnsValid width (seen ++ [column]) rest

/-- The body of the loop over the names. -/
def compareName (left right : List (List String)) (old new : List (String × ℕ))
    (keys : List (String × List String)) (r : CsvComparison) (identity : String) :
    Except String CsvComparison :=
  let beforeRow := LinkedMap.get identity old
  let afterRow := LinkedMap.get identity new
  let before := beforeRow.map fun row => left.getD row []
  let after := afterRow.map fun row => right.getD row []
  let columns := (List.range (left.headD []).length).map (· + 1)
  let entry (change : String) (changedColumns : List ℕ) : RetentionCsvChange :=
    ⟨(LinkedMap.get identity keys).getD [], change, beforeRow, afterRow, before, after,
      changedColumns⟩
  match before, after with
  | some a, some b =>
    let changedColumns := columns.filter fun column =>
      a.getD (column - 1) "" ≠ b.getD (column - 1) ""
    if changedColumns = [] then .ok { r with unchanged := r.unchanged + 1 }
    else .ok { r with
      changed := r.changed + 1
      entries := r.entries ++ [entry "changed" changedColumns] }
  | none, some _ => .ok { r with
      added := r.added + 1
      entries := r.entries ++ [entry "added" columns] }
  | some _, none => .ok { r with
      removed := r.removed + 1
      entries := r.entries ++ [entry "removed" columns] }
  | none, none => .error "CSV comparison key is missing from both inputs"

/-- `compare_retained_csv_records`. Tables that are read have a header. -/
def compareRetainedCsvRecords (left right : List (List String)) (columns : List ℤ) :
    Except String CsvComparison :=
  if left.headD [] ≠ right.headD [] then
    .error "CSV headers must match exactly in order; compare schema changes separately"
  else if ¬(columns ≠ [] ∧ columns.length ≤ (left.headD []).length) then
    .error "CSV comparison requires at least one existing key column"
  else if keyColumnsValid (left.headD []).length [] columns = false then
    .error "CSV key columns must be distinct one-based column numbers"
  else do
    let old ← retainedCsvKeyIndex left columns "baseline"
    let new ← retainedCsvKeyIndex right columns "candidate"
    let keys := collectKeys right columns new (collectKeys left columns old [])
    let names := (LinkedMap.keys keys).mergeSort fun a b =>
      csvKeyLe ((LinkedMap.get a keys).getD []) ((LinkedMap.get b keys).getD [])
    names.foldlM (compareName left right old new keys) ⟨[], 0, 0, 0, 0⟩

/-! ## Keys -/

/-- The identity of a key determines it. -/
theorem csvIdentity_inj {a b : List String} (h : csvIdentity a = csvIdentity b) : a = b := by
  have hjson := Json.stringify_inj h
  have hmap := Json.array.inj hjson
  exact (List.map_injective_iff.mpr fun _ _ heq => Json.string.inj heq) hmap

/-- The order of keys is total. -/
theorem csvKeyLe_total (a b : List String) : (csvKeyLe a b || csvKeyLe b a) = true := by
  induction a generalizing b with
  | nil => rfl
  | cons x xs ih =>
    cases b with
    | nil => rfl
    | cons y ys =>
      rw [csvKeyLe, csvKeyLe]
      by_cases h : x = y
      · rw [if_pos h, if_pos h.symm]
        exact ih ys
      · rw [if_neg h, if_neg (Ne.symm h), Bool.or_eq_true, decide_eq_true_eq, decide_eq_true_eq]
        exact le_total _ _

/-- The order of keys is antisymmetric. -/
theorem csvKeyLe_antisymm {a b : List String} (hab : csvKeyLe a b = true)
    (hba : csvKeyLe b a = true) : a = b := by
  induction a generalizing b with
  | nil =>
    cases b with
    | nil => rfl
    | cons y ys => cases hba
  | cons x xs ih =>
    cases b with
    | nil => cases hab
    | cons y ys =>
      rw [csvKeyLe] at hab hba
      by_cases h : x = y
      · rw [if_pos h] at hab
        rw [if_pos h.symm] at hba
        rw [h, ih hab hba]
      · rw [if_neg h, decide_eq_true_eq] at hab
        rw [if_neg (Ne.symm h), decide_eq_true_eq] at hba
        exact absurd (utf16Units_inj (le_antisymm hab hba)) h

/-- The order of keys is transitive. -/
theorem csvKeyLe_trans (a b c : List String) (hab : csvKeyLe a b = true)
    (hbc : csvKeyLe b c = true) : csvKeyLe a c = true := by
  induction a generalizing b c with
  | nil => rfl
  | cons x xs ih =>
    cases b with
    | nil => cases hab
    | cons y ys =>
      cases c with
      | nil => cases hbc
      | cons z zs =>
        rw [csvKeyLe] at hab hbc ⊢
        by_cases hxy : x = y
        · subst hxy
          rw [if_pos rfl] at hab
          by_cases hxz : x = z
          · rw [if_pos hxz] at hbc ⊢
            exact ih ys zs hab hbc
          · rw [if_neg hxz] at hbc ⊢
            exact hbc
        · rw [if_neg hxy, decide_eq_true_eq] at hab
          by_cases hyz : y = z
          · subst hyz
            rw [if_neg hxy, decide_eq_true_eq]
            exact hab
          · rw [if_neg hyz, decide_eq_true_eq] at hbc
            have hne : x ≠ z := by
              rintro rfl
              exact hxy (utf16Units_inj (le_antisymm hab hbc))
            rw [if_neg hne, decide_eq_true_eq]
            exact hab.trans hbc

/-! ## The index of one side -/

/-- The rows have keys without empty components, and different ones. -/
structure Keyed (columns : List ℤ) (rows : List (List String)) : Prop where
  nonempty : ∀ record ∈ rows, "" ∉ csvKey columns record
  nodup : (rows.map (csvKey columns)).Nodup

/-- The index of some rows, numbered from the given number. -/
def csvIndex (columns : List ℤ) (row : ℕ) (rows : List (List String)) : List (String × ℕ) :=
  (rows.zipIdx row).map fun (record, row) => (csvIdentity (csvKey columns record), row)

/-- An empty cell is found exactly when the key has one. -/
theorem find_emptyCell {columns : List ℤ} {record : List String} :
    ((csvKey columns record).zip columns).find? (fun cell => cell.1 = "") = none ↔
      "" ∉ csvKey columns record := by
  have hfst : ((csvKey columns record).zip columns).map Prod.fst = csvKey columns record :=
    List.map_fst_zip (by simp [csvKey])
  rw [List.find?_eq_none]
  constructor
  · intro h hmem
    rw [← hfst] at hmem
    obtain ⟨cell, hcell, hempty⟩ := List.mem_map.mp hmem
    exact h cell hcell (by simp [hempty])
  · intro h cell hcell hempty
    have hmem := List.mem_map_of_mem (f := Prod.fst) hcell
    rw [hfst] at hmem
    rw [decide_eq_true_eq] at hempty
    exact h (hempty ▸ hmem)

/-- The index is built exactly over keyed rows whose keys are new. -/
theorem csvKeyIndexFrom_eq_ok {columns : List ℤ} {side : String} {row : ℕ}
    {rows : List (List String)} {index result : List (String × ℕ)} :
    csvKeyIndexFrom columns side row rows index = .ok result ↔
      Keyed columns rows ∧
        (∀ record ∈ rows, csvIdentity (csvKey columns record) ∉ LinkedMap.keys index) ∧
          result = index ++ csvIndex columns row rows := by
  induction rows generalizing row index with
  | nil =>
    rw [csvKeyIndexFrom, Except.ok.injEq]
    constructor
    · rintro rfl
      exact ⟨⟨nofun, List.nodup_nil⟩, nofun, (List.append_nil _).symm⟩
    · rintro ⟨-, -, rfl⟩
      exact (List.append_nil _).symm
  | cons record rest ih =>
    rw [csvKeyIndexFrom]
    cases hempty : ((csvKey columns record).zip columns).find? fun cell => cell.1 = "" with
    | some cell =>
      have hmem : ¬"" ∉ csvKey columns record := by
        rw [← find_emptyCell, hempty]
        exact Option.some_ne_none _
      constructor
      · intro h
        cases h
      · rintro ⟨hkeyed, -, -⟩
        exact absurd (hkeyed.nonempty record List.mem_cons_self) hmem
    | none =>
      have hfull := find_emptyCell.mp hempty
      dsimp only
      cases hprevious : LinkedMap.get (csvIdentity (csvKey columns record)) index with
      | some previous =>
        constructor
        · intro h
          cases h
        · rintro ⟨-, hnew, -⟩
          rw [LinkedMap.get_eq_none_iff.mpr (hnew record List.mem_cons_self)] at hprevious
          cases hprevious
      | none =>
        have hnew := LinkedMap.get_eq_none_iff.mp hprevious
        dsimp only
        rw [LinkedMap.set_of_notMem hnew, ih]
        have hsplit : (∀ other ∈ rest, csvIdentity (csvKey columns other) ∉
            LinkedMap.keys (index ++ [(csvIdentity (csvKey columns record), row)])) ↔
            (∀ other ∈ rest, csvIdentity (csvKey columns other) ∉ LinkedMap.keys index) ∧
              csvKey columns record ∉ rest.map (csvKey columns) := by
          simp only [LinkedMap.keys, List.map_append, List.map_cons, List.map_nil, List.mem_append,
            List.mem_singleton, not_or, forall_and]
          apply and_congr_right'
          constructor
          · intro h hmem
            obtain ⟨other, hother, heq⟩ := List.mem_map.mp hmem
            exact h other hother (by rw [heq])
          · intro h other hother heq
            exact h (List.mem_map.mpr ⟨other, hother, csvIdentity_inj heq⟩)
        have hcons : index ++ csvIndex columns row (record :: rest) =
            index ++ [(csvIdentity (csvKey columns record), row)] ++
              csvIndex columns (row + 1) rest := by
          simp [csvIndex]
        rw [hsplit, hcons]
        constructor
        · rintro ⟨hkeyed, ⟨hothers, hfirst⟩, hresult⟩
          refine ⟨⟨?_, ?_⟩, ?_, hresult⟩
          · exact List.forall_mem_cons.mpr ⟨hfull, hkeyed.nonempty⟩
          · exact List.nodup_cons.mpr ⟨hfirst, hkeyed.nodup⟩
          · exact List.forall_mem_cons.mpr ⟨hnew, hothers⟩
        · rintro ⟨hkeyed, hothers, hresult⟩
          obtain ⟨hfirst, hnodup⟩ := List.nodup_cons.mp hkeyed.nodup
          have hrest : ∀ other ∈ rest, "" ∉ csvKey columns other := fun other hother =>
            hkeyed.nonempty other (List.mem_cons_of_mem _ hother)
          exact ⟨⟨hrest, hnodup⟩,
            ⟨fun other hother => hothers other (List.mem_cons_of_mem _ hother), hfirst⟩, hresult⟩

/-- The row that the index gives for a key is the row with that key. -/
theorem getD_get_csvIndex (columns : List ℤ) (key : List String)
    (before rows : List (List String)) :
    (LinkedMap.get (csvIdentity key) (csvIndex columns before.length rows)).map
        (fun row => (before ++ rows).getD row []) =
      rows.find? fun record => csvKey columns record = key := by
  induction rows generalizing before with
  | nil => rfl
  | cons record rest ih =>
    have hindex : csvIndex columns before.length (record :: rest) =
        (csvIdentity (csvKey columns record), before.length) ::
          csvIndex columns (before ++ [record]).length rest := by
      simp [csvIndex]
    have hrest := ih (before ++ [record])
    rw [List.append_assoc, List.singleton_append] at hrest
    rw [hindex, LinkedMap.get]
    by_cases h : csvKey columns record = key
    · rw [if_pos (by rw [h]), List.find?_cons_of_pos (by simp [h]), Option.map_some]
      simp
    · rw [if_neg fun heq => h (csvIdentity_inj heq), List.find?_cons_of_neg (by simp [h]), hrest]

/-! ## The keys of both sides -/

/-- Some keys under their identities. -/
def identified (keys : List (List String)) : List (String × List String) :=
  keys.map fun key => (csvIdentity key, key)

/-- The identities of keys. -/
theorem keys_identified (keys : List (List String)) :
    LinkedMap.keys (identified keys) = keys.map csvIdentity := by
  simp [LinkedMap.keys, identified]

/-- A key is found by its identity. -/
theorem get_identified (keys : List (List String)) (key : List String) :
    LinkedMap.get (csvIdentity key) (identified keys) = if key ∈ keys then some key else none := by
  induction keys with
  | nil => rfl
  | cons k rest ih =>
    rw [identified] at ih
    rw [identified, List.map_cons, LinkedMap.get]
    by_cases h : k = key
    · simp [h]
    · have hmem : key ∈ k :: rest ↔ key ∈ rest := by
        rw [List.mem_cons]
        simp [Ne.symm h]
      rw [if_neg fun heq => h (csvIdentity_inj heq), ih]
      simp only [hmem]

/-- Keys with those of some rows added at the end. -/
def addKeys (columns : List ℤ) (keys : List (List String)) (rows : List (List String)) :
    List (List String) :=
  rows.foldl
    (fun keys record =>
      if csvKey columns record ∈ keys then keys else keys ++ [csvKey columns record])
    keys

variable {key : List String}

/-- The keys of further rows are added to those there. -/
theorem mem_addKeys {columns : List ℤ} {keys rows : List (List String)} :
    key ∈ addKeys columns keys rows ↔ key ∈ keys ∨ key ∈ rows.map (csvKey columns) := by
  induction rows generalizing keys with
  | nil => simp [addKeys]
  | cons record rest ih =>
    unfold addKeys at ih ⊢
    rw [List.foldl_cons, ih, List.map_cons, List.mem_cons]
    split
    next hmem =>
      constructor
      · rintro (h | h)
        · exact .inl h
        · exact .inr (.inr h)
      · rintro (h | rfl | h)
        · exact .inl h
        · exact .inl hmem
        · exact .inr h
    next =>
      rw [List.mem_append, List.mem_singleton]
      exact or_assoc

/-- Added keys are distinct. -/
theorem nodup_addKeys {columns : List ℤ} {keys : List (List String)} (h : keys.Nodup)
    (rows : List (List String)) : (addKeys columns keys rows).Nodup := by
  induction rows generalizing keys with
  | nil => exact h
  | cons record rest ih =>
    rw [addKeys, List.foldl_cons]
    split
    next => exact ih h
    next hnew =>
      apply ih
      rw [List.nodup_append]
      refine ⟨h, by simp, ?_⟩
      rintro a ha b hb rfl
      exact hnew (List.mem_singleton.mp hb ▸ ha)

/-- The loop that collects keys adds those of the rows. -/
theorem collectKeys_csvIndex (columns : List ℤ) (before rows keys : List (List String)) :
    collectKeys (before ++ rows) columns (csvIndex columns before.length rows) (identified keys) =
      identified (addKeys columns keys rows) := by
  induction rows generalizing before keys with
  | nil => rfl
  | cons record rest ih =>
    have hset : LinkedMap.set (csvIdentity (csvKey columns record)) (csvKey columns record)
        (identified keys) =
        identified (if csvKey columns record ∈ keys then keys
          else keys ++ [csvKey columns record]) := by
      split
      next hmem =>
        apply LinkedMap.set_of_get
        rw [get_identified, if_pos hmem]
      next hnew =>
        rw [LinkedMap.set_of_notMem, identified, identified, List.map_append]
        · rfl
        · rw [← LinkedMap.get_eq_none_iff, get_identified, if_neg hnew]
    have hrest := ih (before ++ [record]) (if csvKey columns record ∈ keys then keys
      else keys ++ [csvKey columns record])
    rw [List.append_assoc, List.singleton_append] at hrest
    have hindex : csvIndex columns before.length (record :: rest) =
        (csvIdentity (csvKey columns record), before.length) ::
          csvIndex columns (before ++ [record]).length rest := by
      simp [csvIndex]
    have hrow : (before ++ record :: rest).getD before.length [] = record := by simp
    rw [collectKeys] at hrest
    rw [collectKeys, hindex, List.foldl_cons]
    dsimp only
    rw [hrow, hset, hrest]
    rfl

/-- The keys of both sides, each once and in order. -/
def bothKeys (columns : List ℤ) (rows rows' : List (List String)) : List (List String) :=
  (addKeys columns (addKeys columns [] rows) rows').mergeSort csvKeyLe

/-- The keys of both sides. -/
theorem mem_bothKeys {columns : List ℤ} {rows rows' : List (List String)} :
    key ∈ bothKeys columns rows rows' ↔
      key ∈ rows.map (csvKey columns) ∨ key ∈ rows'.map (csvKey columns) := by
  rw [bothKeys, List.mem_mergeSort, mem_addKeys, mem_addKeys]
  simp

/-- The keys of both sides are distinct. -/
theorem nodup_bothKeys (columns : List ℤ) (rows rows' : List (List String)) :
    (bothKeys columns rows rows').Nodup :=
  (List.mergeSort_perm _ _).nodup_iff.mpr (nodup_addKeys (nodup_addKeys List.nodup_nil _) _)

/-- The keys of both sides depend on the sets of keys only. -/
theorem bothKeys_congr {columns : List ℤ} {rows rows' other other' : List (List String)}
    (h : ∀ key, (key ∈ rows.map (csvKey columns) ∨ key ∈ rows'.map (csvKey columns)) ↔
      (key ∈ other.map (csvKey columns) ∨ key ∈ other'.map (csvKey columns))) :
    bothKeys columns rows rows' = bothKeys columns other other' := by
  have hperm : (bothKeys columns rows rows').Perm (bothKeys columns other other') := by
    rw [List.perm_ext_iff_of_nodup (nodup_bothKeys _ _ _) (nodup_bothKeys _ _ _)]
    intro key
    rw [mem_bothKeys, mem_bothKeys, h]
  exact hperm.eq_of_pairwise (fun _ _ _ _ => csvKeyLe_antisymm)
    (List.pairwise_mergeSort csvKeyLe_trans csvKeyLe_total _)
    (List.pairwise_mergeSort csvKeyLe_trans csvKeyLe_total _)

/-- The names are the identities of the keys of both sides. -/
theorem names_eq (keys : List (List String)) :
    ((LinkedMap.keys (identified keys)).mergeSort fun a b =>
      csvKeyLe ((LinkedMap.get a (identified keys)).getD [])
        ((LinkedMap.get b (identified keys)).getD [])) =
      (keys.mergeSort csvKeyLe).map csvIdentity := by
  rw [keys_identified]
  symm
  apply List.map_mergeSort
  intro a ha b hb
  rw [get_identified, get_identified, if_pos ha, if_pos hb]
  rfl

/-! ## The loop over the names -/

/-- The row with a key. -/
def rowOf (columns : List ℤ) (records : List (List String)) (key : List String) :
    Option (List String) :=
  records.tail.find? fun record => csvKey columns record = key

/-- The number of the row with a key. -/
def rowNumberOf (columns : List ℤ) (records : List (List String)) (key : List String) : Option ℕ :=
  LinkedMap.get (csvIdentity key) (csvIndex columns 1 records.tail)

/-- The columns in which two records differ, of so many. -/
def changedColumns (width : ℕ) (a b : List String) : List ℕ :=
  ((List.range width).map (· + 1)).filter fun column =>
    a.getD (column - 1) "" ≠ b.getD (column - 1) ""

/-- The entry of a key, where its rows differ. -/
def entryOf (columns : List ℤ) (left right : List (List String)) (key : List String) :
    Option RetentionCsvChange :=
  let width := (left.headD []).length
  let entry (change : String) (changedColumns : List ℕ) : RetentionCsvChange :=
    ⟨key, change, rowNumberOf columns left key, rowNumberOf columns right key,
      rowOf columns left key, rowOf columns right key, changedColumns⟩
  match rowOf columns left key, rowOf columns right key with
  | some a, some b =>
    if changedColumns width a b = [] then none
    else some (entry "changed" (changedColumns width a b))
  | none, some _ => some (entry "added" ((List.range width).map (· + 1)))
  | some _, none => some (entry "removed" ((List.range width).map (· + 1)))
  | none, none => none

/-- Both sides have the key, and the same cells under it. -/
def sameAt (columns : List ℤ) (left right : List (List String)) (key : List String) : Bool :=
  match rowOf columns left key, rowOf columns right key with
  | some a, some b => changedColumns (left.headD []).length a b = []
  | _, _ => false

/-- The comparison that some keys lead to. -/
def comparisonOver (columns : List ℤ) (left right keys : List (List String)) : CsvComparison :=
  let entries := keys.filterMap (entryOf columns left right)
  { entries
    added := entries.countP fun entry => entry.change = "added"
    removed := entries.countP fun entry => entry.change = "removed"
    changed := entries.countP fun entry => entry.change = "changed"
    unchanged := keys.countP (sameAt columns left right) }

/-- One round of the loop, for the key of a name. -/
theorem compareName_eq {columns : List ℤ} {left right : List (List String)}
    (hleft : left ≠ []) (hright : right ≠ []) {keys : List (List String)} {key : List String}
    (hkey : key ∈ keys)
    (hside : (rowOf columns left key).isSome ∨ (rowOf columns right key).isSome)
    (r : CsvComparison) :
    compareName left right (csvIndex columns 1 left.tail) (csvIndex columns 1 right.tail)
        (identified keys) r (csvIdentity key) =
      .ok
        { entries := r.entries ++ (entryOf columns left right key).toList
          added := r.added + ((entryOf columns left right key).toList.countP
            fun entry => entry.change = "added")
          removed := r.removed + ((entryOf columns left right key).toList.countP
            fun entry => entry.change = "removed")
          changed := r.changed + ((entryOf columns left right key).toList.countP
            fun entry => entry.change = "changed")
          unchanged := r.unchanged + [key].countP (sameAt columns left right) } := by
  have hbefore : (LinkedMap.get (csvIdentity key) (csvIndex columns 1 left.tail)).map
      (fun row => left.getD row []) = rowOf columns left key := by
    obtain ⟨header, rows, rfl⟩ := List.exists_cons_of_ne_nil hleft
    exact getD_get_csvIndex columns key [header] rows
  have hafter : (LinkedMap.get (csvIdentity key) (csvIndex columns 1 right.tail)).map
      (fun row => right.getD row []) = rowOf columns right key := by
    obtain ⟨header, rows, rfl⟩ := List.exists_cons_of_ne_nil hright
    exact getD_get_csvIndex columns key [header] rows
  unfold compareName
  dsimp only
  rw [hbefore, hafter, get_identified, if_pos hkey]
  unfold entryOf rowNumberOf
  have hsame : [key].countP (sameAt columns left right) =
      if sameAt columns left right key = true then 1 else 0 := by
    simp [List.countP_cons]
  rw [hsame]
  unfold sameAt
  cases hl : rowOf columns left key with
  | none =>
    cases hr : rowOf columns right key with
    | none => simp [hl, hr] at hside
    | some b => simp
  | some a =>
    cases hr : rowOf columns right key with
    | none => simp
    | some b =>
      by_cases hchanged : changedColumns (left.headD []).length a b = []
      · have hcells := hchanged
        unfold changedColumns at hcells
        simp only [hcells, hchanged, if_true, Option.toList_none, List.append_nil,
          List.countP_nil, Nat.add_zero, decide_true]
      · have hcells := hchanged
        unfold changedColumns at hcells
        simp only [hcells, hchanged, if_false, Option.toList_some, decide_false]
        simp [changedColumns]

/-- The loop over the names compares the keys. -/
theorem foldlM_compareName {columns : List ℤ} {left right : List (List String)}
    (hleft : left ≠ []) (hright : right ≠ []) {all keys : List (List String)}
    (hkeys : ∀ key ∈ keys, key ∈ all ∧
      ((rowOf columns left key).isSome ∨ (rowOf columns right key).isSome))
    (r : CsvComparison) :
    (keys.map csvIdentity).foldlM
        (compareName left right (csvIndex columns 1 left.tail) (csvIndex columns 1 right.tail)
          (identified all)) r =
      .ok
        { entries := r.entries ++ (comparisonOver columns left right keys).entries
          added := r.added + (comparisonOver columns left right keys).added
          removed := r.removed + (comparisonOver columns left right keys).removed
          changed := r.changed + (comparisonOver columns left right keys).changed
          unchanged := r.unchanged + (comparisonOver columns left right keys).unchanged } := by
  induction keys generalizing r with
  | nil => simp [comparisonOver, pure, Except.pure]
  | cons key rest ih =>
    obtain ⟨hmem, hside⟩ := hkeys key List.mem_cons_self
    have hentries : (comparisonOver columns left right (key :: rest)).entries =
        (entryOf columns left right key).toList ++
          (comparisonOver columns left right rest).entries := by
      unfold comparisonOver
      dsimp only
      rw [List.filterMap_cons]
      cases entryOf columns left right key <;> rfl
    have hcount (p : RetentionCsvChange → Bool) :
        ((key :: rest).filterMap (entryOf columns left right)).countP p =
          (entryOf columns left right key).toList.countP p +
            (rest.filterMap (entryOf columns left right)).countP p := by
      rw [← List.countP_append]
      exact congrArg _ hentries
    have hsame : (key :: rest).countP (sameAt columns left right) =
        [key].countP (sameAt columns left right) + rest.countP (sameAt columns left right) := by
      rw [← List.countP_append]
      rfl
    rw [List.map_cons, List.foldlM_cons, compareName_eq hleft hright hmem hside]
    change (rest.map csvIdentity).foldlM _ _ = _
    rw [ih fun other hother => hkeys other (List.mem_cons_of_mem _ hother)]
    rw [hentries]
    simp only [comparisonOver, hcount, hsame, List.append_assoc, Nat.add_assoc]

/-! ## What is compared -/

/-- The tables have one header, and rows with different and full keys under the columns. -/
structure Comparable (columns : List ℤ) (left right : List (List String)) : Prop where
  headers : left.headD [] = right.headD []
  columns_ne : columns ≠ []
  columns_le : columns.length ≤ (left.headD []).length
  columns_valid : keyColumnsValid (left.headD []).length [] columns = true
  left_keyed : Keyed columns left.tail
  right_keyed : Keyed columns right.tail

/-- Comparable tables have a header. -/
theorem Comparable.ne_nil {columns : List ℤ} {left right : List (List String)}
    (h : Comparable columns left right) : left ≠ [] ∧ right ≠ [] := by
  have hpos : 0 < columns.length := List.length_pos_iff.mpr h.columns_ne
  have hle := h.columns_le
  have hheaders := h.headers
  constructor
  · rintro rfl
    exact absurd hle (by simpa using h.columns_ne)
  · rintro rfl
    rw [hheaders] at hle
    exact absurd hle (by simpa using h.columns_ne)

/-- Tables are comparable in both directions. -/
theorem Comparable.symm {columns : List ℤ} {left right : List (List String)}
    (h : Comparable columns left right) : Comparable columns right left :=
  ⟨h.headers.symm, h.columns_ne, h.headers ▸ h.columns_le, h.headers ▸ h.columns_valid,
    h.right_keyed, h.left_keyed⟩

variable {records : List (List String)}

/-- The row of a key is the one that has it. -/
theorem rowOf_eq_some_iff {columns : List ℤ}
    (h : Keyed columns records.tail) {key row : List String} :
    rowOf columns records key = some row ↔ row ∈ records.tail ∧ csvKey columns row = key := by
  constructor
  · intro hrow
    exact ⟨List.mem_of_find?_eq_some hrow, by simpa using List.find?_some hrow⟩
  · rintro ⟨hmem, hkey⟩
    cases hfound : rowOf columns records key with
    | none =>
      have hnone := List.find?_eq_none.mp hfound row hmem
      exact absurd hkey (by simpa using hnone)
    | some other =>
      have hother := List.mem_of_find?_eq_some hfound
      have hotherKey : csvKey columns other = key := by simpa using List.find?_some hfound
      have heq := List.inj_on_of_nodup_map h.nodup hother hmem (hotherKey.trans hkey.symm)
      rw [heq]

/-- A key has a row when it is among the keys. -/
theorem isSome_rowOf_iff {columns : List ℤ} :
    (rowOf columns records key).isSome ↔ key ∈ records.tail.map (csvKey columns) := by
  rw [rowOf, List.find?_isSome, List.mem_map]
  simp

/-- What the comparison accepts, and what it returns. -/
theorem compare_eq_ok_iff {columns : List ℤ} {left right : List (List String)}
    {result : CsvComparison} :
    compareRetainedCsvRecords left right columns = .ok result ↔
      Comparable columns left right ∧
        result = comparisonOver columns left right (bothKeys columns left.tail right.tail) := by
  have hrun (h : Comparable columns left right) :
      compareRetainedCsvRecords left right columns =
        .ok (comparisonOver columns left right (bothKeys columns left.tail right.tail)) := by
    obtain ⟨hleft, hright⟩ := h.ne_nil
    have hold : retainedCsvKeyIndex left columns "baseline" = .ok (csvIndex columns 1 left.tail) :=
      csvKeyIndexFrom_eq_ok.mpr ⟨h.left_keyed, nofun, rfl⟩
    have hnew : retainedCsvKeyIndex right columns "candidate" =
        .ok (csvIndex columns 1 right.tail) :=
      csvKeyIndexFrom_eq_ok.mpr ⟨h.right_keyed, nofun, rfl⟩
    have hcollect (records : List (List String)) (hrecords : records ≠ [])
        (keys : List (List String)) :
        collectKeys records columns (csvIndex columns 1 records.tail) (identified keys) =
          identified (addKeys columns keys records.tail) := by
      obtain ⟨header, rows, rfl⟩ := List.exists_cons_of_ne_nil hrecords
      exact collectKeys_csvIndex columns [header] rows keys
    have hsides : ∀ key ∈ bothKeys columns left.tail right.tail,
        key ∈ addKeys columns (addKeys columns [] left.tail) right.tail ∧
          ((rowOf columns left key).isSome ∨ (rowOf columns right key).isSome) := by
      intro key hkey
      rw [isSome_rowOf_iff, isSome_rowOf_iff, ← mem_bothKeys]
      exact ⟨List.mem_mergeSort.mp hkey, hkey⟩
    have hloop := foldlM_compareName hleft hright hsides ⟨[], 0, 0, 0, 0⟩
    unfold compareRetainedCsvRecords
    rw [if_neg (not_not.mpr h.headers), if_neg (not_not.mpr ⟨h.columns_ne, h.columns_le⟩),
      if_neg (by rw [h.columns_valid]; exact Bool.noConfusion), hold, hnew]
    change List.foldlM _ _ ((LinkedMap.keys _).mergeSort _) = _
    have hkeys := hcollect left hleft []
    have hall := hcollect right hright (addKeys columns [] left.tail)
    rw [identified, List.map_nil] at hkeys
    rw [hkeys, hall, names_eq]
    refine hloop.trans ?_
    simp
  constructor
  · intro h
    have hcomparable : Comparable columns left right := by
      unfold compareRetainedCsvRecords at h
      split at h
      next => cases h
      next hheaders =>
        split at h
        next => cases h
        next hcolumns =>
          split at h
          next => cases h
          next hvalid =>
            obtain ⟨hne, hle⟩ := not_not.mp hcolumns
            cases hold : retainedCsvKeyIndex left columns "baseline" with
            | error message =>
              rw [hold] at h
              cases h
            | ok old =>
              cases hnew : retainedCsvKeyIndex right columns "candidate" with
              | error message =>
                rw [hold, hnew] at h
                cases h
              | ok new =>
                exact ⟨not_not.mp hheaders, hne, hle, by simpa using hvalid,
                  (csvKeyIndexFrom_eq_ok.mp hold).1, (csvKeyIndexFrom_eq_ok.mp hnew).1⟩
    rw [hrun hcomparable] at h
    exact ⟨hcomparable, (Except.ok.inj h).symm⟩
  · rintro ⟨h, rfl⟩
    exact hrun h

/-! ## The entries as changes -/

/-- Every record has as many cells as the header. -/
def Rectangular (records : List (List String)) : Prop :=
  ∀ record ∈ records, record.length = (records.headD []).length

instance : DecidablePred Rectangular := fun records =>
  inferInstanceAs (Decidable (∀ record ∈ records, record.length = (records.headD []).length))

/-- Rows of one width are equal when no column changed. -/
theorem changedColumns_eq_nil_iff {width : ℕ} {a b : List String} (ha : a.length = width)
    (hb : b.length = width) : changedColumns width a b = [] ↔ a = b := by
  rw [changedColumns, List.filter_eq_nil_iff]
  constructor
  · intro h
    apply List.ext_getElem (ha.trans hb.symm)
    intro i hi hi'
    have hmem : i + 1 ∈ (List.range width).map (· + 1) := by
      simp only [List.mem_map, List.mem_range]
      exact ⟨i, by omega, rfl⟩
    have hcell := h (i + 1) hmem
    simpa [hi, hi'] using hcell
  · rintro rfl column -
    simp

/-- The changed columns are the same in both directions. -/
theorem changedColumns_comm (width : ℕ) (a b : List String) :
    changedColumns width b a = changedColumns width a b := by
  apply List.filter_congr
  intro column _
  exact decide_eq_decide.mpr ne_comm

/-- The change that an entry tells of. -/
def RetentionCsvChange.toChange (entry : RetentionCsvChange) :
    Change (List String) (List String) :=
  ⟨entry.key, entry.before, entry.after⟩

section Entries

variable {columns : List ℤ} {left right : List (List String)}

/-- A row of a rectangular table is as wide as the header. -/
theorem length_of_rowOf (h : Rectangular records)
    {key row : List String} (hrow : rowOf columns records key = some row) :
    row.length = (records.headD []).length :=
  h row (List.mem_of_mem_tail (List.mem_of_find?_eq_some hrow))

/-- What the entry of a key has in common with the rows under the key. -/
theorem entryOf_spec {entry : RetentionCsvChange}
    (h : entryOf columns left right key = some entry) :
    entry.key = key ∧ entry.before = rowOf columns left key ∧
      entry.after = rowOf columns right key ∧ entry.beforeRow = rowNumberOf columns left key ∧
        entry.afterRow = rowNumberOf columns right key := by
  unfold entryOf at h
  cases hl : rowOf columns left key with
  | none =>
    cases hr : rowOf columns right key with
    | none => simp [hl, hr] at h
    | some b =>
      simp only [hl, hr, Option.some.injEq] at h
      subst h
      exact ⟨rfl, rfl, rfl, rfl, rfl⟩
  | some a =>
    cases hr : rowOf columns right key with
    | none =>
      simp only [hl, hr, Option.some.injEq] at h
      subst h
      exact ⟨rfl, rfl, rfl, rfl, rfl⟩
    | some b =>
      simp only [hl, hr] at h
      split at h
      next => cases h
      next =>
        obtain rfl := Option.some.inj h
        exact ⟨rfl, rfl, rfl, rfl, rfl⟩

/-- A key has an entry where its rows differ. -/
theorem map_toChange_entryOf (hleft : Rectangular left) (hright : Rectangular right)
    (hheaders : left.headD [] = right.headD []) (key : List String) :
    (entryOf columns left right key).map RetentionCsvChange.toChange =
      changeAt (rowOf columns left) (rowOf columns right) key := by
  unfold entryOf changeAt
  cases hl : rowOf columns left key with
  | none =>
    cases hr : rowOf columns right key with
    | none => rfl
    | some b => rfl
  | some a =>
    cases hr : rowOf columns right key with
    | none => rfl
    | some b =>
      have ha := length_of_rowOf hleft hl
      have hb := length_of_rowOf hright hr
      rw [← hheaders] at hb
      have hcells := changedColumns_eq_nil_iff ha hb
      dsimp only
      by_cases heq : a = b
      · rw [if_pos (hcells.mpr heq), if_pos (by rw [heq])]
        rfl
      · rw [if_neg (mt hcells.mp heq), if_neg (mt Option.some.inj heq)]
        rfl

/-- The entries are the difference of the maps from keys to rows. -/
theorem map_toChange_entries (hleft : Rectangular left) (hright : Rectangular right)
    (hheaders : left.headD [] = right.headD []) (keys : List (List String)) :
    (comparisonOver columns left right keys).entries.map RetentionCsvChange.toChange =
      diff keys (rowOf columns left) (rowOf columns right) := by
  unfold comparisonOver diff
  dsimp only
  rw [List.map_filterMap]
  apply List.filterMap_congr
  intro key _
  exact map_toChange_entryOf hleft hright hheaders key

/-- The same cells under a key are equal rows. -/
theorem sameAt_iff (hleft : Rectangular left) (hright : Rectangular right)
    (hheaders : left.headD [] = right.headD []) {key : List String} :
    sameAt columns left right key = true ↔
      (rowOf columns left key).isSome ∧ rowOf columns left key = rowOf columns right key := by
  unfold sameAt
  cases hl : rowOf columns left key with
  | none => simp
  | some a =>
    cases hr : rowOf columns right key with
    | none => simp
    | some b =>
      have ha := length_of_rowOf hleft hl
      have hb := length_of_rowOf hright hr
      rw [← hheaders] at hb
      rw [decide_eq_true_eq, changedColumns_eq_nil_iff ha hb]
      simp

end Entries

/-! ## The partition of both sides -/

/-- The kinds of change. -/
inductive ChangeKind (entry : RetentionCsvChange) : Prop
  | added (row : List String) (hkind : entry.change = "added") (hbefore : entry.before = none)
      (hafter : entry.after = some row)
  | removed (row : List String) (hkind : entry.change = "removed")
      (hbefore : entry.before = some row) (hafter : entry.after = none)
  | changed (a b : List String) (hkind : entry.change = "changed") (hbefore : entry.before = some a)
      (hafter : entry.after = some b) (hne : a ≠ b)

/-- The entries, the counts and the rows that did not change make up both sides. -/
structure Partitions (left right : List (List String)) (result : CsvComparison) : Prop where
  kinds : ∀ entry ∈ result.entries, ChangeKind entry
  rows : ∃ same : List (List String), same.length = result.unchanged ∧
    left.tail.Perm (result.entries.filterMap RetentionCsvChange.before ++ same) ∧
      right.tail.Perm (result.entries.filterMap RetentionCsvChange.after ++ same)
  added : result.added = result.entries.countP fun entry => entry.change = "added"
  removed : result.removed = result.entries.countP fun entry => entry.change = "removed"
  changed : result.changed = result.entries.countP fun entry => entry.change = "changed"
  baseline : left.tail.length = result.removed + result.changed + result.unchanged
  candidate : right.tail.length = result.added + result.changed + result.unchanged

/-- The rows of one side, by the keys. -/
theorem perm_filterMap_rowOf {columns : List ℤ}
    (h : Keyed columns records.tail) {keys : List (List String)} (hnodup : keys.Nodup)
    (hkeys : ∀ row ∈ records.tail, csvKey columns row ∈ keys) :
    records.tail.Perm (keys.filterMap (rowOf columns records)) := by
  rw [List.perm_ext_iff_of_nodup (h.nodup.of_map _)]
  · intro row
    rw [List.mem_filterMap]
    constructor
    · intro hrow
      exact ⟨_, hkeys row hrow, (rowOf_eq_some_iff h).mpr ⟨hrow, rfl⟩⟩
    · rintro ⟨key, -, hrow⟩
      exact ((rowOf_eq_some_iff h).mp hrow).1
  · apply List.Nodup.filterMap _ hnodup
    intro key key' row hrow hrow'
    rw [Option.mem_def, rowOf_eq_some_iff h] at hrow hrow'
    exact hrow.2.symm.trans hrow'.2

/-- What some keys give splits into what two parts of them give. -/
theorem perm_filterMap_split {α β : Type} {f g h : α → Option β} {l : List α}
    (hsplit : ∀ a ∈ l, (f a = g a ∧ h a = none) ∨ (f a = h a ∧ g a = none)) :
    (l.filterMap f).Perm (l.filterMap g ++ l.filterMap h) := by
  induction l with
  | nil => exact List.Perm.refl _
  | cons a rest ih =>
    have hrest := ih fun b hb => hsplit b (List.mem_cons_of_mem _ hb)
    rw [List.filterMap_cons, List.filterMap_cons, List.filterMap_cons]
    rcases hsplit a List.mem_cons_self with ⟨hf, hh⟩ | ⟨hf, hg⟩
    · rw [hf, hh]
      cases g a with
      | none => exact hrest
      | some b => exact hrest.cons b
    · rw [hf, hg]
      cases h a with
      | none => exact hrest
      | some b => exact (hrest.cons b).trans List.perm_middle.symm

/-- An entry is of one of the three kinds. -/
theorem changeKind_of_entryOf {columns : List ℤ} {left right : List (List String)}
    {entry : RetentionCsvChange}
    (h : entryOf columns left right key = some entry) : ChangeKind entry := by
  unfold entryOf at h
  cases hl : rowOf columns left key with
  | none =>
    cases hr : rowOf columns right key with
    | none => simp [hl, hr] at h
    | some b =>
      simp only [hl, hr, Option.some.injEq] at h
      subst h
      exact .added b rfl rfl rfl
  | some a =>
    cases hr : rowOf columns right key with
    | none =>
      simp only [hl, hr, Option.some.injEq] at h
      subst h
      exact .removed a rfl rfl rfl
    | some b =>
      simp only [hl, hr] at h
      split at h
      next => cases h
      next hchanged =>
        obtain rfl := Option.some.inj h
        refine .changed a b rfl rfl rfl ?_
        rintro rfl
        apply hchanged
        unfold changedColumns
        simp

/-- The rows before are those removed and those changed. -/
theorem length_filterMap_before {entries : List RetentionCsvChange}
    (h : ∀ entry ∈ entries, ChangeKind entry) :
    (entries.filterMap RetentionCsvChange.before).length =
      (entries.countP fun entry => entry.change = "removed") +
        entries.countP fun entry => entry.change = "changed" := by
  induction entries with
  | nil => rfl
  | cons entry rest ih =>
    have hrest := ih fun other hother => h other (List.mem_cons_of_mem _ hother)
    rw [List.filterMap_cons, List.countP_cons, List.countP_cons]
    cases h entry List.mem_cons_self with
    | added row hkind hbefore hafter =>
      simp [hkind, hbefore, hrest]
    | removed row hkind hbefore hafter =>
      simp [hkind, hbefore, hrest]
      omega
    | changed a b hkind hbefore hafter hne =>
      simp [hkind, hbefore, hrest]
      omega

/-- The rows after are those added and those changed. -/
theorem length_filterMap_after {entries : List RetentionCsvChange}
    (h : ∀ entry ∈ entries, ChangeKind entry) :
    (entries.filterMap RetentionCsvChange.after).length =
      (entries.countP fun entry => entry.change = "added") +
        entries.countP fun entry => entry.change = "changed" := by
  induction entries with
  | nil => rfl
  | cons entry rest ih =>
    have hrest := ih fun other hother => h other (List.mem_cons_of_mem _ hother)
    rw [List.filterMap_cons, List.countP_cons, List.countP_cons]
    cases h entry List.mem_cons_self with
    | added row hkind hbefore hafter =>
      simp [hkind, hafter, hrest]
      omega
    | removed row hkind hbefore hafter =>
      simp [hkind, hafter, hrest]
    | changed a b hkind hbefore hafter hne =>
      simp [hkind, hafter, hrest]
      omega

/-- The comparison over the keys of both sides partitions them. -/
theorem partitions_comparisonOver {columns : List ℤ} {left right : List (List String)}
    (h : Comparable columns left right) (hleft : Rectangular left) (hright : Rectangular right) :
    Partitions left right
      (comparisonOver columns left right (bothKeys columns left.tail right.tail)) := by
  set keys := bothKeys columns left.tail right.tail with hkeys
  set result := comparisonOver columns left right keys with hresult
  have hkinds : ∀ entry ∈ result.entries, ChangeKind entry := by
    intro entry hentry
    obtain ⟨key, -, hkey⟩ := List.mem_filterMap.mp hentry
    exact changeKind_of_entryOf hkey
  have hsplit (records : List (List String)) (part : RetentionCsvChange → Option (List String))
      (hpart : ∀ key entry, entryOf columns left right key = some entry →
        part entry = rowOf columns records key)
      (hnone : ∀ key, rowOf columns left key = rowOf columns right key →
        rowOf columns records key = rowOf columns left key) :
      (keys.filterMap (rowOf columns records)).Perm
        (result.entries.filterMap part ++ keys.filterMap fun key =>
          if sameAt columns left right key = true then rowOf columns left key else none) := by
    have hentries : result.entries.filterMap part =
        keys.filterMap fun key => (entryOf columns left right key).bind part := by
      rw [hresult, comparisonOver]
      exact List.filterMap_filterMap
    rw [hentries]
    apply perm_filterMap_split
    intro key _
    have hmap : (entryOf columns left right key).map RetentionCsvChange.toChange = _ :=
      map_toChange_entryOf hleft hright h.headers key
    simp only [sameAt_iff hleft hright h.headers]
    by_cases heq : rowOf columns left key = rowOf columns right key
    · right
      rw [changeAt, if_pos heq, Option.map_eq_none_iff] at hmap
      refine ⟨?_, by rw [hmap]; rfl⟩
      rw [hnone key heq]
      cases hrow : rowOf columns left key with
      | none => simp
      | some row => simp [hrow ▸ heq.symm]
    · left
      rw [changeAt, if_neg heq] at hmap
      obtain ⟨entry, hentry, -⟩ := Option.map_eq_some_iff.mp hmap
      exact ⟨by rw [hentry, Option.bind_some, hpart key entry hentry],
        if_neg fun hsame => heq hsame.2⟩
  have hsame : (keys.filterMap fun key =>
      if sameAt columns left right key = true then rowOf columns left key else none).length =
        result.unchanged := by
    rw [List.length_filterMap_eq_countP, hresult, comparisonOver]
    apply List.countP_congr
    intro key _
    have hiff : sameAt columns left right key = true ↔ _ :=
      sameAt_iff hleft hright h.headers
    by_cases hkey : sameAt columns left right key = true
    · rw [if_pos hkey]
      simp [hkey, (hiff.mp hkey).1]
    · simp [hkey]
  have hbefore := (perm_filterMap_rowOf h.left_keyed (nodup_bothKeys columns left.tail right.tail)
    fun row hrow => mem_bothKeys.mpr (.inl (List.mem_map_of_mem hrow))).trans
      (hsplit left RetentionCsvChange.before (fun _ _ hentry => (entryOf_spec hentry).2.1)
        fun _ _ => rfl)
  have hafter := (perm_filterMap_rowOf h.right_keyed (nodup_bothKeys columns left.tail right.tail)
    fun row hrow => mem_bothKeys.mpr (.inr (List.mem_map_of_mem hrow))).trans
      (hsplit right RetentionCsvChange.after (fun _ _ hentry => (entryOf_spec hentry).2.2.1)
        fun _ heq => heq.symm)
  refine ⟨hkinds, ⟨_, hsame, hbefore, hafter⟩, rfl, rfl, rfl, ?_, ?_⟩
  · rw [hbefore.length_eq, List.length_append, hsame, length_filterMap_before hkinds]
    rfl
  · rw [hafter.length_eq, List.length_append, hsame, length_filterMap_after hkinds]
    rfl

/-! ## Exchanged sides -/

/-- The entry with its sides exchanged. -/
def RetentionCsvChange.exchanged (entry : RetentionCsvChange) : RetentionCsvChange :=
  { entry with
    change :=
      if entry.change = "added" then "removed"
      else if entry.change = "removed" then "added" else entry.change
    beforeRow := entry.afterRow
    afterRow := entry.beforeRow
    before := entry.after
    after := entry.before }

/-- The comparison with its sides exchanged. -/
def CsvComparison.exchanged (r : CsvComparison) : CsvComparison :=
  { r with entries := r.entries.map .exchanged, added := r.removed, removed := r.added }

/-- Exchanging the tables exchanges each entry. -/
theorem entryOf_swap {columns : List ℤ} {left right : List (List String)}
    (hheaders : left.headD [] = right.headD []) (key : List String) :
    entryOf columns right left key =
      (entryOf columns left right key).map RetentionCsvChange.exchanged := by
  unfold entryOf
  rw [hheaders]
  cases hl : rowOf columns left key with
  | none =>
    cases hr : rowOf columns right key with
    | none => rfl
    | some b => rfl
  | some a =>
    cases hr : rowOf columns right key with
    | none => rfl
    | some b =>
      dsimp only
      rw [changedColumns_comm]
      split
      next => rfl
      next => rfl

/-- Exchanging the entries exchanges the counts of their kinds. -/
theorem countP_exchanged {columns : List ℤ} {left right : List (List String)}
    (keys : List (List String)) {change other : String}
    (hkind : ∀ entry, ChangeKind entry → (entry.exchanged.change = change ↔ entry.change = other)) :
    (((keys.filterMap (entryOf columns left right)).map RetentionCsvChange.exchanged).countP
      fun entry => entry.change = change) =
        (keys.filterMap (entryOf columns left right)).countP fun entry => entry.change = other := by
  rw [List.countP_map]
  apply List.countP_congr
  intro entry hentry
  obtain ⟨key, -, hkey⟩ := List.mem_filterMap.mp hentry
  simpa using hkind entry (changeKind_of_entryOf hkey)

/-- Exchanging the tables exchanges the comparison. -/
theorem comparisonOver_swap {columns : List ℤ} {left right : List (List String)}
    (hheaders : left.headD [] = right.headD []) (keys : List (List String)) :
    comparisonOver columns right left keys =
      (comparisonOver columns left right keys).exchanged := by
  have hentries : keys.filterMap (entryOf columns right left) =
      (keys.filterMap (entryOf columns left right)).map RetentionCsvChange.exchanged := by
    rw [List.map_filterMap]
    exact List.filterMap_congr fun key _ => entryOf_swap hheaders key
  have hsame (key : List String) :
      sameAt columns right left key = sameAt columns left right key := by
    unfold sameAt
    rw [hheaders]
    cases rowOf columns left key <;> cases rowOf columns right key <;>
      simp [changedColumns_comm]
  unfold comparisonOver CsvComparison.exchanged
  rw [hentries]
  simp only [CsvComparison.mk.injEq, true_and]
  refine ⟨?_, ?_, ?_, ?_⟩
  · apply countP_exchanged
    rintro entry (⟨_, hkind⟩ | ⟨_, hkind⟩ | ⟨_, _, hkind⟩) <;>
      simp [RetentionCsvChange.exchanged, hkind]
  · apply countP_exchanged
    rintro entry (⟨_, hkind⟩ | ⟨_, hkind⟩ | ⟨_, _, hkind⟩) <;>
      simp [RetentionCsvChange.exchanged, hkind]
  · apply countP_exchanged
    rintro entry (⟨_, hkind⟩ | ⟨_, hkind⟩ | ⟨_, _, hkind⟩) <;>
      simp [RetentionCsvChange.exchanged, hkind]
  · exact List.countP_congr fun key _ => by rw [hsame]

/-! ## Reordered rows -/

/-- The other table has the same header, and the same rows in some order. -/
structure Reordered (records records' : List (List String)) : Prop where
  header : records'.headD [] = records.headD []
  rows : records'.tail.Perm records.tail

/-- The comparison without the numbers of the rows. -/
def CsvComparison.withoutRows (r : CsvComparison) : CsvComparison :=
  { r with
    entries := r.entries.map fun entry => { entry with beforeRow := none, afterRow := none } }

/-- Keyed rows stay keyed in another order. -/
theorem Keyed.of_perm {columns : List ℤ} {rows rows' : List (List String)} (h : Keyed columns rows)
    (hperm : rows'.Perm rows) : Keyed columns rows' :=
  ⟨fun record hrecord => h.nonempty record (hperm.mem_iff.mp hrecord),
    (hperm.map _).nodup_iff.mpr h.nodup⟩

/-- The row of a key does not depend on the order of rows. -/
theorem rowOf_reordered {columns : List ℤ} {records records' : List (List String)}
    (h : Keyed columns records.tail) (hreordered : Reordered records records') :
    rowOf columns records' = rowOf columns records := by
  funext key
  apply Option.ext
  intro row
  rw [rowOf_eq_some_iff h, rowOf_eq_some_iff (h.of_perm hreordered.rows),
    hreordered.rows.mem_iff]

/-- The comparison without row numbers does not depend on the order of rows. -/
theorem comparisonOver_reordered {columns : List ℤ} {left left' right right' : List (List String)}
    (h : Comparable columns left right) (hleft : Reordered left left')
    (hright : Reordered right right') (keys : List (List String)) :
    (comparisonOver columns left' right' keys).withoutRows =
      (comparisonOver columns left right keys).withoutRows := by
  have hentry (key : List String) :
      (entryOf columns left' right' key).map
          (fun entry => { entry with beforeRow := none, afterRow := none }) =
        (entryOf columns left right key).map
          (fun entry => { entry with beforeRow := none, afterRow := none }) := by
    unfold entryOf
    rw [rowOf_reordered h.left_keyed hleft, rowOf_reordered h.right_keyed hright, hleft.header]
    cases rowOf columns left key with
    | none => cases rowOf columns right key <;> rfl
    | some a =>
      cases rowOf columns right key with
      | none => rfl
      | some b =>
        dsimp only
        split <;> rfl
  have hentries : (keys.filterMap (entryOf columns left' right')).map
        (fun entry => { entry with beforeRow := none, afterRow := none }) =
      (keys.filterMap (entryOf columns left right)).map
        (fun entry => { entry with beforeRow := none, afterRow := none }) := by
    rw [List.map_filterMap, List.map_filterMap]
    exact List.filterMap_congr fun key _ => hentry key
  have hcount (change : String) :
      (keys.filterMap (entryOf columns left' right')).countP (fun entry => entry.change = change) =
        (keys.filterMap (entryOf columns left right)).countP fun entry =>
          entry.change = change := by
    have hmapped := congrArg (List.countP fun entry => entry.change = change) hentries
    rw [List.countP_map, List.countP_map] at hmapped
    exact hmapped
  have hsame : sameAt columns left' right' = sameAt columns left right := by
    funext key
    unfold sameAt
    rw [rowOf_reordered h.left_keyed hleft, rowOf_reordered h.right_keyed hright, hleft.header]
  unfold comparisonOver CsvComparison.withoutRows
  dsimp only
  rw [hentries, hcount, hcount, hcount, hsame]

/-- Comparable tables stay comparable in another order of rows. -/
theorem Comparable.reordered {columns : List ℤ} {left left' right right' : List (List String)}
    (h : Comparable columns left right) (hleft : Reordered left left')
    (hright : Reordered right right') : Comparable columns left' right' where
  headers := by rw [hleft.header, hright.header, h.headers]
  columns_ne := h.columns_ne
  columns_le := hleft.header ▸ h.columns_le
  columns_valid := hleft.header ▸ h.columns_valid
  left_keyed := h.left_keyed.of_perm hleft.rows
  right_keyed := h.right_keyed.of_perm hright.rows

/-- The keys of both sides do not depend on the order of rows. -/
theorem bothKeys_reordered (columns : List ℤ) {rows rows' other other' : List (List String)}
    (h : rows'.Perm rows) (hother : other'.Perm other) :
    bothKeys columns rows' other' = bothKeys columns rows other := by
  apply bothKeys_congr
  intro key
  rw [(h.map _).mem_iff, (hother.map _).mem_iff]

/-! ## The comparison as a keyed difference -/

/-- The number of an entry's row is the number of the row with its key. -/
theorem getD_rowNumberOf {columns : List ℤ} (h : records ≠ [])
    (key : List String) :
    (rowNumberOf columns records key).map (fun row => records.getD row []) =
      rowOf columns records key := by
  obtain ⟨header, rows, rfl⟩ := List.exists_cons_of_ne_nil h
  exact getD_get_csvIndex columns key [header] rows

/--
The entries and the counts partition both tables, and every entry numbers its rows. Patching
the baseline's map from keys to rows gives the candidate's. Exchanged tables have the exchanged
comparison, and reordered ones the same but for the numbers of the rows.
-/
theorem csv_comparison_correct {columns : List ℤ} {left right : List (List String)}
    {result : CsvComparison} (hleft : Rectangular left) (hright : Rectangular right)
    (h : compareRetainedCsvRecords left right columns = .ok result) :
    Partitions left right result ∧
      (∀ entry ∈ result.entries,
        (entry.beforeRow.map fun row => left.getD row []) = entry.before ∧
          (entry.afterRow.map fun row => right.getD row []) = entry.after) ∧
      patch (rowOf columns left) (result.entries.map RetentionCsvChange.toChange) =
        rowOf columns right ∧
      compareRetainedCsvRecords right left columns = .ok result.exchanged ∧
      ∀ left' right', Reordered left left' → Reordered right right' →
        ∃ result', compareRetainedCsvRecords left' right' columns = .ok result' ∧
          result'.withoutRows = result.withoutRows := by
  obtain ⟨hcomparable, rfl⟩ := compare_eq_ok_iff.mp h
  obtain ⟨hne, hne'⟩ := hcomparable.ne_nil
  refine ⟨partitions_comparisonOver hcomparable hleft hright, ?_, ?_, ?_, ?_⟩
  · intro entry hentry
    obtain ⟨key, -, hkey⟩ := List.mem_filterMap.mp hentry
    obtain ⟨-, hbefore, hafter, hbeforeRow, hafterRow⟩ := entryOf_spec hkey
    rw [hbefore, hafter, hbeforeRow, hafterRow]
    exact ⟨getD_rowNumberOf hne key, getD_rowNumberOf hne' key⟩
  · rw [map_toChange_entries hleft hright hcomparable.headers]
    apply patch_diff
    intro key hdiffer
    rw [mem_bothKeys, ← isSome_rowOf_iff, ← isSome_rowOf_iff]
    by_contra hnone
    rw [not_or, Option.not_isSome_iff_eq_none, Option.not_isSome_iff_eq_none] at hnone
    exact hdiffer (hnone.1.trans hnone.2.symm)
  · apply compare_eq_ok_iff.mpr
    refine ⟨hcomparable.symm, ?_⟩
    rw [comparisonOver_swap hcomparable.headers, bothKeys_congr fun key => or_comm]
  · intro left' right' hleft' hright'
    refine ⟨_, compare_eq_ok_iff.mpr ⟨hcomparable.reordered hleft' hright', rfl⟩, ?_⟩
    rw [bothKeys_reordered columns hleft'.rows hright'.rows]
    exact comparisonOver_reordered hcomparable hleft' hright' _

/-- Two tables that are compared by their first column. -/
def sampleBaseline : List (List String) := [["id", "n"], ["a", "1"], ["b", "2"], ["c", "3"]]

/-- Other rows under the same header. -/
def sampleCandidate : List (List String) := [["id", "n"], ["d", "4"], ["b", "5"], ["a", "1"]]

/-- The sample tables are comparable. -/
theorem sample_comparable : Comparable [1] sampleBaseline sampleCandidate where
  headers := rfl
  columns_ne := List.cons_ne_nil _ _
  columns_le := by decide
  columns_valid := by decide
  left_keyed := ⟨by decide, by decide⟩
  right_keyed := ⟨by decide, by decide⟩

/-- Tables with an added, a removed, a changed and a moved row. -/
theorem csv_comparison_correct_sample :
    ∃ result, compareRetainedCsvRecords sampleBaseline sampleCandidate [1] = .ok result ∧
      Partitions sampleBaseline sampleCandidate result ∧
        patch (rowOf [1] sampleBaseline) (result.entries.map RetentionCsvChange.toChange) =
          rowOf [1] sampleCandidate := by
  have hrun := compare_eq_ok_iff.mpr ⟨sample_comparable, rfl⟩
  have h := csv_comparison_correct (by decide) (by decide) hrun
  exact ⟨_, hrun, h.1, h.2.2.1⟩

end Moonfort.Executor
