import Moonfort.Executor.CsvCandidate
import Moonfort.Executor.RetentionCsvCompare
import Moonfort.Executor.RetentionDecimal
import Moonfort.Grouping

/-!
# Aggregation of a retained CSV file

The rollup of one decimal column over groups of rows. The groups are found by the text of
their keys, the sums are kept as 64-bit millionths, and the result is one record for each group.
Every number that is written is the exact one, and the loop refuses only what it declares.
-/

namespace Moonfort.Executor

open DecimalText MoonBit

/-! ## The aggregation -/

/-- `RetainedNumericGroup`. -/
structure RetainedNumericGroup where
  cells : List String
  rows : ℕ
  count : ℕ
  sum : ℤ
  minimum : ℤ
  maximum : ℤ
  firstRow : ℕ

/-- A group at its first row. -/
def RetainedNumericGroup.new (cells : List String) (row : ℕ) : RetainedNumericGroup :=
  ⟨cells, 0, 0, 0, 0, 0, row⟩

/-- The variables `groups` and `index` of `aggregate_csv_records`. -/
structure GroupTable where
  groups : List RetainedNumericGroup
  index : List (String × ℕ)

/-- The position of a key, which is added when it is new. -/
def GroupTable.locate (t : GroupTable) (cells : List String) (row : ℕ) : GroupTable × ℕ :=
  match LinkedMap.get (csvIdentity cells) t.index with
  | some position => (t, position)
  | none =>
    (⟨t.groups ++ [.new cells row], LinkedMap.set (csvIdentity cells) t.groups.length t.index⟩,
      t.groups.length)

/-- The guard of the running sum. -/
def sumWithinLimit (sum value : ℤ) : Except Fault Bool :=
  if 0 ≤ value then do
    let room ← int64 (9000000000000000000 - value)
    .ok (decide (sum ≤ room))
  else do
    let room ← int64 (-9000000000000000000 - value)
    .ok (decide (room ≤ sum))

/-- The refusal of a cell that is no decimal. -/
def invalidDecimal (row : ℕ) (valueColumn : ℤ) : Fault :=
  .refused ("invalid decimal at source data row " ++ intText row ++ ", column " ++
    intText valueColumn)

/-- The refusal of a running sum. -/
def sumTooLarge (row : ℕ) : Fault :=
  .refused ("CSV aggregate running sum exceeds magnitude 9000000000000 at source data row " ++
    intText row)

/-- One row of a group. -/
def RetainedNumericGroup.add (group : RetainedNumericGroup) (text : String) (row : ℕ)
    (valueColumn : ℤ) : Except Fault RetainedNumericGroup :=
  let group := { group with rows := group.rows + 1 }
  if text = "" then .ok group
  else
    match retainedDecimal text with
    | .error .overflow => .error .overflow
    | .error (.refused _) => .error (invalidDecimal row valueColumn)
    | .ok value => do
      let fits ← sumWithinLimit group.sum value
      if fits = false then .error (sumTooLarge row)
      else
        let sum ← int64 (group.sum + value)
        .ok { group with
          sum := sum
          minimum := if group.count = 0 ∨ value < group.minimum then value else group.minimum
          maximum := if group.count = 0 ∨ group.maximum < value then value else group.maximum
          count := group.count + 1 }

/-- The body of the loop over the rows. -/
def GroupTable.add (groupBy : List ℤ) (valueColumn : ℤ) (t : GroupTable)
    (record : List String × ℕ) : Except Fault GroupTable := do
  let cells := csvKey groupBy record.1
  let located := t.locate cells record.2
  let text := record.1.getD (valueColumn - 1).toNat ""
  let group ← (located.1.groups.getD located.2 (.new cells record.2)).add text record.2 valueColumn
  .ok { located.1 with groups := located.1.groups.set located.2 group }

/-- The comparison that `sort_by` gets. -/
def compareGroups (a b : RetainedNumericGroup) : ℤ :=
  if a.count = 0 ∧ b.count ≠ 0 then 1
  else if b.count = 0 ∧ a.count ≠ 0 then -1
  else if b.sum < a.sum then -1
  else if a.sum < b.sum then 1
  else (a.firstRow : ℤ) - b.firstRow

/-- The mean of a group that has numbers. -/
def groupMean (sum : ℤ) (count : ℕ) : Except Fault ℤ := do
  let mean := sum.tdiv count
  let doubled ← int64 (sum.tmod count * 2)
  let mean ← (if (count : ℤ) ≤ doubled then int64 (mean + 1) else .ok mean)
  if doubled ≤ -count then int64 (mean - 1) else .ok mean

/-- `stats`. -/
def RetainedNumericGroup.stats (group : RetainedNumericGroup) : Except Fault (List String) :=
  if group.count = 0 then .ok ["", "", "", ""]
  else do
    let mean ← groupMean group.sum group.count
    let sum ← retainedDecimalText group.sum
    let minimum ← retainedDecimalText group.minimum
    let maximum ← retainedDecimalText group.maximum
    let mean ← retainedDecimalText mean
    .ok [sum, minimum, maximum, mean]

/-- The record of a group with its statistics. -/
def RetainedNumericGroup.line (group : RetainedNumericGroup) (stats : List String) : List String :=
  group.cells ++ [intText group.rows, intText group.count,
    intText ((group.rows : ℤ) - group.count)] ++ stats ++ [intText group.firstRow]

/-- The refusal of a candidate that is too large. -/
def aggregateTooLarge : Fault := .refused "CSV aggregate candidate exceeds 1 MiB"

/-- The round that writes a group. -/
def writeGroup (output : CsvCandidate) (group : RetainedNumericGroup) :
    Except Fault CsvCandidate := do
  let stats ← group.stats
  output.write aggregateTooLarge (group.line stats)

/-- The header of the candidate. -/
def aggregateHeader (groupBy : List ℤ) (header : List String) : List String :=
  csvKey groupBy header ++ ["row_count", "numeric_count", "blank_count", "sum", "minimum",
    "maximum", "mean", "first_source_row"]

/-- `aggregate_csv_records`. -/
def aggregateCsvRecords (records : List (List String)) (groupBy : List ℤ) (valueColumn : ℤ) :
    Except Fault (String × ℕ) :=
  let width := (records.headD []).length
  if ¬(groupBy.length ≤ 56 ∧ 1 ≤ valueColumn ∧ valueColumn ≤ width) then
    .error (.refused
      "CSV aggregation requires an existing value column and at most 56 group columns")
  else if keyColumnsValid width [] groupBy = false then
    .error (.refused
      "CSV aggregation group columns must be distinct existing one-based columns")
  else do
    let table ← (records.tail.zipIdx 1).foldlM (GroupTable.add groupBy valueColumn) ⟨[], []⟩
    let groups := table.groups.mergeSort fun a b => compareGroups a b ≤ 0
    let output ← CsvCandidate.empty.write aggregateTooLarge
      (aggregateHeader groupBy (records.headD []))
    let output ← groups.foldlM writeGroup output
    .ok (output.text, groups.length)

/-! ## One row of a group -/

/-- The running sums that the aggregation goes on with. -/
def SumFits (sum : ℤ) : Prop := -9000000000000000000 ≤ sum ∧ sum ≤ 9000000000000000000

instance : DecidablePred SumFits := fun _ => inferInstanceAs (Decidable (_ ∧ _))

/-- A retained decimal fits into a sum. -/
theorem sumFits_of_retainedDecimal {text : String} {value : ℤ}
    (h : retainedDecimal text = .ok value) : SumFits value := by
  obtain ⟨numeral, -, -, hlimit, rfl⟩ := retainedDecimal_eq_ok_iff.mp h
  rw [SumFits, withSign]
  split <;> omega

namespace RetainedNumericGroup

variable {group : RetainedNumericGroup} {text : String} {row : ℕ} {valueColumn : ℤ}

/-- A group with one more row that has no number. -/
def addBlank (group : RetainedNumericGroup) : RetainedNumericGroup :=
  { group with rows := group.rows + 1 }

/-- A group with one more row that has a number. -/
def addValue (group : RetainedNumericGroup) (value : ℤ) : RetainedNumericGroup :=
  { group with
    rows := group.rows + 1
    count := group.count + 1
    sum := group.sum + value
    minimum := if group.count = 0 ∨ value < group.minimum then value else group.minimum
    maximum := if group.count = 0 ∨ group.maximum < value then value else group.maximum }

/-- A blank cell is counted as blank. -/
theorem add_blank : group.add "" row valueColumn = .ok group.addBlank := rfl

/-- A cell that is no decimal is refused with its row and column. -/
theorem add_invalid (htext : text ≠ "") (h : ∀ value, retainedDecimal text ≠ .ok value) :
    group.add text row valueColumn = .error (invalidDecimal row valueColumn) := by
  rw [add, if_neg htext]
  cases hvalue : retainedDecimal text with
  | ok value => exact absurd hvalue (h value)
  | error fault =>
    cases fault with
    | refused message => rfl
    | overflow => exact absurd hvalue (retainedDecimal_ne_overflow text)

/-- A value is added when the sum still fits. -/
theorem add_value {value : ℤ} (h : retainedDecimal text = .ok value) (hsum : SumFits group.sum) :
    group.add text row valueColumn =
      if SumFits (group.sum + value) then .ok (group.addValue value)
      else .error (sumTooLarge row) := by
  have htext : text ≠ "" := by
    rintro rfl
    cases h
  have hvalue := sumFits_of_retainedDecimal h
  obtain ⟨hlow, hhigh⟩ := hsum
  obtain ⟨hlow', hhigh'⟩ := hvalue
  rw [add, if_neg htext, h]
  simp only
  by_cases hpos : 0 ≤ value
  · rw [sumWithinLimit, if_pos hpos, int64_of_mem (by omega) (by omega)]
    by_cases hfits : SumFits (group.sum + value)
    · have hroom : group.sum ≤ 9000000000000000000 - value := by
        have hle := hfits.2
        omega
      rw [if_pos hfits]
      simp only [bind, Except.bind, hroom, decide_true, Bool.true_eq_false, if_false]
      rw [int64_of_mem (by omega) (by omega)]
      rfl
    · have hroom : ¬group.sum ≤ 9000000000000000000 - value := fun hle =>
        hfits ⟨by omega, by omega⟩
      rw [if_neg hfits]
      simp only [bind, Except.bind, hroom, decide_false, if_true]
  · rw [sumWithinLimit, if_neg hpos, int64_of_mem (by omega) (by omega)]
    by_cases hfits : SumFits (group.sum + value)
    · have hroom : -9000000000000000000 - value ≤ group.sum := by
        have hle := hfits.1
        omega
      rw [if_pos hfits]
      simp only [bind, Except.bind, hroom, decide_true, Bool.true_eq_false, if_false]
      rw [int64_of_mem (by omega) (by omega)]
      rfl
    · have hroom : ¬-9000000000000000000 - value ≤ group.sum := fun hle =>
        hfits ⟨by omega, by omega⟩
      rw [if_neg hfits]
      simp only [bind, Except.bind, hroom, decide_false, if_true]

end RetainedNumericGroup

/-! ## The rows of a group -/

/-- A data row with its number. -/
abbrev CsvRow : Type := List String × ℕ

/-- The cell of a row in the value column. -/
def valueCell (valueColumn : ℤ) (row : CsvRow) : String :=
  row.1.getD (valueColumn - 1).toNat ""

/-- The cells of some rows that are not blank. -/
def numericCells (valueColumn : ℤ) (rows : List CsvRow) : List String :=
  (rows.map (valueCell valueColumn)).filter (· ≠ "")

/-- The numbers of a group. -/
structure HasStats (values : List ℤ) (group : RetainedNumericGroup) : Prop where
  count : group.count = values.length
  sum : group.sum = values.sum
  fits : SumFits group.sum
  minimum : values ≠ [] → IsLeast {value | value ∈ values} group.minimum
  maximum : values ≠ [] → IsGreatest {value | value ∈ values} group.maximum
  values_fit : ∀ value ∈ values, SumFits value

/-- A group describes its rows. -/
structure Summarizes (valueColumn : ℤ) (rows : List CsvRow) (group : RetainedNumericGroup) :
    Prop where
  length : group.rows = rows.length
  stats : ∃ values, List.Forall₂ (fun text value => retainedDecimal text = .ok value)
    (numericCells valueColumn rows) values ∧ HasStats values group

variable {valueColumn : ℤ} {rows : List CsvRow} {group next : RetainedNumericGroup}

/-- A new group summarizes no rows. -/
theorem summarizes_new (valueColumn : ℤ) (cells : List String) (row : ℕ) :
    Summarizes valueColumn [] (.new cells row) where
  length := rfl
  stats := ⟨[], .nil, rfl, rfl, (by decide : SumFits 0), fun h => absurd rfl h,
    fun h => absurd rfl h, nofun⟩

variable {values : List ℤ}

/-- The running minimum. -/
theorem isLeast_concat {count : ℕ} (hcount : count = values.length)
    {least value : ℤ} (h : values ≠ [] → IsLeast {value | value ∈ values} least) :
    IsLeast {other | other ∈ values ++ [value]}
      (if count = 0 ∨ value < least then value else least) := by
  by_cases hnil : values = []
  · rw [if_pos (.inl (by rw [hcount, hnil]; rfl)), hnil]
    constructor
    · exact List.mem_singleton_self value
    · intro other hother
      exact (List.mem_singleton.mp hother).ge
  · obtain ⟨hmem, hlower⟩ := h hnil
    have hpos := List.length_pos_iff.mpr hnil
    constructor
    · split
      · exact List.mem_append_right _ (List.mem_singleton_self value)
      · exact List.mem_append_left _ hmem
    · intro other hother
      rcases List.mem_append.mp hother with hother | hother
      · have hle := hlower hother
        split <;> omega
      · rw [List.mem_singleton.mp hother]
        split <;> omega

/-- The running maximum. -/
theorem isGreatest_concat {count : ℕ} (hcount : count = values.length)
    {greatest value : ℤ} (h : values ≠ [] → IsGreatest {value | value ∈ values} greatest) :
    IsGreatest {other | other ∈ values ++ [value]}
      (if count = 0 ∨ greatest < value then value else greatest) := by
  by_cases hnil : values = []
  · rw [if_pos (.inl (by rw [hcount, hnil]; rfl)), hnil]
    constructor
    · exact List.mem_singleton_self value
    · intro other hother
      exact (List.mem_singleton.mp hother).le
  · obtain ⟨hmem, hupper⟩ := h hnil
    have hpos := List.length_pos_iff.mpr hnil
    constructor
    · split
      · exact List.mem_append_right _ (List.mem_singleton_self value)
      · exact List.mem_append_left _ hmem
    · intro other hother
      rcases List.mem_append.mp hother with hother | hother
      · have hle := hupper hother
        split <;> omega
      · rw [List.mem_singleton.mp hother]
        split <;> omega

/-- One more value. -/
theorem HasStats.addValue (h : HasStats values group) {value : ℤ}
    (hvalue : SumFits value) (hfits : SumFits (group.sum + value)) :
    HasStats (values ++ [value]) (group.addValue value) := by
  constructor
  · rw [List.length_append, List.length_singleton, ← h.count]
    rfl
  · rw [List.sum_append, List.sum_singleton, ← h.sum]
    rfl
  · exact hfits
  · exact fun _ => isLeast_concat h.count h.minimum
  · exact fun _ => isGreatest_concat h.count h.maximum
  · intro other hother
    rcases List.mem_append.mp hother with hother | hother
    · exact h.values_fit other hother
    · rwa [List.mem_singleton.mp hother]

/-- The numeric cells of one more row. -/
theorem numericCells_concat (rows : List CsvRow) (row : CsvRow) :
    numericCells valueColumn (rows ++ [row]) = numericCells valueColumn rows ++
      if valueCell valueColumn row = "" then [] else [valueCell valueColumn row] := by
  rw [numericCells, List.map_append, List.filter_append, List.map_singleton, List.filter_cons,
    List.filter_nil]
  by_cases hblank : valueCell valueColumn row = ""
  · simp [hblank, numericCells]
  · simp [hblank, numericCells]

/-- A row that is added stays described. -/
theorem Summarizes.add (h : Summarizes valueColumn rows group) {row : CsvRow}
    (hadd : group.add (valueCell valueColumn row) row.2 valueColumn = .ok next) :
    Summarizes valueColumn (rows ++ [row]) next ∧ next.cells = group.cells ∧
      next.firstRow = group.firstRow := by
  obtain ⟨values, hvalues, hstats⟩ := h.stats
  by_cases hblank : valueCell valueColumn row = ""
  · rw [hblank, RetainedNumericGroup.add_blank, Except.ok.injEq] at hadd
    subst hadd
    refine ⟨⟨?_, values, ?_, ?_⟩, rfl, rfl⟩
    · rw [List.length_append, List.length_singleton, ← h.length]
      rfl
    · rwa [numericCells_concat, if_pos hblank, List.append_nil]
    · exact ⟨hstats.count, hstats.sum, hstats.fits, hstats.minimum, hstats.maximum,
        hstats.values_fit⟩
  · by_cases hvalue : ∃ value, retainedDecimal (valueCell valueColumn row) = .ok value
    · obtain ⟨value, hvalue⟩ := hvalue
      rw [RetainedNumericGroup.add_value hvalue hstats.fits] at hadd
      split at hadd
      · rename_i hfits
        obtain rfl := Except.ok.inj hadd
        refine ⟨⟨?_, values ++ [value], ?_, ?_⟩, rfl, rfl⟩
        · rw [List.length_append, List.length_singleton, ← h.length]
          rfl
        · rw [numericCells_concat, if_neg hblank]
          exact List.rel_append hvalues (.cons hvalue .nil)
        · exact hstats.addValue (sumFits_of_retainedDecimal hvalue) hfits
      · cases hadd
    · rw [not_exists] at hvalue
      rw [RetainedNumericGroup.add_invalid hblank hvalue] at hadd
      cases hadd

/-! ## The groups -/

/-- The keys of the groups in order. -/
abbrev GroupTable.keys (t : GroupTable) : List (List String) :=
  t.groups.map RetainedNumericGroup.cells

/-- The index gives every key its position. -/
def GroupTable.Indexed (t : GroupTable) : Prop :=
  t.index = t.keys.zipIdx.map fun entry => (csvIdentity entry.1, entry.2)

variable {t t' : GroupTable}

/-- A key is where the index says, or is put behind the others. -/
theorem GroupTable.locate_cases (h : t.Indexed) (cells : List String) (row : ℕ) :
    (∃ before group after, t.groups = before ++ group :: after ∧ group.cells = cells ∧
      t.locate cells row = (t, before.length)) ∨
    (cells ∉ t.keys ∧ ∃ t' : GroupTable, t'.groups = t.groups ++ [.new cells row] ∧
      t'.Indexed ∧ t.locate cells row = (t', t.groups.length)) := by
  rw [locate]
  cases hget : LinkedMap.get (csvIdentity cells) t.index with
  | some position =>
    left
    have hmem := LinkedMap.mem_of_get hget
    rw [h, List.mem_map] at hmem
    obtain ⟨⟨key, found⟩, hfound, hentry⟩ := hmem
    obtain ⟨hidentity, rfl⟩ := Prod.mk.inj hentry
    obtain rfl := csvIdentity_inj hidentity
    rw [List.mem_zipIdx_iff_getElem?, List.getElem?_map, Option.map_eq_some_iff] at hfound
    obtain ⟨group, hgroup, hcells⟩ := hfound
    obtain ⟨hlt, hat⟩ := List.getElem?_eq_some_iff.mp hgroup
    refine ⟨t.groups.take found, group, t.groups.drop (found + 1), ?_, hcells, ?_⟩
    · rw [← hat, List.cons_getElem_drop_succ, List.take_append_drop]
    · rw [List.length_take, Nat.min_eq_left hlt.le]
  | none =>
    right
    have hnew : csvIdentity cells ∉ LinkedMap.keys t.index := LinkedMap.get_eq_none_iff.mp hget
    have hkeys : cells ∉ t.keys := by
      intro hmem
      apply hnew
      rw [LinkedMap.keys, h, List.map_map]
      obtain ⟨position, hlt, rfl⟩ := List.getElem_of_mem hmem
      exact List.mem_map.mpr ⟨(t.keys[position], position),
        List.mem_zipIdx_iff_getElem?.mpr (List.getElem?_eq_getElem hlt), rfl⟩
    refine ⟨hkeys, _, rfl, ?_, rfl⟩
    have hindex : t.index = t.keys.zipIdx.map fun entry => (csvIdentity entry.1, entry.2) := h
    rw [Indexed, LinkedMap.set_of_notMem hnew, hindex]
    simp [keys, List.zipIdx_append, RetainedNumericGroup.new]

/-- Groups of the rows so far, in the order of their first rows. -/
structure GroupTable.Describes (groupBy : List ℤ) (valueColumn : ℤ) (rows : List CsvRow)
    (t : GroupTable) : Prop where
  indexed : t.Indexed
  grouped : Grouping.Grouped (fun row : CsvRow => csvKey groupBy row.1)
    RetainedNumericGroup.cells (fun members group => Summarizes valueColumn members group ∧
      members.head?.map Prod.snd = some group.firstRow) rows t.groups

/-- The empty table describes no rows. -/
theorem GroupTable.describes_nil (groupBy : List ℤ) (valueColumn : ℤ) :
    Describes groupBy valueColumn [] ⟨[], []⟩ := ⟨rfl, Grouping.Grouped.nil⟩

/-- A round of the loop, by the group of the row so far. -/
theorem GroupTable.add_eq {groupBy : List ℤ} (h : t.Describes groupBy valueColumn rows)
    (row : CsvRow) :
    ∃ group : RetainedNumericGroup, group.cells = csvKey groupBy row.1 ∧
      Summarizes valueColumn (Grouping.members (fun row : CsvRow => csvKey groupBy row.1) rows
        (csvKey groupBy row.1)) group ∧
      (∀ fault, group.add (valueCell valueColumn row) row.2 valueColumn = .error fault →
        t.add groupBy valueColumn row = .error fault) ∧
      ∀ next, group.add (valueCell valueColumn row) row.2 valueColumn = .ok next →
        ∃ t', t.add groupBy valueColumn row = .ok t' ∧
          t'.Describes groupBy valueColumn (rows ++ [row]) := by
  rcases t.locate_cases h.indexed (csvKey groupBy row.1) row.2 with
    ⟨before, group, after, hgroups, hcells, hlocate⟩ |
    ⟨hnew, t', hgroups, hindexed, hlocate⟩
  · have hgrouped := h.grouped
    rw [hgroups] at hgrouped
    obtain ⟨hsummary, hfirst⟩ := hgrouped.holds group (by simp)
    rw [hcells] at hsummary hfirst
    have hget : t.groups.getD before.length (.new (csvKey groupBy row.1) row.2) = group := by
      rw [hgroups]
      simp
    refine ⟨group, hcells, hsummary, fun fault hfault => ?_, fun next hnext => ?_⟩
    · rw [add, hlocate]
      simp only [hget]
      rw [show row.1.getD (valueColumn - 1).toNat "" = valueCell valueColumn row from rfl, hfault]
      rfl
    · obtain ⟨hsummary', hcells', hfirst'⟩ := hsummary.add hnext
      refine ⟨{ t with groups := before ++ next :: after }, ?_, ?_, ?_⟩
      · rw [add, hlocate]
        simp only [hget]
        rw [show row.1.getD (valueColumn - 1).toNat "" = valueCell valueColumn row from rfl, hnext,
          hgroups]
        simp [bind, Except.bind]
      · have hindexed := h.indexed
        rw [Indexed, keys, hgroups] at hindexed
        rw [Indexed, keys, hindexed]
        simp [hcells']
      · refine hgrouped.update hcells hcells' ⟨hsummary', ?_⟩
        rw [List.head?_append_of_ne_nil, hfirst, hfirst']
        intro hnil
        rw [hnil] at hfirst
        cases hfirst
  · have hnone : Grouping.members (fun row : CsvRow => csvKey groupBy row.1) rows
        (csvKey groupBy row.1) = [] :=
      Grouping.members_eq_nil fun other hother heq => hnew (heq ▸ h.grouped.covers other hother)
    have hget : t'.groups.getD t.groups.length (.new (csvKey groupBy row.1) row.2) =
        .new (csvKey groupBy row.1) row.2 := by
      rw [hgroups]
      simp
    have hsummary := summarizes_new valueColumn (csvKey groupBy row.1) row.2
    refine ⟨_, rfl, hnone ▸ hsummary, fun fault hfault => ?_, fun next hnext => ?_⟩
    · rw [add, hlocate]
      simp only [hget]
      rw [show row.1.getD (valueColumn - 1).toNat "" = valueCell valueColumn row from rfl, hfault]
      rfl
    · obtain ⟨hsummary', hcells', hfirst'⟩ := hsummary.add hnext
      refine ⟨{ t' with groups := t.groups ++ [next] }, ?_, ?_, ?_⟩
      · rw [add, hlocate]
        simp only [hget]
        rw [show row.1.getD (valueColumn - 1).toNat "" = valueCell valueColumn row from rfl, hnext,
          hgroups]
        simp [bind, Except.bind]
      · rw [Indexed, keys, hgroups] at hindexed
        rw [Indexed, keys, hindexed]
        simp [hcells']
      · refine h.grouped.insert hnew hcells' ⟨hsummary', ?_⟩
        rw [hfirst']
        rfl

/-! ## The exact numbers -/

/-- A text spells a number as a plain decimal within the limit. -/
def DecimalOf (text : String) (value : ℚ) : Prop :=
  ∃ numeral, PlainDecimal numeral ∧ text = plainSpelling numeral ∧ numeral.value = value ∧
    |value| ≤ 9 * 10 ^ 12

/-- The number that some millionths are. -/
def ofMillionths (value : ℤ) : ℚ := value / 10 ^ 6

/-- Millionths determine their decimal. -/
theorem ofMillionths_inj {a b : ℤ} : ofMillionths a = ofMillionths b ↔ a = b := by
  rw [ofMillionths, ofMillionths, div_left_inj' (by positivity), Int.cast_inj]

/-- Millionths compare as their decimals do. -/
theorem ofMillionths_le {a b : ℤ} : ofMillionths a ≤ ofMillionths b ↔ a ≤ b := by
  rw [ofMillionths, ofMillionths, div_le_div_iff_of_pos_right (by positivity), Int.cast_le]

/-- Millionths compare strictly as their decimals do. -/
theorem ofMillionths_lt {a b : ℤ} : ofMillionths a < ofMillionths b ↔ a < b := by
  rw [ofMillionths, ofMillionths, div_lt_div_iff_of_pos_right (by positivity), Int.cast_lt]

/-- The sum of decimals is that of their millionths. -/
theorem sum_map_ofMillionths (values : List ℤ) :
    (values.map ofMillionths).sum = ofMillionths values.sum := by
  induction values with
  | nil => simp [ofMillionths]
  | cons value values ih =>
    rw [List.map_cons, List.sum_cons, List.sum_cons, ih, ofMillionths, ofMillionths, ofMillionths]
    push_cast
    ring

/-- What the reader makes of a cell is its exact number. -/
theorem retainedDecimal_iff_decimalOf {text : String} {value : ℤ} :
    retainedDecimal text = .ok value ↔ DecimalOf text (ofMillionths value) := by
  rw [retainedDecimal_eq_ok_iff]
  refine exists_congr fun numeral => and_congr_right fun hplain => and_congr_right fun _ => ?_
  have hpow : (10 : ℚ) ^ 6 ≠ 0 := by positivity
  rw [ofMillionths, eq_div_iff hpow, hplain.value_eq, Int.cast_inj, eq_comm, and_comm]
  refine and_congr_right fun heq => ?_
  have hvalue : numeral.value = (value : ℚ) / 10 ^ 6 := by
    rw [eq_div_iff hpow, hplain.value_eq, heq]
  rw [← hvalue, hplain.abs_value_le_iff]

/-- A number that is read is a whole number of millionths. -/
theorem exists_of_decimalOf {text : String} {value : ℚ} (h : DecimalOf text value) :
    ∃ n, retainedDecimal text = .ok n ∧ value = ofMillionths n := by
  obtain ⟨numeral, hplain, htext, rfl, hlimit⟩ := h
  refine ⟨withSign numeral.negative (millionths numeral : ℤ), ?_, ?_⟩
  · exact retainedDecimal_eq_ok_iff.mpr
      ⟨numeral, hplain, htext, hplain.abs_value_le_iff.mp hlimit, rfl⟩
  · rw [ofMillionths, eq_div_iff (by positivity), hplain.value_eq]

/-- A sum fits up to nine trillion. -/
theorem sumFits_iff {n : ℤ} : SumFits n ↔ |ofMillionths n| ≤ 9 * 10 ^ 12 := by
  have hlimit : (9 * 10 ^ 12 : ℚ) = ofMillionths 9000000000000000000 := by
    norm_num [ofMillionths]
  have hneg : -ofMillionths 9000000000000000000 = ofMillionths (-9000000000000000000) := by
    norm_num [ofMillionths]
  rw [hlimit, abs_le, hneg, ofMillionths_le, ofMillionths_le, SumFits]

/-- What the printer writes is the exact number. -/
theorem decimalOf_text {value : ℤ} (h : SumFits value) :
    ∃ text, retainedDecimalText value = .ok text ∧ DecimalOf text (ofMillionths value) := by
  obtain ⟨text, htext, hread⟩ := retainedDecimal_printed h.1 h.2
  exact ⟨text, htext, retainedDecimal_iff_decimalOf.mp hread⟩

/-- The mean, rounded half away from zero to six places. -/
def roundedMean (sum : ℚ) (count : ℕ) : ℚ := ofMillionths (roundHalfAway (sum / count * 10 ^ 6))

/-- A rounded quotient of natural numbers is at most the dividend. -/
theorem roundHalfAway_div_le (n : ℕ) {d : ℕ} (hd : 0 < d) :
    0 ≤ roundHalfAway ((n : ℚ) / d) ∧ roundHalfAway ((n : ℚ) / d) ≤ n := by
  have hn := Nat.div_add_mod n d
  have hmul := Nat.mul_le_mul_right (n / d) hd
  rw [roundHalfAway_div n hd]
  split <;> omega

/-- The mean of a sum that is not negative. -/
theorem groupMean_natCast {n d : ℕ} (hd : 0 < d) (hle : d ≤ 20000)
    (hn : n ≤ 9000000000000000000) :
    groupMean n d = .ok (roundHalfAway ((n : ℚ) / d)) := by
  have hmod := Nat.mod_lt n hd
  have hdiv := Nat.div_le_self n d
  have htdiv : (n : ℤ).tdiv d = (n / d : ℕ) := rfl
  have htmod : (n : ℤ).tmod d = (n % d : ℕ) := rfl
  rw [groupMean, htdiv, htmod, roundHalfAway_div n hd]
  clear htdiv htmod
  generalize n / d = quotient at hdiv ⊢
  generalize n % d = remainder at hmod ⊢
  rw [int64_of_mem (by omega) (by omega)]
  simp only [bind, Except.bind]
  by_cases hhalf : d ≤ remainder * 2
  · rw [if_pos (by omega), int64_of_mem (by omega) (by omega), if_pos hhalf]
    simp only
    rw [if_neg (by omega)]
  · rw [if_neg (by omega), if_neg hhalf]
    simp only
    rw [if_neg (by omega)]

/-- The mean of a sum that is not positive. -/
theorem groupMean_neg {n d : ℕ} (hd : 0 < d) (hle : d ≤ 20000) (hn : n ≤ 9000000000000000000) :
    groupMean (-n) d = .ok (-roundHalfAway ((n : ℚ) / d)) := by
  have hmod := Nat.mod_lt n hd
  have hdiv := Nat.div_le_self n d
  have htdiv : (-(n : ℤ)).tdiv d = -(n / d : ℕ) := Int.neg_tdiv _ _
  have htmod : (-(n : ℤ)).tmod d = -(n % d : ℕ) := Int.neg_tmod _ _
  rw [groupMean, htdiv, htmod, roundHalfAway_div n hd]
  clear htdiv htmod
  generalize n / d = quotient at hdiv ⊢
  generalize n % d = remainder at hmod ⊢
  rw [int64_of_mem (by omega) (by omega)]
  simp only [bind, Except.bind]
  rw [if_neg (by omega)]
  simp only
  by_cases hhalf : d ≤ remainder * 2
  · rw [if_pos (by omega), int64_of_mem (by omega) (by omega), if_pos hhalf]
    congr 1
    omega
  · rw [if_neg (by omega), if_neg hhalf]

/-- The mean is exact, and no step leaves its type. -/
theorem groupMean_eq {sum : ℤ} {count : ℕ} (hcount : 0 < count) (hle : count ≤ 20000)
    (hsum : SumFits sum) :
    groupMean sum count = .ok (roundHalfAway ((sum : ℚ) / count)) ∧
      SumFits (roundHalfAway ((sum : ℚ) / count)) := by
  obtain ⟨hlow, hhigh⟩ := hsum
  have hbound := roundHalfAway_div_le sum.natAbs hcount
  rcases Int.natAbs_eq sum with heq | heq
  · have hcast : (sum : ℚ) = (sum.natAbs : ℚ) := by
      rw [heq]
      rfl
    have hmean := groupMean_natCast (n := sum.natAbs) hcount hle (by omega)
    rw [← heq, ← hcast] at hmean
    rw [← hcast] at hbound
    exact ⟨hmean, by rw [SumFits]; omega⟩
  · have hcast : (sum : ℚ) / count = -((sum.natAbs : ℚ) / count) := by
      rw [heq]
      push_cast
      rw [neg_div]
      simp
    have hmean := groupMean_neg (n := sum.natAbs) hcount hle (by omega)
    rw [← heq] at hmean
    rw [hcast, roundHalfAway_neg]
    exact ⟨hmean, by rw [SumFits]; omega⟩

/-! ## The exact groups -/

/-- A group in exact numbers. -/
structure ExactGroup where
  key : List String
  members : List CsvRow
  values : List ℚ
  first : ℕ

namespace ExactGroup

/-- The group of a key: its rows, the numbers in their cells and the number of the first row. -/
structure Of (groupBy : List ℤ) (valueColumn : ℤ) (rows : List CsvRow) (group : ExactGroup) :
    Prop where
  members : group.members =
    Grouping.members (fun row : CsvRow => csvKey groupBy row.1) rows group.key
  values : List.Forall₂ DecimalOf (numericCells valueColumn group.members) group.values
  first : group.members.head?.map Prod.snd = some group.first

/-- The declared order: the larger sum first, then the earlier row, and groups without numbers
at the end. -/
def Before (a b : ExactGroup) : Prop :=
  (a.values ≠ [] ∧ b.values = []) ∨ ((a.values = [] ↔ b.values = []) ∧
    (b.values.sum < a.values.sum ∨ (a.values.sum = b.values.sum ∧ a.first < b.first)))

/-- The statistics that stand for some numbers. -/
inductive Stats : List ℚ → List String → Prop
  | missing : Stats [] ["", "", "", ""]
  | numbers {values : List ℚ} {least greatest : ℚ} {sum minimum maximum mean : String}
    (hne : values ≠ []) (hleast : IsLeast {value | value ∈ values} least)
    (hgreatest : IsGreatest {value | value ∈ values} greatest)
    (hsum : DecimalOf sum values.sum) (hminimum : DecimalOf minimum least)
    (hmaximum : DecimalOf maximum greatest)
    (hmean : DecimalOf mean (roundedMean values.sum values.length)) :
    Stats values [sum, minimum, maximum, mean]

/-- The record that stands for a group. -/
def Line (group : ExactGroup) (line : List String) : Prop :=
  ∃ stats, Stats group.values stats ∧ line = group.key ++ [intText group.members.length,
    intText group.values.length, intText ((group.members.length : ℤ) - group.values.length)] ++
      stats ++ [intText group.first]

end ExactGroup

/-- The table that the aggregation is to write: one record for every group. -/
structure Aggregates (records : List (List String)) (groupBy : List ℤ) (valueColumn : ℤ)
    (groups : List ExactGroup) (table : List (List String)) : Prop where
  groups_of : ∀ group ∈ groups, group.Of groupBy valueColumn (records.tail.zipIdx 1)
  nodup : (groups.map ExactGroup.key).Nodup
  partition : (groups.flatMap ExactGroup.members).Perm (records.tail.zipIdx 1)
  ordered : groups.Pairwise ExactGroup.Before
  lines : ∃ lines, List.Forall₂ ExactGroup.Line groups lines ∧
    table = aggregateHeader groupBy (records.headD []) :: lines

/-! ## From the loop to the exact groups -/

/-- The number in a cell. -/
def decimalValue (text : String) : ℚ := ofMillionths ((retainedDecimal text).toOption.getD 0)

/-- A group of the loop in exact numbers. -/
def exactGroup (groupBy : List ℤ) (valueColumn : ℤ) (rows : List CsvRow)
    (group : RetainedNumericGroup) : ExactGroup where
  key := group.cells
  members := Grouping.members (fun row : CsvRow => csvKey groupBy row.1) rows group.cells
  values := (numericCells valueColumn (Grouping.members
    (fun row : CsvRow => csvKey groupBy row.1) rows group.cells)).map decimalValue
  first := group.firstRow

/-- The values of cells that were read. -/
theorem map_decimalValue {cells : List String}
    (h : List.Forall₂ (fun text value => retainedDecimal text = .ok value) cells values) :
    cells.map decimalValue = values.map ofMillionths := by
  induction h with
  | nil => rfl
  | cons hvalue _ ih => rw [List.map_cons, List.map_cons, ih, decimalValue, hvalue]; rfl

/-- The cells of a group and its numbers. -/
theorem Summarizes.values_eq (h : Summarizes valueColumn rows group) :
    ∃ values, HasStats values group ∧
      (numericCells valueColumn rows).map decimalValue = values.map ofMillionths ∧
      List.Forall₂ DecimalOf (numericCells valueColumn rows) (values.map ofMillionths) := by
  obtain ⟨values, hvalues, hstats⟩ := h.stats
  refine ⟨values, hstats, map_decimalValue hvalues, ?_⟩
  rw [List.forall₂_map_right_iff]
  exact hvalues.imp fun _ _ => retainedDecimal_iff_decimalOf.mp

/-- The statistics of a group are written, and they are exact. -/
theorem HasStats.stats_eq (h : HasStats values group)
    (hlength : values.length ≤ 20000) :
    ∃ stats, group.stats = .ok stats ∧ ExactGroup.Stats (values.map ofMillionths) stats := by
  by_cases hnil : values = []
  · refine ⟨["", "", "", ""], ?_, by rw [hnil]; exact .missing⟩
    rw [RetainedNumericGroup.stats, if_pos (by rw [h.count, hnil]; rfl)]
  · have hcount : 0 < group.count := by rw [h.count]; exact List.length_pos_iff.mpr hnil
    obtain ⟨hleast, hlower⟩ := h.minimum hnil
    obtain ⟨hgreatest, hupper⟩ := h.maximum hnil
    obtain ⟨hmean, hmeanFits⟩ := groupMean_eq hcount (h.count ▸ hlength) h.fits
    obtain ⟨sum, hsum, hsumOf⟩ := decimalOf_text h.fits
    obtain ⟨minimum, hminimum, hminimumOf⟩ := decimalOf_text (h.values_fit _ hleast)
    obtain ⟨maximum, hmaximum, hmaximumOf⟩ := decimalOf_text (h.values_fit _ hgreatest)
    obtain ⟨mean, hmeanText, hmeanOf⟩ := decimalOf_text hmeanFits
    refine ⟨[sum, minimum, maximum, mean], ?_, ?_⟩
    · rw [RetainedNumericGroup.stats, if_neg hcount.ne', hmean]
      simp only [bind, Except.bind, hsum, hminimum, hmaximum, hmeanText]
    · have hsumMap : (values.map ofMillionths).sum = ofMillionths group.sum := by
        rw [sum_map_ofMillionths, h.sum]
      have hleastOf : IsLeast {value | value ∈ values.map ofMillionths}
          (ofMillionths group.minimum) := by
        refine ⟨List.mem_map_of_mem hleast, fun value hvalue => ?_⟩
        obtain ⟨n, hn, rfl⟩ := List.mem_map.mp hvalue
        exact ofMillionths_le.mpr (hlower hn)
      have hgreatestOf : IsGreatest {value | value ∈ values.map ofMillionths}
          (ofMillionths group.maximum) := by
        refine ⟨List.mem_map_of_mem hgreatest, fun value hvalue => ?_⟩
        obtain ⟨n, hn, rfl⟩ := List.mem_map.mp hvalue
        exact ofMillionths_le.mpr (hupper hn)
      refine .numbers (by simpa using hnil) hleastOf hgreatestOf ?_ hminimumOf hmaximumOf ?_
      · rwa [hsumMap]
      · rw [hsumMap, List.length_map, ← h.count, roundedMean]
        have hunits : ofMillionths group.sum / (group.count : ℚ) * 10 ^ 6 =
            (group.sum : ℚ) / group.count := by
          rw [ofMillionths]
          field_simp
        rwa [hunits]

/-- The order of `sort_by`. -/
theorem compareGroups_le_iff {a b : RetainedNumericGroup} :
    compareGroups a b ≤ 0 ↔ (a.count ≠ 0 ∧ b.count = 0) ∨ ((a.count = 0 ↔ b.count = 0) ∧
      (b.sum < a.sum ∨ (a.sum = b.sum ∧ a.firstRow ≤ b.firstRow))) := by
  rw [compareGroups]
  split_ifs <;> omega

/-- The order of groups is transitive. -/
theorem compareGroups_trans {a b c : RetainedNumericGroup} (hab : compareGroups a b ≤ 0)
    (hbc : compareGroups b c ≤ 0) : compareGroups a c ≤ 0 := by
  rw [compareGroups_le_iff] at *
  omega

/-- The order of groups is total. -/
theorem compareGroups_total (a b : RetainedNumericGroup) :
    compareGroups a b ≤ 0 ∨ compareGroups b a ≤ 0 := by
  rw [compareGroups_le_iff, compareGroups_le_iff]
  omega

/-- The groups in the order of `sort_by`. -/
def GroupTable.sorted (t : GroupTable) : List RetainedNumericGroup :=
  t.groups.mergeSort fun a b => compareGroups a b ≤ 0

/-- Sorting keeps the groups. -/
theorem GroupTable.sorted_perm (t : GroupTable) : t.sorted.Perm t.groups := List.mergeSort_perm _ _

/-- Sorted groups are in order. -/
theorem GroupTable.pairwise_sorted (t : GroupTable) :
    t.sorted.Pairwise fun a b => compareGroups a b ≤ 0 := by
  have htrans : ∀ a b c : RetainedNumericGroup, decide (compareGroups a b ≤ 0) = true →
      decide (compareGroups b c ≤ 0) = true → decide (compareGroups a c ≤ 0) = true :=
    fun a b c hab hbc => decide_eq_true
      (compareGroups_trans (of_decide_eq_true hab) (of_decide_eq_true hbc))
  have htotal : ∀ a b : RetainedNumericGroup,
      (decide (compareGroups a b ≤ 0) || decide (compareGroups b a ≤ 0)) = true := by
    intro a b
    rw [Bool.or_eq_true, decide_eq_true_eq, decide_eq_true_eq]
    exact compareGroups_total a b
  exact (List.pairwise_mergeSort htrans htotal t.groups).imp of_decide_eq_true

/-- Rows with one number are one row. -/
theorem eq_of_mem_zipIdx {records : List (List String)} {start : ℕ} {a b : CsvRow}
    (ha : a ∈ records.zipIdx start) (hb : b ∈ records.zipIdx start) (h : a.2 = b.2) : a = b := by
  rw [List.mem_zipIdx_iff_le_and_getElem?_sub] at ha hb
  rw [h] at ha
  exact Prod.ext (Option.some.inj (ha.2.symm.trans hb.2)) h

section Final

variable {groupBy : List ℤ} {records : List (List String)} {t : GroupTable}

/-- The groups of the loop stand for exact groups in the declared order. -/
theorem GroupTable.Describes.ordered
    (h : t.Describes groupBy valueColumn (records.tail.zipIdx 1)) :
    (t.sorted.map (exactGroup groupBy valueColumn (records.tail.zipIdx 1))).Pairwise
      ExactGroup.Before := by
  have hmem : ∀ group ∈ t.sorted, group ∈ t.groups := fun group hgroup =>
    t.sorted_perm.mem_iff.mp hgroup
  have hkeys : t.sorted.Pairwise fun a b => a.cells ≠ b.cells := by
    have hnodup := (t.sorted_perm.map RetainedNumericGroup.cells).nodup_iff.mpr h.grouped.nodup
    exact List.pairwise_map.mp hnodup
  rw [List.pairwise_map]
  refine (t.pairwise_sorted.and hkeys).imp_of_mem fun {a b} ha hb hab => ?_
  obtain ⟨hsummary, hfirst⟩ := h.grouped.holds a (hmem a ha)
  obtain ⟨hsummary', hfirst'⟩ := h.grouped.holds b (hmem b hb)
  obtain ⟨values, hstats, hvalues, -⟩ := hsummary.values_eq
  obtain ⟨values', hstats', hvalues', -⟩ := hsummary'.values_eq
  have hne : a.firstRow ≠ b.firstRow := by
    intro heq
    obtain ⟨row, hrow, hnumber⟩ := Option.map_eq_some_iff.mp hfirst
    obtain ⟨row', hrow', hnumber'⟩ := Option.map_eq_some_iff.mp hfirst'
    have hmember := List.mem_filter.mp (List.mem_of_mem_head? hrow)
    have hmember' := List.mem_filter.mp (List.mem_of_mem_head? hrow')
    have hsame := eq_of_mem_zipIdx hmember.1 hmember'.1 (by rw [hnumber, hnumber', heq])
    apply hab.2
    have hkey := of_decide_eq_true hmember.2
    have hkey' := of_decide_eq_true hmember'.2
    rw [← hkey, ← hkey', hsame]
  have hcount : a.count = 0 ↔ values.map ofMillionths = [] := by
    rw [hstats.count, List.length_eq_zero_iff, List.map_eq_nil_iff]
  have hcount' : b.count = 0 ↔ values'.map ofMillionths = [] := by
    rw [hstats'.count, List.length_eq_zero_iff, List.map_eq_nil_iff]
  rw [ExactGroup.Before, exactGroup, exactGroup]
  simp only
  rw [hvalues, hvalues', sum_map_ofMillionths, sum_map_ofMillionths, ← hstats.sum, ← hstats'.sum,
    ofMillionths_lt, ofMillionths_inj, ← hcount, ← hcount', ne_eq, ← hcount]
  have hle := compareGroups_le_iff.mp hab.1
  omega

/-- The statistics of a group that has some. -/
def statsOf (group : RetainedNumericGroup) : List String := group.stats.toOption.getD []

/-- The groups are written with their statistics. -/
theorem foldlM_writeGroup {groups : List RetainedNumericGroup}
    (h : ∀ group ∈ groups, ∃ stats, group.stats = .ok stats) (output : CsvCandidate) :
    groups.foldlM writeGroup output =
      (groups.map fun group => group.line (statsOf group)).foldlM
        (CsvCandidate.write aggregateTooLarge) output := by
  induction groups generalizing output with
  | nil => rfl
  | cons group groups ih =>
    obtain ⟨stats, hstats⟩ := h group List.mem_cons_self
    have hline : writeGroup output group =
        output.write aggregateTooLarge (group.line (statsOf group)) := by
      rw [writeGroup, statsOf, hstats]
      rfl
    rw [List.foldlM_cons, List.map_cons, List.foldlM_cons, hline]
    congr 1
    funext output
    exact ih (fun group hgroup => h group (List.mem_cons_of_mem _ hgroup)) output

/-- The record of a group stands for its exact group. -/
theorem Summarizes.line {row : List CsvRow} (h : Summarizes valueColumn (Grouping.members
      (fun row : CsvRow => csvKey groupBy row.1) row group.cells) group)
    (hlength : group.rows ≤ 20000) :
    ∃ stats, group.stats = .ok stats ∧
      (exactGroup groupBy valueColumn row group).Line (group.line (statsOf group)) := by
  obtain ⟨values, hstats, hvalues, hcells⟩ := h.values_eq
  have hle : values.length ≤ 20000 := by
    have hfilter : (numericCells valueColumn (Grouping.members
        (fun row : CsvRow => csvKey groupBy row.1) row group.cells)).length ≤ group.rows := by
      rw [h.length, numericCells]
      exact (List.length_filter_le _ _).trans_eq (List.length_map _)
    have hsame := hcells.length_eq
    rw [List.length_map] at hsame
    omega
  obtain ⟨stats, hok, hexact⟩ := hstats.stats_eq hle
  refine ⟨stats, hok, stats, ?_, ?_⟩
  · rwa [exactGroup, hvalues]
  · rw [exactGroup, hvalues, List.length_map, ← hstats.count, ← h.length, statsOf, hok]
    rfl

/-- The table that the groups of the loop make. -/
def GroupTable.table (groupBy : List ℤ) (header : List String) (t : GroupTable) :
    List (List String) :=
  aggregateHeader groupBy header :: t.sorted.map fun group => group.line (statsOf group)

/-- The groups of the loop make the table that is to be written. -/
theorem GroupTable.Describes.aggregates
    (h : t.Describes groupBy valueColumn (records.tail.zipIdx 1))
    (hlength : records.length ≤ 20001) :
    (∀ group ∈ t.sorted, ∃ stats, group.stats = .ok stats) ∧
      Aggregates records groupBy valueColumn
        (t.sorted.map (exactGroup groupBy valueColumn (records.tail.zipIdx 1)))
        (t.table groupBy (records.headD [])) := by
  have hmem : ∀ group ∈ t.sorted, group ∈ t.groups := fun group hgroup =>
    t.sorted_perm.mem_iff.mp hgroup
  have hlines : ∀ group ∈ t.sorted, ∃ stats, group.stats = .ok stats ∧
      (exactGroup groupBy valueColumn (records.tail.zipIdx 1) group).Line
        (group.line (statsOf group)) := by
    intro group hgroup
    obtain ⟨hsummary, -⟩ := h.grouped.holds group (hmem group hgroup)
    refine hsummary.line ?_
    have hfilter := List.length_filter_le
      (fun row : CsvRow => decide (csvKey groupBy row.1 = group.cells)) (records.tail.zipIdx 1)
    rw [List.length_zipIdx, List.length_tail] at hfilter
    rw [hsummary.length, Grouping.members]
    omega
  refine ⟨fun group hgroup => (hlines group hgroup).imp fun _ hstats => hstats.1, ?_⟩
  constructor
  · intro exact hexact
    obtain ⟨group, hgroup, rfl⟩ := List.mem_map.mp hexact
    obtain ⟨hsummary, hfirst⟩ := h.grouped.holds group (hmem group hgroup)
    obtain ⟨values, -, hvalues, hcells⟩ := hsummary.values_eq
    exact ⟨rfl, by rw [exactGroup, hvalues]; exact hcells, hfirst⟩
  · rw [List.map_map]
    exact (t.sorted_perm.map RetainedNumericGroup.cells).nodup_iff.mpr h.grouped.nodup
  · rw [List.flatMap_map]
    exact (t.sorted_perm.flatMap_right _).trans h.grouped.perm
  · exact h.ordered
  · refine ⟨_, ?_, rfl⟩
    rw [List.forall₂_map_left_iff, List.forall₂_map_right_iff, List.forall₂_same]
    intro group hgroup
    obtain ⟨-, -, hline⟩ := hlines group hgroup
    exact hline

/-- The loop describes the rows that it has read. -/
theorem GroupTable.describes_of_foldlM {rows : List CsvRow}
    (h : rows.foldlM (GroupTable.add groupBy valueColumn) ⟨[], []⟩ = .ok t) :
    t.Describes groupBy valueColumn rows := by
  refine Loop.holds_of_foldlM (Describes groupBy valueColumn) (describes_nil groupBy valueColumn)
    (fun before row state next _ hstate hround => ?_) h
  obtain ⟨group, -, -, herror, hok⟩ := add_eq hstate row
  cases hadd : group.add (valueCell valueColumn row) row.2 valueColumn with
  | error fault =>
    rw [herror fault hadd] at hround
    cases hround
  | ok added =>
    obtain ⟨t', hadded, hdescribes⟩ := hok added hadd
    rw [hadded] at hround
    exact Except.ok.inj hround ▸ hdescribes

end Final

/-- The reasons for which the aggregation may refuse. -/
inductive AggregateRefusal (records : List (List String)) (groupBy : List ℤ) (valueColumn : ℤ) :
    Fault → Prop
  /-- The value column does not exist, or there are too many group columns. -/
  | columns (h : ¬(groupBy.length ≤ 56 ∧ 1 ≤ valueColumn ∧
      valueColumn ≤ (records.headD []).length)) :
    AggregateRefusal records groupBy valueColumn (.refused
      "CSV aggregation requires an existing value column and at most 56 group columns")
  /-- A group column does not exist or is named twice. -/
  | groupColumns (h : ¬keyColumnsValid (records.headD []).length [] groupBy = true) :
    AggregateRefusal records groupBy valueColumn (.refused
      "CSV aggregation group columns must be distinct existing one-based columns")
  /-- A cell that is not blank is no decimal within the limit. -/
  | cell {before after : List CsvRow} {row : CsvRow}
    (hrows : records.tail.zipIdx 1 = before ++ row :: after)
    (hcell : valueCell valueColumn row ≠ "")
    (h : ∀ value, ¬DecimalOf (valueCell valueColumn row) value) :
    AggregateRefusal records groupBy valueColumn (invalidDecimal row.2 valueColumn)
  /-- The sum of a group exceeds the limit at a row. -/
  | sum {before after : List CsvRow} {row : CsvRow} {values : List ℚ}
    (hrows : records.tail.zipIdx 1 = before ++ row :: after)
    (hvalues : List.Forall₂ DecimalOf (numericCells valueColumn (Grouping.members
      (fun row : CsvRow => csvKey groupBy row.1) (before ++ [row]) (csvKey groupBy row.1))) values)
    (h : 9 * 10 ^ 12 < |values.sum|) :
    AggregateRefusal records groupBy valueColumn (sumTooLarge row.2)
  /-- The table exceeds 1 MiB. -/
  | size {groups : List ExactGroup} {table : List (List String)}
    (htable : Aggregates records groupBy valueColumn groups table)
    (h : 1048576 < utf8Length (csvText table)) :
    AggregateRefusal records groupBy valueColumn aggregateTooLarge

/-- A round refuses an invalid decimal or a running sum beyond the limit. -/
theorem GroupTable.refusal_of_add {groupBy : List ℤ} {records : List (List String)}
    {before after : List CsvRow} {row : CsvRow}
    (hrows : records.tail.zipIdx 1 = before ++ row :: after)
    (h : t.Describes groupBy valueColumn before) {fault : Fault}
    (hfault : t.add groupBy valueColumn row = .error fault) :
    AggregateRefusal records groupBy valueColumn fault := by
  obtain ⟨group, -, hsummary, herror, hok⟩ := add_eq h row
  obtain ⟨values, hvalues, hstats⟩ := hsummary.stats
  by_cases hblank : valueCell valueColumn row = ""
  · obtain ⟨t', hadded, -⟩ := hok group.addBlank (by rw [hblank]; exact group.add_blank)
    rw [hadded] at hfault
    cases hfault
  · by_cases hvalue : ∃ value, retainedDecimal (valueCell valueColumn row) = .ok value
    · obtain ⟨value, hvalue⟩ := hvalue
      have hadd : group.add (valueCell valueColumn row) row.2 valueColumn = _ :=
        RetainedNumericGroup.add_value hvalue hstats.fits
      by_cases hfits : SumFits (group.sum + value)
      · rw [if_pos hfits] at hadd
        obtain ⟨t', hadded, -⟩ := hok _ hadd
        rw [hadded] at hfault
        cases hfault
      · rw [if_neg hfits] at hadd
        rw [herror _ hadd] at hfault
        obtain rfl := Except.error.inj hfault
        have hcells : List.Forall₂ DecimalOf (numericCells valueColumn (Grouping.members
            (fun row : CsvRow => csvKey groupBy row.1) (before ++ [row]) (csvKey groupBy row.1)))
            ((values ++ [value]).map ofMillionths) := by
          rw [Grouping.members_concat_self, numericCells_concat, if_neg hblank,
            List.forall₂_map_right_iff]
          exact (List.rel_append hvalues (.cons hvalue .nil)).imp fun _ _ =>
            retainedDecimal_iff_decimalOf.mp
        refine .sum hrows hcells ?_
        rw [sum_map_ofMillionths, List.sum_append, List.sum_singleton, ← hstats.sum]
        rw [sumFits_iff] at hfits
        exact not_le.mp hfits
    · rw [not_exists] at hvalue
      rw [herror _ (RetainedNumericGroup.add_invalid hblank hvalue)] at hfault
      obtain rfl := Except.error.inj hfault
      refine .cell hrows hblank fun value hof => ?_
      obtain ⟨n, hn, -⟩ := exists_of_decimalOf hof
      exact hvalue n hn

/-- The aggregation of a table that was read: what it writes is the table of its exact groups, it
refuses for a declared reason only, and no step leaves its type. -/
def AggregationExact (records : List (List String)) (groupBy : List ℤ) (valueColumn : ℤ) : Prop :=
  (∀ csv count, aggregateCsvRecords records groupBy valueColumn = .ok (csv, count) →
    ∃ groups table, Aggregates records groupBy valueColumn groups table ∧ csv = csvText table ∧
      count = groups.length) ∧
  (∀ fault, aggregateCsvRecords records groupBy valueColumn = .error fault →
    AggregateRefusal records groupBy valueColumn fault) ∧
  aggregateCsvRecords records groupBy valueColumn ≠ .error .overflow

section Accepted

variable {groupBy : List ℤ} {records : List (List String)}
  (hcolumns : groupBy.length ≤ 56 ∧ 1 ≤ valueColumn ∧ valueColumn ≤ (records.headD []).length)
  (hgroupBy : keyColumnsValid (records.headD []).length [] groupBy = true)

include hcolumns hgroupBy

/-- A refusal of the loop over the rows. -/
theorem aggregate_of_error {fault : Fault} (h : (records.tail.zipIdx 1).foldlM
    (GroupTable.add groupBy valueColumn) ⟨[], []⟩ = .error fault) :
    aggregateCsvRecords records groupBy valueColumn = .error fault := by
  rw [aggregateCsvRecords, if_neg (not_not.mpr hcolumns), if_neg (by rw [hgroupBy]; nofun), h]
  rfl

/-- What follows the loop over the rows. -/
theorem aggregate_of_ok (h : (records.tail.zipIdx 1).foldlM
    (GroupTable.add groupBy valueColumn) ⟨[], []⟩ = .ok t)
    (hstats : ∀ group ∈ t.sorted, ∃ stats, group.stats = .ok stats) :
    aggregateCsvRecords records groupBy valueColumn =
      if utf8Length (csvText (t.table groupBy (records.headD []))) ≤ 1048576 then
        .ok (csvText (t.table groupBy (records.headD [])), t.sorted.length)
      else .error aggregateTooLarge := by
  have hwrite := foldlM_write aggregateTooLarge (t.table groupBy (records.headD []))
  rw [GroupTable.table, List.foldlM_cons] at hwrite
  rw [aggregateCsvRecords, if_neg (not_not.mpr hcolumns), if_neg (by rw [hgroupBy]; nofun), h]
  simp only [bind, Except.bind] at hwrite ⊢
  rw [← GroupTable.sorted]
  cases hheader : CsvCandidate.empty.write aggregateTooLarge
      (aggregateHeader groupBy (records.headD [])) with
  | error fault =>
    rw [hheader] at hwrite
    simp only at hwrite ⊢
    rw [GroupTable.table]
    split at hwrite
    · cases hwrite
    · rename_i hlarge
      rw [if_neg hlarge, Except.error.inj hwrite]
  | ok output =>
    rw [hheader] at hwrite
    simp only at hwrite ⊢
    rw [foldlM_writeGroup hstats, hwrite, ← GroupTable.table]
    by_cases hfits : utf8Length (csvText (t.table groupBy (records.headD []))) ≤ 1048576
    · rw [if_pos hfits, if_pos hfits]
      rfl
    · rw [if_neg hfits, if_neg hfits]

end Accepted

/-- The aggregation writes the exact groups of a table and refuses for a declared reason only. -/
theorem csv_aggregation_exact {text : String} {records : List (List String)}
    (hread : parseRetainedCsv text = .ok records) (groupBy : List ℤ) (valueColumn : ℤ) :
    AggregationExact records groupBy valueColumn := by
  have hlength := (csvTable_of_parse hread).records
  by_cases hcolumns : groupBy.length ≤ 56 ∧ 1 ≤ valueColumn ∧
      valueColumn ≤ (records.headD []).length
  · by_cases hgroupBy : keyColumnsValid (records.headD []).length [] groupBy = true
    · cases hloop : (records.tail.zipIdx 1).foldlM (GroupTable.add groupBy valueColumn)
          ⟨[], []⟩ with
      | error fault =>
        rw [AggregationExact, aggregate_of_error hcolumns hgroupBy hloop]
        obtain ⟨before, row, after, state, hrows, hbefore, hfails⟩ :=
          Loop.exists_of_foldlM_error hloop
        have hrefusal := GroupTable.refusal_of_add hrows
          (GroupTable.describes_of_foldlM hbefore) hfails
        refine ⟨nofun, fun found hfound => Except.error.inj hfound ▸ hrefusal, ?_⟩
        intro hoverflow
        rw [Except.error.inj hoverflow] at hrefusal
        cases hrefusal
      | ok t =>
        obtain ⟨hstats, htable⟩ := (GroupTable.describes_of_foldlM hloop).aggregates hlength
        rw [AggregationExact, aggregate_of_ok hcolumns hgroupBy hloop hstats]
        by_cases hfits : utf8Length (csvText (t.table groupBy (records.headD []))) ≤ 1048576
        · rw [if_pos hfits]
          refine ⟨fun csv count h => ?_, nofun, nofun⟩
          obtain ⟨rfl, rfl⟩ := Prod.mk.inj (Except.ok.inj h)
          exact ⟨_, _, htable, rfl, (List.length_map _).symm⟩
        · rw [if_neg hfits]
          refine ⟨nofun, fun found hfound => ?_, nofun⟩
          exact Except.error.inj hfound ▸ .size htable (by omega)
    · have herror : aggregateCsvRecords records groupBy valueColumn = .error (.refused
          "CSV aggregation group columns must be distinct existing one-based columns") := by
        rw [aggregateCsvRecords, if_neg (not_not.mpr hcolumns), if_pos (by simpa using hgroupBy)]
      rw [AggregationExact, herror]
      refine ⟨nofun, fun found hfound => ?_, nofun⟩
      exact Except.error.inj hfound ▸ .groupColumns hgroupBy
  · have herror : aggregateCsvRecords records groupBy valueColumn = .error (.refused
        "CSV aggregation requires an existing value column and at most 56 group columns") := by
      rw [aggregateCsvRecords, if_pos hcolumns]
    rw [AggregationExact, herror]
    refine ⟨nofun, fun found hfound => ?_, nofun⟩
    exact Except.error.inj hfound ▸ .columns hcolumns

/-- A table with two groups, one of them without numbers. -/
def sampleAmounts : List (List String) := [["k", "n"], ["a", "1.5"], ["b", ""], ["a", "-2"]]

/-- Amounts by kind, with a blank cell. -/
theorem csv_aggregation_exact_sample :
    parseRetainedCsv (csvText sampleAmounts) = .ok sampleAmounts ∧
      AggregationExact sampleAmounts [1] 2 := by
  have hread : parseRetainedCsv (csvText sampleAmounts) = .ok sampleAmounts :=
    parseRetainedCsv_csvText
      ⟨by decide, by decide, ⟨2, by decide, by decide, by decide⟩, by decide⟩
  exact ⟨hread, csv_aggregation_exact hread [1] 2⟩

end Moonfort.Executor
