import Mathlib.Algebra.BigOperators.Group.List.Basic
import Moonfort.Executor.CsvCandidate
import Moonfort.Executor.RetentionCsvCompare
import Moonfort.GroupIndex
import Moonfort.Grouping
import Moonfort.MoonBit.PlainText

/-!
# Frequency summary of a retained CSV file

`summarize_csv_records`: the rows that match a filter, counted by the tuples of their group cells.
The groups are found by the JSON text of the tuples, and written by descending count and then by
their first rows.
-/

namespace Moonfort.Executor

open MoonBit

/-- `RetainedCsvGroup`. -/
structure RetainedCsvGroup where
  cells : List String
  count : ℕ
  firstRow : ℕ
  deriving DecidableEq

/-- The variables `groups`, `index` and `matching_rows`. -/
structure SummaryTable where
  groups : List RetainedCsvGroup
  index : List (String × ℕ)
  matchingRows : ℕ

/-- The row passes the filter; the column 0 is none. -/
def matchesFilter (whereColumn : ℤ) (equals : String) (cells : List String) : Bool :=
  whereColumn == 0 || cells.getD (whereColumn - 1).toNat "" == equals

/-- `groups[position].count += 1`. -/
def RetainedCsvGroup.increment (group : RetainedCsvGroup) : RetainedCsvGroup :=
  { group with count := group.count + 1 }

/-- The body of the loop over the rows. -/
def SummaryTable.add (groupBy : List ℤ) (whereColumn : ℤ) (equals : String) (t : SummaryTable)
    (record : List String × ℕ) : SummaryTable :=
  if matchesFilter whereColumn equals record.1 = false then t
  else
    let key := csvKey groupBy record.1
    match LinkedMap.get (csvIdentity key) t.index with
    | some position =>
      { t with
        matchingRows := t.matchingRows + 1
        groups := t.groups.modify position RetainedCsvGroup.increment }
    | none =>
      { matchingRows := t.matchingRows + 1
        index := LinkedMap.set (csvIdentity key) t.groups.length t.index
        groups := t.groups ++ [⟨key, 1, record.2⟩] }

/-- The comparison that `sort_by` gets. -/
def compareFrequencies (a b : RetainedCsvGroup) : ℤ :=
  if a.count ≠ b.count then (b.count : ℤ) - a.count else (a.firstRow : ℤ) - b.firstRow

/-- The record of a group. -/
def RetainedCsvGroup.line (group : RetainedCsvGroup) : List String :=
  group.cells ++ [intText group.count, intText group.firstRow]

/-- The refusal of a candidate that is too large. -/
def summaryTooLarge : String := "CSV summary candidate exceeds 1 MiB"

/-- The header of the candidate. -/
def summaryHeader (groupBy : List ℤ) (header : List String) : List String :=
  csvKey groupBy header ++ ["row_count", "first_source_row"]

/-- `summarize_csv_records`. -/
def summarizeCsvRecords (records : List (List String)) (groupBy : List ℤ) (whereColumn : ℤ)
    (equals : String) : Except String (String × ℕ × ℕ) :=
  let width := (records.headD []).length
  if ¬(groupBy ≠ [] ∧ groupBy.length ≤ 62) then
    .error "CSV summary requires 1..62 group columns"
  else if keyColumnsValid width [] groupBy = false then
    .error "CSV summary group columns must be distinct existing one-based columns"
  else if ¬(0 ≤ whereColumn ∧ whereColumn ≤ width ∧ utf8Length equals ≤ 16384 ∧
      (whereColumn ≠ 0 ∨ equals = "")) then
    .error "invalid CSV summary filter"
  else do
    let table := (records.tail.zipIdx 1).foldl (SummaryTable.add groupBy whereColumn equals)
      ⟨[], [], 0⟩
    let groups := table.groups.mergeSort fun a b => compareFrequencies a b ≤ 0
    let output ← CsvCandidate.empty.write summaryTooLarge
      (summaryHeader groupBy (records.headD []))
    let output ← (groups.map RetainedCsvGroup.line).foldlM (CsvCandidate.write summaryTooLarge)
      output
    .ok (output.text, table.matchingRows, groups.length)

/-! ## The loop over the rows -/

section Loop

variable {groupBy : List ℤ} {whereColumn : ℤ} {equals : String} {t : SummaryTable}
  {rows : List (List String × ℕ)}

/-- The rows that pass the filter. -/
def matching (whereColumn : ℤ) (equals : String) (rows : List (List String × ℕ)) :
    List (List String × ℕ) :=
  rows.filter fun row => matchesFilter whereColumn equals row.1

/-- A group counts its rows and knows the first of them. -/
def Counts (members : List (List String × ℕ)) (group : RetainedCsvGroup) : Prop :=
  group.count = members.length ∧ members.head?.map Prod.snd = some group.firstRow

/-- The variables describe the rows so far. -/
structure SummaryTable.Describes (groupBy : List ℤ) (whereColumn : ℤ) (equals : String)
    (rows : List (List String × ℕ)) (t : SummaryTable) : Prop where
  indexed : GroupIndex.Indexed csvIdentity RetainedCsvGroup.cells t.groups t.index
  grouped : Grouping.Grouped (fun row : List String × ℕ => csvKey groupBy row.1)
    RetainedCsvGroup.cells Counts (matching whereColumn equals rows) t.groups
  matchingRows : t.matchingRows = (matching whereColumn equals rows).length

/-- One more row matches or does not. -/
theorem matching_concat (row : List String × ℕ) :
    matching whereColumn equals (rows ++ [row]) = matching whereColumn equals rows ++
      if matchesFilter whereColumn equals row.1 = true then [row] else [] := by
  rw [matching, List.filter_append, matching, List.filter_cons, List.filter_nil]

/-- A round of the loop: a row that matches joins the group of its key, or starts one. -/
theorem SummaryTable.Describes.add (h : t.Describes groupBy whereColumn equals rows)
    (row : List String × ℕ) :
    (t.add groupBy whereColumn equals row).Describes groupBy whereColumn equals
      (rows ++ [row]) := by
  have hconcat : matching whereColumn equals (rows ++ [row]) = matching whereColumn equals rows ++
      if matchesFilter whereColumn equals row.1 = true then [row] else [] := matching_concat row
  rw [SummaryTable.add]
  by_cases hmatches : matchesFilter whereColumn equals row.1 = true
  · rw [if_pos hmatches] at hconcat
    rw [hmatches, if_neg (by decide)]
    dsimp only
    rcases hget : LinkedMap.get (csvIdentity (csvKey groupBy row.1)) t.index with _ | position
    · dsimp only
      have hnew := h.indexed.missing hget
      refine ⟨h.indexed.push hget, ?_, ?_⟩
      · rw [hconcat]
        exact h.grouped.insert hnew rfl ⟨rfl, rfl⟩
      · rw [hconcat, List.length_append, ← h.matchingRows, List.length_singleton]
    · dsimp only
      obtain ⟨before, group, after, hgroups, hkey, rfl⟩ :=
        h.indexed.found (fun _ _ => csvIdentity_inj) hget
      have hmodify : t.groups.modify before.length RetainedCsvGroup.increment =
          before ++ group.increment :: after := by
        rw [hgroups, GroupIndex.modify_split]
      have hindexed := h.indexed
      have hgrouped := h.grouped
      rw [hgroups] at hindexed hgrouped
      obtain ⟨hcount, hfirst⟩ := hgrouped.holds group (by simp)
      rw [hkey] at hcount hfirst
      refine ⟨?_, ?_, ?_⟩
      · rw [hmodify]
        exact hindexed.replace rfl
      · rw [hmodify, hconcat]
        refine hgrouped.update hkey rfl ⟨?_, ?_⟩
        · rw [List.length_append, ← hcount]
          rfl
        · rw [List.head?_append_of_ne_nil, hfirst]
          · rfl
          · intro hnil
            rw [hnil] at hfirst
            cases hfirst
      · rw [hconcat, List.length_append, ← h.matchingRows, List.length_singleton]
  · rw [if_neg hmatches, List.append_nil] at hconcat
    rw [Bool.not_eq_true] at hmatches
    rw [if_pos hmatches]
    exact ⟨h.indexed, hconcat ▸ h.grouped, hconcat ▸ h.matchingRows⟩

/-- The loop describes the rows that it has read. -/
theorem describes_foldl (rows : List (List String × ℕ)) :
    (rows.foldl (SummaryTable.add groupBy whereColumn equals) ⟨[], [], 0⟩).Describes groupBy
      whereColumn equals rows := by
  induction rows using List.reverseRecOn with
  | nil => exact ⟨.nil, .nil, rfl⟩
  | append_singleton rows row ih =>
    rw [List.foldl_append]
    exact ih.add row

end Loop

/-! ## The summary -/

/-- A row of the summary. -/
structure FrequencyLine where
  tuple : List String
  count : ℕ
  first : ℕ
  deriving DecidableEq

/-- The cells of a row of the summary. -/
def FrequencyLine.cells (line : FrequencyLine) : List String :=
  line.tuple ++ [intText line.count, intText line.first]

section Summary

variable (records : List (List String)) (groupBy : List ℤ) (whereColumn : ℤ) (equals : String)

/-- The data rows that match, with their numbers from 1. -/
abbrev matchingRecords : List (List String × ℕ) :=
  matching whereColumn equals (records.tail.zipIdx 1)

/-- The matching rows of a tuple of group cells. -/
abbrev recordsOf (tuple : List String) : List (List String × ℕ) :=
  Grouping.members (fun row => csvKey groupBy row.1) (matchingRecords records whereColumn equals)
    tuple

/-- The lines that a summary of the matching rows has: one for each tuple, with its number of rows
and the first of them, in order. -/
structure IsSummary (lines : List FrequencyLine) : Prop where
  nodup : (lines.map FrequencyLine.tuple).Nodup
  tuples : ∀ tuple, tuple ∈ lines.map FrequencyLine.tuple ↔
    ∃ row ∈ matchingRecords records whereColumn equals, csvKey groupBy row.1 = tuple
  counted : ∀ line ∈ lines,
    line.count = (recordsOf records groupBy whereColumn equals line.tuple).length
  first : ∀ line ∈ lines,
    (recordsOf records groupBy whereColumn equals line.tuple).head?.map Prod.snd = some line.first
  total : (lines.map FrequencyLine.count).sum =
    (matchingRecords records whereColumn equals).length
  ordered : lines.Pairwise fun a b => b.count < a.count ∨ a.count = b.count ∧ a.first < b.first

/-- The groups of the loop in the order of `sort_by`. -/
def summaryGroups : List RetainedCsvGroup :=
  ((records.tail.zipIdx 1).foldl (SummaryTable.add groupBy whereColumn equals)
    ⟨[], [], 0⟩).groups.mergeSort fun a b => compareFrequencies a b ≤ 0

/-- A group as a row of the summary. -/
def RetainedCsvGroup.frequencyLine (group : RetainedCsvGroup) : FrequencyLine :=
  ⟨group.cells, group.count, group.firstRow⟩

/-- The rows of the summary. -/
def summaryLines : List FrequencyLine :=
  (summaryGroups records groupBy whereColumn equals).map RetainedCsvGroup.frequencyLine

/-- The table that is written. -/
def summaryTable : List (List String) :=
  summaryHeader groupBy (records.headD []) ::
    (summaryLines records groupBy whereColumn equals).map FrequencyLine.cells

/-- Groups are ordered by falling count and then by first row. -/
theorem compareFrequencies_le_iff (a b : RetainedCsvGroup) : compareFrequencies a b ≤ 0 ↔
    b.count < a.count ∨ a.count = b.count ∧ a.firstRow ≤ b.firstRow := by
  rw [compareFrequencies]
  split_ifs <;> omega

/-- Sorting keeps the groups. -/
theorem summaryGroups_perm : (summaryGroups records groupBy whereColumn equals).Perm
    ((records.tail.zipIdx 1).foldl (SummaryTable.add groupBy whereColumn equals)
      ⟨[], [], 0⟩).groups :=
  List.mergeSort_perm _ _

/-- The groups are in order. -/
theorem pairwise_summaryGroups : (summaryGroups records groupBy whereColumn equals).Pairwise
    fun a b => b.count < a.count ∨ a.count = b.count ∧ a.firstRow ≤ b.firstRow := by
  have hsorted : (summaryGroups records groupBy whereColumn equals).Pairwise
      fun a b => decide (compareFrequencies a b ≤ 0) = true := by
    apply List.pairwise_mergeSort
    · intro a b c hab hbc
      rw [decide_eq_true_eq, compareFrequencies_le_iff] at *
      omega
    · intro a b
      simp only [Bool.or_eq_true, decide_eq_true_eq, compareFrequencies_le_iff]
      omega
  refine hsorted.imp ?_
  intro a b h
  rwa [decide_eq_true_eq, compareFrequencies_le_iff] at h

/-- Rows with one number are one row. -/
theorem eq_of_number {a b : List String × ℕ} (ha : a ∈ records.tail.zipIdx 1)
    (hb : b ∈ records.tail.zipIdx 1) (h : a.2 = b.2) : a = b := by
  rw [List.mem_zipIdx_iff_le_and_getElem?_sub] at ha hb
  rw [h] at ha
  exact Prod.ext (Option.some.inj (ha.2.symm.trans hb.2)) h

/-- The lines that the loop makes are a summary of the matching rows. -/
theorem isSummary : IsSummary records groupBy whereColumn equals
    (summaryLines records groupBy whereColumn equals) := by
  have hdescribes : SummaryTable.Describes groupBy whereColumn equals _ _ :=
    describes_foldl (records.tail.zipIdx 1)
  have hperm := summaryGroups_perm records groupBy whereColumn equals
  have hholds : ∀ group ∈ summaryGroups records groupBy whereColumn equals,
      Counts (recordsOf records groupBy whereColumn equals group.cells) group := by
    intro group hgroup
    exact hdescribes.grouped.holds group (hperm.mem_iff.mp hgroup)
  have htuples : (summaryLines records groupBy whereColumn equals).map FrequencyLine.tuple =
      (summaryGroups records groupBy whereColumn equals).map RetainedCsvGroup.cells := by
    rw [summaryLines, List.map_map]
    rfl
  have hnodup : ((summaryGroups records groupBy whereColumn equals).map
      RetainedCsvGroup.cells).Nodup := (hperm.map _).nodup_iff.mpr hdescribes.grouped.nodup
  constructor
  · rw [htuples]
    exact hnodup
  · intro tuple
    rw [htuples, (hperm.map _).mem_iff]
    constructor
    · intro htuple
      obtain ⟨group, hgroup, rfl⟩ := List.mem_map.mp htuple
      obtain ⟨_, hfirst⟩ := hdescribes.grouped.holds group hgroup
      obtain ⟨row, hrow, _⟩ := Option.map_eq_some_iff.mp hfirst
      have hmember := List.mem_filter.mp (List.mem_of_mem_head? hrow)
      exact ⟨row, hmember.1, of_decide_eq_true hmember.2⟩
    · rintro ⟨row, hrow, rfl⟩
      exact hdescribes.grouped.covers row hrow
  · intro line hline
    obtain ⟨group, hgroup, rfl⟩ := List.mem_map.mp hline
    exact (hholds group hgroup).1
  · intro line hline
    obtain ⟨group, hgroup, rfl⟩ := List.mem_map.mp hline
    exact (hholds group hgroup).2
  · have hpartition := (hperm.flatMap_right fun group =>
      recordsOf records groupBy whereColumn equals group.cells).trans hdescribes.grouped.perm
    have hlengths : (summaryGroups records groupBy whereColumn equals).map
        (FrequencyLine.count ∘ RetainedCsvGroup.frequencyLine) =
        (summaryGroups records groupBy whereColumn equals).map fun group =>
          (recordsOf records groupBy whereColumn equals group.cells).length :=
      List.map_congr_left fun group hgroup => (hholds group hgroup).1
    rw [summaryLines, List.map_map, hlengths, ← hpartition.length_eq, List.length_flatMap]
  · rw [summaryLines, List.pairwise_map]
    have hcells : (summaryGroups records groupBy whereColumn equals).Pairwise
        fun a b => a.cells ≠ b.cells := List.pairwise_map.mp hnodup
    refine ((pairwise_summaryGroups records groupBy whereColumn equals).and hcells).imp_of_mem ?_
    intro a b ha hb hab
    have hne : a.firstRow ≠ b.firstRow := by
      intro heq
      obtain ⟨row, hrow, hnumber⟩ := Option.map_eq_some_iff.mp (hholds a ha).2
      obtain ⟨row', hrow', hnumber'⟩ := Option.map_eq_some_iff.mp (hholds b hb).2
      have hmember := List.mem_filter.mp (List.mem_of_mem_head? hrow)
      have hmember' := List.mem_filter.mp (List.mem_of_mem_head? hrow')
      have hsame := eq_of_number records (List.mem_of_mem_filter hmember.1)
        (List.mem_of_mem_filter hmember'.1) (by rw [hnumber, hnumber', heq])
      apply hab.2
      rw [← of_decide_eq_true hmember.2, ← of_decide_eq_true hmember'.2, hsame]
    have hle := hab.1
    rw [RetainedCsvGroup.frequencyLine, RetainedCsvGroup.frequencyLine]
    dsimp only
    omega

end Summary

/-! ## The written table -/

section Table

variable {records : List (List String)} {groupBy : List ℤ} {whereColumn : ℤ} {equals : String}

/-- A cell that the reader accepts. -/
def CsvCell (cell : String) : Prop := utf16Length cell ≤ 16384 ∧ '\x00' ∉ cell.toList

/-- The text of a count is a cell. -/
theorem csvCell_intText {n : ℕ} (h : n ≤ 20000) : CsvCell (intText n) := by
  have hplain := plain_intText (Int.natCast_nonneg n)
  have hlength := utf8Length_intText_le (Int.natCast_nonneg n) (by omega)
  constructor
  · have hle := utf16Length_le_utf8Length (intText n)
    omega
  · intro hnul
    exact absurd (hplain _ hnul) (by decide)

/-- The cells of a key are cells of its record. -/
theorem csvCell_csvKey {record : List String} (h : ∀ cell ∈ record, CsvCell cell)
    (columns : List ℤ) : ∀ cell ∈ csvKey columns record, CsvCell cell := by
  intro cell hcell
  obtain ⟨column, _, rfl⟩ := List.mem_map.mp hcell
  rw [List.getD_eq_getElem?_getD]
  rcases hget : record[(column - 1).toNat]? with _ | cell
  · exact ⟨by decide, by decide⟩
  · exact h cell (List.mem_of_getElem? hget)

/-- The number of a row. -/
theorem number_le {row : List String × ℕ} (h : row ∈ records.tail.zipIdx 1) :
    row.1 ∈ records ∧ row.2 + 1 ≤ records.length := by
  obtain ⟨hle, hget⟩ := List.mem_zipIdx_iff_le_and_getElem?_sub.mp h
  obtain ⟨hlt, _⟩ := List.getElem?_eq_some_iff.mp hget
  rw [List.length_tail] at hlt
  exact ⟨List.mem_of_mem_tail (List.mem_of_getElem? hget), by omega⟩

/-- What a line of a summary is made of. -/
theorem IsSummary.line {lines : List FrequencyLine}
    (h : IsSummary records groupBy whereColumn equals lines) {line : FrequencyLine}
    (hline : line ∈ lines) :
    ∃ row ∈ matchingRecords records whereColumn equals, line.tuple = csvKey groupBy row.1 ∧
      line.first = row.2 ∧
      line.count ≤ (matchingRecords records whereColumn equals).length := by
  obtain ⟨row, hrow, hnumber⟩ := Option.map_eq_some_iff.mp (h.first line hline)
  obtain ⟨hmatching, hkey⟩ := List.mem_filter.mp (List.mem_of_mem_head? hrow)
  refine ⟨row, hmatching, (of_decide_eq_true hkey).symm, hnumber.symm, ?_⟩
  rw [h.counted line hline]
  exact List.length_filter_le _ _

/-- At most 20000 records match. -/
theorem length_matchingRecords (h : CsvTable records) :
    (matchingRecords records whereColumn equals).length ≤ 20000 := by
  have hrecords := h.records
  have hfilter := List.length_filter_le
    (fun row : List String × ℕ => matchesFilter whereColumn equals row.1) (records.tail.zipIdx 1)
  rw [List.length_zipIdx, List.length_tail] at hfilter
  exact Nat.le_trans hfilter (by omega)

/-- The reader accepts the written table. -/
theorem csvTable_summaryTable (h : CsvTable records) (hlength : groupBy.length ≤ 62) :
    CsvTable (summaryTable records groupBy whereColumn equals) := by
  have hcells : ∀ row ∈ records, ∀ cell ∈ row, CsvCell cell := h.cells
  have hsummary := isSummary records groupBy whereColumn equals
  have hmatching : (matchingRecords records whereColumn equals).length ≤ 20000 :=
    length_matchingRecords h
  have hwidth (cells : List String) : (csvKey groupBy cells).length = groupBy.length :=
    List.length_map _
  have hheader : records.headD [] ∈ records := by
    obtain ⟨header, rest, rfl⟩ := List.exists_cons_of_ne_nil h.nonempty
    exact List.mem_cons_self
  refine ⟨List.cons_ne_nil _ _, ?_, ⟨groupBy.length + 2, by omega, by omega, ?_⟩, ?_⟩
  · have hsubset : (summaryLines records groupBy whereColumn equals).map FrequencyLine.tuple ⊆
        (matchingRecords records whereColumn equals).map fun row => csvKey groupBy row.1 := by
      intro tuple htuple
      obtain ⟨row, hrow, rfl⟩ := (hsummary.tuples tuple).mp htuple
      exact List.mem_map_of_mem hrow
    have hle := (List.subperm_of_subset hsummary.nodup hsubset).length_le
    rw [List.length_map, List.length_map] at hle
    rw [summaryTable, List.length_cons, List.length_map]
    omega
  · intro row hrow
    rcases List.mem_cons.mp hrow with rfl | hrow
    · rw [summaryHeader, List.length_append, hwidth]
      rfl
    · obtain ⟨line, hline, rfl⟩ := List.mem_map.mp hrow
      obtain ⟨_, _, htuple, _⟩ := hsummary.line hline
      rw [FrequencyLine.cells, List.length_append, htuple, hwidth]
      rfl
  · intro row hrow
    rcases List.mem_cons.mp hrow with rfl | hrow
    · rw [summaryHeader, List.forall_mem_append]
      refine ⟨csvCell_csvKey (hcells _ hheader) groupBy, ?_⟩
      decide
    · obtain ⟨line, hline, rfl⟩ := List.mem_map.mp hrow
      obtain ⟨source, hsource, htuple, hfirst, hcount⟩ := hsummary.line hline
      obtain ⟨hmem, hnumber⟩ := number_le (List.mem_of_mem_filter hsource)
      have hrecords := h.records
      rw [FrequencyLine.cells, List.forall_mem_append, List.forall_mem_cons,
        List.forall_mem_singleton, htuple, hfirst]
      exact ⟨csvCell_csvKey (hcells _ hmem) groupBy, csvCell_intText (by omega),
        csvCell_intText (by omega)⟩

/-- The guards of `summarize_csv_records`. -/
structure SummaryAccepted (records : List (List String)) (groupBy : List ℤ) (whereColumn : ℤ)
    (equals : String) : Prop where
  columns : groupBy ≠ [] ∧ groupBy.length ≤ 62
  distinct : keyColumnsValid (records.headD []).length [] groupBy = true
  filter : 0 ≤ whereColumn ∧ whereColumn ≤ (records.headD []).length ∧
    utf8Length equals ≤ 16384 ∧ (whereColumn ≠ 0 ∨ equals = "")

/-- What follows the guards. -/
theorem summarize_of_accepted (h : SummaryAccepted records groupBy whereColumn equals) :
    summarizeCsvRecords records groupBy whereColumn equals =
      if utf8Length (csvText (summaryTable records groupBy whereColumn equals)) ≤ 1048576 then
        .ok (csvText (summaryTable records groupBy whereColumn equals),
          (matchingRecords records whereColumn equals).length,
          (summaryLines records groupBy whereColumn equals).length)
      else .error summaryTooLarge := by
  have hdescribes : SummaryTable.Describes groupBy whereColumn equals _ _ :=
    describes_foldl (records.tail.zipIdx 1)
  have hlines : (summaryGroups records groupBy whereColumn equals).map RetainedCsvGroup.line =
      (summaryLines records groupBy whereColumn equals).map FrequencyLine.cells := by
    rw [summaryLines, List.map_map]
    rfl
  have hwrite := foldlM_write summaryTooLarge (summaryTable records groupBy whereColumn equals)
  rw [summaryTable, List.foldlM_cons, ← summaryTable] at hwrite
  have hlength : (summaryLines records groupBy whereColumn equals).length =
      (summaryGroups records groupBy whereColumn equals).length := List.length_map _
  have hgroups : ((records.tail.zipIdx 1).foldl (SummaryTable.add groupBy whereColumn equals)
      ⟨[], [], 0⟩).groups.mergeSort (fun a b => compareFrequencies a b ≤ 0) =
      summaryGroups records groupBy whereColumn equals := rfl
  rw [summarizeCsvRecords, if_neg (not_not.mpr h.columns), if_neg (by rw [h.distinct]; decide),
    if_neg (not_not.mpr h.filter)]
  dsimp only
  rw [hgroups, hlines, hdescribes.matchingRows, ← hlength]
  simp only [bind, Except.bind] at hwrite ⊢
  rcases hheader : CsvCandidate.empty.write summaryTooLarge
      (summaryHeader groupBy (records.headD [])) with fault | output
  · rw [hheader] at hwrite
    dsimp only at hwrite ⊢
    split at hwrite
    · cases hwrite
    · rename_i hlarge
      rw [if_neg hlarge, Except.error.inj hwrite]
  · rw [hheader] at hwrite
    dsimp only at hwrite ⊢
    rw [hwrite]
    by_cases hfits : utf8Length (csvText (summaryTable records groupBy whereColumn equals)) ≤
        1048576
    · rw [if_pos hfits, if_pos hfits]
      rfl
    · rw [if_neg hfits, if_neg hfits]

/-- A summary passed the guards. -/
theorem accepted_of_summarize {result : String × ℕ × ℕ}
    (h : summarizeCsvRecords records groupBy whereColumn equals = .ok result) :
    SummaryAccepted records groupBy whereColumn equals := by
  rw [summarizeCsvRecords, Loop.guard_eq_ok_iff, Loop.guard_eq_ok_iff, Loop.guard_eq_ok_iff,
    not_not, not_not, Bool.not_eq_false] at h
  exact ⟨h.1, h.2.1, h.2.2.1⟩

end Table

/-- A written summary: it reads back as the header and the lines of a summary. -/
structure Summarized (records : List (List String)) (groupBy : List ℤ) (whereColumn : ℤ)
    (equals : String) (result : String × ℕ × ℕ) (lines : List FrequencyLine) : Prop where
  read : parseRetainedCsv result.1 =
    .ok (summaryHeader groupBy (records.headD []) :: lines.map FrequencyLine.cells)
  isSummary : IsSummary records groupBy whereColumn equals lines
  matchingRows : result.2.1 = (matchingRecords records whereColumn equals).length
  groupCount : result.2.2 = lines.length

section Exact

variable {records : List (List String)} {groupBy : List ℤ} {whereColumn : ℤ} {equals : String}

/-- An accepted request is summarized unless its summary is too large. -/
theorem summarized_of_accepted (htable : CsvTable records)
    (h : SummaryAccepted records groupBy whereColumn equals) :
    summarizeCsvRecords records groupBy whereColumn equals = .error summaryTooLarge ∨
      ∃ result, summarizeCsvRecords records groupBy whereColumn equals = .ok result ∧
        Summarized records groupBy whereColumn equals result
          (summaryLines records groupBy whereColumn equals) := by
  rw [summarize_of_accepted h]
  by_cases hfits : utf8Length (csvText (summaryTable records groupBy whereColumn equals)) ≤ 1048576
  · rw [if_pos hfits]
    exact Or.inr ⟨_, rfl, parseRetainedCsv_csvText (csvTable_summaryTable htable h.columns.2),
      isSummary records groupBy whereColumn equals, rfl, rfl⟩
  · rw [if_neg hfits]
    exact Or.inl rfl

/-- The numbers of the rows do not matter for how many match. -/
theorem length_recordsOf (tuple : List String) :
    (recordsOf records groupBy whereColumn equals tuple).length =
      ((records.tail.filter (matchesFilter whereColumn equals)).filter
        fun cells => csvKey groupBy cells = tuple).length := by
  have hcells : (records.tail.zipIdx 1).map Prod.fst = records.tail := List.zipIdx_map_fst _ _
  rw [← hcells]
  simp only [List.filter_map, List.length_map]
  rfl

/-- A matching record is one that passes the filter. -/
theorem exists_matching_iff {p : List String → Prop} :
    (∃ row ∈ matchingRecords records whereColumn equals, p row.1) ↔
      ∃ cells ∈ records.tail.filter (matchesFilter whereColumn equals), p cells := by
  have hcells : (records.tail.zipIdx 1).map Prod.fst = records.tail := List.zipIdx_map_fst _ _
  rw [← hcells, List.filter_map]
  simp only [List.mem_map]
  constructor
  · rintro ⟨row, hrow, hp⟩
    exact ⟨row.1, ⟨row, hrow, rfl⟩, hp⟩
  · rintro ⟨_, ⟨row, hrow, rfl⟩, hp⟩
    exact ⟨row, hrow, hp⟩

/-- The tuples and counts of two summaries of the same rows in any orders. -/
theorem IsSummary.perm {other : List (List String)} (hperm : other.tail.Perm records.tail)
    {lines lines' : List FrequencyLine} (h : IsSummary records groupBy whereColumn equals lines)
    (h' : IsSummary other groupBy whereColumn equals lines') :
    (lines'.map fun line => (line.tuple, line.count)).Perm
      (lines.map fun line => (line.tuple, line.count)) := by
  have hfilter := hperm.filter (matchesFilter whereColumn equals)
  have hcount (tuple : List String) : (recordsOf other groupBy whereColumn equals tuple).length =
      (recordsOf records groupBy whereColumn equals tuple).length := by
    rw [length_recordsOf, length_recordsOf]
    exact (hfilter.filter _).length_eq
  have htuples : (lines'.map FrequencyLine.tuple).Perm (lines.map FrequencyLine.tuple) := by
    rw [List.perm_ext_iff_of_nodup h'.nodup h.nodup]
    intro tuple
    rw [h.tuples, h'.tuples, exists_matching_iff (p := fun cells => csvKey groupBy cells = tuple),
      exists_matching_iff (p := fun cells => csvKey groupBy cells = tuple)]
    simp only [hfilter.mem_iff]
  have hpairs : lines.map (fun line => (line.tuple, line.count)) =
      (lines.map FrequencyLine.tuple).map fun tuple =>
        (tuple, (recordsOf records groupBy whereColumn equals tuple).length) := by
    rw [List.map_map]
    exact List.map_congr_left fun line hline => by rw [h.counted line hline]; rfl
  have hpairs' : lines'.map (fun line => (line.tuple, line.count)) =
      (lines'.map FrequencyLine.tuple).map fun tuple =>
        (tuple, (recordsOf records groupBy whereColumn equals tuple).length) := by
    rw [List.map_map]
    exact List.map_congr_left fun line hline => by rw [h'.counted line hline, hcount]; rfl
  rw [hpairs, hpairs']
  exact htuples.map _

/-- A summary that is written is exact. For the data rows in another order it is refused, as the
numbers of the first rows may need more digits, or has the same tuples with the same counts. -/
theorem csv_summary_exact {text : String} (hread : parseRetainedCsv text = .ok records)
    {result : String × ℕ × ℕ}
    (h : summarizeCsvRecords records groupBy whereColumn equals = .ok result) :
    ∃ lines, Summarized records groupBy whereColumn equals result lines ∧
      ∀ rows : List (List String), rows.Perm records.tail →
        summarizeCsvRecords (records.headD [] :: rows) groupBy whereColumn equals =
            .error summaryTooLarge ∨
          ∃ result' lines',
            summarizeCsvRecords (records.headD [] :: rows) groupBy whereColumn equals =
              .ok result' ∧
            Summarized (records.headD [] :: rows) groupBy whereColumn equals result' lines' ∧
            result'.2 = result.2 ∧
            (lines'.map fun line => (line.tuple, line.count)).Perm
              (lines.map fun line => (line.tuple, line.count)) := by
  have htable := csvTable_of_parse hread
  have haccepted := accepted_of_summarize h
  rcases summarized_of_accepted htable haccepted with herror | ⟨found, hfound, hsummarized⟩
  · rw [herror] at h
    cases h
  obtain rfl := Except.ok.inj (hfound.symm.trans h)
  refine ⟨_, hsummarized, ?_⟩
  intro rows hperm
  have hall : (records.headD [] :: rows).Perm records := by
    obtain ⟨header, rest, rfl⟩ := List.exists_cons_of_ne_nil htable.nonempty
    exact hperm.cons header
  have htable' : CsvTable (records.headD [] :: rows) := by
    obtain ⟨width, hpos, hwide, hwidth⟩ := htable.width
    refine ⟨List.cons_ne_nil _ _, hall.length_eq ▸ htable.records, ⟨width, hpos, hwide, ?_⟩, ?_⟩
    · exact fun row hrow => hwidth row (hall.mem_iff.mp hrow)
    · exact fun row hrow => htable.cells row (hall.mem_iff.mp hrow)
  have haccepted' : SummaryAccepted (records.headD [] :: rows) groupBy whereColumn equals :=
    ⟨haccepted.columns, haccepted.distinct, haccepted.filter⟩
  rcases summarized_of_accepted htable' haccepted' with herror | ⟨result', hresult', hsummarized'⟩
  · exact Or.inl herror
  · have htail : (records.headD [] :: rows).tail.Perm records.tail := hperm
    have hlines := hsummarized.isSummary.perm htail hsummarized'.isSummary
    have hmatching : (matchingRecords (records.headD [] :: rows) whereColumn equals).length =
        (matchingRecords records whereColumn equals).length := by
      rw [← hsummarized.isSummary.total, ← hsummarized'.isSummary.total]
      have hcounts := (hlines.map Prod.snd).sum_nat
      rwa [List.map_map, List.map_map] at hcounts
    refine Or.inr ⟨result', _, hresult', hsummarized', ?_, hlines⟩
    have hlength := hlines.length_eq
    rw [List.length_map, List.length_map] at hlength
    exact Prod.ext (by rw [hsummarized.matchingRows, hsummarized'.matchingRows, hmatching])
      (by rw [hsummarized.groupCount, hsummarized'.groupCount, hlength])

end Exact

/-- A table with two groups, one of them with two rows. -/
def sampleKinds : List (List String) := [["k", "n"], ["a", "1"], ["a", "2"], ["b", ""]]

/-- The kinds of a table, counted. -/
theorem csv_summary_exact_sample :
    parseRetainedCsv (csvText sampleKinds) = .ok sampleKinds ∧
      ∃ result lines, summarizeCsvRecords sampleKinds [1] 0 "" = .ok result ∧
        Summarized sampleKinds [1] 0 "" result lines := by
  have hread : parseRetainedCsv (csvText sampleKinds) = .ok sampleKinds :=
    parseRetainedCsv_csvText
      ⟨by decide, by decide, ⟨2, by decide, by decide, by decide⟩, by decide⟩
  have haccepted : SummaryAccepted sampleKinds [1] 0 "" :=
    ⟨by decide, by decide, by decide⟩
  have hgroups : summaryGroups sampleKinds [1] 0 "" = [⟨["a"], 2, 1⟩, ⟨["b"], 1, 3⟩] := by
    have hloop : ((sampleKinds.tail.zipIdx 1).foldl (SummaryTable.add [1] 0 "")
        ⟨[], [], 0⟩).groups = [⟨["a"], 2, 1⟩, ⟨["b"], 1, 3⟩] := by
      decide
    rw [summaryGroups, hloop]
    exact List.mergeSort_of_pairwise (by decide)
  have hresult : ∃ result, summarizeCsvRecords sampleKinds [1] 0 "" = .ok result := by
    rw [summarize_of_accepted haccepted, if_pos]
    · exact ⟨_, rfl⟩
    · rw [summaryTable, summaryLines, hgroups]
      decide
  obtain ⟨result, hresult⟩ := hresult
  obtain ⟨lines, hlines, _⟩ := csv_summary_exact hread hresult
  exact ⟨hread, result, lines, hresult, hlines⟩

end Moonfort.Executor
