import Moonfort.Executor.CsvCandidate
import Moonfort.LinkedMap

/-!
# Enrichment of a retained CSV file

The left join of a retained table with a local lookup table. The lookup rows are indexed by their
keys, which must differ, and every source row is written with the cells of the row that its
key finds, or with blank cells. The counts are those of the rows.
-/

namespace Moonfort.Executor

open MoonBit

/-! ## The join -/

/-- The cell of a row in a one-based column. -/
def columnCell (column : ℤ) (row : List String) : String := row.getD (column - 1).toNat ""

/-- `selected`: the declared lookup columns, or all but the key. -/
def selectedColumns (width : ℕ) (lookupKey : ℤ) (lookupColumns : List ℤ) : List ℤ :=
  if lookupColumns = [] then
    ((List.range width).map fun index => (index : ℤ) + 1).filter fun column => column ≠ lookupKey
  else lookupColumns

/-- The round that checks a selected column and adds its header. -/
def enrichHeader (lookupHeader : List String) (columnPrefix : String)
    (headers : List String × List ℤ) (column : ℤ) : Except String (List String × List ℤ) :=
  if ¬(1 ≤ column ∧ column ≤ lookupHeader.length ∧ column ∉ headers.2) then
    .error "CSV enrichment contains an invalid or repeated lookup column"
  else
    let header := columnPrefix ++ columnCell column lookupHeader
    if ¬utf16Length header ≤ 16384 then
      .error "CSV enrichment header exceeds 16384 UTF-16 units"
    else .ok (headers.1 ++ [header], headers.2 ++ [column])

/-- The round that indexes a lookup row. -/
def indexLookup (lookupKey : ℤ) (index : List (String × List String)) (row : List String) :
    Except String (List (String × List String)) :=
  let key := columnCell lookupKey row
  if key = "" ∨ (LinkedMap.get key index).isSome then
    .error "CSV lookup keys must be nonempty and unique"
  else .ok (LinkedMap.set key row index)

/-- The refusal of a candidate that is too large. -/
def enrichmentTooLarge : String := "CSV enrichment candidate exceeds 1 MiB"

/-- The variables of the loop over the source rows. -/
structure Enrichment where
  output : CsvCandidate
  matched : ℕ
  used : List (String × Bool)

/-- The round that writes a source row. -/
def Enrichment.add (sourceKey : ℤ) (selected : List ℤ) (index : List (String × List String))
    (e : Enrichment) (row : List String) : Except String Enrichment :=
  let key := columnCell sourceKey row
  match LinkedMap.get key index with
  | some reference => do
    let cells := row ++ selected.map fun column => columnCell column reference
    let output ← e.output.write enrichmentTooLarge cells
    .ok ⟨output, e.matched + 1, LinkedMap.set key true e.used⟩
  | none => do
    let output ← e.output.write enrichmentTooLarge (row ++ selected.map fun _ => "")
    .ok { e with output := output }

/-- The candidate and the columns and counts that are returned with it. -/
structure EnrichedCsv where
  csv : String
  selected : List ℤ
  matched : ℕ
  unused : ℤ

/-- `enrich_csv_records`. -/
def enrichCsvRecords (source lookup : List (List String)) (sourceKey lookupKey : ℤ)
    (lookupColumns : List ℤ) (columnPrefix : String) : Except String EnrichedCsv :=
  let sourceHeader := source.headD []
  let lookupHeader := lookup.headD []
  let selected := selectedColumns lookupHeader.length lookupKey lookupColumns
  if ¬((1 ≤ sourceKey ∧ sourceKey ≤ sourceHeader.length) ∧
      1 ≤ lookupKey ∧ lookupKey ≤ lookupHeader.length) then
    .error "CSV enrichment keys must name existing one-based columns"
  else if ¬(utf16Length columnPrefix ≤ 128 ∧ containsText columnPrefix "\x00" = false) then
    .error "CSV enrichment prefix exceeds 128 UTF-16 units or contains NUL"
  else if ¬(selected ≠ [] ∧ sourceHeader.length + selected.length ≤ 64) then
    .error "CSV enrichment requires lookup columns and at most 64 result columns"
  else do
    let headers ← selected.foldlM (enrichHeader lookupHeader columnPrefix) (sourceHeader, [])
    let index ← lookup.tail.foldlM (indexLookup lookupKey) []
    let output ← CsvCandidate.empty.write enrichmentTooLarge headers.1
    let joined ← source.tail.foldlM (Enrichment.add sourceKey selected index) ⟨output, 0, []⟩
    .ok ⟨joined.output.text, selected, joined.matched,
      (index.length : ℤ) - joined.used.length⟩

/-- `source_rows - matched_rows`. -/
def EnrichedCsv.unmatched (result : EnrichedCsv) (source : List (List String)) : ℤ :=
  ((source.length : ℤ) - 1) - result.matched

/-! ## The headers -/

section Headers

variable {lookupHeader : List String} {columnPrefix : String}

/-- The headers of the selected columns, which are different columns of the lookup table. -/
structure HeadersOf (lookupHeader : List String) (columnPrefix : String) (start : List String)
    (selected : List ℤ) (headers : List String × List ℤ) : Prop where
  texts : headers.1 = start ++ selected.map fun column =>
    columnPrefix ++ columnCell column lookupHeader
  seen : headers.2 = selected
  nodup : selected.Nodup
  columns : ∀ column ∈ selected, (1 ≤ column ∧ column ≤ lookupHeader.length) ∧
    utf16Length (columnPrefix ++ columnCell column lookupHeader) ≤ 16384

/-- The headers that are collected are those of the selected columns. -/
theorem headersOf_of_foldlM {selected : List ℤ} {start : List String}
    {headers : List String × List ℤ}
    (h : selected.foldlM (enrichHeader lookupHeader columnPrefix) (start, []) = .ok headers) :
    HeadersOf lookupHeader columnPrefix start selected headers := by
  refine Loop.holds_of_foldlM (HeadersOf lookupHeader columnPrefix start)
    ⟨by simp, rfl, List.nodup_nil, nofun⟩ (fun before column state next _ hstate hround => ?_) h
  obtain ⟨hheaders, hseen, hnodup, hcolumns⟩ := hstate
  rw [enrichHeader] at hround
  split at hround
  · cases hround
  · rename_i hvalid
    rw [not_not, hseen] at hvalid
    simp only at hround
    split at hround
    · cases hround
    · rename_i hshort
      rw [not_not] at hshort
      obtain rfl := Except.ok.inj hround
      refine ⟨?_, ?_, ?_, ?_⟩
      · rw [hheaders, List.map_append, List.append_assoc]
        rfl
      · rw [hseen]
      · exact List.nodup_append.mpr ⟨hnodup, List.nodup_singleton _, fun a ha b hb => by
          rw [List.mem_singleton.mp hb]
          exact ne_of_mem_of_not_mem ha hvalid.2.2⟩
      · intro other hother
        rcases List.mem_append.mp hother with hother | hother
        · exact hcolumns other hother
        · rw [List.mem_singleton.mp hother]
          exact ⟨⟨hvalid.1, hvalid.2.1⟩, hshort⟩

end Headers

/-! ## The index -/

/-- The lookup rows by their keys. -/
def lookupIndex (lookupKey : ℤ) (rows : List (List String)) : List (String × List String) :=
  rows.map fun row => (columnCell lookupKey row, row)

/-- The index has the key of every row. -/
theorem keys_lookupIndex (lookupKey : ℤ) (rows : List (List String)) :
    LinkedMap.keys (lookupIndex lookupKey rows) = rows.map (columnCell lookupKey) := by
  rw [LinkedMap.keys, lookupIndex, List.map_map]
  rfl

/-- Lookup rows with different keys that are not empty, and their index. -/
structure IndexOf (lookupKey : ℤ) (rows : List (List String))
    (index : List (String × List String)) : Prop where
  index : index = lookupIndex lookupKey rows
  nodup : (rows.map (columnCell lookupKey)).Nodup
  nonempty : ∀ row ∈ rows, columnCell lookupKey row ≠ ""

/-- The index that is built finds each row by its key. -/
theorem indexOf_of_foldlM {lookupKey : ℤ} {rows : List (List String)}
    {index : List (String × List String)}
    (h : rows.foldlM (indexLookup lookupKey) [] = .ok index) : IndexOf lookupKey rows index := by
  refine Loop.holds_of_foldlM (IndexOf lookupKey) ⟨rfl, List.nodup_nil, nofun⟩
    (fun before row state next _ hstate hround => ?_) h
  obtain ⟨rfl, hnodup, hkeys⟩ := hstate
  rw [indexLookup] at hround
  split at hround
  · cases hround
  · rename_i hvalid
    rw [not_or, Option.not_isSome_iff_eq_none] at hvalid
    have hnew := LinkedMap.get_eq_none_iff.mp hvalid.2
    obtain rfl := Except.ok.inj hround
    rw [keys_lookupIndex] at hnew
    refine ⟨?_, ?_, ?_⟩
    · rw [LinkedMap.set_of_notMem (by rwa [keys_lookupIndex]), lookupIndex, lookupIndex,
        List.map_append]
      rfl
    · rw [List.map_append, List.nodup_append]
      refine ⟨hnodup, List.nodup_singleton _, fun a ha b hb => ?_⟩
      rw [List.map_singleton, List.mem_singleton] at hb
      rw [hb]
      exact ne_of_mem_of_not_mem ha hnew
    · intro other hother
      rcases List.mem_append.mp hother with hother | hother
      · exact hkeys other hother
      · rw [List.mem_singleton.mp hother]
        exact hvalid.1

/-! ## The join of the rows -/

/-- The lookup row with the key of a source row. -/
def referenceOf (sourceKey lookupKey : ℤ) (rows : List (List String)) (row : List String) :
    Option (List String) :=
  LinkedMap.get (columnCell sourceKey row) (lookupIndex lookupKey rows)

/-- A source row with the cells of its lookup row, or with blanks. -/
def joinedRow (sourceKey lookupKey : ℤ) (selected : List ℤ) (rows : List (List String))
    (row : List String) : List String :=
  row ++ match referenceOf sourceKey lookupKey rows row with
    | some reference => selected.map fun column => columnCell column reference
    | none => selected.map fun _ => ""

/-- Some lookup row has the key of a source row. -/
def IsMatched (sourceKey lookupKey : ℤ) (rows : List (List String)) (row : List String) : Prop :=
  ∃ reference ∈ rows, columnCell lookupKey reference = columnCell sourceKey row

instance (sourceKey lookupKey : ℤ) (rows : List (List String)) :
    DecidablePred (IsMatched sourceKey lookupKey rows) := fun row =>
  inferInstanceAs (Decidable (∃ reference ∈ rows,
    columnCell lookupKey reference = columnCell sourceKey row))

/-- Some source row has the key of a lookup row. -/
def IsUsed (sourceKey lookupKey : ℤ) (rows : List (List String)) (reference : List String) : Prop :=
  ∃ row ∈ rows, columnCell lookupKey reference = columnCell sourceKey row

instance (sourceKey lookupKey : ℤ) (rows : List (List String)) :
    DecidablePred (IsUsed sourceKey lookupKey rows) := fun reference =>
  inferInstanceAs (Decidable (∃ row ∈ rows,
    columnCell lookupKey reference = columnCell sourceKey row))

section Join

variable {sourceKey lookupKey : ℤ} {selected : List ℤ} {rows : List (List String)}
  {row reference : List String}

/-- A row has no reference when it is not matched. -/
theorem referenceOf_eq_none_iff :
    referenceOf sourceKey lookupKey rows row = none ↔ ¬IsMatched sourceKey lookupKey rows row := by
  rw [referenceOf, LinkedMap.get_eq_none_iff, keys_lookupIndex, List.mem_map, IsMatched]

/-- The reference of a row is one with its key. -/
theorem of_referenceOf (h : referenceOf sourceKey lookupKey rows row = some reference) :
    reference ∈ rows ∧ columnCell lookupKey reference = columnCell sourceKey row := by
  obtain ⟨found, hfound, heq⟩ := List.mem_map.mp (LinkedMap.mem_of_get h)
  obtain ⟨hkey, rfl⟩ := Prod.mk.inj heq
  exact ⟨hfound, hkey⟩

/-- A round writes the joined row and counts a match. -/
theorem of_add {lookupRows : List (List String)} {e next : Enrichment}
    (h : e.add sourceKey selected (lookupIndex lookupKey lookupRows) row = .ok next) :
    e.output.write enrichmentTooLarge (joinedRow sourceKey lookupKey selected lookupRows row) =
        .ok next.output ∧
      (IsMatched sourceKey lookupKey lookupRows row → next.matched = e.matched + 1 ∧
        next.used = LinkedMap.set (columnCell sourceKey row) true e.used) ∧
      (¬IsMatched sourceKey lookupKey lookupRows row → next.matched = e.matched ∧
        next.used = e.used) := by
  have hget : LinkedMap.get (columnCell sourceKey row) (lookupIndex lookupKey lookupRows) =
      referenceOf sourceKey lookupKey lookupRows row := rfl
  rw [Enrichment.add] at h
  cases hreference : referenceOf sourceKey lookupKey lookupRows row with
  | some reference =>
    rw [hget, hreference] at h
    simp only [bind, Except.bind] at h
    rw [joinedRow, hreference]
    split at h
    · cases h
    · rename_i hwrite
      obtain rfl := Except.ok.inj h
      exact ⟨hwrite, fun _ => ⟨rfl, rfl⟩, fun hnone => absurd ⟨_, of_referenceOf hreference⟩ hnone⟩
  | none =>
    rw [hget, hreference] at h
    simp only [bind, Except.bind] at h
    rw [joinedRow, hreference]
    split at h
    · cases h
    · rename_i hwrite
      obtain rfl := Except.ok.inj h
      exact ⟨hwrite, fun hmatched => absurd hmatched (referenceOf_eq_none_iff.mp hreference),
        fun _ => ⟨rfl, rfl⟩⟩

/-- What the loop over the source rows has done. -/
structure JoinOf (sourceKey lookupKey : ℤ) (selected : List ℤ) (lookupRows : List (List String))
    (start : CsvCandidate) (sourceRows : List (List String)) (e : Enrichment) : Prop where
  output : (sourceRows.map (joinedRow sourceKey lookupKey selected lookupRows)).foldlM
    (CsvCandidate.write enrichmentTooLarge) start = .ok e.output
  matched : e.matched = sourceRows.countP (IsMatched sourceKey lookupKey lookupRows)
  nodup : (LinkedMap.keys e.used).Nodup
  used : ∀ key, key ∈ LinkedMap.keys e.used ↔
    ∃ row ∈ sourceRows, IsMatched sourceKey lookupKey lookupRows row ∧
      columnCell sourceKey row = key

/-- No rows are joined at the start. -/
theorem joinOf_nil (lookupRows : List (List String)) (start : CsvCandidate) :
    JoinOf sourceKey lookupKey selected lookupRows start [] ⟨start, 0, []⟩ where
  output := rfl
  matched := rfl
  nodup := List.nodup_nil
  used key := by simp

/-- The rows that are collected are the joined ones. -/
theorem joinOf_of_foldlM {lookupRows sourceRows : List (List String)} {start : CsvCandidate}
    {e : Enrichment} (h : sourceRows.foldlM (Enrichment.add sourceKey selected
      (lookupIndex lookupKey lookupRows)) ⟨start, 0, []⟩ = .ok e) :
    JoinOf sourceKey lookupKey selected lookupRows start sourceRows e := by
  refine Loop.holds_of_foldlM (JoinOf sourceKey lookupKey selected lookupRows start)
    (joinOf_nil _ _) (fun before row state next _ hstate hround => ?_) h
  obtain ⟨hwrite, hmatched, hunmatched⟩ := of_add hround
  constructor
  · rw [List.map_append, List.map_singleton, Loop.foldlM_concat, hstate.output]
    exact hwrite
  · rw [List.countP_append, ← hstate.matched]
    by_cases hrow : IsMatched sourceKey lookupKey lookupRows row
    · simp [(hmatched hrow).1, hrow]
    · simp [(hunmatched hrow).1, hrow]
  · by_cases hrow : IsMatched sourceKey lookupKey lookupRows row
    · rw [(hmatched hrow).2]
      exact LinkedMap.nodup_keys_set hstate.nodup
    · rw [(hunmatched hrow).2]
      exact hstate.nodup
  · intro key
    simp only [List.mem_append, List.mem_singleton, or_and_right, exists_or, exists_eq_left]
    rw [← hstate.used]
    by_cases hrow : IsMatched sourceKey lookupKey lookupRows row
    · rw [(hmatched hrow).2, LinkedMap.mem_keys_set]
      simp only [hrow, true_and]
      rw [or_comm, eq_comm]
    · rw [(hunmatched hrow).2]
      simp [hrow]

/-- The lookup rows without a source row are those that were not used. -/
theorem JoinOf.unused {lookupRows sourceRows : List (List String)} {start : CsvCandidate}
    {e : Enrichment} (h : JoinOf sourceKey lookupKey selected lookupRows start sourceRows e)
    (hnodup : (lookupRows.map (columnCell lookupKey)).Nodup) :
    ((lookupIndex lookupKey lookupRows).length : ℤ) - e.used.length =
      lookupRows.countP fun reference => ¬IsUsed sourceKey lookupKey sourceRows reference := by
  have hperm : (LinkedMap.keys e.used).Perm
      ((lookupRows.filter (IsUsed sourceKey lookupKey sourceRows)).map (columnCell lookupKey)) := by
    rw [List.perm_ext_iff_of_nodup h.nodup (hnodup.sublist (List.filter_sublist.map _))]
    intro key
    rw [h.used, List.mem_map]
    constructor
    · rintro ⟨row, hrow, ⟨reference, hreference, hkey⟩, rfl⟩
      exact ⟨reference, List.mem_filter.mpr ⟨hreference, decide_eq_true ⟨row, hrow, hkey⟩⟩, hkey⟩
    · rintro ⟨reference, hreference, rfl⟩
      obtain ⟨hmem, hused⟩ := List.mem_filter.mp hreference
      obtain ⟨row, hrow, hkey⟩ := of_decide_eq_true hused
      exact ⟨row, hrow, ⟨reference, hmem, hkey⟩, hkey.symm⟩
  have hlength := hperm.length_eq
  rw [List.length_map, List.length_map, ← List.countP_eq_length_filter] at hlength
  have htotal := List.length_eq_countP_add_countP (p := IsUsed sourceKey lookupKey sourceRows)
    (l := lookupRows)
  rw [lookupIndex, List.length_map, hlength]
  simp only [decide_eq_true_eq] at htotal
  omega

/-- A row of the left join: a source row with the cells of the only lookup row with its key, or
with blanks when there is none. -/
inductive JoinedRow (sourceKey lookupKey : ℤ) (selected : List ℤ) (lookupRows : List (List String))
    (row : List String) : List String → Prop
  | found {reference : List String} (hmem : reference ∈ lookupRows)
    (hkey : columnCell lookupKey reference = columnCell sourceKey row)
    (honly : ∀ other ∈ lookupRows, columnCell lookupKey other = columnCell sourceKey row →
      other = reference) :
    JoinedRow sourceKey lookupKey selected lookupRows row
      (row ++ selected.map fun column => columnCell column reference)
  | blank (hnone : ∀ other ∈ lookupRows, columnCell lookupKey other ≠ columnCell sourceKey row) :
    JoinedRow sourceKey lookupKey selected lookupRows row (row ++ selected.map fun _ => "")

/-- Over distinct keys each row has its joined row. -/
theorem joinedRow_of_nodup {lookupRows : List (List String)}
    (hnodup : (lookupRows.map (columnCell lookupKey)).Nodup) (row : List String) :
    JoinedRow sourceKey lookupKey selected lookupRows row
      (joinedRow sourceKey lookupKey selected lookupRows row) := by
  rw [joinedRow]
  cases hreference : referenceOf sourceKey lookupKey lookupRows row with
  | some reference =>
    obtain ⟨hmem, hkey⟩ := of_referenceOf hreference
    exact .found hmem hkey fun other hother heq =>
      List.inj_on_of_nodup_map hnodup hother hmem (heq.trans hkey.symm)
  | none =>
    have hnone := referenceOf_eq_none_iff.mp hreference
    exact .blank fun other hother heq => hnone ⟨other, hother, heq⟩

end Join

/-! ## The candidate -/

/-- A cell of an accepted table fits. -/
theorem cellFits_columnCell {table : List (List String)} (h : CsvTable table) {row : List String}
    (hrow : row ∈ table) (column : ℤ) :
    utf16Length (columnCell column row) ≤ 16384 ∧ '\x00' ∉ (columnCell column row).toList := by
  rw [columnCell, List.getD_eq_getElem?_getD]
  cases hget : row[(column - 1).toNat]? with
  | none => exact ⟨by decide, by decide⟩
  | some cell => exact h.cells row hrow cell (List.mem_of_getElem? hget)

variable {source lookup : List (List String)}

/-- A joined row has the cells that the reader lets through. -/
theorem JoinedRow.cells (hsource : CsvTable source)
    (hlookup : CsvTable lookup) {sourceKey lookupKey : ℤ} {selected : List ℤ}
    {row joined : List String} (hrow : row ∈ source)
    (h : JoinedRow sourceKey lookupKey selected lookup.tail row joined) :
    ∀ cell ∈ joined, utf16Length cell ≤ 16384 ∧ '\x00' ∉ cell.toList := by
  intro cell hcell
  cases h with
  | found hmem =>
    rcases List.mem_append.mp hcell with hcell | hcell
    · exact hsource.cells row hrow cell hcell
    · obtain ⟨column, -, rfl⟩ := List.mem_map.mp hcell
      exact cellFits_columnCell hlookup (List.mem_of_mem_tail hmem) column
  | blank =>
    rcases List.mem_append.mp hcell with hcell | hcell
    · exact hsource.cells row hrow cell hcell
    · obtain ⟨column, -, rfl⟩ := List.mem_map.mp hcell
      exact ⟨by decide, by decide⟩

/-- A joined row is longer by the selected columns. -/
theorem JoinedRow.length {sourceKey lookupKey : ℤ} {selected : List ℤ}
    {lookupRows : List (List String)} {row joined : List String}
    (h : JoinedRow sourceKey lookupKey selected lookupRows row joined) :
    joined.length = row.length + selected.length := by
  cases h <;> rw [List.length_append, List.length_map]

/-- What is returned with the joined rows of two tables. -/
structure EnrichedExactly (source lookup : List (List String)) (sourceKey lookupKey : ℤ)
    (lookupColumns : List ℤ) (columnPrefix : String) (result : EnrichedCsv)
    (rows : List (List String)) : Prop where
  selected : result.selected = selectedColumns (lookup.headD []).length lookupKey lookupColumns
  csv : parseRetainedCsv result.csv = .ok ((source.headD [] ++ result.selected.map fun column =>
    columnPrefix ++ columnCell column (lookup.headD [])) :: rows)
  rows : List.Forall₂ (JoinedRow sourceKey lookupKey result.selected lookup.tail) source.tail rows
  nodup : (lookup.tail.map (columnCell lookupKey)).Nodup
  matched : result.matched = source.tail.countP (IsMatched sourceKey lookupKey lookup.tail)
  unmatched : result.unmatched source =
    source.tail.countP fun row => ¬IsMatched sourceKey lookupKey lookup.tail row
  unused : result.unused =
    lookup.tail.countP fun reference => ¬IsUsed sourceKey lookupKey source.tail reference

/-- The steps of an enrichment that succeeds. -/
theorem steps_of_enrich {sourceKey lookupKey : ℤ}
    {lookupColumns : List ℤ} {columnPrefix : String} {result : EnrichedCsv}
    (h : enrichCsvRecords source lookup sourceKey lookupKey lookupColumns columnPrefix =
      .ok result) :
    containsText columnPrefix "\x00" = false ∧
      (source.headD []).length +
        (selectedColumns (lookup.headD []).length lookupKey lookupColumns).length ≤ 64 ∧
      ∃ headers index output joined,
        (selectedColumns (lookup.headD []).length lookupKey lookupColumns).foldlM
          (enrichHeader (lookup.headD []) columnPrefix) (source.headD [], []) = .ok headers ∧
        lookup.tail.foldlM (indexLookup lookupKey) [] = .ok index ∧
        CsvCandidate.empty.write enrichmentTooLarge headers.1 = .ok output ∧
        source.tail.foldlM (Enrichment.add sourceKey
          (selectedColumns (lookup.headD []).length lookupKey lookupColumns) index)
          ⟨output, 0, []⟩ = .ok joined ∧
        result = ⟨joined.output.text,
          selectedColumns (lookup.headD []).length lookupKey lookupColumns, joined.matched,
          (index.length : ℤ) - joined.used.length⟩ := by
  rw [enrichCsvRecords] at h
  split at h
  · cases h
  · split at h
    · cases h
    · rename_i hnames
      rw [not_not] at hnames
      split at h
      · cases h
      · rename_i hselected
        rw [not_not] at hselected
        refine ⟨hnames.2, hselected.2, ?_⟩
        simp only [bind, Except.bind] at h
        split at h
        · cases h
        · rename_i headers hheaders
          split at h
          · cases h
          · rename_i index hindex
            split at h
            · cases h
            · rename_i output houtput
              split at h
              · cases h
              · rename_i joined hjoined
                exact ⟨headers, index, output, joined, hheaders, hindex, houtput, hjoined,
                  (Except.ok.inj h).symm⟩

/-- The joined table is within the limits of the reader. -/
theorem csvTable_joined (hsource : CsvTable source)
    (hlookup : CsvTable lookup) {columnPrefix : String}
    (hnames : containsText columnPrefix "\x00" = false) {sourceKey lookupKey : ℤ}
    {selected : List ℤ} (hwidth : (source.headD []).length + selected.length ≤ 64)
    {headers : List String × List ℤ}
    (hheaders : HeadersOf (lookup.headD []) columnPrefix (source.headD []) selected headers)
    (hnodup : (lookup.tail.map (columnCell lookupKey)).Nodup) :
    CsvTable (headers.1 ::
      source.tail.map (joinedRow sourceKey lookupKey selected lookup.tail)) := by
  obtain ⟨header, rows, rfl⟩ := List.exists_cons_of_ne_nil hsource.nonempty
  obtain ⟨lookupHeader, lookupRows, rfl⟩ := List.exists_cons_of_ne_nil hlookup.nonempty
  obtain ⟨width, hpos, -, hrows⟩ := hsource.width
  simp only [List.headD_cons, List.tail_cons] at hwidth hheaders hnodup ⊢
  have hheader : headers.1.length = header.length + selected.length := by
    rw [hheaders.texts, List.length_append, List.length_map]
  have hrow : ∀ row ∈ rows, JoinedRow sourceKey lookupKey selected lookupRows row
      (joinedRow sourceKey lookupKey selected lookupRows row) := fun row _ =>
    joinedRow_of_nodup hnodup row
  constructor
  · exact List.cons_ne_nil _ _
  · have hrecords := hsource.records
    rwa [List.length_cons, List.length_map, ← List.length_cons]
  · have hwidthEq := hrows header List.mem_cons_self
    refine ⟨width + selected.length, by omega, by omega, fun row hmem => ?_⟩
    rcases List.mem_cons.mp hmem with rfl | hmem
    · rw [hheader, hwidthEq]
    · obtain ⟨sourceRow, hsourceRow, rfl⟩ := List.mem_map.mp hmem
      rw [(hrow sourceRow hsourceRow).length, hrows sourceRow (List.mem_cons_of_mem _ hsourceRow)]
  · intro row hmem cell hcell
    rcases List.mem_cons.mp hmem with rfl | hmem
    · rw [hheaders.texts] at hcell
      rcases List.mem_append.mp hcell with hcell | hcell
      · exact hsource.cells header List.mem_cons_self cell hcell
      · obtain ⟨column, hcolumn, rfl⟩ := List.mem_map.mp hcell
        refine ⟨(hheaders.columns column hcolumn).2, ?_⟩
        rw [String.toList_append, List.mem_append, not_or]
        refine ⟨?_, (cellFits_columnCell hlookup List.mem_cons_self column).2⟩
        rw [← Sandbox.containsText_nul_iff, hnames]
        nofun
    · obtain ⟨sourceRow, hsourceRow, rfl⟩ := List.mem_map.mp hmem
      exact (hrow sourceRow hsourceRow).cells hsource hlookup
        (List.mem_cons_of_mem _ hsourceRow) cell hcell

/-- The enrichment of a table is its exact left join with the lookup table. -/
theorem csv_enrichment_exact {sourceText lookupText : String} {source lookup : List (List String)}
    (hsource : parseRetainedCsv sourceText = .ok source)
    (hlookup : parseRetainedCsv lookupText = .ok lookup) {sourceKey lookupKey : ℤ}
    {lookupColumns : List ℤ} {columnPrefix : String} {result : EnrichedCsv}
    (h : enrichCsvRecords source lookup sourceKey lookupKey lookupColumns columnPrefix =
      .ok result) :
    ∃ rows, EnrichedExactly source lookup sourceKey lookupKey lookupColumns columnPrefix
      result rows := by
  obtain ⟨hnames, hwidth, headers, index, output, joined, hheaders, hindex, houtput, hjoined,
    rfl⟩ := steps_of_enrich h
  have hheadersOf := headersOf_of_foldlM hheaders
  obtain ⟨rfl, hnodup, -⟩ := indexOf_of_foldlM hindex
  have hjoin := joinOf_of_foldlM hjoined
  have hwrite : (headers.1 :: source.tail.map (joinedRow sourceKey lookupKey
      (selectedColumns (lookup.headD []).length lookupKey lookupColumns) lookup.tail)).foldlM
      (CsvCandidate.write enrichmentTooLarge) .empty = .ok joined.output := by
    rw [List.foldlM_cons, houtput]
    exact hjoin.output
  have htable : CsvTable (headers.1 :: source.tail.map (joinedRow sourceKey lookupKey
      (selectedColumns (lookup.headD []).length lookupKey lookupColumns) lookup.tail)) :=
    csvTable_joined (csvTable_of_parse hsource) (csvTable_of_parse hlookup) hnames hwidth
      hheadersOf hnodup
  refine ⟨source.tail.map (joinedRow sourceKey lookupKey
    (selectedColumns (lookup.headD []).length lookupKey lookupColumns) lookup.tail),
    rfl, ?_, ?_, hnodup, hjoin.matched, ?_, hjoin.unused hnodup⟩
  · rw [← hheadersOf.texts, ← parseRetainedCsv_csvText htable]
    exact congrArg parseRetainedCsv (text_of_write hwrite)
  · rw [List.forall₂_map_right_iff, List.forall₂_same]
    exact fun row _ => joinedRow_of_nodup hnodup row
  · have htotal := List.length_eq_countP_add_countP
      (p := IsMatched sourceKey lookupKey lookup.tail) (l := source.tail)
    have hlength : source.tail.length + 1 = source.length := by
      rw [List.length_tail]
      have hpos := List.length_pos_iff.mpr (csvTable_of_parse hsource).nonempty
      omega
    rw [EnrichedCsv.unmatched]
    simp only [decide_eq_true_eq] at htotal ⊢
    rw [hjoin.matched]
    omega

/-- Source rows with a repeated key and one without a lookup row. -/
def sampleOrders : List (List String) := [["id", "n"], ["a", "1"], ["b", "2"], ["a", "3"]]

/-- Lookup rows of which one is not used. -/
def sampleNames : List (List String) := [["id", "name"], ["a", "Ann"], ["c", "Cy"]]

/-- Three orders, two of them with a name, and a name without an order. -/
theorem csv_enrichment_exact_sample :
    ∃ result, enrichCsvRecords sampleOrders sampleNames 1 1 [] "lookup_" = .ok result ∧
      result.matched = 2 ∧ result.unused = 1 ∧
      ∃ rows, EnrichedExactly sampleOrders sampleNames 1 1 [] "lookup_" result rows := by
  have hsource : parseRetainedCsv (csvText sampleOrders) = .ok sampleOrders :=
    parseRetainedCsv_csvText
      ⟨by decide, by decide, ⟨2, by decide, by decide, by decide⟩, by decide⟩
  have hlookup : parseRetainedCsv (csvText sampleNames) = .ok sampleNames :=
    parseRetainedCsv_csvText
      ⟨by decide, by decide, ⟨2, by decide, by decide, by decide⟩, by decide⟩
  have h : enrichCsvRecords sampleOrders sampleNames 1 1 [] "lookup_" = .ok
      ⟨csvText [["id", "n", "lookup_name"], ["a", "1", "Ann"], ["b", "2", ""], ["a", "3", "Ann"]],
        [2], 2, 1⟩ := by rfl
  exact ⟨_, h, rfl, rfl, csv_enrichment_exact hsource hlookup h⟩

end Moonfort.Executor
