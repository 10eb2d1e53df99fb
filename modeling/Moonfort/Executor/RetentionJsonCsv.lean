import Moonfort.Executor.CsvCandidate
import Moonfort.Executor.RetentionJsonDraft
import Moonfort.Executor.RetentionJsonPointer

/-!
# JSON rows as a table

The projection of JSON rows to a table with one column for each pointer. The record of a row
starts with the place that the row comes from, and the records are in the order of the rows.
-/

namespace Moonfort.Executor

open JsonGrammar MoonBit

variable {ν : Type}

/-! ## The projection -/

/-- `RetentionJsonColumn`. -/
structure RetentionJsonColumn where
  header : String
  pointer : String
  deriving DecidableEq

/-- What a row has for a column. -/
inductive JsonCell where
  | missing
  | null
  | text (value : String)
  deriving DecidableEq

/-- The text of a cell. -/
def JsonCell.value : JsonCell → String
  | .text value => value
  | _ => ""

/-- The cell of a row under the tokens of a pointer. -/
def jsonTableCell (lib : StandardJson String ν) (row : JsonTree String (ExactNumber ν))
    (path : List String) : Except String JsonCell :=
  match retainedJsonCellAt row path with
  | .error message => .error message
  | .ok none => .ok .missing
  | .ok (some .null) => .ok .null
  | .ok (some (.string value)) => .ok (.text value)
  | .ok (some (.number number)) => .ok (.text (lib.spelling number))
  | .ok (some (.bool value)) => .ok (.text (if value then "true" else "false"))
  | .ok (some _) => .error "JSON table cell selects a container; select a scalar field"

/-- The places of the rows: `source_paths` and `source_lines`. -/
inductive JsonSources where
  | none
  | lines (lines : List ℕ)
  | files (paths : List String) (lines : List ℕ)

/-- The cells in front of the columns. -/
def JsonSources.header : JsonSources → List String
  | .none => []
  | .lines _ => ["__source_line"]
  | .files _ _ => ["__source_path", "__source_line"]

/-- The cells in front of the columns of a row. -/
def JsonSources.cells (row : ℕ) : JsonSources → List String
  | .none => []
  | .lines numbers => [intText (numbers.getD row 0)]
  | .files paths numbers => [paths.getD row "", intText (numbers.getD row 0)]

/-- The place of a row in a message. -/
def JsonSources.location (row : ℕ) : JsonSources → String
  | .none => "JSON table row " ++ intText (row + 1 : ℕ)
  | .lines numbers => "JSONL source line " ++ intText (numbers.getD row 0)
  | .files paths numbers =>
    "JSONL file " ++ String.ofList (quotedChars (paths.getD row "")) ++ " source line " ++
      intText (numbers.getD row 0)

/-- There are as many lines as rows. -/
def JsonSources.linesMatch (rows : ℕ) : JsonSources → Bool
  | .none => true
  | .lines numbers => numbers.length == rows
  | .files _ numbers => numbers.length == rows

/-- There are as many paths as rows. -/
def JsonSources.pathsMatch (rows : ℕ) : JsonSources → Bool
  | .files paths _ => paths.length == rows
  | _ => true

/-- A column of a row. -/
def jsonColumn (lib : StandardJson String ν) (describe : String → String) (location : String)
    (row : JsonTree String (ExactNumber ν)) (column : List String × ℕ) : Except String JsonCell :=
  match jsonTableCell lib row column.1 with
  | .error message =>
    .error (location ++ " column " ++ intText (column.2 + 1 : ℕ) ++ ": " ++ describe message)
  | .ok cell =>
    if 16384 < utf16Length cell.value ∨ containsText cell.value "\x00" = true then
      .error "JSON table cell exceeds 16384 UTF-16 units or contains NUL"
    else .ok cell

/-- The variables of the loop over the rows. -/
structure JsonTableState where
  output : CsvCandidate
  missing : ℕ
  nulls : ℕ

/-- The refusal of a candidate that is too large. -/
def jsonTableTooLarge : String := "JSON table candidate exceeds 1 MiB"

/-- The body of the loop over the rows. -/
def JsonTableState.step (lib : StandardJson String ν) (describe : String → String)
    (sources : JsonSources) (tokens : List (List String)) (s : JsonTableState)
    (row : JsonTree String (ExactNumber ν) × ℕ) : Except String JsonTableState := do
  let cells ← tokens.zipIdx.mapM (jsonColumn lib describe (sources.location row.2) row.1)
  let output ← s.output.write jsonTableTooLarge (sources.cells row.2 ++ cells.map JsonCell.value)
  .ok ⟨output, s.missing + cells.count .missing, s.nulls + cells.count .null⟩

/-- The results of `retained_json_csv`. -/
structure JsonTable where
  csv : String
  rows : ℕ
  missing : ℕ
  nulls : ℕ

/-- `retained_json_csv` behind the selection of the rows. -/
def retainedJsonCsv (lib : StandardJson String ν) (describe : String → String)
    (rows : List (JsonTree String (ExactNumber ν))) (columns : List RetentionJsonColumn)
    (sources : JsonSources) : Except String JsonTable :=
  if sources.linesMatch rows.length = false then
    .error "JSON table source line count must match rows"
  else if sources.pathsMatch rows.length = false then
    .error "JSON table source paths require matching source lines and rows"
  else do
    let tokens ← columns.mapM fun column => retainedEditTokens column.pointer
    let output ← CsvCandidate.empty.write jsonTableTooLarge
      (sources.header ++ columns.map RetentionJsonColumn.header)
    let s ← rows.zipIdx.foldlM (JsonTableState.step lib describe sources tokens) ⟨output, 0, 0⟩
    .ok ⟨s.output.text, rows.length, s.missing, s.nulls⟩

/-! ## What is written -/

/-- The records of the rows, in their order. -/
def JsonRecords (lib : StandardJson String ν) (describe : String → String) (sources : JsonSources)
    (tokens : List (List String)) (rows : List (JsonTree String (ExactNumber ν)))
    (records : List (List String)) : Prop :=
  records.length = rows.length ∧ ∀ (k : ℕ) (row : JsonTree String (ExactNumber ν)),
    rows[k]? = some row → ∃ cells,
      tokens.zipIdx.mapM (jsonColumn lib describe (sources.location k) row) = .ok cells ∧
        records[k]? = some (sources.cells k ++ cells.map JsonCell.value)

/-- The table has the record of each row, in the order of the rows. -/
theorem csv_of_retainedJsonCsv {lib : StandardJson String ν} {describe : String → String}
    {rows : List (JsonTree String (ExactNumber ν))} {columns : List RetentionJsonColumn}
    {sources : JsonSources} {table : JsonTable}
    (h : retainedJsonCsv lib describe rows columns sources = .ok table) :
    ∃ tokens records, columns.mapM (fun column => retainedEditTokens column.pointer) = .ok tokens ∧
      JsonRecords lib describe sources tokens rows records ∧ table.rows = rows.length ∧
      table.csv = csvText ((sources.header ++ columns.map RetentionJsonColumn.header) ::
        records) := by
  rw [retainedJsonCsv, Loop.guard_eq_ok_iff, Loop.guard_eq_ok_iff] at h
  obtain ⟨tokens, htokens, h⟩ := Loop.bind_eq_ok_iff.mp h.2.2
  obtain ⟨output, houtput, h⟩ := Loop.bind_eq_ok_iff.mp h
  obtain ⟨s, hloop, htable⟩ := Loop.bind_eq_ok_iff.mp h
  have hempty : CsvCandidate.empty = .ofText "" := rfl
  have hout : output = .ofText (csvText [sources.header ++
      columns.map RetentionJsonColumn.header]) := by
    rw [hempty, write_ofText, String.empty_append] at houtput
    split at houtput
    · rw [csvText_singleton, Except.ok.inj houtput]
    · cases houtput
  have hloop' := Loop.holds_of_foldlM_zipIdx (fun before (s : JsonTableState) =>
    ∃ records, JsonRecords lib describe sources tokens before records ∧
      s.output = .ofText (csvText ((sources.header ++ columns.map RetentionJsonColumn.header) ::
        records))) ⟨[], ⟨rfl, fun k row hk => nomatch hk⟩, hout⟩ ?_ hloop
  · obtain ⟨records, hrecords, htext⟩ := hloop'
    rw [Except.ok.injEq] at htable
    subst htable
    exact ⟨tokens, records, htokens, hrecords, rfl, congrArg CsvCandidate.text htext⟩
  · rintro before row s next ⟨records, hrecords, htext⟩ hround
    obtain ⟨cells, hcells, hround⟩ := Loop.bind_eq_ok_iff.mp hround
    obtain ⟨written, hwritten, hnext⟩ := Loop.bind_eq_ok_iff.mp hround
    rw [Except.ok.injEq] at hnext
    subst hnext
    refine ⟨records ++ [sources.cells before.length ++ cells.map JsonCell.value], ⟨?_, ?_⟩, ?_⟩
    · rw [List.length_append, List.length_append, hrecords.1]
      rfl
    · intro k found hk
      by_cases hlast : k = before.length
      · subst hlast
        rw [List.getElem?_concat_length, Option.some.injEq] at hk
        subst hk
        refine ⟨cells, hcells, ?_⟩
        rw [← hrecords.1, List.getElem?_concat_length]
      · have hlt := (List.getElem?_eq_some_iff.mp hk).1
        rw [List.length_append, List.length_singleton] at hlt
        rw [List.getElem?_append_left (by omega)] at hk
        obtain ⟨found', hfound, hrecord⟩ := hrecords.2 k found hk
        have hlength := hrecords.1
        exact ⟨found', hfound, by rw [List.getElem?_append_left (by omega), hrecord]⟩
    · rw [htext, write_ofText] at hwritten
      split at hwritten
      · rw [← Except.ok.inj hwritten, ← List.cons_append, csvText_append, csvText_singleton]
      · cases hwritten

end Moonfort.Executor
