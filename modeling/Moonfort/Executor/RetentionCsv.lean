import Moonfort.Executor.RetentionBrowser
import Moonfort.Sandbox.CanonicalPath

/-!
# Retained CSV

The reader of comma-separated artifacts, one character at a time, and the two
encoders of records. What the reader accepts is a table within its limits, and a table
within the limits is read back from the records that the encoders write.
-/

namespace Moonfort.Executor

open MoonBit Sandbox

/-! ## The reader -/

/-- `RetainedCsvState`. -/
inductive RetainedCsvState where
  | unquoted
  | quoted
  | closedQuote
  deriving DecidableEq

/-- The variables of `parse_retained_csv`. -/
structure CsvReader where
  records : List (List String)
  fields : List String
  cell : List Char
  cellUnits : ℕ
  state : RetainedCsvState
  skipLf : Bool
  dirty : Bool
  deriving DecidableEq

namespace CsvReader

/-- The reader before the first character. -/
def start : CsvReader := ⟨[], [], [], 0, .unquoted, false, false⟩

/-- `cell.write_char(character)`, with the UTF-16 units that it takes. -/
def write (r : CsvReader) (c : Char) : CsvReader :=
  { r with cell := r.cell ++ [c], cellUnits := r.cellUnits + (if 65535 < c.toNat then 2 else 1) }

/-- The fields of the open record with the open cell. -/
def pushed (r : CsvReader) : List String := r.fields ++ [String.ofList r.cell]

/-- A record has another number of columns than the first one. -/
def columnsDiffer (records : List (List String)) (fields : List String) : Bool :=
  match records with
  | [] => false
  | first :: _ => fields.length != first.length

/-- The end of a cell: a comma, a line feed or a carriage return. -/
def endCell (r : CsvReader) (c : Char) : Except String CsvReader :=
  if ¬ r.pushed.length ≤ 64 then .error "CSV exceeds 64 columns"
  else if c = ',' then
    .ok { r with fields := r.pushed, cell := [], cellUnits := 0, state := .unquoted, dirty := true }
  else if columnsDiffer r.records r.pushed then
    .error "CSV records have different column counts"
  else if ¬ r.records.length + 1 ≤ 20001 then .error "CSV exceeds 20000 data rows"
  else
    .ok
      { records := r.records ++ [r.pushed]
        fields := []
        cell := []
        cellUnits := 0
        state := .unquoted
        skipLf := c == '\r'
        dirty := false }

/-- The body of the loop after the line feed of a `\r\n` is skipped. -/
def readCharacter (r : CsvReader) (c : Char) : Except String CsvReader :=
  if r.state = .quoted then
    if c = '"' then .ok { r with state := .closedQuote } else .ok (r.write c)
  else if c = ',' ∨ c = '\n' ∨ c = '\r' then r.endCell c
  else if c = '"' then
    if r.state = .closedQuote then
      .ok { r with
        cell := r.cell ++ ['"']
        cellUnits := r.cellUnits + 1
        state := .quoted
        dirty := true }
    else if r.cellUnits ≠ 0 then .error "quote inside unquoted CSV field"
    else .ok { r with state := .quoted, dirty := true }
  else if r.state ≠ .unquoted then .error "text after closing CSV quote"
  else .ok { r.write c with dirty := true }

/-- The check that ends the body of the loop. -/
def bounded (r : CsvReader) : Except String CsvReader :=
  if r.cellUnits ≤ 16384 then .ok r else .error "CSV field exceeds 16384 UTF-16 units"

/-- The body of the loop. -/
def read (r : CsvReader) (c : Char) : Except String CsvReader :=
  if r.skipLf = true ∧ c = '\n' then .ok { r with skipLf := false }
  else (readCharacter { r with skipLf := false } c).bind bounded

/-- What `parse_retained_csv` does at the end of the text. -/
def finish (r : CsvReader) : Except String (List (List String)) :=
  if r.state = .quoted then .error "unterminated CSV quote"
  else if r.dirty = true ∧ ¬ r.pushed.length ≤ 64 then .error "CSV exceeds 64 columns"
  else if r.dirty = true ∧ columnsDiffer r.records r.pushed = true then
    .error "CSV records have different column counts"
  else
    let records := if r.dirty then r.records ++ [r.pushed] else r.records
    if records ≠ [] ∧ records.length ≤ 20001 then .ok records
    else .error "CSV requires a header and at most 20000 data rows"

end CsvReader

/-- `text.strip_prefix("\u{feff}").unwrap_or(text[:])`. -/
def stripByteOrderMark : List Char → List Char
  | [] => []
  | c :: rest => if c = '\uFEFF' then rest else c :: rest

/-- `parse_retained_csv`. -/
def parseRetainedCsv (text : String) : Except String (List (List String)) :=
  if containsText text "\x00" then .error "CSV contains NUL"
  else
    ((stripByteOrderMark text.toList).foldlM CsvReader.read CsvReader.start).bind CsvReader.finish

/-! ## The encoders -/

/-- `cell.replace_all(old="\"", new="\"\"")`. -/
def doubleQuotes (cell : List Char) : List Char :=
  cell.flatMap fun c => if c = '"' then ['"', '"'] else [c]

/-- A cell between quotes. -/
def quotedCell (cell : String) : String :=
  "\"" ++ String.ofList (doubleQuotes cell.toList) ++ "\""

/-- `enriched_csv_record`. -/
def enrichedCsvRecord (cells : List String) : String :=
  ",".intercalate (cells.map quotedCell) ++ "\r\n"

/-- The text of a table, record by record. -/
def csvText (table : List (List String)) : String := String.join (table.map enrichedCsvRecord)

/-- `RetentionCsvRow`. -/
structure RetentionCsvRow where
  row : ℤ
  cells : List String
  deriving DecidableEq

/-- `RetentionCsvPage`. -/
structure RetentionCsvPage where
  binding : RetentionArtifactBinding
  file : ScratchEntry
  columns : List ℤ
  headers : List String
  whereColumn : ℤ
  equals : String
  totalRows : ℤ
  matchingRows : ℤ
  rows : List RetentionCsvRow
  nextAfterRow : ℤ
  hasMore : Bool

/-- The loop of `write_record`, from the index of the next cell. -/
def writeCells (index : ℕ) : List String → String
  | [] => ""
  | cell :: rest =>
    (if 0 < index then "," else "") ++ "\"" ++ String.ofList (doubleQuotes cell.toList) ++ "\"" ++
      writeCells (index + 1) rest

/-- `write_record` of `RetentionCsvPage::to_csv`. -/
def writeRecord (cells : List String) : String := writeCells 0 cells ++ "\r\n"

/-- `RetentionCsvPage::to_csv`. -/
def RetentionCsvPage.toCsv (page : RetentionCsvPage) : String :=
  writeRecord page.headers ++ String.join (page.rows.map fun row => writeRecord row.cells)

/-! ## Tables -/

/-- A table that the reader may accept. -/
structure CsvTable (table : List (List String)) : Prop where
  nonempty : table ≠ []
  records : table.length ≤ 20001
  width : ∃ width, 1 ≤ width ∧ width ≤ 64 ∧ ∀ row ∈ table, row.length = width
  cells : ∀ row ∈ table, ∀ cell ∈ row, utf16Length cell ≤ 16384 ∧ '\x00' ∉ cell.toList

/-! ## What the reader makes of a record -/

/-- The code units of a character. -/
theorem charUnits_eq (c : Char) :
    (if 65535 < c.toNat then 2 else 1) = if c.toNat < 0x10000 then 1 else 2 := by
  split <;> split <;> omega

/-- The records that the encoders write, character by character. -/
def recordChars : List String → List Char
  | [] => ['\r', '\n']
  | [cell] => '"' :: doubleQuotes cell.toList ++ ['"', '\r', '\n']
  | cell :: next :: rest =>
    '"' :: doubleQuotes cell.toList ++ '"' :: ',' :: recordChars (next :: rest)

/-- The characters of a written record. -/
theorem toList_enrichedCsvRecord (cells : List String) :
    (enrichedCsvRecord cells).toList = recordChars cells := by
  have hcell : ∀ cell : String,
      (quotedCell cell).toList = '"' :: doubleQuotes cell.toList ++ ['"'] := by
    intro cell
    rw [quotedCell, String.toList_append, String.toList_append]
    simp
  have hend : "\r\n".toList = ['\r', '\n'] := rfl
  rw [enrichedCsvRecord, String.toList_append, hend]
  induction cells with
  | nil => rfl
  | cons cell rest ih =>
    cases rest with
    | nil =>
      rw [List.map_singleton, String.intercalate_singleton, hcell, recordChars, List.append_assoc]
      rfl
    | cons next rest =>
      rw [List.map_cons] at ih
      rw [List.map_cons, List.map_cons, String.intercalate_cons_cons, String.toList_append,
        String.toList_append, List.append_assoc, ih, hcell, recordChars]
      have hcomma : ",".toList = [','] := rfl
      rw [hcomma, List.append_assoc, List.append_assoc]
      rfl

/-- A table is written record by record. -/
theorem toList_csvText (table : List (List String)) :
    (csvText table).toList = table.flatMap recordChars := by
  rw [csvText, String.toList_join, List.flatMap_map]
  exact List.flatMap_congr fun row _ => toList_enrichedCsvRecord row

/-- Behind a first cell the others are written with commas between them. -/
theorem writeCells_succ (index : ℕ) (cell : String) (rest : List String) :
    quotedCell cell ++ writeCells (index + 1) rest =
      ",".intercalate ((cell :: rest).map quotedCell) := by
  induction rest generalizing index cell with
  | nil =>
    rw [writeCells, String.append_empty, List.map_singleton, String.intercalate_singleton]
  | cons next rest ih =>
    have hnext : writeCells (index + 1) (next :: rest) =
        "," ++ (quotedCell next ++ writeCells (index + 2) rest) := by
      rw [writeCells, if_pos (Nat.succ_pos index), quotedCell]
      simp only [String.append_assoc]
    rw [hnext, ih, List.map_cons, List.map_cons, List.map_cons, String.intercalate_cons_cons]
    simp only [String.append_assoc]

/-- Both encoders write the same record. -/
theorem writeRecord_eq (cells : List String) : writeRecord cells = enrichedCsvRecord cells := by
  rw [writeRecord, enrichedCsvRecord]
  cases cells with
  | nil => rfl
  | cons cell rest =>
    rw [← writeCells_succ 0, writeCells, quotedCell, if_neg (lt_irrefl 0)]
    simp only [String.append_assoc, String.empty_append]

/-- A page is written as the table of its headers and rows. -/
theorem RetentionCsvPage.toCsv_eq (page : RetentionCsvPage) :
    page.toCsv = csvText (page.headers :: page.rows.map (·.cells)) := by
  have hrows : page.rows.map (fun row => writeRecord row.cells) =
      (page.rows.map (·.cells)).map enrichedCsvRecord := by
    rw [List.map_map]
    exact List.map_congr_left fun row _ => writeRecord_eq row.cells
  rw [toCsv, hrows, writeRecord_eq, csvText, List.map_cons, String.join_cons]

variable {r : CsvReader}

namespace CsvReader

/-- The width of characters in UTF-16 units. -/
def unitsOf (chars : List Char) : ℕ := (chars.map fun c => if 65535 < c.toNat then 2 else 1).sum

/-- The code units of a cell are those of its characters. -/
theorem unitsOf_toList (cell : String) : unitsOf cell.toList = utf16Length cell := by
  rw [unitsOf, utf16Length]
  congr 1
  exact List.map_congr_left fun c _ => charUnits_eq c

/-- The code units of two lists add up. -/
theorem unitsOf_append (a b : List Char) : unitsOf (a ++ b) = unitsOf a + unitsOf b := by
  rw [unitsOf, List.map_append, List.sum_append]
  rfl

/-- A character other than a quote joins a quoted cell. -/
theorem read_quoted {c : Char} (hstate : r.state = .quoted)
    (hskip : r.skipLf = false) (hc : c ≠ '"')
    (hunits : r.cellUnits + (if 65535 < c.toNat then 2 else 1) ≤ 16384) :
    r.read c = .ok (r.write c) := by
  have hno : ¬ (r.skipLf = true ∧ c = '\n') := by
    rw [hskip]
    exact fun h => Bool.noConfusion h.1
  have hsame : { r with skipLf := false } = r := by
    cases r
    simp only at hskip
    rw [hskip]
  rw [read, if_neg hno, hsame, readCharacter, if_pos hstate, if_neg hc, Except.bind, bounded,
    write, if_pos hunits]

/-- A quote in a quoted cell closes it. -/
theorem read_close (hstate : r.state = .quoted) (hskip : r.skipLf = false)
    (hunits : r.cellUnits ≤ 16384) : r.read '"' = .ok { r with state := .closedQuote } := by
  cases r with
  | mk records fields cell cellUnits state skipLf dirty =>
    simp only at hstate hskip hunits
    subst hstate hskip
    simp [read, readCharacter, Except.bind, bounded, hunits]

/-- A quote after a quoted cell reopens it with a quote. -/
theorem read_reopen (hstate : r.state = .closedQuote) (hskip : r.skipLf = false)
    (hdirty : r.dirty = true) (hunits : r.cellUnits + 1 ≤ 16384) :
    r.read '"' = .ok { r.write '"' with state := .quoted } := by
  cases r with
  | mk records fields cell cellUnits state skipLf dirty =>
    simp only at hstate hskip hdirty hunits
    subst hstate hskip hdirty
    simp [read, readCharacter, Except.bind, bounded, hunits, write]

/-- The characters of a quoted cell are read back from its text. -/
theorem foldlM_doubleQuotes (r : CsvReader) (hstate : r.state = .quoted)
    (hskip : r.skipLf = false) (hdirty : r.dirty = true) (chars : List Char)
    (hunits : r.cellUnits + unitsOf chars ≤ 16384) :
    (doubleQuotes chars).foldlM read r =
      .ok { r with cell := r.cell ++ chars, cellUnits := r.cellUnits + unitsOf chars } := by
  induction chars generalizing r with
  | nil => simp [doubleQuotes, unitsOf, pure, Except.pure]
  | cons c rest ih =>
    have hsplit : unitsOf (c :: rest) = (if 65535 < c.toNat then 2 else 1) + unitsOf rest := by
      rw [unitsOf, List.map_cons, List.sum_cons]
      rfl
    have hrest := ih (r.write c) hstate hskip hdirty
    have hwrite : (r.write c).cellUnits = r.cellUnits + (if 65535 < c.toNat then 2 else 1) := rfl
    rw [hwrite] at hrest
    rw [hsplit] at hunits
    have hchars : (r.write c).cell ++ rest = r.cell ++ c :: rest := by simp [write]
    have hdone : (doubleQuotes rest).foldlM read (r.write c) =
        .ok { r with
          cell := r.cell ++ c :: rest
          cellUnits := r.cellUnits + unitsOf (c :: rest) } := by
      rw [hrest (by omega), hsplit, hchars, Nat.add_assoc]
      rfl
    by_cases hc : c = '"'
    · subst hc
      have hunit : (if 65535 < '"'.toNat then 2 else 1) = 1 := by decide
      rw [hunit] at hunits
      have hclose := read_close hstate hskip (by omega)
      have hroom : r.cellUnits + 1 ≤ 16384 := by omega
      have hreopen := read_reopen (r := { r with state := .closedQuote }) rfl hskip hdirty hroom
      have hsame : { ({ r with state := .closedQuote } : CsvReader).write '"' with
          state := .quoted } = r.write '"' := by
        rw [← hstate]
        rfl
      rw [doubleQuotes, List.flatMap_cons, if_pos rfl, List.cons_append, List.foldlM_cons, hclose]
      show (('"' :: doubleQuotes rest).foldlM read { r with state := .closedQuote }) = _
      rw [List.foldlM_cons, hreopen, hsame]
      exact hdone
    · have hread := read_quoted hstate hskip hc (by omega)
      rw [doubleQuotes, List.flatMap_cons, if_neg hc, List.cons_append, List.nil_append,
        List.foldlM_cons, hread]
      exact hdone

/-- The reader at the start of a cell. -/
def atCell (records : List (List String)) (fields : List String) (skipLf dirty : Bool) :
    CsvReader :=
  ⟨records, fields, [], 0, .unquoted, skipLf, dirty⟩

/-- The reader at the end of a quoted cell. -/
def afterCell (records : List (List String)) (fields : List String) (cell : String) : CsvReader :=
  ⟨records, fields, cell.toList, utf16Length cell, .closedQuote, false, true⟩

/-- A quoted cell is read up to its closing quote. -/
theorem foldlM_quotedCell (records : List (List String)) (fields : List String)
    (skipLf dirty : Bool) (cell : String) (hunits : utf16Length cell ≤ 16384) :
    ('"' :: doubleQuotes cell.toList ++ ['"']).foldlM read (atCell records fields skipLf dirty) =
      .ok (afterCell records fields cell) := by
  have hopen : (atCell records fields skipLf dirty).read '"' =
      .ok ⟨records, fields, [], 0, .quoted, false, true⟩ := by
    simp [read, atCell, readCharacter, Except.bind, bounded]
  rw [← unitsOf_toList] at hunits
  have hbody := foldlM_doubleQuotes ⟨records, fields, [], 0, .quoted, false, true⟩ rfl rfl rfl
    cell.toList (by simpa using hunits)
  rw [List.cons_append, List.foldlM_cons, hopen]
  show ((doubleQuotes cell.toList ++ ['"']).foldlM read _) = _
  rw [List.foldlM_append, hbody]
  show (['"'].foldlM read _) = _
  rw [List.foldlM_cons, read_close rfl rfl (by simpa using hunits)]
  simp [afterCell, ← unitsOf_toList, bind, Except.bind, pure, Except.pure]

/-- A comma after a quoted cell ends it. -/
theorem read_comma (records : List (List String)) (fields : List String) (cell : String)
    (hcolumns : fields.length + 1 ≤ 64) :
    (afterCell records fields cell).read ',' =
      .ok (atCell records (fields ++ [cell]) false true) := by
  have hfit : (afterCell records fields cell).pushed.length ≤ 64 := by
    simpa [afterCell, pushed] using hcolumns
  have hend : (afterCell records fields cell).endCell ',' =
      .ok (atCell records (fields ++ [cell]) false true) := by
    rw [endCell, if_neg (not_not.mpr hfit), if_pos rfl]
    simp [afterCell, atCell, pushed]
  have hread : readCharacter { afterCell records fields cell with skipLf := false } ',' =
      .ok (atCell records (fields ++ [cell]) false true) := hend
  rw [read, if_neg (by simp), hread]
  rfl

/-- The end of a line after a quoted cell ends its record. -/
theorem foldlM_lineEnd (records : List (List String)) (fields : List String) (cell : String)
    (hcolumns : fields.length + 1 ≤ 64) (hrecords : records.length + 1 ≤ 20001)
    (hwidth : ∀ first ∈ records.head?, fields.length + 1 = first.length) :
    ['\r', '\n'].foldlM read (afterCell records fields cell) =
      .ok (atCell (records ++ [fields ++ [cell]]) [] false false) := by
  have hsame : columnsDiffer records (fields ++ [cell]) = false := by
    cases records with
    | nil => rfl
    | cons first rest =>
      rw [columnsDiffer, List.length_append, List.length_singleton, hwidth first rfl,
        bne_self_eq_false]
  have hfit : (afterCell records fields cell).pushed.length ≤ 64 := by
    simpa [afterCell, pushed] using hcolumns
  have hpushed : (afterCell records fields cell).pushed = fields ++ [cell] := by
    simp [afterCell, pushed]
  have hend : (afterCell records fields cell).endCell '\r' =
      .ok { atCell (records ++ [fields ++ [cell]]) [] true false with skipLf := true } := by
    rw [endCell, if_neg (not_not.mpr hfit), if_neg (by decide), hpushed]
    rw [if_neg (by simp [afterCell, hsame]), if_neg (by simp [afterCell]; omega)]
    rfl
  have hread : (afterCell records fields cell).read '\r' =
      .ok { atCell (records ++ [fields ++ [cell]]) [] true false with skipLf := true } := by
    have hbody : readCharacter { afterCell records fields cell with skipLf := false } '\r' =
        (afterCell records fields cell).endCell '\r' := rfl
    rw [read, if_neg (by simp), hbody, hend]
    rfl
  rw [List.foldlM_cons, hread]
  rfl

/-- The text of a record is read back as the record. -/
theorem foldlM_recordChars (records : List (List String)) (fields : List String)
    (skipLf dirty : Bool) (cells : List String) (hcells : cells ≠ [])
    (hcolumns : fields.length + cells.length ≤ 64) (hrecords : records.length + 1 ≤ 20001)
    (hwidth : ∀ first ∈ records.head?, fields.length + cells.length = first.length)
    (hunits : ∀ cell ∈ cells, utf16Length cell ≤ 16384) :
    (recordChars cells).foldlM read (atCell records fields skipLf dirty) =
      .ok (atCell (records ++ [fields ++ cells]) [] false false) := by
  induction cells generalizing fields skipLf dirty with
  | nil => exact absurd rfl hcells
  | cons cell rest ih =>
    have hcell := foldlM_quotedCell records fields skipLf dirty cell
      (hunits cell (List.mem_cons_self ..))
    cases rest with
    | nil =>
      have hsplit : recordChars [cell] =
          ('"' :: doubleQuotes cell.toList ++ ['"']) ++ ['\r', '\n'] := by
        simp [recordChars]
      rw [hsplit, List.foldlM_append, hcell]
      exact foldlM_lineEnd records fields cell hcolumns hrecords hwidth
    | cons next rest =>
      have hsplit : recordChars (cell :: next :: rest) =
          ('"' :: doubleQuotes cell.toList ++ ['"']) ++ ',' :: recordChars (next :: rest) := by
        simp [recordChars]
      rw [List.length_cons] at hcolumns
      have hrest := ih (fields ++ [cell]) false true (List.cons_ne_nil _ _)
        (by rw [List.length_append, List.length_singleton]; omega)
        (by
          intro first hfirst
          rw [← hwidth first hfirst, List.length_append, List.length_singleton, List.length_cons,
            List.length_cons, List.length_cons]
          omega)
        (fun cell hmem => hunits cell (List.mem_cons_of_mem _ hmem))
      rw [hsplit, List.foldlM_append, hcell]
      have hcomma := read_comma records fields cell (by rw [List.length_cons] at hcolumns; omega)
      show (',' :: recordChars (next :: rest)).foldlM read _ = _
      rw [List.foldlM_cons, hcomma]
      rw [List.append_assoc] at hrest
      exact hrest

/-- The text of a table is read back as the table, behind the records before it. -/
theorem foldlM_table (records table : List (List String)) {width : ℕ} (hpos : 1 ≤ width)
    (hwide : width ≤ 64) (hbefore : ∀ row ∈ records, row.length = width)
    (hwidth : ∀ row ∈ table, row.length = width)
    (hcount : records.length + table.length ≤ 20001)
    (hunits : ∀ row ∈ table, ∀ cell ∈ row, utf16Length cell ≤ 16384) :
    (table.flatMap recordChars).foldlM read (atCell records [] false false) =
      .ok (atCell (records ++ table) [] false false) := by
  induction table generalizing records with
  | nil => simp [pure, Except.pure]
  | cons row rest ih =>
    have hrow := hwidth row (List.mem_cons_self ..)
    rw [List.length_cons] at hcount
    have hnonempty : row ≠ [] := by
      rintro rfl
      rw [List.length_nil] at hrow
      omega
    have hfirst := foldlM_recordChars records [] false false row hnonempty
      (by rw [List.length_nil]; omega) (by omega)
      (by
        intro first hfirst
        rw [hbefore first (List.mem_of_mem_head? hfirst), hrow, List.length_nil, Nat.zero_add])
      (hunits row (List.mem_cons_self ..))
    have hrest := ih (records ++ [row])
      (by
        intro other hother
        rcases List.mem_append.mp hother with hother | hother
        · exact hbefore other hother
        · rw [List.mem_singleton.mp hother, hrow])
      (fun other hother => hwidth other (List.mem_cons_of_mem _ hother))
      (by rw [List.length_append, List.length_singleton]; omega)
      (fun other hother => hunits other (List.mem_cons_of_mem _ hother))
    rw [List.flatMap_cons, List.foldlM_append, hfirst]
    rw [List.append_assoc] at hrest
    exact hrest

/-! ## What the reader accepts -/

/-- A cell that the reader lets through. -/
def CellFits (cell : String) : Prop := utf16Length cell ≤ 16384 ∧ '\x00' ∉ cell.toList

/-- What holds of the reader after every character of a text without NUL. -/
structure Bounded (r : CsvReader) : Prop where
  records : r.records.length ≤ 20001
  fields : r.fields.length ≤ 64
  units : unitsOf r.cell = r.cellUnits
  short : r.cellUnits ≤ 16384
  plain : '\x00' ∉ r.cell
  fits : ∀ cell ∈ r.fields, CellFits cell
  rows : ∀ row ∈ r.records, ∀ cell ∈ row, CellFits cell
  width : ∀ first ∈ r.records.head?, 1 ≤ first.length ∧ first.length ≤ 64 ∧
    ∀ row ∈ r.records, row.length = first.length

/-- A reader that starts is inside the bounds. -/
theorem bounded_start : Bounded start where
  records := by decide
  fields := by decide
  units := rfl
  short := by decide
  plain := List.not_mem_nil
  fits := fun _ h => absurd h List.not_mem_nil
  rows := fun _ h => absurd h List.not_mem_nil
  width := fun _ h => by cases h

/-- The open cell joins the fields of its record. -/
theorem Bounded.pushed (h : r.Bounded) : ∀ cell ∈ r.pushed, CellFits cell := by
  intro cell hcell
  rcases List.mem_append.mp hcell with hcell | hcell
  · exact h.fits cell hcell
  · rw [List.mem_singleton.mp hcell]
    constructor
    · rw [← unitsOf_toList, String.toList_ofList, h.units]
      exact h.short
    · rw [String.toList_ofList]
      exact h.plain

/-- A record that is as wide as the first one joins the table. -/
theorem Bounded.width_append (h : r.Bounded) (hcolumns : r.pushed.length ≤ 64)
    (hsame : columnsDiffer r.records r.pushed = false) :
    ∀ first ∈ (r.records ++ [r.pushed]).head?, 1 ≤ first.length ∧ first.length ≤ 64 ∧
      ∀ row ∈ r.records ++ [r.pushed], row.length = first.length := by
  have hpos : 1 ≤ r.pushed.length := by
    rw [CsvReader.pushed, List.length_append, List.length_singleton]
    omega
  cases hrecords : r.records with
  | nil =>
    rintro first ⟨⟩
    refine ⟨hpos, hcolumns, fun row hrow => ?_⟩
    rw [List.nil_append, List.mem_singleton] at hrow
    rw [hrow]
  | cons first rest =>
    rintro _ ⟨⟩
    obtain ⟨hfirst, hfirst', hall⟩ := h.width first (by rw [hrecords]; rfl)
    refine ⟨hfirst, hfirst', fun row hrow => ?_⟩
    rw [hrecords, columnsDiffer, bne_eq_false_iff_eq] at hsame
    rcases List.mem_append.mp hrow with hrow | hrow
    · exact hall row (hrecords ▸ hrow)
    · rw [List.mem_singleton.mp hrow, hsame]

/-- The end of a cell keeps the reader inside the bounds. -/
theorem Bounded.endCell {r r' : CsvReader} (h : r.Bounded) {c : Char}
    (hread : r.endCell c = .ok r') : r'.Bounded := by
  unfold CsvReader.endCell at hread
  split at hread
  next => cases hread
  next hcolumns =>
    rw [not_not] at hcolumns
    split at hread
    next =>
      cases hread
      exact ⟨h.records, hcolumns, rfl, Nat.zero_le _, List.not_mem_nil, h.pushed, h.rows, h.width⟩
    next =>
      split at hread
      next => cases hread
      next hsame =>
        split at hread
        next => cases hread
        next hcount =>
          cases hread
          rw [not_not] at hcount
          refine ⟨?_, Nat.zero_le _, rfl, Nat.zero_le _, List.not_mem_nil,
            fun _ hmem => absurd hmem List.not_mem_nil, ?_, ?_⟩
          · rw [List.length_append, List.length_singleton]
            exact hcount
          · intro row hrow
            rcases List.mem_append.mp hrow with hrow | hrow
            · exact h.rows row hrow
            · rw [List.mem_singleton.mp hrow]
              exact h.pushed
          · exact h.width_append hcolumns (Bool.eq_false_iff.mpr hsame)

/-- A character that is written joins the open cell. -/
theorem Bounded.write (h : r.Bounded) {c : Char} (hc : c ≠ '\x00')
    (hshort : (r.write c).cellUnits ≤ 16384) : (r.write c).Bounded where
  records := h.records
  fields := h.fields
  units := by
    show unitsOf (r.cell ++ [c]) = _
    rw [unitsOf_append, h.units]
    rfl
  short := hshort
  plain := by
    show '\x00' ∉ r.cell ++ [c]
    rw [List.mem_append, List.mem_singleton, not_or]
    exact ⟨h.plain, hc.symm⟩
  fits := h.fits
  rows := h.rows
  width := h.width

/-- A character that leaves the cell short keeps the reader inside the bounds. -/
theorem Bounded.readCharacter {r r' : CsvReader} (h : r.Bounded) {c : Char} (hc : c ≠ '\x00')
    (hread : r.readCharacter c = .ok r') (hshort : r'.cellUnits ≤ 16384) : r'.Bounded := by
  have hkeep : ∀ state dirty, ({ r with state := state, dirty := dirty } : CsvReader).Bounded :=
    fun _ _ => ⟨h.records, h.fields, h.units, h.short, h.plain, h.fits, h.rows, h.width⟩
  unfold CsvReader.readCharacter at hread
  split at hread
  next =>
    split at hread
    next =>
      cases hread
      exact hkeep _ _
    next =>
      cases hread
      exact h.write hc hshort
  next =>
    split at hread
    next => exact h.endCell hread
    next =>
      split at hread
      next hquote =>
        split at hread
        next =>
          cases hread
          have hwritten := h.write (c := '"') (by decide) hshort
          exact ⟨hwritten.records, hwritten.fields, hwritten.units, hwritten.short,
            hwritten.plain, hwritten.fits, hwritten.rows, hwritten.width⟩
        next =>
          split at hread
          next => cases hread
          next =>
            cases hread
            exact hkeep _ _
      next =>
        split at hread
        next => cases hread
        next =>
          cases hread
          have hwritten := h.write hc hshort
          exact ⟨hwritten.records, hwritten.fields, hwritten.units, hwritten.short,
            hwritten.plain, hwritten.fits, hwritten.rows, hwritten.width⟩

/-- One character keeps the reader within its limits. -/
theorem Bounded.read {r r' : CsvReader} (h : r.Bounded) {c : Char} (hc : c ≠ '\x00')
    (hread : r.read c = .ok r') : r'.Bounded := by
  have hskip : ({ r with skipLf := false } : CsvReader).Bounded :=
    ⟨h.records, h.fields, h.units, h.short, h.plain, h.fits, h.rows, h.width⟩
  unfold CsvReader.read at hread
  split at hread
  next =>
    cases hread
    exact hskip
  next =>
    cases hnext : CsvReader.readCharacter { r with skipLf := false } c with
    | error error =>
      rw [hnext] at hread
      cases hread
    | ok next =>
      rw [hnext, Except.bind, CsvReader.bounded] at hread
      split at hread
      next hshort =>
        cases hread
        exact hskip.readCharacter hc hnext hshort
      next => cases hread

/-- A whole text without NUL keeps the reader within its limits. -/
theorem Bounded.foldlM {chars : List Char} {r r' : CsvReader} (h : r.Bounded)
    (hchars : '\x00' ∉ chars) (hread : chars.foldlM CsvReader.read r = .ok r') : r'.Bounded := by
  induction chars generalizing r with
  | nil =>
    cases hread
    exact h
  | cons c rest ih =>
    rw [List.mem_cons, not_or] at hchars
    rw [List.foldlM_cons] at hread
    cases hnext : r.read c with
    | error error =>
      rw [hnext] at hread
      cases hread
    | ok next =>
      rw [hnext] at hread
      exact ih (h.read (Ne.symm hchars.1) hnext) hchars.2 hread

/-- What the reader makes of its last line is a table within the limits. -/
theorem Bounded.finish (h : r.Bounded) {table : List (List String)}
    (hfinish : r.finish = .ok table) : CsvTable table := by
  have htable : ∀ records : List (List String), records ≠ [] → records.length ≤ 20001 →
      (∀ row ∈ records, ∀ cell ∈ row, CellFits cell) →
      (∀ first ∈ records.head?, 1 ≤ first.length ∧ first.length ≤ 64 ∧
        ∀ row ∈ records, row.length = first.length) → CsvTable records := by
    intro records hnonempty hcount hrows hwidth
    obtain ⟨first, rest, rfl⟩ := List.exists_cons_of_ne_nil hnonempty
    obtain ⟨hpos, hwide, hall⟩ := hwidth first rfl
    exact ⟨hnonempty, hcount, ⟨first.length, hpos, hwide, hall⟩, hrows⟩
  unfold CsvReader.finish at hfinish
  split at hfinish
  next => cases hfinish
  next =>
    split at hfinish
    next => cases hfinish
    next hcolumns =>
      split at hfinish
      next => cases hfinish
      next hsame =>
        cases hdirty : r.dirty with
        | false =>
          simp only [hdirty, Bool.false_eq_true, if_false] at hfinish
          split at hfinish
          next hcount =>
            cases hfinish
            exact htable _ hcount.1 hcount.2 h.rows h.width
          next => cases hfinish
        | true =>
          simp only [hdirty, true_and, not_not, Bool.not_eq_true] at hcolumns hsame
          simp only [hdirty, if_true] at hfinish
          split at hfinish
          next hcount =>
            cases hfinish
            refine htable _ hcount.1 hcount.2 (fun row hrow => ?_)
              (h.width_append hcolumns hsame)
            rcases List.mem_append.mp hrow with hrow | hrow
            · exact h.rows row hrow
            · rw [List.mem_singleton.mp hrow]
              exact h.pushed
          next => cases hfinish

end CsvReader

/-- Cells without NUL are written without NUL. -/
theorem nul_notMem_recordChars {cells : List String}
    (h : ∀ cell ∈ cells, '\x00' ∉ cell.toList) : '\x00' ∉ recordChars cells := by
  have hdouble : ∀ chars : List Char, '\x00' ∉ chars → '\x00' ∉ doubleQuotes chars := by
    intro chars hchars hmem
    obtain ⟨c, hc, hmem⟩ := List.mem_flatMap.mp hmem
    split at hmem
    next => exact absurd hmem (by decide)
    next =>
      rw [List.mem_singleton] at hmem
      exact hchars (hmem ▸ hc)
  induction cells with
  | nil => decide
  | cons cell rest ih =>
    have hcell := hdouble _ (h cell (List.mem_cons_self ..))
    cases rest with
    | nil => simp [recordChars, hcell]
    | cons next rest =>
      have hrest := ih fun cell hmem => h cell (List.mem_cons_of_mem _ hmem)
      simp [recordChars, hcell, hrest]

/-- A record does not begin with a byte order mark. -/
theorem recordChars_head (cells : List String) :
    ∃ c tail, recordChars cells = c :: tail ∧ c ≠ '\uFEFF' := by
  match cells with
  | [] => exact ⟨_, _, rfl, by decide⟩
  | [cell] => exact ⟨_, _, rfl, by decide⟩
  | cell :: next :: rest => exact ⟨_, _, rfl, by decide⟩

/-- Every table that the reader accepts is within its limits. -/
theorem csvTable_of_parse {text : String} {table : List (List String)}
    (h : parseRetainedCsv text = .ok table) : CsvTable table := by
  unfold parseRetainedCsv at h
  split at h
  next => cases h
  next hnul =>
    rw [containsText_nul_iff] at hnul
    cases hread : (stripByteOrderMark text.toList).foldlM CsvReader.read CsvReader.start with
    | error error =>
      rw [hread] at h
      cases h
    | ok r =>
      rw [hread] at h
      have hplain : '\x00' ∉ stripByteOrderMark text.toList := by
        intro hmem
        apply hnul
        cases hchars : text.toList with
        | nil =>
          rw [hchars] at hmem
          exact hmem
        | cons c rest =>
          rw [hchars, stripByteOrderMark] at hmem
          split at hmem
          next => exact List.mem_cons_of_mem _ hmem
          next => exact hmem
      exact (CsvReader.bounded_start.foldlM hplain hread).finish h

/-- The text of a table within the limits is read back as the table. -/
theorem parseRetainedCsv_csvText {table : List (List String)} (h : CsvTable table) :
    parseRetainedCsv (csvText table) = .ok table := by
  obtain ⟨width, hpos, hwide, hwidth⟩ := h.width
  have hchars := toList_csvText table
  have hnul : ¬ containsText (csvText table) "\x00" = true := by
    rw [containsText_nul_iff, hchars, List.mem_flatMap]
    rintro ⟨row, hrow, hmem⟩
    exact nul_notMem_recordChars (fun cell hcell => (h.cells row hrow cell hcell).2) hmem
  have hmark : stripByteOrderMark (table.flatMap recordChars) = table.flatMap recordChars := by
    obtain ⟨row, rest, rfl⟩ := List.exists_cons_of_ne_nil h.nonempty
    obtain ⟨c, tail, hrow, hc⟩ := recordChars_head row
    rw [List.flatMap_cons, hrow, List.cons_append, stripByteOrderMark, if_neg hc]
  have hread := CsvReader.foldlM_table [] table hpos hwide
    (fun _ hmem => absurd hmem List.not_mem_nil) hwidth
    (by rw [List.length_nil, Nat.zero_add]; exact h.records)
    (fun row hrow cell hcell => (h.cells row hrow cell hcell).1)
  have hstart : CsvReader.start = CsvReader.atCell [] [] false false := rfl
  rw [parseRetainedCsv, if_neg hnul, hchars, hmark, hstart, hread, List.nil_append]
  simp [Except.bind, CsvReader.finish, CsvReader.atCell, h.nonempty, h.records]

/-- A table within the limits is read back from its text, and a page that holds the table
writes the same text. -/
theorem csv_round_trip (table : List (List String)) (h : CsvTable table) :
    parseRetainedCsv (csvText table) = .ok table ∧
      ∀ page : RetentionCsvPage, page.headers :: page.rows.map (·.cells) = table →
        page.toCsv = csvText table := by
  refine ⟨parseRetainedCsv_csvText h, fun page hpage => ?_⟩
  rw [page.toCsv_eq, hpage]

/-- A table with an empty cell, a quote, a comma and line ends in its cells. -/
def sampleTable : List (List String) := [["", "a,\"b\""], ["c\r\n", "\r"]]

/-- The sample table is accepted and reads back. -/
theorem csv_round_trip_sample :
    CsvTable sampleTable ∧ parseRetainedCsv (csvText sampleTable) = .ok sampleTable := by
  have htable : CsvTable sampleTable :=
    ⟨by decide, by decide, ⟨2, by decide, by decide, by decide⟩, by decide⟩
  exact ⟨htable, (csv_round_trip sampleTable htable).1⟩

end Moonfort.Executor
