import Moonfort.TableEdits
import Moonfort.Executor.CsvCandidate
import Moonfort.Executor.RetentionTextDraft

/-!
# Drafts of edited tables

Edits of single cells and rows of a retained table. The rows are mutable arrays: every row of
the source is copied before the first edit, and each edit names a row of the current table.
-/

namespace Moonfort.Executor

open JsonGrammar MoonBit TableEdits

/-! ## The recipe -/

/-- `RetainedCsvEdit`. -/
inductive RetainedCsvEdit where
  | setCell (row column : ℤ) (value : String)
  | removeRow (row : ℤ)
  | appendRow (cells : List String)
  deriving DecidableEq

section Recipe

variable {ν : Type}

/-- The body of the loop of `csv_edit_position`. -/
def csvPositionDigit (key : String) (value : ℕ) (character : Char) : Except String ℕ :=
  if '0' ≤ character ∧ character ≤ '9' ∧ value ≤ 20001 then
    .ok (value * 10 + character.toNat - '0'.toNat)
  else .error ("CSV edit requires a canonical integer " ++ key)

/-- `csv_edit_position`. -/
def csvEditPosition (lib : StandardJson String ν)
    (fields : List (String × JsonTree String (ExactNumber ν))) (key : String) :
    Except String ℤ :=
  match LinkedMap.get key fields with
  | some (.number number) =>
    match (lib.spelling number).toList.foldlM (csvPositionDigit key) 0 with
    | .error message => .error message
    | .ok value =>
      if 1 ≤ value ∧ value ≤ 20001 then .ok value
      else .error "CSV edit position is outside 1..20001"
  | _ => .error ("CSV edit requires a positive integer " ++ key)

/-- `csv_edit_cell`. -/
def csvEditCell (value : JsonTree String (ExactNumber ν)) : Except String String :=
  let refusal :=
    "CSV edited cells require strings of at most 16384 UTF-16 units without NUL"
  match value with
  | .string cell =>
    if utf16Length cell ≤ 16384 ∧ containsText cell "\x00" = false then .ok cell
    else .error refusal
  | _ => .error refusal

/-- The edit that a `set-cell` operation is. -/
def setCellOperation (lib : StandardJson String ν)
    (fields : List (String × JsonTree String (ExactNumber ν))) : Except String RetainedCsvEdit :=
  match LinkedMap.get "value" fields with
  | some value =>
    if fields.length ≠ 4 then .error "set-cell requires exactly op, row, column and value"
    else do
      let row ← csvEditPosition lib fields "row"
      let column ← csvEditPosition lib fields "column"
      let cell ← csvEditCell value
      .ok (.setCell row column cell)
  | none => .error "set-cell requires exactly op, row, column and value"

/-- The edit that a `remove-row` operation is. -/
def removeRowOperation (lib : StandardJson String ν)
    (fields : List (String × JsonTree String (ExactNumber ν))) : Except String RetainedCsvEdit :=
  if fields.length ≠ 2 then .error "remove-row requires exactly op and row"
  else do
    let row ← csvEditPosition lib fields "row"
    .ok (.removeRow row)

/-- The edit that an `append-row` operation is. -/
def appendRowOperation (fields : List (String × JsonTree String (ExactNumber ν))) :
    Except String RetainedCsvEdit :=
  match LinkedMap.get "cells" fields with
  | some (.array cells) =>
    if ¬(fields.length = 2 ∧ 1 ≤ cells.length ∧ cells.length ≤ 64) then
      .error "append-row requires exactly op and 1..64 cells"
    else do
      let cells ← cells.mapM csvEditCell
      .ok (.appendRow cells)
  | _ => .error "append-row requires exactly op and 1..64 cells"

/-- The edit that an operation of a recipe is. -/
def csvOperation (lib : StandardJson String ν) (operation : JsonTree String (ExactNumber ν)) :
    Except String RetainedCsvEdit :=
  match operation with
  | .object fields =>
    match LinkedMap.get "op" fields with
    | some (.string op) =>
      if op = "set-cell" then setCellOperation lib fields
      else if op = "remove-row" then removeRowOperation lib fields
      else if op = "append-row" then appendRowOperation fields
      else .error "unknown CSV edit operation"
    | _ => .error "CSV edit operation requires op"
  | _ => .error "CSV edit operation requires op"

/-- `retained_csv_edits`. -/
def retainedCsvEdits (lib : StandardJson String ν) (recipe : Bytes) :
    Except String (String × List RetainedCsvEdit) :=
  if ¬recipe.length ≤ 65536 then .error "CSV edit recipe exceeds 64 KiB"
  else
    match utf8Decode recipe with
    | none => .error "invalid UTF-8"
    | some text =>
      match parseRetainedJson lib text with
      | .error fault => .error fault.text
      | .ok document =>
        match textRecipeParts lib document with
        | none => .error "CSV edit recipe requires version 1, source_fingerprint and operations"
        | some (fingerprint, operations) =>
          if ¬(utf16Length fingerprint = 64 ∧ allChars fingerprint fingerprintChar = true) then
            .error "CSV edit source_fingerprint requires lowercase SHA-256"
          else if ¬(1 ≤ operations.length ∧ operations.length ≤ 100) then
            .error "CSV edit recipe requires 1..100 operations"
          else
            match operations.mapM (csvOperation lib) with
            | .error message => .error message
            | .ok edits => .ok (fingerprint, edits)

end Recipe

/-! ## The candidate -/

/-- A refusal, or the abort of an access outside an array. -/
inductive CsvEditFault where
  | refused (message : String)
  | aborted
  deriving DecidableEq

/-- `records[0].length()`. -/
def headerWidth (memory : List (List String)) (records : List ℕ) : Except CsvEditFault ℕ :=
  match records[0]? with
  | some record => .ok (row memory record).length
  | none => .error .aborted

/-- `records[row][column - 1] = value`. -/
def writeCell (memory : List (List String)) (records : List ℕ) (rowIndex columnIndex : ℕ)
    (value : String) : Except CsvEditFault (List (List String)) :=
  match records[rowIndex]? with
  | some record =>
    if columnIndex < (row memory record).length then
      .ok (memory.set record ((row memory record).set columnIndex value))
    else .error .aborted
  | none => .error .aborted

/-- The loop that fills `remaining`, from a position on. -/
def remainingRecords (removed : ℤ) : ℕ → List ℕ → List ℕ
  | _, [] => []
  | position, record :: rest =>
    if (position : ℤ) ≠ removed then record :: remainingRecords removed (position + 1) rest
    else remainingRecords removed (position + 1) rest

/-- The body of the loop over the edits: the memory and the records behind one edit. -/
def editRecords (memory : List (List String)) (records : List ℕ) :
    RetainedCsvEdit → Except CsvEditFault (List (List String) × List ℕ)
  | .setCell rowNumber column value =>
    if ¬(1 ≤ rowNumber ∧ rowNumber < records.length ∧ 1 ≤ column) then
      .error (.refused "CSV cell is outside the current table")
    else do
      let width ← headerWidth memory records
      if ¬column ≤ width then .error (.refused "CSV cell is outside the current table")
      else do
        let memory ← writeCell memory records rowNumber.toNat (column - 1).toNat value
        .ok (memory, records)
  | .removeRow rowNumber =>
    if ¬(1 ≤ rowNumber ∧ rowNumber < records.length) then
      .error (.refused "CSV row is outside the current table")
    else .ok (memory, remainingRecords rowNumber 0 records)
  | .appendRow cells => do
    let width ← headerWidth memory records
    if cells.length ≠ width then
      .error (.refused "CSV appended row must match the header width")
    else if ¬records.length < 20001 then
      .error (.refused "CSV candidate exceeds 20000 data rows")
    else .ok (memory ++ [cells], records ++ [memory.length])

/-- The handler of the loop names the operation. -/
def CsvEditFault.inOperation (index : ℕ) : CsvEditFault → CsvEditFault
  | .refused message =>
    .refused ("CSV edit operation " ++ toString (index + 1) ++ " failed: " ++ message)
  | .aborted => .aborted

/-- The loop over the edits, from an index on. -/
def editLoop (index : ℕ) (memory : List (List String)) (records : List ℕ) :
    List RetainedCsvEdit → List (List String) × Except CsvEditFault (List ℕ)
  | [] => (memory, .ok records)
  | edit :: rest =>
    match editRecords memory records edit with
    | .error fault => (memory, .error (fault.inOperation index))
    | .ok (memory, records) => editLoop (index + 1) memory records rest

/-- `apply_retained_csv_edits`: the memory that it leaves, and the text with the number of data
rows. -/
def applyRetainedCsvEdits (memory : List (List String)) (source : List ℕ)
    (edits : List RetainedCsvEdit) : List (List String) × Except CsvEditFault (String × ℤ) :=
  match editLoop 0 (copyRows memory source).1 (copyRows memory source).2 edits with
  | (memory, .error fault) => (memory, .error fault)
  | (memory, .ok records) =>
    match (records.map (row memory)).foldlM
        (CsvCandidate.write (.refused "CSV candidate exceeds 1 MiB")) .empty with
    | .error fault => (memory, .error fault)
    | .ok output => (memory, .ok (output.text, records.length - 1))

/-! ## What an edit means -/

namespace RetainedCsvEdit

/-- An edit in the current table, with its bounds. -/
def Fits (table : List (List String)) : RetainedCsvEdit → Prop
  | setCell rowNumber column _ =>
    1 ≤ rowNumber ∧ rowNumber < table.length ∧ 1 ≤ column ∧ column ≤ (table.headD []).length
  | removeRow rowNumber => 1 ≤ rowNumber ∧ rowNumber < table.length
  | appendRow cells => cells.length = (table.headD []).length ∧ table.length < 20001

/-- The cells of an edit are within the bounds of a cell. -/
def Admitted : RetainedCsvEdit → Prop
  | setCell _ _ value => CsvReader.CellFits value
  | removeRow _ => True
  | appendRow cells => ∀ cell ∈ cells, CsvReader.CellFits cell

/-- The edit of the table that an operation asks for; the header is row zero. -/
def meaning : RetainedCsvEdit → Edit String
  | setCell rowNumber column value => .set rowNumber.toNat (column - 1).toNat value
  | removeRow rowNumber => .remove rowNumber.toNat
  | appendRow cells => .append cells

end RetainedCsvEdit

/-- Every edit is within the bounds of the table that the edits before it leave. -/
def AllFit (table : List (List String)) (edits : List RetainedCsvEdit) : Prop :=
  ∀ (k : ℕ) (edit : RetainedCsvEdit), edits[k]? = some edit →
    edit.Fits (edited table ((edits.take k).map RetainedCsvEdit.meaning))

/-! ## One edit -/

/-- A table of rows as wide as its header. -/
def HeaderWide (table : List (List String)) : Prop :=
  table ≠ [] ∧ ∀ cells ∈ table, cells.length = (table.headD []).length

namespace RetainedCsvEdit

variable {edit : RetainedCsvEdit}

/-- An edit keeps the header, and of the other rows what writing and appending keep. -/
theorem applyTo_cons {P : List String → Prop} {header : List String}
    {rest : List (List String)} (hfits : edit.Fits (header :: rest))
    (hrest : ∀ cells ∈ rest, P cells)
    (hset : ∀ rowNumber column value, edit = setCell rowNumber column value →
      ∀ cells, P cells → P (cells.set (column - 1).toNat value))
    (happend : ∀ cells, edit = appendRow cells → P cells) :
    ∃ rest', edit.meaning.applyTo (header :: rest) = header :: rest' ∧
      ∀ cells ∈ rest', P cells := by
  cases edit with
  | setCell rowNumber column value =>
    obtain ⟨hrow, -, -, -⟩ := hfits
    obtain ⟨k, hk⟩ := Nat.exists_eq_succ_of_ne_zero (show rowNumber.toNat ≠ 0 by omega)
    refine ⟨rest.modify k fun cells => cells.set (column - 1).toNat value, ?_, ?_⟩
    · rw [meaning, Edit.applyTo, hk]
      rfl
    · intro cells hmem
      obtain ⟨i, hi, rfl⟩ := List.getElem_of_mem hmem
      rw [List.getElem_modify]
      have hold := hrest _ (List.getElem_mem (by simpa using hi))
      split
      · exact hset _ _ _ rfl _ hold
      · exact hold
  | removeRow rowNumber =>
    obtain ⟨hrow, -⟩ := hfits
    obtain ⟨k, hk⟩ := Nat.exists_eq_succ_of_ne_zero (show rowNumber.toNat ≠ 0 by omega)
    refine ⟨rest.eraseIdx k, ?_, ?_⟩
    · rw [meaning, Edit.applyTo, hk]
      rfl
    · intro cells hmem
      exact hrest cells ((List.eraseIdx_sublist _ _).subset hmem)
  | appendRow cells =>
    refine ⟨rest ++ [cells], rfl, ?_⟩
    intro cells' hmem
    rcases List.mem_append.mp hmem with hold | hnew
    · exact hrest cells' hold
    · rw [List.mem_singleton.mp hnew]
      exact happend cells rfl

/-- An edit within its bounds keeps the header. -/
theorem head?_applyTo {table : List (List String)}
    (htable : table ≠ []) (hfits : edit.Fits table) :
    (edit.meaning.applyTo table).head? = table.head? := by
  obtain ⟨header, rest, rfl⟩ := List.exists_cons_of_ne_nil htable
  obtain ⟨rest', heq, -⟩ := applyTo_cons (P := fun _ => True) hfits (fun _ _ => trivial)
    (fun _ _ _ _ _ _ => trivial) (fun _ _ => trivial)
  rw [heq]
  rfl

/-- An edit that fits keeps every row as wide as the header. -/
theorem headerWide_applyTo {table : List (List String)}
    (htable : HeaderWide table) (hfits : edit.Fits table) :
    HeaderWide (edit.meaning.applyTo table) := by
  obtain ⟨hne, hwidth⟩ := htable
  obtain ⟨header, rest, rfl⟩ := List.exists_cons_of_ne_nil hne
  obtain ⟨rest', heq, hrest'⟩ := applyTo_cons (P := fun cells => cells.length = header.length) hfits
    (fun cells hmem => hwidth cells (List.mem_cons_of_mem _ hmem))
    (fun _ _ _ _ cells hcells => by rw [List.length_set, hcells])
    (fun cells hcells => by
      subst hcells
      exact hfits.1)
  rw [heq]
  exact ⟨List.cons_ne_nil _ _, List.forall_mem_cons.mpr ⟨rfl, hrest'⟩⟩

/-- An edit within its bounds leaves a table that the reader accepts. -/
theorem csvTable_applyTo {table : List (List String)}
    (htable : CsvTable table) (hfits : edit.Fits table) (hadmitted : edit.Admitted) :
    CsvTable (edit.meaning.applyTo table) := by
  obtain ⟨hne, hrecords, ⟨width, hpos, hlimit, hwidth⟩, hcells⟩ := htable
  obtain ⟨header, rest, rfl⟩ := List.exists_cons_of_ne_nil hne
  have hheader : header.length = width := hwidth header List.mem_cons_self
  obtain ⟨rest', heq, hrest'⟩ := applyTo_cons
    (P := fun cells => cells.length = width ∧ ∀ cell ∈ cells, CsvReader.CellFits cell) hfits
    (fun cells hmem => ⟨hwidth cells (List.mem_cons_of_mem _ hmem),
      hcells cells (List.mem_cons_of_mem _ hmem)⟩)
    (by
      rintro rowNumber column value rfl cells ⟨hlength, hold⟩
      refine ⟨by rw [List.length_set, hlength], ?_⟩
      intro cell hmem
      rcases List.mem_or_eq_of_mem_set hmem with hmem | rfl
      · exact hold cell hmem
      · exact hadmitted)
    (by
      rintro cells rfl
      exact ⟨hfits.1.trans hheader, hadmitted⟩)
  have hlength : (edit.meaning.applyTo (header :: rest)).length ≤ 20001 := by
    cases edit with
    | setCell rowNumber column value => simpa [meaning, Edit.applyTo] using hrecords
    | removeRow rowNumber =>
      rw [meaning, Edit.applyTo, List.length_eraseIdx]
      split <;> omega
    | appendRow cells =>
      have hroom := hfits.2
      rw [meaning, Edit.applyTo, List.length_append, List.length_singleton]
      omega
  rw [heq] at hlength ⊢
  refine ⟨List.cons_ne_nil _ _, hlength, ⟨width, hpos, hlimit, ?_⟩, ?_⟩
  · exact List.forall_mem_cons.mpr ⟨hheader, fun cells hmem => (hrest' cells hmem).1⟩
  · exact List.forall_mem_cons.mpr ⟨hcells header List.mem_cons_self,
      fun cells hmem => (hrest' cells hmem).2⟩

end RetainedCsvEdit

/-! ## The rows in memory -/

/-- Leaving a record out is erasing it. -/
theorem remainingRecords_eq (removed : ℤ) (records : List ℕ) {position : ℕ}
    (hposition : (position : ℤ) ≤ removed) :
    remainingRecords removed position records = records.eraseIdx (removed.toNat - position) := by
  induction records generalizing position with
  | nil => rfl
  | cons record rest ih =>
    rw [remainingRecords]
    by_cases heq : (position : ℤ) = removed
    · have hkeep (later : ℕ) (hlater : removed < later) (tail : List ℕ) :
          remainingRecords removed later tail = tail := by
        induction tail generalizing later with
        | nil => rfl
        | cons other tail ih' =>
          rw [remainingRecords, if_pos (by omega), ih' (later + 1) (by omega)]
      rw [if_neg (not_not.mpr heq), hkeep (position + 1) (by omega),
        show removed.toNat - position = 0 by omega, List.eraseIdx_zero]
      rfl
    · rw [if_pos heq, ih (by omega),
        show removed.toNat - position = removed.toNat - (position + 1) + 1 by omega]
      rfl

section Memory

variable {base memory : List (List String)} {records : List ℕ} {table : List (List String)}

/-- The width that is looked up is that of the header. -/
theorem headerWidth_eq (hholds : Holds base memory records table) (htable : table ≠ []) :
    headerWidth memory records = .ok (table.headD []).length := by
  obtain ⟨header, rest, rfl⟩ := List.exists_cons_of_ne_nil htable
  cases hrecords : records with
  | nil =>
    have hlength := hholds.length_eq
    rw [hrecords, List.length_cons] at hlength
    cases hlength
  | cons record others =>
    have hrows := hholds.rows
    rw [hrecords, List.map_cons] at hrows
    obtain ⟨hrow, -⟩ := List.cons.inj hrows
    rw [headerWidth]
    exact congrArg (fun cells => Except.ok (List.length cells)) hrow

/-- Writing a cell inside the table never aborts, and changes that row only. -/
theorem writeCell_eq (hholds : Holds base memory records table) (htable : HeaderWide table)
    {rowIndex columnIndex : ℕ} (hrow : rowIndex < table.length)
    (hcolumn : columnIndex < (table.headD []).length) (value : String) :
    ∃ memory', writeCell memory records rowIndex columnIndex value = .ok memory' ∧
      Holds base memory' records
        (table.modify rowIndex fun cells => cells.set columnIndex value) := by
  have hlt : rowIndex < records.length := by rw [hholds.length_eq]; exact hrow
  have hcells : row memory records[rowIndex] = table[rowIndex] := hholds.row_getElem hlt hrow
  have hwidth : columnIndex < (row memory records[rowIndex]).length := by
    rw [hcells, htable.2 _ (List.getElem_mem hrow)]
    exact hcolumn
  refine ⟨memory.set records[rowIndex] ((row memory records[rowIndex]).set columnIndex value),
    ?_, ?_⟩
  · rw [writeCell, List.getElem?_eq_getElem hlt]
    exact if_pos hwidth
  · have hset := hholds.set hlt ((row memory records[rowIndex]).set columnIndex value)
    rw [hcells] at hset
    rw [List.modify_eq_set_getElem?, List.getElem?_eq_getElem hrow, hcells]
    exact hset

/-- An edit within its bounds is made, and every other one is refused. -/
theorem editRecords_spec (hholds : Holds base memory records table) (htable : HeaderWide table)
    (edit : RetainedCsvEdit) :
    (edit.Fits table ∧ ∃ memory' records',
      editRecords memory records edit = .ok (memory', records') ∧
      Holds base memory' records' (edit.meaning.applyTo table)) ∨
    (¬edit.Fits table ∧
      ∃ message, editRecords memory records edit = .error (.refused message)) := by
  have hlength := hholds.length_eq
  have hheader := headerWidth_eq hholds htable.1
  cases edit with
  | setCell rowNumber column value =>
    rw [editRecords]
    by_cases hbefore : 1 ≤ rowNumber ∧ rowNumber < records.length ∧ 1 ≤ column
    · rw [if_neg (not_not.mpr hbefore), hheader]
      obtain ⟨hrow, hrowLt, hcolumn⟩ := hbefore
      by_cases hwidth : column ≤ (table.headD []).length
      · left
        have hrowIndex : rowNumber.toNat < table.length := by omega
        have hcolumnIndex : (column - 1).toNat < (table.headD []).length := by omega
        obtain ⟨memory', hwrite, hholds'⟩ :=
          writeCell_eq hholds htable hrowIndex hcolumnIndex value
        refine ⟨⟨hrow, by omega, hcolumn, hwidth⟩, memory', records, ?_, hholds'⟩
        simp only [Except.bind, bind, hwidth, not_true, if_false, hwrite]
      · right
        refine ⟨fun hfits => hwidth hfits.2.2.2, "CSV cell is outside the current table", ?_⟩
        simp only [Except.bind, bind, hwidth, not_false_eq_true, if_true]
    · right
      rw [if_pos hbefore]
      exact ⟨fun hfits => hbefore ⟨hfits.1, by have := hfits.2.1; omega, hfits.2.2.1⟩, _, rfl⟩
  | removeRow rowNumber =>
    rw [editRecords]
    by_cases hbounds : 1 ≤ rowNumber ∧ rowNumber < records.length
    · left
      rw [if_neg (not_not.mpr hbounds), remainingRecords_eq _ _ (by omega)]
      exact ⟨⟨hbounds.1, by omega⟩, _, _, rfl, hholds.remove _⟩
    · right
      rw [if_pos hbounds]
      exact ⟨fun hfits => hbounds ⟨hfits.1, by have := hfits.2; omega⟩, _, rfl⟩
  | appendRow cells =>
    rw [editRecords, hheader]
    by_cases hwidth : cells.length = (table.headD []).length
    · by_cases hroom : records.length < 20001
      · left
        refine ⟨⟨hwidth, by omega⟩, memory ++ [cells], records ++ [memory.length], ?_,
          hholds.push cells⟩
        simp only [Except.bind, bind, hwidth, hroom, ne_eq, not_true, if_false]
      · right
        refine ⟨fun hfits => hroom (by have := hfits.2; omega),
          "CSV candidate exceeds 20000 data rows", ?_⟩
        simp only [Except.bind, bind, hwidth, hroom, ne_eq, not_true, if_false, not_false_eq_true,
          if_true]
    · right
      refine ⟨fun hfits => hwidth hfits.1, "CSV appended row must match the header width", ?_⟩
      simp only [Except.bind, bind, hwidth, ne_eq, not_false_eq_true, if_true]

/-- No edits fit. -/
theorem allFit_nil : AllFit table [] := fun k edit hk => by cases hk

/-- Edits fit when the first does and the others fit behind it. -/
theorem allFit_cons {edit : RetainedCsvEdit} {edits : List RetainedCsvEdit} :
    AllFit table (edit :: edits) ↔ edit.Fits table ∧ AllFit (edit.meaning.applyTo table) edits := by
  constructor
  · intro h
    exact ⟨h 0 edit rfl, fun k later hk => h (k + 1) later hk⟩
  · rintro ⟨hfirst, hrest⟩ k later hk
    cases k with
    | zero =>
      obtain rfl := Option.some.inj hk
      exact hfirst
    | succ k => exact hrest k later hk

/-- The loop makes all edits, or refuses one; the memory in front stays as it is. -/
theorem editLoop_spec (hholds : Holds base memory records table) (htable : HeaderWide table)
    (edits : List RetainedCsvEdit) (index : ℕ) :
    base <+: (editLoop index memory records edits).1 ∧
      ((AllFit table edits ∧ ∃ records', (editLoop index memory records edits).2 = .ok records' ∧
          Holds base (editLoop index memory records edits).1 records'
            (edited table (edits.map RetainedCsvEdit.meaning))) ∨
        (¬AllFit table edits ∧ ∃ message,
          (editLoop index memory records edits).2 = .error (.refused message))) := by
  induction edits generalizing index memory records table with
  | nil => exact ⟨hholds.kept, .inl ⟨allFit_nil, records, rfl, hholds⟩⟩
  | cons edit edits ih =>
    rcases editRecords_spec hholds htable edit with
      ⟨hfits, memory', records', hedit, hholds'⟩ | ⟨hfits, message, hedit⟩
    · have hrest := ih hholds' (RetainedCsvEdit.headerWide_applyTo htable hfits) (index + 1)
      simp only [editLoop, hedit, List.map_cons, edited_cons, allFit_cons, hfits, true_and]
      exact hrest
    · simp only [editLoop, hedit]
      exact ⟨hholds.kept, .inr ⟨fun hall => hfits (allFit_cons.mp hall).1, _, rfl⟩⟩

end Memory

/-! ## The whole draft -/

/-- The rows of an accepted table are as wide as its header. -/
theorem headerWide_of_csvTable {table : List (List String)} (h : CsvTable table) :
    HeaderWide table := by
  obtain ⟨hne, -, ⟨width, -, -, hwidth⟩, -⟩ := h
  obtain ⟨header, rest, rfl⟩ := List.exists_cons_of_ne_nil hne
  refine ⟨hne, fun cells hmem => ?_⟩
  rw [hwidth cells hmem]
  exact (hwidth header List.mem_cons_self).symm

/-- Edits within their bounds lead from one table of the reader to another, with its header. -/
theorem csvTable_edited {table : List (List String)} {edits : List RetainedCsvEdit}
    (htable : CsvTable table) (hall : AllFit table edits)
    (hadmitted : ∀ edit ∈ edits, edit.Admitted) :
    CsvTable (edited table (edits.map RetainedCsvEdit.meaning)) ∧
      (edited table (edits.map RetainedCsvEdit.meaning)).head? = table.head? := by
  induction edits generalizing table with
  | nil => exact ⟨htable, rfl⟩
  | cons edit edits ih =>
    obtain ⟨hfits, hrest⟩ := allFit_cons.mp hall
    have hnext := RetainedCsvEdit.csvTable_applyTo htable hfits (hadmitted edit List.mem_cons_self)
    obtain ⟨hedited, hhead⟩ := ih hnext hrest fun later hmem =>
      hadmitted later (List.mem_cons_of_mem _ hmem)
    rw [List.map_cons, edited_cons]
    exact ⟨hedited, hhead.trans (RetainedCsvEdit.head?_applyTo htable.nonempty hfits)⟩

/-- What the application of edits comes to. -/
theorem applyRetainedCsvEdits_spec {memory : List (List String)} {source : List ℕ}
    {table : List (List String)} (hrows : source.map (row memory) = table)
    (htable : CsvTable table) (edits : List RetainedCsvEdit) :
    memory <+: (applyRetainedCsvEdits memory source edits).1 ∧
      ((AllFit table edits ∧
          utf8Length (csvText (edited table (edits.map RetainedCsvEdit.meaning))) ≤ 1048576 ∧
          (applyRetainedCsvEdits memory source edits).2 =
            .ok (csvText (edited table (edits.map RetainedCsvEdit.meaning)),
              ((edited table (edits.map RetainedCsvEdit.meaning)).length : ℤ) - 1)) ∨
        ((¬AllFit table edits ∨
            1048576 < utf8Length (csvText (edited table (edits.map RetainedCsvEdit.meaning)))) ∧
          ∃ message, (applyRetainedCsvEdits memory source edits).2 =
            .error (.refused message))) := by
  have hholds : Holds memory (copyRows memory source).1 (copyRows memory source).2
      (source.map (row memory)) := holds_copyRows
  rw [hrows] at hholds
  have hloop := editLoop_spec hholds (headerWide_of_csvTable htable) edits 0
  rw [applyRetainedCsvEdits]
  generalize editLoop 0 (copyRows memory source).1 (copyRows memory source).2 edits =
    result at hloop
  obtain ⟨memory', outcome⟩ := result
  obtain ⟨hkept, ⟨hall, records, rfl, hholds'⟩ | ⟨hall, message, rfl⟩⟩ := hloop
  · simp only [hholds'.rows, foldlM_write]
    by_cases hsize :
        utf8Length (csvText (edited table (edits.map RetainedCsvEdit.meaning))) ≤ 1048576
    · rw [if_pos hsize, ← hholds'.length_eq]
      exact ⟨hkept, .inl ⟨hall, hsize, rfl⟩⟩
    · rw [if_neg hsize]
      exact ⟨hkept, .inr ⟨.inr (by omega), _, rfl⟩⟩
  · exact ⟨hkept, .inr ⟨.inl hall, message, rfl⟩⟩

/-! ## What the recipe lets through -/

section Recipe

variable {ν : Type}

/-- A cell of an edit is a text that fits. -/
theorem csvEditCell_eq_ok_iff {value : JsonTree String (ExactNumber ν)} {cell : String} :
    csvEditCell value = .ok cell ↔ value = .string cell ∧ CsvReader.CellFits cell := by
  cases value with
  | string text =>
    have hnul : containsText text "\x00" = false ↔ '\x00' ∉ text.toList := by
      rw [← Sandbox.containsText_nul_iff, Bool.not_eq_true]
    simp only [csvEditCell, hnul, JsonTree.string.injEq, CsvReader.CellFits]
    constructor
    · intro h
      split at h
      · next hfits =>
        obtain rfl := Except.ok.inj h
        exact ⟨rfl, hfits⟩
      · cases h
    · rintro ⟨rfl, hfits⟩
      rw [if_pos hfits]
  | _ => exact iff_of_false nofun nofun

/-- What every item of a map gives holds of the result. -/
theorem forall_of_mapM {α β ε : Type} {f : α → Except ε β} {P : β → Prop}
    (hitem : ∀ a b, f a = .ok b → P b) {l : List α} {result : List β} (h : l.mapM f = .ok result) :
    ∀ b ∈ result, P b := by
  induction mapM_eq_ok_iff.mp h with
  | nil => exact nofun
  | cons hfirst hrest ih =>
    exact List.forall_mem_cons.mpr ⟨hitem _ _ hfirst, ih (mapM_eq_ok_iff.mpr hrest)⟩

variable {lib : StandardJson String ν} {fields : List (String × JsonTree String (ExactNumber ν))}
  {edit : RetainedCsvEdit}

/-- A decoded `set_cell` is admitted. -/
theorem admitted_of_setCell (h : setCellOperation lib fields = .ok edit) : edit.Admitted := by
  rw [setCellOperation] at h
  split at h
  · obtain ⟨-, h⟩ := Loop.guard_eq_ok_iff.mp h
    obtain ⟨rowNumber, -, h⟩ := Loop.bind_eq_ok_iff.mp h
    obtain ⟨column, -, h⟩ := Loop.bind_eq_ok_iff.mp h
    obtain ⟨cell, hcell, h⟩ := Loop.bind_eq_ok_iff.mp h
    obtain rfl := Except.ok.inj h
    exact (csvEditCell_eq_ok_iff.mp hcell).2
  · cases h

/-- A decoded `remove_row` is admitted. -/
theorem admitted_of_removeRow (h : removeRowOperation lib fields = .ok edit) : edit.Admitted := by
  obtain ⟨-, h⟩ := Loop.guard_eq_ok_iff.mp h
  obtain ⟨rowNumber, -, h⟩ := Loop.bind_eq_ok_iff.mp h
  obtain rfl := Except.ok.inj h
  trivial

/-- A decoded `append_row` is admitted. -/
theorem admitted_of_appendRow (h : appendRowOperation fields = .ok edit) : edit.Admitted := by
  rw [appendRowOperation] at h
  split at h
  · obtain ⟨-, h⟩ := Loop.guard_eq_ok_iff.mp h
    obtain ⟨cells, hcells, h⟩ := Loop.bind_eq_ok_iff.mp h
    obtain rfl := Except.ok.inj h
    exact forall_of_mapM (fun _ _ hcell => (csvEditCell_eq_ok_iff.mp hcell).2) hcells
  · cases h

/-- The cells of an operation are within the bounds of a cell. -/
theorem admitted_of_csvOperation {operation : JsonTree String (ExactNumber ν)}
    (h : csvOperation lib operation = .ok edit) : edit.Admitted := by
  cases operation with
  | object fields =>
    rw [csvOperation] at h
    split at h
    · split at h
      · exact admitted_of_setCell h
      · split at h
        · exact admitted_of_removeRow h
        · split at h
          · exact admitted_of_appendRow h
          · cases h
    · cases h
  | _ => cases h

/-- The edits of a recipe have cells within the bounds of a cell. -/
theorem admitted_of_recipe {recipe : Bytes} {fingerprint : String} {edits : List RetainedCsvEdit}
    (h : retainedCsvEdits lib recipe = .ok (fingerprint, edits)) :
    ∀ edit ∈ edits, edit.Admitted := by
  obtain ⟨-, h⟩ := Loop.guard_eq_ok_iff.mp h
  split at h
  · cases h
  · split at h
    · cases h
    · split at h
      · cases h
      · obtain ⟨-, h⟩ := Loop.guard_eq_ok_iff.mp h
        obtain ⟨-, h⟩ := Loop.guard_eq_ok_iff.mp h
        split at h
        · cases h
        · next edits' hedits =>
          obtain ⟨-, rfl⟩ := Prod.mk.inj (Except.ok.inj h)
          exact forall_of_mapM (fun _ _ hedit => admitted_of_csvOperation hedit) hedits

end Recipe

/-- The candidate of a draft is the parsed table with the operations made one after the other, each
in the table that those before it leave: it parses back to that table, with the same header, the
right number of data rows, and every cell that no operation writes. Nothing is made exactly where
an operation is outside the bounds of its table, or the text outside its own. The rows of the source
stay in memory as they are. A recipe has cells within the bounds of a cell only. -/
theorem csv_draft_exact {ν : Type} (lib : StandardJson String ν) {text : String}
    {table : List (List String)} (hparse : parseRetainedCsv text = .ok table)
    {memory : List (List String)} {source : List ℕ} (hrows : source.map (row memory) = table) :
    (∀ recipe fingerprint edits, retainedCsvEdits lib recipe = .ok (fingerprint, edits) →
      ∀ edit ∈ edits, edit.Admitted) ∧
    ∀ edits : List RetainedCsvEdit, (∀ edit ∈ edits, edit.Admitted) →
      ∀ operations, edits.map RetainedCsvEdit.meaning = operations →
        memory <+: (applyRetainedCsvEdits memory source edits).1 ∧
        (∀ csv rows, (applyRetainedCsvEdits memory source edits).2 = .ok (csv, rows) →
          parseRetainedCsv csv = .ok (edited table operations) ∧
          rows = ((edited table operations).length : ℤ) - 1 ∧
          (edited table operations).head? = table.head? ∧
          ∀ i i' j, i < table.length → follow operations i = some i' → Untouched operations i j →
            cellAt (edited table operations) i' j = cellAt table i j) ∧
        ((∃ message, (applyRetainedCsvEdits memory source edits).2 = .error (.refused message)) ↔
          ¬AllFit table edits ∨ 1048576 < utf8Length (csvText (edited table operations))) ∧
        (applyRetainedCsvEdits memory source edits).2 ≠ .error .aborted := by
  refine ⟨fun recipe fingerprint edits => admitted_of_recipe, ?_⟩
  rintro edits hadmitted operations rfl
  have htable := csvTable_of_parse hparse
  obtain ⟨hkept, ⟨hall, hsize, hresult⟩ | ⟨hrefused, message, hresult⟩⟩ :=
    applyRetainedCsvEdits_spec hrows htable edits
  · obtain ⟨hedited, hhead⟩ := csvTable_edited htable hall hadmitted
    rw [hresult]
    refine ⟨hkept, ?_, ?_, nofun⟩
    · intro csv rows h
      obtain ⟨rfl, rfl⟩ := Prod.mk.inj (Except.ok.inj h)
      exact ⟨parseRetainedCsv_csvText hedited, rfl, hhead, fun i i' j hi => cellAt_edited hi⟩
    · refine iff_of_false nofun ?_
      rintro (hfail | hlarge)
      · exact hfail hall
      · omega
  · rw [hresult]
    exact ⟨hkept, nofun, iff_of_true ⟨message, rfl⟩ hrefused, nofun⟩

/-- A source that shares the array of two equal rows. -/
def sampleCsvRows : List (List String) := [["1", "2"], ["a", "b"]]

/-- Edits whose positions depend on those before them. -/
def sampleCsvEdits : List RetainedCsvEdit :=
  [.appendRow ["3", "4"], .removeRow 1, .setCell 1 2 "x"]

/-- The edits of a table, whose draft reads back. -/
theorem csv_draft_exact_sample :
    (applyRetainedCsvEdits sampleCsvRows [1, 0, 0] sampleCsvEdits).2 =
        .ok ("\"a\",\"b\"\r\n\"1\",\"x\"\r\n\"3\",\"4\"\r\n", 2) ∧
      sampleCsvRows <+: (applyRetainedCsvEdits sampleCsvRows [1, 0, 0] sampleCsvEdits).1 ∧
      parseRetainedCsv "\"a\",\"b\"\r\n\"1\",\"x\"\r\n\"3\",\"4\"\r\n" =
        .ok [["a", "b"], ["1", "x"], ["3", "4"]] := by
  have hresult : (applyRetainedCsvEdits sampleCsvRows [1, 0, 0] sampleCsvEdits).2 =
      .ok ("\"a\",\"b\"\r\n\"1\",\"x\"\r\n\"3\",\"4\"\r\n", 2) := by decide
  have hadmitted : ∀ edit ∈ sampleCsvEdits, edit.Admitted := by
    intro edit hmem
    rcases List.mem_cons.mp hmem with rfl | hmem
    · exact List.forall_mem_cons.mpr ⟨⟨by decide, by decide⟩,
        List.forall_mem_singleton.mpr ⟨by decide, by decide⟩⟩
    · rcases List.mem_cons.mp hmem with rfl | hmem
      · trivial
      · obtain rfl := List.mem_singleton.mp hmem
        exact ⟨by decide, by decide⟩
  have hparse : parseRetainedCsv "a,b\n1,2\n1,2\n" = .ok [["a", "b"], ["1", "2"], ["1", "2"]] := by
    decide
  have hrows : [1, 0, 0].map (row sampleCsvRows) = [["a", "b"], ["1", "2"], ["1", "2"]] := rfl
  obtain ⟨hkept, hexact, -, -⟩ :=
    (csv_draft_exact sampleJson hparse hrows).2 sampleCsvEdits hadmitted _ rfl
  exact ⟨hresult, hkept, (hexact _ _ hresult).1⟩

end Moonfort.Executor
