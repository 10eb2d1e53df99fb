import Moonfort.Executor.CsvCandidate
import Moonfort.MoonBit.Lines

/-!
# Line coverage of a retained LCOV report

The reader of an LCOV report is a state machine over the physical lines. Its variables are a
function of the directives so far, so that every count belongs to the record that is open, and
it accepts exactly the reports whose directives are allowed where they stand.
-/

namespace Moonfort.Executor

open MoonBit

/-! ## The reader -/

/-- `lcov_number`. -/
def lcovNumber (value : String) : Except String ℕ :=
  if value = "" then .error "LCOV expected decimal integer"
  else if allChars value Char.isDigit = false then .error "LCOV expected decimal integer"
  else parseDigits value

/-- The variables of the loop over the lines. -/
structure LcovState where
  output : CsvCandidate
  testName : String
  sourceFile : String
  active : Bool
  pendingTest : Bool
  records : ℕ
  total : ℕ
  covered : ℕ
  rows : ℕ
  recordLines : ℕ
  recordCovered : ℕ
  found : Option ℕ
  hit : Option ℕ
  seen : List ℕ

/-- The variables in front of the loop. -/
def LcovState.start (output : CsvCandidate) : LcovState :=
  ⟨output, "", "", false, false, 0, 0, 0, 0, 0, 0, none, none, []⟩

/-- A line that is counted. -/
structure LcovObservation where
  record : ℕ
  reportLine : ℕ
  testName : String
  sourceFile : String
  number : ℕ
  count : ℕ
  checksum : String

/-- The cells that are written for a line. -/
def LcovObservation.cells (o : LcovObservation) : List String :=
  [intText o.record, intText o.reportLine, o.testName, o.sourceFile, intText o.number,
    intText o.count, o.checksum]

/-- The header of the candidate. -/
def lcovHeader : List String :=
  ["record", "report_line", "test_name", "source_file", "source_line", "hits", "checksum"]

/-- The refusal of a candidate that is too large. -/
def lcovTooLarge : String := "LCOV CSV exceeds 1 MiB"

namespace LcovState

/-- The line `end_of_record`. -/
def endRecord (s : LcovState) : Except String LcovState :=
  if s.active = false then .error "LCOV end outside record"
  else if s.found.any (· ≠ s.recordLines) then .error "LCOV LF conflicts with DA"
  else if s.hit.any (· ≠ s.recordCovered) then .error "LCOV LH conflicts with DA"
  else .ok { s with active := false, testName := "" }

/-- The directive `TN`. -/
def nameTest (s : LcovState) (value : String) : Except String LcovState :=
  if s.active = true ∨ s.pendingTest = true then .error "LCOV misplaced TN"
  else .ok { s with testName := value, pendingTest := true }

/-- The directive `SF`. -/
def openRecord (s : LcovState) (value : String) : Except String LcovState :=
  if s.active = true ∨ value = "" then .error "LCOV misplaced or empty SF"
  else if 1000 < s.records + 1 then .error "LCOV exceeds 1000 records"
  else .ok
    { s with
      active := true, pendingTest := false, sourceFile := value, records := s.records + 1
      recordLines := 0, recordCovered := 0, found := none, hit := none, seen := [] }

/-- The directive `DA` behind its numbers. -/
def countLine (s : LcovState) (uncoveredOnly : Bool) (index number count : ℕ)
    (checksum : String) : Except String LcovState :=
  if number = 0 ∨ number ∈ s.seen then .error "LCOV invalid or duplicate line"
  else if 10000 < s.total + 1 then .error "LCOV exceeds 10000 line observations"
  else
    let s := { s with
      seen := s.seen ++ [number]
      recordLines := s.recordLines + 1
      total := s.total + 1
      covered := s.covered + if 0 < count then 1 else 0
      recordCovered := s.recordCovered + if 0 < count then 1 else 0 }
    if uncoveredOnly = false ∨ count = 0 then do
      let output ← s.output.write lcovTooLarge (LcovObservation.cells
        ⟨s.records, index + 1, s.testName, s.sourceFile, number, count, checksum⟩)
      .ok { s with output := output, rows := s.rows + 1 }
    else .ok s

/-- The directive `DA`. -/
def dataLine (s : LcovState) (uncoveredOnly : Bool) (index : ℕ) (value : String) :
    Except String LcovState :=
  if s.active = false then .error "LCOV DA outside record"
  else
    let cells := splitText ',' value
    if cells.length ≠ 2 ∧ cells.length ≠ 3 then .error "LCOV malformed DA"
    else do
      let number ← lcovNumber (cells.getD 0 "")
      let count ← lcovNumber (cells.getD 1 "")
      s.countLine uncoveredOnly index number count (cells.getD 2 "")

/-- The directive `LF`. -/
def declareFound (s : LcovState) (value : String) : Except String LcovState :=
  if s.active = false ∨ s.found.isSome = true then .error "LCOV misplaced LF"
  else do
    let found ← lcovNumber value
    .ok { s with found := some found }

/-- The directive `LH`. -/
def declareHit (s : LcovState) (value : String) : Except String LcovState :=
  if s.active = false ∨ s.hit.isSome = true then .error "LCOV misplaced LH"
  else do
    let hit ← lcovNumber value
    .ok { s with hit := some hit }

/-- A directive about functions or branches. -/
def metadata (s : LcovState) : Except String LcovState :=
  if s.active = false then .error "LCOV metadata outside record" else .ok s

/-- The directives about functions and branches. -/
def metadataTags : List String := ["FN", "FNDA", "FNF", "FNH", "BRDA", "BRF", "BRH"]

/-- A line with a tag. -/
def taggedLine (s : LcovState) (uncoveredOnly : Bool) (index : ℕ) (tag value : String) :
    Except String LcovState :=
  if tag = "TN" then s.nameTest value
  else if tag = "SF" then s.openRecord value
  else if tag = "DA" then s.dataLine uncoveredOnly index value
  else if tag = "LF" then s.declareFound value
  else if tag = "LH" then s.declareHit value
  else if tag ∈ metadataTags then s.metadata
  else .error "LCOV unsupported tag"

/-- A line that is not the empty one at the end. -/
def readLine (s : LcovState) (uncoveredOnly : Bool) (index : ℕ) (line : String) :
    Except String LcovState :=
  if line = "end_of_record" then s.endRecord
  else
    match splitText ':' line with
    | tag :: value :: rest =>
      s.taggedLine uncoveredOnly index tag (":".intercalate (value :: rest))
    | _ => .error "LCOV expected tagged line"

/-- The body of the loop over the lines, of which there are `lines`. -/
def step (uncoveredOnly : Bool) (lines : ℕ) (s : LcovState) (raw : String × ℕ) :
    Except String LcovState :=
  let line := trimReturns raw.1
  if line = "" ∧ raw.2 = lines - 1 then .ok s else s.readLine uncoveredOnly raw.2 line

end LcovState

/-- The results of `retained_lcov_csv`. -/
structure LcovTable where
  csv : String
  records : ℕ
  total : ℕ
  covered : ℕ
  rows : ℕ

/-- `retained_lcov_csv`. -/
def retainedLcovCsv (text : String) (uncoveredOnly : Bool) : Except String LcovTable :=
  if 1048576 < utf8Length text then .error "LCOV exceeds 1 MiB"
  else do
    let output ← CsvCandidate.empty.write lcovTooLarge lcovHeader
    let lines := splitText '\n' text
    let s ← lines.zipIdx.foldlM (LcovState.step uncoveredOnly lines.length) (.start output)
    if s.active = true ∨ s.pendingTest = true ∨ s.records = 0 then
      .error "LCOV incomplete or empty report"
    else .ok ⟨s.output.text, s.records, s.total, s.covered, s.rows⟩

/-! ## The directives of a report -/

/-- What a line of a report says. -/
inductive LcovDirective where
  | ending
  | test (name : String)
  | source (file : String)
  | data (number count : ℕ) (checksum : String)
  | found (n : ℕ)
  | hit (n : ℕ)
  | metadata
  deriving DecidableEq

/-- The directive `DA` with its cells. -/
def lcovData (cells : List String) : Option LcovDirective :=
  if cells.length = 2 ∨ cells.length = 3 then
    match lcovNumber (cells.getD 0 ""), lcovNumber (cells.getD 1 "") with
    | .ok number, .ok count => some (.data number count (cells.getD 2 ""))
    | _, _ => none
  else none

/-- The directive with a tag and a value. -/
def lcovTagged (tag value : String) : Option LcovDirective :=
  if tag = "TN" then some (.test value)
  else if tag = "SF" then (if value = "" then none else some (.source value))
  else if tag = "DA" then lcovData (splitText ',' value)
  else if tag = "LF" then (lcovNumber value).toOption.map .found
  else if tag = "LH" then (lcovNumber value).toOption.map .hit
  else if tag ∈ LcovState.metadataTags then some .metadata
  else none

/-- The directive on a line. -/
def lcovDirective (line : String) : Option LcovDirective :=
  if line = "end_of_record" then some .ending
  else
    match splitText ':' line with
    | tag :: value :: rest => lcovTagged tag (":".intercalate (value :: rest))
    | _ => none

/-- The physical lines of a report, without an empty one at the end. -/
def lcovLines (text : String) : List String :=
  let lines := (splitText '\n' text).map trimReturns
  if lines.getLast? = some "" then lines.dropLast else lines

/-- The step of the state machine with a directive. -/
def LcovState.enter (s : LcovState) (uncoveredOnly : Bool) (index : ℕ) :
    LcovDirective → Except String LcovState
  | .ending => s.endRecord
  | .test name => s.nameTest name
  | .source file => s.openRecord file
  | .data number count checksum =>
    if s.active = false then .error "LCOV DA outside record"
    else s.countLine uncoveredOnly index number count checksum
  | .found n =>
    if s.active = false ∨ s.found.isSome = true then .error "LCOV misplaced LF"
    else .ok { s with found := some n }
  | .hit n =>
    if s.active = false ∨ s.hit.isSome = true then .error "LCOV misplaced LH"
    else .ok { s with hit := some n }
  | .metadata => s.metadata

/-- A data line is accepted as the directive it spells. -/
theorem dataLine_eq_ok_iff {s next : LcovState} {uncoveredOnly : Bool} {index : ℕ}
    {value : String} :
    s.dataLine uncoveredOnly index value = .ok next ↔
      ∃ d, lcovData (splitText ',' value) = some d ∧ s.enter uncoveredOnly index d = .ok next := by
  rw [LcovState.dataLine, lcovData]
  generalize splitText ',' value = cells
  by_cases hactive : s.active = false
  · rw [if_pos hactive]
    refine iff_of_false nofun ?_
    rintro ⟨d, hd, henter⟩
    split at hd
    · split at hd
      · cases hd
        rw [LcovState.enter, if_pos hactive] at henter
        cases henter
      · cases hd
    · cases hd
  · rw [if_neg hactive]
    dsimp only
    by_cases hlength : cells.length = 2 ∨ cells.length = 3
    · have hcells : ¬(cells.length ≠ 2 ∧ cells.length ≠ 3) := by omega
      rw [if_pos hlength, if_neg hcells]
      cases lcovNumber (cells.getD 0 "") with
      | error message => simp [bind, Except.bind]
      | ok number =>
        cases lcovNumber (cells.getD 1 "") with
        | error message => simp [bind, Except.bind]
        | ok count => simp [bind, Except.bind, LcovState.enter, hactive]
    · have hcells : cells.length ≠ 2 ∧ cells.length ≠ 3 := by omega
      rw [if_neg hlength, if_pos hcells]
      simp

/-- A declared number of lines is accepted as its directive. -/
theorem declareFound_eq_ok_iff {s next : LcovState} {uncoveredOnly : Bool} {index : ℕ}
    {value : String} :
    s.declareFound value = .ok next ↔ ∃ d, (lcovNumber value).toOption.map LcovDirective.found =
      some d ∧ s.enter uncoveredOnly index d = .ok next := by
  rw [LcovState.declareFound]
  by_cases hmisplaced : s.active = false ∨ s.found.isSome = true
  · rw [if_pos hmisplaced]
    cases lcovNumber value <;> simp [Except.toOption, LcovState.enter, hmisplaced]
  · rw [if_neg hmisplaced]
    cases lcovNumber value <;>
      simp [bind, Except.bind, Except.toOption, LcovState.enter, hmisplaced]

/-- A declared number of covered lines is accepted as its directive. -/
theorem declareHit_eq_ok_iff {s next : LcovState} {uncoveredOnly : Bool} {index : ℕ}
    {value : String} :
    s.declareHit value = .ok next ↔ ∃ d, (lcovNumber value).toOption.map LcovDirective.hit =
      some d ∧ s.enter uncoveredOnly index d = .ok next := by
  rw [LcovState.declareHit]
  by_cases hmisplaced : s.active = false ∨ s.hit.isSome = true
  · rw [if_pos hmisplaced]
    cases lcovNumber value <;> simp [Except.toOption, LcovState.enter, hmisplaced]
  · rw [if_neg hmisplaced]
    cases lcovNumber value <;>
      simp [bind, Except.bind, Except.toOption, LcovState.enter, hmisplaced]

/-- A line with a tag is accepted as the directive the tag and the value spell. -/
theorem taggedLine_eq_ok_iff {s next : LcovState} {uncoveredOnly : Bool} {index : ℕ}
    {tag value : String} :
    s.taggedLine uncoveredOnly index tag value = .ok next ↔
      ∃ d, lcovTagged tag value = some d ∧ s.enter uncoveredOnly index d = .ok next := by
  rw [LcovState.taggedLine, lcovTagged]
  by_cases htest : tag = "TN"
  · simp [if_pos htest, LcovState.enter]
  by_cases hsource : tag = "SF"
  · by_cases hvalue : value = ""
    · simp [if_neg htest, if_pos hsource, LcovState.openRecord, hvalue]
    · simp [if_neg htest, if_pos hsource, if_neg hvalue, LcovState.enter]
  by_cases hdata : tag = "DA"
  · rw [if_neg htest, if_neg hsource, if_pos hdata, if_neg htest, if_neg hsource, if_pos hdata]
    exact dataLine_eq_ok_iff
  by_cases hfound : tag = "LF"
  · simp only [if_neg htest, if_neg hsource, if_neg hdata, if_pos hfound]
    exact declareFound_eq_ok_iff
  by_cases hhit : tag = "LH"
  · simp only [if_neg htest, if_neg hsource, if_neg hdata, if_neg hfound, if_pos hhit]
    exact declareHit_eq_ok_iff
  by_cases hmetadata : tag ∈ LcovState.metadataTags
  · simp [if_neg htest, if_neg hsource, if_neg hdata, if_neg hfound, if_neg hhit,
      if_pos hmetadata, LcovState.enter]
  · simp [if_neg htest, if_neg hsource, if_neg hdata, if_neg hfound, if_neg hhit,
      if_neg hmetadata]

/-- A line is read as its directive. -/
theorem readLine_eq_ok_iff {s next : LcovState} {uncoveredOnly : Bool} {index : ℕ}
    {line : String} :
    s.readLine uncoveredOnly index line = .ok next ↔
      ∃ d, lcovDirective line = some d ∧ s.enter uncoveredOnly index d = .ok next := by
  rw [LcovState.readLine, lcovDirective]
  by_cases hend : line = "end_of_record"
  · simp [if_pos hend, LcovState.enter]
  · rw [if_neg hend, if_neg hend]
    split
    · exact taggedLine_eq_ok_iff
    · simp

/-- Lines are read as their directives. -/
theorem foldlM_readLine {lines : List String} {uncoveredOnly : Bool} {s final : LcovState} :
    lines.zipIdx.foldlM (fun s raw => s.readLine uncoveredOnly raw.2 (trimReturns raw.1)) s =
        .ok final ↔
      ∃ ds : List LcovDirective, (lines.map trimReturns).map lcovDirective = ds.map some ∧
        ds.zipIdx.foldlM (fun s d => s.enter uncoveredOnly d.2 d.1) s = .ok final := by
  induction lines using List.reverseRecOn generalizing final with
  | nil => simp
  | append_singleton lines line ih =>
    rw [Loop.zipIdx_concat, Loop.foldlM_concat_eq_ok_iff]
    constructor
    · rintro ⟨state, hbefore, hlast⟩
      obtain ⟨ds, hds, henter⟩ := ih.mp hbefore
      obtain ⟨d, hd, hnext⟩ := readLine_eq_ok_iff.mp hlast
      have hlength : lines.length = ds.length := by simpa using congrArg List.length hds
      refine ⟨ds ++ [d], by simp only [List.map_append, hds, List.map_singleton, hd], ?_⟩
      rw [Loop.zipIdx_concat, Loop.foldlM_concat_eq_ok_iff, ← hlength]
      exact ⟨state, henter, hnext⟩
    · rintro ⟨ds, hds, henter⟩
      rw [List.map_append, List.map_append, List.append_eq_map_iff] at hds
      obtain ⟨before, last, rfl, hbefore, hlast⟩ := hds
      obtain ⟨d, rfl, hd⟩ := List.map_eq_singleton_iff.mp hlast
      have hlength : lines.length = before.length := by
        simpa using (congrArg List.length hbefore).symm
      rw [Loop.zipIdx_concat, Loop.foldlM_concat_eq_ok_iff, ← hlength] at henter
      obtain ⟨state, hfirst, hnext⟩ := henter
      exact ⟨state, ih.mpr ⟨before, hbefore.symm, hfirst⟩,
        readLine_eq_ok_iff.mpr ⟨d, hd.symm, hnext⟩⟩

/-- The loop over the physical lines reads the directives of the report. -/
theorem foldlM_step {text : String} {uncoveredOnly : Bool} {s final : LcovState} :
    (splitText '\n' text).zipIdx.foldlM
        (LcovState.step uncoveredOnly (splitText '\n' text).length) s = .ok final ↔
      ∃ ds : List LcovDirective, (lcovLines text).map lcovDirective = ds.map some ∧
        ds.zipIdx.foldlM (fun s d => s.enter uncoveredOnly d.2 d.1) s = .ok final := by
  obtain ⟨before, last, hlines⟩ : ∃ before last, splitText '\n' text = before ++ [last] :=
    ⟨_, _, (List.dropLast_append_getLast (splitText_ne_nil '\n' text)).symm⟩
  have hbefore : before.zipIdx.foldlM (LcovState.step uncoveredOnly (before ++ [last]).length) s =
      before.zipIdx.foldlM
        (fun s raw => s.readLine uncoveredOnly raw.2 (trimReturns raw.1)) s := by
    refine Loop.foldlM_congr fun raw hraw state => ?_
    have hlt := List.snd_lt_of_mem_zipIdx hraw
    rw [LcovState.step, if_neg]
    rintro ⟨-, hindex⟩
    rw [List.length_append, List.length_singleton] at hindex
    omega
  have hlast : ∀ state, LcovState.step uncoveredOnly (before ++ [last]).length state
      (last, before.length) = if trimReturns last = "" then .ok state
        else state.readLine uncoveredOnly before.length (trimReturns last) := by
    intro state
    simp [LcovState.step]
  rw [hlines, lcovLines, hlines, Loop.zipIdx_concat, Loop.foldlM_concat, hbefore]
  simp only [hlast, List.map_append, List.map_singleton, List.getLast?_concat, Option.some.injEq,
    List.dropLast_concat]
  by_cases hempty : trimReturns last = ""
  · simp only [if_pos hempty]
    rw [← foldlM_readLine]
    cases before.zipIdx.foldlM
      (fun s raw => s.readLine uncoveredOnly raw.2 (trimReturns raw.1)) s <;> rfl
  · simp only [if_neg hempty]
    rw [← List.map_singleton (f := trimReturns), ← List.map_append, ← foldlM_readLine,
      Loop.zipIdx_concat, Loop.foldlM_concat]

/-! ## What a report says so far -/

namespace LcovDirective

/-- A new record. -/
@[simp] def isSource : LcovDirective → Bool
  | .source _ => true
  | _ => false

/-- The name of a test. -/
@[simp] def isTest : LcovDirective → Bool
  | .test _ => true
  | _ => false

/-- A line that was run. -/
@[simp] def isCovered : LcovDirective → Bool
  | .data _ count _ => 0 < count
  | _ => false

/-- The file of a record. -/
@[simp] def fileOf : LcovDirective → Option String
  | .source file => some file
  | _ => none

/-- The name of a test. -/
@[simp] def nameOf : LcovDirective → Option String
  | .test name => some name
  | _ => none

/-- The number of a line. -/
@[simp] def numberOf : LcovDirective → Option ℕ
  | .data number _ _ => some number
  | _ => none

/-- The declared number of lines. -/
@[simp] def foundOf : LcovDirective → Option ℕ
  | .found n => some n
  | _ => none

/-- The declared number of lines that were run. -/
@[simp] def hitOf : LcovDirective → Option ℕ
  | .hit n => some n
  | _ => none

end LcovDirective

open LcovDirective

/-- The files of the records. -/
def lcovSources (ds : List LcovDirective) : List String := ds.filterMap fileOf

/-- The directives behind the last `SF`. -/
def sinceSource (ds : List LcovDirective) : List LcovDirective :=
  ds.rtakeWhile fun d => !d.isSource

/-- The directives behind the last `end_of_record`. -/
def sinceEnding (ds : List LcovDirective) : List LcovDirective :=
  ds.rtakeWhile fun d => decide (d ≠ .ending)

/-- A record is open. -/
def inRecord (ds : List LcovDirective) : Bool := (sinceEnding ds).any isSource

/-- A test has a name and no record yet. -/
def testPending (ds : List LcovDirective) : Bool := (sinceSource ds).any isTest

/-- The name of the test that a record belongs to. -/
def testBefore (ds : List LcovDirective) : String :=
  ((sinceEnding ds).filterMap nameOf).getLast?.getD ""

/-- The file of the last record. -/
def fileBefore (ds : List LcovDirective) : String := (lcovSources ds).getLast?.getD ""

/-- The lines that some directives count. -/
def lineNumbers (ds : List LcovDirective) : List ℕ := ds.filterMap numberOf

/-- The lines that were run. -/
def coveredLines (ds : List LcovDirective) : List LcovDirective := ds.filter isCovered

/-- What a directive observes behind other directives. -/
def observe (before : List LcovDirective) : LcovDirective → Option LcovObservation
  | .data number count checksum => some ⟨(lcovSources before).length, before.length + 1,
      testBefore before, fileBefore before, number, count, checksum⟩
  | _ => none

/-- Every counted line, with its record and its physical line. -/
def observations (ds : List LcovDirective) : List LcovObservation :=
  ds.zipIdx.filterMap fun d => observe (ds.take d.2) d.1

/-- The observations that are listed. -/
def lcovListing (uncoveredOnly : Bool) (ds : List LcovDirective) : List LcovObservation :=
  (observations ds).filter fun o => !uncoveredOnly || o.count == 0

/-- The table of a report. -/
def lcovText (uncoveredOnly : Bool) (ds : List LcovDirective) : String :=
  csvText (lcovHeader :: (lcovListing uncoveredOnly ds).map LcovObservation.cells)

/-- The variables of the loop behind some directives. -/
def LcovState.behind (uncoveredOnly : Bool) (ds : List LcovDirective) : LcovState where
  output := .ofText (lcovText uncoveredOnly ds)
  testName := testBefore ds
  sourceFile := fileBefore ds
  active := inRecord ds
  pendingTest := testPending ds
  records := (lcovSources ds).length
  total := (lineNumbers ds).length
  covered := (coveredLines ds).length
  rows := (lcovListing uncoveredOnly ds).length
  recordLines := (lineNumbers (sinceSource ds)).length
  recordCovered := (coveredLines (sinceSource ds)).length
  found := ((sinceSource ds).filterMap foundOf).getLast?
  hit := ((sinceSource ds).filterMap hitOf).getLast?
  seen := lineNumbers (sinceSource ds)

/-- A directive is allowed behind other directives. -/
def LcovDirective.Allowed (uncoveredOnly : Bool) (before : List LcovDirective) :
    LcovDirective → Prop
  | .ending => inRecord before = true ∧
      (∀ n, ((sinceSource before).filterMap foundOf).getLast? = some n →
        n = (lineNumbers (sinceSource before)).length) ∧
      ∀ n, ((sinceSource before).filterMap hitOf).getLast? = some n →
        n = (coveredLines (sinceSource before)).length
  | .test _ => inRecord before = false ∧ testPending before = false
  | .source file => inRecord before = false ∧ file ≠ "" ∧ (lcovSources before).length < 1000
  | .data number count checksum => inRecord before = true ∧ 0 < number ∧
      number ∉ lineNumbers (sinceSource before) ∧ (lineNumbers before).length < 10000 ∧
      (uncoveredOnly = false ∨ count = 0 →
        utf8Length (lcovText uncoveredOnly (before ++ [.data number count checksum])) ≤ 1048576)
  | .found _ => inRecord before = true ∧ ((sinceSource before).filterMap foundOf) = []
  | .hit _ => inRecord before = true ∧ ((sinceSource before).filterMap hitOf) = []
  | .metadata => inRecord before = true

/-! ## One more directive -/

/-- One more directive adds its observation, if it has one. -/
theorem observations_concat (ds : List LcovDirective) (d : LcovDirective) :
    observations (ds ++ [d]) = observations ds ++ (observe ds d).toList := by
  rw [observations, observations, Loop.zipIdx_concat, List.filterMap_append]
  congr 1
  · refine List.filterMap_congr fun item hitem => ?_
    have hlt := List.snd_lt_of_mem_zipIdx hitem
    rw [List.take_append_of_le_length (by omega)]
  · cases h : observe ds d <;> simp [h]

/-- The record starts anew at a source file. -/
@[simp] theorem sinceSource_concat (ds : List LcovDirective) (d : LcovDirective) :
    sinceSource (ds ++ [d]) = if d.isSource = true then [] else sinceSource ds ++ [d] := by
  rw [sinceSource, List.rtakeWhile_concat]
  cases d.isSource <;> rfl

/-- The directives start anew behind the end of a record. -/
@[simp] theorem sinceEnding_concat (ds : List LcovDirective) (d : LcovDirective) :
    sinceEnding (ds ++ [d]) = if d = .ending then [] else sinceEnding ds ++ [d] := by
  rw [sinceEnding, List.rtakeWhile_concat]
  by_cases h : d = .ending <;> simp [h, sinceEnding]

/-- One more directive adds its row, unless only uncovered lines are listed. -/
theorem lcovListing_concat (uncoveredOnly : Bool) (ds : List LcovDirective) (d : LcovDirective) :
    lcovListing uncoveredOnly (ds ++ [d]) = lcovListing uncoveredOnly ds ++
      (observe ds d).toList.filter fun o => !uncoveredOnly || o.count == 0 := by
  rw [lcovListing, observations_concat, List.filter_append]
  rfl

/-- One more directive adds its row to the text. -/
theorem lcovText_concat (uncoveredOnly : Bool) (ds : List LcovDirective) (d : LcovDirective) :
    lcovText uncoveredOnly (ds ++ [d]) = lcovText uncoveredOnly ds ++
      csvText (((observe ds d).toList.filter fun o => !uncoveredOnly || o.count == 0).map
        LcovObservation.cells) := by
  rw [lcovText, lcovListing_concat, List.map_append, ← List.cons_append, csvText_append]
  rfl

/-- A directive that is no counted line adds nothing to the table. -/
theorem behind_of_not_data (uncoveredOnly : Bool) (ds : List LcovDirective) {d : LcovDirective}
    (h : observe ds d = none) :
    lcovListing uncoveredOnly (ds ++ [d]) = lcovListing uncoveredOnly ds ∧
      lcovText uncoveredOnly (ds ++ [d]) = lcovText uncoveredOnly ds := by
  rw [lcovListing_concat, lcovText_concat, h]
  simp [csvText_nil]

/-- A declaration is contradicted exactly when it declares another number. -/
theorem any_ne_eq_true_iff {declared : Option ℕ} {n : ℕ} :
    declared.any (fun m => decide (m ≠ n)) = true ↔ ¬∀ m, declared = some m → m = n := by
  cases declared <;> simp

variable {before : List LcovDirective} {next : LcovState}

/-- The end of a record is accepted exactly where it is allowed. -/
theorem endRecord_behind {uncoveredOnly : Bool} :
    (LcovState.behind uncoveredOnly before).endRecord = .ok next ↔
      LcovDirective.ending.Allowed uncoveredOnly before ∧
        next = .behind uncoveredOnly (before ++ [.ending]) := by
  obtain ⟨hlisting, htext⟩ := behind_of_not_data uncoveredOnly before
    (d := .ending) rfl
  have hbehind : LcovState.behind uncoveredOnly (before ++ [.ending]) =
      { LcovState.behind uncoveredOnly before with active := false, testName := "" } := by
    simp [LcovState.behind, hlisting, htext, inRecord, testBefore, fileBefore, lcovSources,
      testPending, lineNumbers, coveredLines]
  rw [LcovState.endRecord, hbehind, LcovDirective.Allowed, Loop.guard_eq_ok_iff,
    Loop.guard_eq_ok_iff, Loop.guard_eq_ok_iff, any_ne_eq_true_iff, any_ne_eq_true_iff,
    Bool.not_eq_false, not_not, not_not, Except.ok.injEq, eq_comm (a := next), and_assoc, and_assoc]
  rfl

/-- The name of a test is accepted exactly where it is allowed. -/
theorem nameTest_behind {uncoveredOnly : Bool} {name : String} :
    (LcovState.behind uncoveredOnly before).nameTest name = .ok next ↔
      (LcovDirective.test name).Allowed uncoveredOnly before ∧
        next = .behind uncoveredOnly (before ++ [.test name]) := by
  obtain ⟨hlisting, htext⟩ := behind_of_not_data uncoveredOnly before
    (d := .test name) rfl
  have hbehind : LcovState.behind uncoveredOnly (before ++ [.test name]) =
      { LcovState.behind uncoveredOnly before with testName := name, pendingTest := true } := by
    simp [LcovState.behind, hlisting, htext, inRecord, testBefore, fileBefore, lcovSources,
      testPending, lineNumbers, coveredLines]
  rw [LcovState.nameTest, hbehind, LcovDirective.Allowed, Loop.guard_eq_ok_iff, not_or,
    Bool.not_eq_true, Bool.not_eq_true, Except.ok.injEq, eq_comm (a := next)]
  rfl

/-- A source file is accepted exactly where it is allowed. -/
theorem openRecord_behind {uncoveredOnly : Bool} {file : String} :
    (LcovState.behind uncoveredOnly before).openRecord file = .ok next ↔
      (LcovDirective.source file).Allowed uncoveredOnly before ∧
        next = .behind uncoveredOnly (before ++ [.source file]) := by
  obtain ⟨hlisting, htext⟩ := behind_of_not_data uncoveredOnly before
    (d := .source file) rfl
  have hbehind : LcovState.behind uncoveredOnly (before ++ [.source file]) =
      { LcovState.behind uncoveredOnly before with
        active := true, pendingTest := false, sourceFile := file
        records := (LcovState.behind uncoveredOnly before).records + 1
        recordLines := 0, recordCovered := 0, found := none, hit := none, seen := [] } := by
    simp [LcovState.behind, hlisting, htext, inRecord, testBefore, fileBefore, lcovSources,
      testPending, lineNumbers, coveredLines]
  have hlt : ¬1000 < (LcovState.behind uncoveredOnly before).records + 1 ↔
      (lcovSources before).length < 1000 := by
    dsimp only [LcovState.behind]
    omega
  rw [LcovState.openRecord, hbehind, LcovDirective.Allowed, Loop.guard_eq_ok_iff,
    Loop.guard_eq_ok_iff, hlt, not_or, Bool.not_eq_true, Except.ok.injEq, eq_comm (a := next),
    and_assoc, and_assoc, and_assoc]
  rfl

/-- A declared number of lines is accepted exactly where it is allowed. -/
theorem enter_found_behind {uncoveredOnly : Bool} {index n : ℕ} :
    (LcovState.behind uncoveredOnly before).enter uncoveredOnly index (.found n) = .ok next ↔
      (LcovDirective.found n).Allowed uncoveredOnly before ∧
        next = .behind uncoveredOnly (before ++ [.found n]) := by
  obtain ⟨hlisting, htext⟩ := behind_of_not_data uncoveredOnly before
    (d := .found n) rfl
  have hbehind : LcovState.behind uncoveredOnly (before ++ [.found n]) =
      { LcovState.behind uncoveredOnly before with found := some n } := by
    simp [LcovState.behind, hlisting, htext, inRecord, testBefore, fileBefore, lcovSources,
      testPending, lineNumbers, coveredLines]
  have hnone : (LcovState.behind uncoveredOnly before).found.isSome = false ↔
      (sinceSource before).filterMap foundOf = [] := by
    rw [Option.isSome_eq_false_iff, Option.isNone_iff_eq_none]
    exact List.getLast?_eq_none_iff
  rw [LcovState.enter, hbehind, LcovDirective.Allowed, Loop.guard_eq_ok_iff, not_or,
    Bool.not_eq_false, Bool.not_eq_true, hnone, Except.ok.injEq, eq_comm (a := next)]
  rfl

/-- A declared number of covered lines is accepted exactly where it is allowed. -/
theorem enter_hit_behind {uncoveredOnly : Bool} {index n : ℕ} :
    (LcovState.behind uncoveredOnly before).enter uncoveredOnly index (.hit n) = .ok next ↔
      (LcovDirective.hit n).Allowed uncoveredOnly before ∧
        next = .behind uncoveredOnly (before ++ [.hit n]) := by
  obtain ⟨hlisting, htext⟩ := behind_of_not_data uncoveredOnly before
    (d := .hit n) rfl
  have hbehind : LcovState.behind uncoveredOnly (before ++ [.hit n]) =
      { LcovState.behind uncoveredOnly before with hit := some n } := by
    simp [LcovState.behind, hlisting, htext, inRecord, testBefore, fileBefore, lcovSources,
      testPending, lineNumbers, coveredLines]
  have hnone : (LcovState.behind uncoveredOnly before).hit.isSome = false ↔
      (sinceSource before).filterMap hitOf = [] := by
    rw [Option.isSome_eq_false_iff, Option.isNone_iff_eq_none]
    exact List.getLast?_eq_none_iff
  rw [LcovState.enter, hbehind, LcovDirective.Allowed, Loop.guard_eq_ok_iff, not_or,
    Bool.not_eq_false, Bool.not_eq_true, hnone, Except.ok.injEq, eq_comm (a := next)]
  rfl

/-- Metadata is accepted exactly where it is allowed. -/
theorem metadata_behind {uncoveredOnly : Bool} :
    (LcovState.behind uncoveredOnly before).metadata = .ok next ↔
      LcovDirective.metadata.Allowed uncoveredOnly before ∧
        next = .behind uncoveredOnly (before ++ [.metadata]) := by
  obtain ⟨hlisting, htext⟩ := behind_of_not_data uncoveredOnly before
    (d := .metadata) rfl
  have hbehind : LcovState.behind uncoveredOnly (before ++ [.metadata]) =
      LcovState.behind uncoveredOnly before := by
    simp [LcovState.behind, hlisting, htext, inRecord, testBefore, fileBefore, lcovSources,
      testPending, lineNumbers, coveredLines]
  rw [LcovState.metadata, hbehind, LcovDirective.Allowed, Loop.guard_eq_ok_iff,
    Bool.not_eq_false, Except.ok.injEq, eq_comm (a := next)]
  rfl

/-- A data line is accepted exactly where it is allowed. -/
theorem countLine_behind {uncoveredOnly : Bool} {number count : ℕ}
    {checksum : String} :
    (LcovState.behind uncoveredOnly before).enter uncoveredOnly before.length
        (.data number count checksum) = .ok next ↔
      (LcovDirective.data number count checksum).Allowed uncoveredOnly before ∧
        next = .behind uncoveredOnly (before ++ [.data number count checksum]) := by
  have hseen : ¬(number = 0 ∨ number ∈ (LcovState.behind uncoveredOnly before).seen) ↔
      0 < number ∧ number ∉ lineNumbers (sinceSource before) := by
    rw [not_or, Nat.pos_iff_ne_zero]
    rfl
  have htotal : ¬10000 < (LcovState.behind uncoveredOnly before).total + 1 ↔
      (lineNumbers before).length < 10000 := by
    dsimp only [LcovState.behind]
    omega
  rw [LcovState.enter, LcovState.countLine, LcovDirective.Allowed, Loop.guard_eq_ok_iff,
    Loop.guard_eq_ok_iff, Loop.guard_eq_ok_iff, hseen, htotal, Bool.not_eq_false]
  simp only [and_assoc]
  refine and_congr_right' (and_congr_right' (and_congr_right' (and_congr_right' ?_)))
  have hobserve : (observe before (.data number count checksum)).toList =
      [⟨(lcovSources before).length, before.length + 1, testBefore before, fileBefore before,
        number, count, checksum⟩] := rfl
  have hbehind : LcovState.behind uncoveredOnly (before ++ [.data number count checksum]) =
      { LcovState.behind uncoveredOnly before with
        output := .ofText (lcovText uncoveredOnly (before ++ [.data number count checksum]))
        rows := (lcovListing uncoveredOnly (before ++ [.data number count checksum])).length
        seen := lineNumbers (sinceSource before) ++ [number]
        recordLines := (lineNumbers (sinceSource before)).length + 1
        total := (lineNumbers before).length + 1
        covered := (coveredLines before).length + if 0 < count then 1 else 0
        recordCovered := (coveredLines (sinceSource before)).length +
          if 0 < count then 1 else 0 } := by
    by_cases hcount : 0 < count <;>
      simp [LcovState.behind, inRecord, testBefore, fileBefore, lcovSources, testPending,
        lineNumbers, coveredLines, hcount]
  by_cases hlisted : uncoveredOnly = false ∨ count = 0
  · have hkept : (!uncoveredOnly || count == 0) = true := by simpa using hlisted
    rw [if_pos hlisted, hbehind, lcovText_concat, lcovListing_concat, hobserve,
      List.filter_singleton]
    simp only [hkept, cond_true, List.map_singleton, csvText_singleton, forall_const, hlisted]
    dsimp only [LcovState.behind]
    rw [write_ofText]
    by_cases hfits : utf8Length (lcovText uncoveredOnly before ++ enrichedCsvRecord
        (LcovObservation.cells ⟨(lcovSources before).length, before.length + 1, testBefore before,
          fileBefore before, number, count, checksum⟩)) ≤ 1048576
    · rw [if_pos hfits, and_iff_right hfits, eq_comm (a := next), List.length_append,
        List.length_singleton]
      exact ⟨Except.ok.inj, congrArg Except.ok⟩
    · rw [if_neg hfits]
      exact iff_of_false nofun fun h => hfits h.1
  · have hkept : (!uncoveredOnly || count == 0) = false := by simpa using hlisted
    rw [if_neg hlisted, hbehind, lcovText_concat, lcovListing_concat, hobserve,
      List.filter_singleton]
    simp only [hkept, hlisted, cond_false, List.map_nil, csvText_nil, String.append_empty,
      List.append_nil, false_implies, true_and, Except.ok.injEq, eq_comm (a := next)]
    rfl

variable {d : LcovDirective}

/-- The state behind some directives takes one more exactly when it is allowed there. -/
theorem enter_behind {uncoveredOnly : Bool} :
    (LcovState.behind uncoveredOnly before).enter uncoveredOnly before.length d = .ok next ↔
      d.Allowed uncoveredOnly before ∧ next = .behind uncoveredOnly (before ++ [d]) := by
  cases d with
  | ending => exact endRecord_behind
  | test name => exact nameTest_behind
  | source file => exact openRecord_behind
  | data number count checksum => exact countLine_behind
  | found n => exact enter_found_behind
  | hit n => exact enter_hit_behind
  | metadata => exact metadata_behind

/-- A report whose directives are allowed where they stand. -/
structure LcovReport (uncoveredOnly : Bool) (ds : List LcovDirective) : Prop where
  allowed : ∀ before d after, ds = before ++ d :: after → d.Allowed uncoveredOnly before
  closed : inRecord ds = false
  noTest : testPending ds = false
  nonempty : lcovSources ds ≠ []

/-- The table of a report. -/
def LcovTable.of (uncoveredOnly : Bool) (ds : List LcovDirective) : LcovTable :=
  ⟨lcovText uncoveredOnly ds, (lcovSources ds).length, (lineNumbers ds).length,
    (coveredLines ds).length, (lcovListing uncoveredOnly ds).length⟩

/-- The header of the table is within its limit. -/
theorem utf8Length_lcovText_nil (uncoveredOnly : Bool) :
    utf8Length (lcovText uncoveredOnly []) ≤ 1048576 := by
  rw [lcovText, lcovListing, observations, List.zipIdx_nil, List.filterMap_nil, List.filter_nil,
    List.map_nil, utf8Length_csvText]
  decide

/-- The reader accepts the reports of at most 1 MiB and gives their tables. -/
theorem retainedLcovCsv_eq_ok_iff {text : String} {uncoveredOnly : Bool} {table : LcovTable} :
    retainedLcovCsv text uncoveredOnly = .ok table ↔
      utf8Length text ≤ 1048576 ∧ ∃ ds : List LcovDirective,
        (lcovLines text).map lcovDirective = ds.map some ∧ LcovReport uncoveredOnly ds ∧
          table = .of uncoveredOnly ds := by
  have hheader : CsvCandidate.empty.write lcovTooLarge lcovHeader =
      .ok (.ofText (lcovText uncoveredOnly [])) := by
    have hempty : CsvCandidate.empty = .ofText "" := rfl
    have htext : enrichedCsvRecord lcovHeader = lcovText uncoveredOnly [] :=
      (csvText_singleton lcovHeader).symm
    rw [hempty, write_ofText, String.empty_append, htext, if_pos (utf8Length_lcovText_nil _)]
  have hstart : LcovState.behind uncoveredOnly [] =
      .start (.ofText (lcovText uncoveredOnly [])) := rfl
  have hloop : ∀ {ds : List LcovDirective} {s : LcovState},
      ds.zipIdx.foldlM (fun (s : LcovState) d => s.enter uncoveredOnly d.2 d.1)
          (LcovState.start (.ofText (lcovText uncoveredOnly []))) = .ok s ↔
        (∀ before d after, ds = before ++ d :: after → d.Allowed uncoveredOnly before) ∧
          s = .behind uncoveredOnly ds :=
    Loop.foldlM_zipIdx_eq_ok_iff hstart fun before d next => enter_behind
  have hguard : ∀ ds : List LcovDirective,
      ¬((LcovState.behind uncoveredOnly ds).active = true ∨
        (LcovState.behind uncoveredOnly ds).pendingTest = true ∨
          (LcovState.behind uncoveredOnly ds).records = 0) ↔
        inRecord ds = false ∧ testPending ds = false ∧ lcovSources ds ≠ [] := by
    intro ds
    simp only [LcovState.behind, not_or, Bool.not_eq_true, List.length_eq_zero_iff, ne_eq]
  rw [retainedLcovCsv, Loop.guard_eq_ok_iff, Nat.not_lt, hheader]
  refine and_congr_right' ?_
  have hbind : ∀ f : CsvCandidate → Except String LcovTable,
      (Except.ok (CsvCandidate.ofText (lcovText uncoveredOnly [])) >>= f) =
        f (.ofText (lcovText uncoveredOnly [])) := fun f => rfl
  rw [hbind, Loop.bind_eq_ok_iff]
  constructor
  · rintro ⟨s, hs, htable⟩
    obtain ⟨ds, hds, hfold⟩ := foldlM_step.mp hs
    obtain ⟨hallowed, rfl⟩ := hloop.mp hfold
    rw [Loop.guard_eq_ok_iff, hguard] at htable
    obtain ⟨⟨hclosed, hnone, hnonempty⟩, hresult⟩ := htable
    exact ⟨ds, hds, ⟨hallowed, hclosed, hnone, hnonempty⟩, (Except.ok.inj hresult).symm⟩
  · rintro ⟨ds, hds, hreport, rfl⟩
    have hfold := hloop.mpr ⟨hreport.allowed, rfl⟩
    refine ⟨.behind uncoveredOnly ds, foldlM_step.mpr ⟨ds, hds, hfold⟩, ?_⟩
    rw [Loop.guard_eq_ok_iff, hguard]
    exact ⟨⟨hreport.closed, hreport.noTest, hreport.nonempty⟩, rfl⟩

/-! ## The open record -/

/-- What is behind the last place where a test fails. -/
theorem rtakeWhile_append {α : Type} {p : α → Bool} (a : List α) {b : List α}
    (h : ∀ item ∈ b, p item = true) : (a ++ b).rtakeWhile p = a.rtakeWhile p ++ b := by
  rw [List.rtakeWhile, List.reverse_append,
    List.takeWhile_append_of_pos (by simpa using h), List.reverse_append, List.reverse_reverse]
  rfl

/-- The place of the record that is open in front of a line. -/
structure Opened (ds : List LcovDirective) (i j : ℕ) (file : String) : Prop where
  before : j < i
  source : ds[j]? = some (.source file)
  unbroken : ∀ k d, j < k → k < i → ds[k]? = some d → d.isSource = false ∧ d ≠ .ending

/-- What is in front of a line and behind another one. -/
def between (ds : List LcovDirective) (j i : ℕ) : List LcovDirective := (ds.take i).drop (j + 1)

/-- What stands between two positions of a report. -/
theorem mem_between {ds : List LcovDirective} {i j : ℕ} :
    d ∈ between ds j i ↔ ∃ k, j < k ∧ k < i ∧ ds[k]? = some d := by
  rw [between, List.mem_iff_getElem?]
  constructor
  · rintro ⟨k, hk⟩
    rw [List.getElem?_drop, List.getElem?_take] at hk
    by_cases hki : j + 1 + k < i
    · rw [if_pos hki] at hk
      exact ⟨j + 1 + k, by omega, hki, hk⟩
    · rw [if_neg hki] at hk
      cases hk
  · rintro ⟨k, hjk, hki, hk⟩
    refine ⟨k - (j + 1), ?_⟩
    rw [List.getElem?_drop, show j + 1 + (k - (j + 1)) = k by omega, List.getElem?_take_of_lt hki]
    exact hk

/-- The directives in front of a line, around a directive. -/
theorem take_eq_append {ds : List LcovDirective} {i j : ℕ} (hlt : j < i)
    (hj : ds[j]? = some d) : ds.take i = ds.take j ++ d :: between ds j i := by
  have hd : (ds.take i)[j]? = some d := by rw [List.getElem?_take_of_lt hlt, hj]
  obtain ⟨hlength, hget⟩ := List.getElem?_eq_some_iff.mp hd
  rw [between, ← hget, List.getElem_cons_drop, show ds.take j = (ds.take i).take j by
    rw [List.take_take, Nat.min_eq_left hlt.le], List.take_append_drop]

/-- A record is open in front of a line exactly when the last `SF` has no end yet. -/
theorem inRecord_take_iff {ds : List LcovDirective} {i : ℕ} (hi : i ≤ ds.length) :
    inRecord (ds.take i) = true ↔ ∃ j file, Opened ds i j file := by
  induction i with
  | zero =>
    refine iff_of_false (by simp [inRecord, sinceEnding]) ?_
    rintro ⟨j, file, h⟩
    exact absurd h.before (Nat.not_lt_zero j)
  | succ i ih =>
    have hlast : ds[i]? = some ds[i] := List.getElem?_eq_getElem (by omega)
    have htake : ds.take (i + 1) = ds.take i ++ [ds[i]] := by rw [List.take_add_one, hlast]; rfl
    have hstep : ∀ {j file}, ds[i].isSource = false ∧ ds[i] ≠ .ending →
        (Opened ds (i + 1) j file ↔ Opened ds i j file) := by
      intro j file hplain
      constructor
      · intro h
        have hne : j ≠ i := by
          rintro rfl
          have hsource := h.source
          rw [hlast, Option.some.injEq] at hsource
          rw [hsource] at hplain
          exact absurd hplain.1 (by simp)
        have hlt := h.before
        exact ⟨by omega, h.source, fun k d hjk hki => h.unbroken k d hjk (by omega)⟩
      · intro h
        have hlt := h.before
        refine ⟨by omega, h.source, fun k d hjk hki hk => ?_⟩
        by_cases heq : k = i
        · subst heq
          rw [hlast, Option.some.injEq] at hk
          exact hk ▸ hplain
        · exact h.unbroken k d hjk (by omega) hk
    rw [htake, inRecord, sinceEnding_concat]
    by_cases hend : ds[i] = .ending
    · rw [if_pos hend]
      refine iff_of_false (by simp) ?_
      rintro ⟨j, file, h⟩
      have hlt := h.before
      by_cases heq : j = i
      · subst heq
        have hsource := h.source
        rw [hlast, hend] at hsource
        cases hsource
      · exact (h.unbroken i _ (by omega) (by omega) hlast).2 hend
    · rw [if_neg hend, List.any_append, List.any_cons, List.any_nil, Bool.or_false]
      cases hsource : ds[i].isSource with
      | true =>
        rw [Bool.or_true]
        refine iff_of_true rfl ?_
        cases hd : ds[i] <;> rw [hd] at hsource <;> try cases hsource
        rename_i file
        exact ⟨i, file, by omega, by rw [hlast, hd], fun k d hik hki => by omega⟩
      | false =>
        rw [Bool.or_false]
        exact (ih (by omega)).trans (exists_congr fun j => exists_congr fun file =>
          (hstep ⟨hsource, hend⟩).symm)

/-- A record that is open at a line is open at every line in between. -/
theorem Opened.front {ds : List LcovDirective} {i j k : ℕ} {file : String}
    (h : Opened ds i j file) (hjk : j < k) (hki : k ≤ i) : Opened ds k j file :=
  ⟨hjk, h.source, fun l d hjl hlk => h.unbroken l d hjl (by omega)⟩

section Record

variable {ds : List LcovDirective} {i j : ℕ} {file : String} (h : Opened ds i j file)

include h

/-- The directives of the open record are those behind its source file. -/
theorem Opened.sinceSource_eq : sinceSource (ds.take i) = between ds j i := by
  rw [take_eq_append h.before h.source, ← List.singleton_append, ← List.append_assoc, sinceSource,
    rtakeWhile_append, List.rtakeWhile_concat_neg _ _ _ (by simp), List.nil_append]
  intro d hd
  obtain ⟨k, hjk, hki, hk⟩ := mem_between.mp hd
  rw [(h.unbroken k d hjk hki hk).1]
  rfl

/-- The file of the open record is the one its source line names. -/
theorem Opened.fileBefore_eq : fileBefore (ds.take i) = file := by
  have hnone : lcovSources (between ds j i) = [] := by
    refine List.filterMap_eq_nil_iff.mpr fun d hd => ?_
    obtain ⟨k, hjk, hki, hk⟩ := mem_between.mp hd
    have hplain := (h.unbroken k d hjk hki hk).1
    cases d <;> first | rfl | cases hplain
  rw [fileBefore, take_eq_append h.before h.source, lcovSources, List.filterMap_append,
    List.filterMap_cons]
  rw [lcovSources] at hnone
  simp [hnone]

end Record

/-! ## Exactness -/

/-- The directives of a text. -/
def lcovDirectives (text : String) : List LcovDirective := (lcovLines text).filterMap lcovDirective

/-- What a report counts. -/
structure LcovExact (uncoveredOnly : Bool) (ds : List LcovDirective) (table : LcovTable) :
    Prop where
  /-- Each `DA` line is one observation of the record of the nearest `SF`. -/
  counted : ∀ o, o ∈ observations ds ↔ ∃ i j file number count checksum,
    ds[i]? = some (.data number count checksum) ∧ Opened ds i j file ∧
      o = ⟨(lcovSources (ds.take i)).length, i + 1, testBefore (ds.take i), file, number, count,
        checksum⟩
  once : (observations ds).Pairwise fun o p => o.reportLine < p.reportLine
  total : table.total = (observations ds).length
  covered : table.covered = ((observations ds).filter fun o => decide (0 < o.count)).length
  covered_le : table.covered ≤ table.total
  records : table.records = (lcovSources ds).length
  listed : ∃ listing : List LcovObservation,
    listing = (if uncoveredOnly then (observations ds).filter fun o => decide (o.count = 0)
      else observations ds) ∧
    table.rows = listing.length ∧
    table.csv = csvText (lcovHeader :: listing.map LcovObservation.cells)
  /-- At its end, a record has the declared numbers of lines. -/
  ended : ∀ i, ds[i]? = some .ending → ∃ j file, Opened ds i j file ∧
    (coveredLines (between ds j i)).length ≤ (lineNumbers (between ds j i)).length ∧
    (∀ n, .found n ∈ between ds j i → n = (lineNumbers (between ds j i)).length) ∧
    ∀ n, .hit n ∈ between ds j i → n = (coveredLines (between ds j i)).length

/-- What is wrong with a report. -/
inductive LcovDefect (ds : List LcovDirective) : Prop
  /-- Two lines of one record have the same number. -/
  | duplicate (i j : ℕ) (number count count' : ℕ) (checksum checksum' : String) (hlt : i < j)
    (hi : ds[i]? = some (.data number count checksum))
    (hj : ds[j]? = some (.data number count' checksum'))
    (hsame : ∀ k file, i < k → k < j → ds[k]? ≠ some (.source file))
  /-- A directive that needs a record is outside of all records. -/
  | outside (i : ℕ) (d : LcovDirective) (hd : ds[i]? = some d) (htest : d.isTest = false)
    (hsource : d.isSource = false) (hout : ∀ j file, ¬Opened ds i j file)
  /-- A record has no end before the next one or the end of the text. -/
  | unclosed (i stop : ℕ) (file : String) (hi : ds[i]? = some (.source file)) (hlt : i < stop)
    (hstop : stop = ds.length ∨ ∃ next, ds[stop]? = some (.source next))
    (hopen : ∀ k, i < k → k < stop → ds[k]? ≠ some .ending)

/-- An observation is that of some directive behind those in front of it. -/
theorem mem_observations {ds : List LcovDirective} {o : LcovObservation} :
    o ∈ observations ds ↔ ∃ i d, ds[i]? = some d ∧ observe (ds.take i) d = some o := by
  rw [observations, List.mem_filterMap]
  constructor
  · rintro ⟨⟨d, i⟩, hmem, ho⟩
    exact ⟨i, d, List.mem_zipIdx_iff_getElem?.mp hmem, ho⟩
  · rintro ⟨i, d, hd, ho⟩
    exact ⟨(d, i), List.mem_zipIdx_iff_getElem?.mpr hd, ho⟩

/-- Only data lines are observations, with the test and the file they stand under. -/
theorem observe_eq_some_iff
    {o : LcovObservation} : observe before d = some o ↔ ∃ number count checksum,
      d = .data number count checksum ∧ o = ⟨(lcovSources before).length, before.length + 1,
        testBefore before, fileBefore before, number, count, checksum⟩ := by
  cases d <;> simp [observe, eq_comm]

/-- An observation stands in a line of the report. -/
theorem reportLine_le_of_mem {ds : List LcovDirective} {o : LcovObservation}
    (h : o ∈ observations ds) : o.reportLine ≤ ds.length := by
  obtain ⟨i, d, hd, ho⟩ := mem_observations.mp h
  obtain ⟨number, count, checksum, -, rfl⟩ := observe_eq_some_iff.mp ho
  have hlt := (List.getElem?_eq_some_iff.mp hd).1
  dsimp only
  rw [List.length_take]
  omega

/-- The observations are in the order of their lines. -/
theorem pairwise_observations (ds : List LcovDirective) :
    (observations ds).Pairwise fun o p => o.reportLine < p.reportLine := by
  induction ds using List.reverseRecOn with
  | nil => exact .nil
  | append_singleton ds d ih =>
    rw [observations_concat, List.pairwise_append]
    refine ⟨ih, ?_, fun o ho p hp => ?_⟩
    · cases observe ds d <;> simp
    · obtain ⟨number, count, checksum, -, rfl⟩ :=
        observe_eq_some_iff.mp (Option.mem_toList.mp hp)
      exact Nat.lt_succ_of_le (reportLine_le_of_mem ho)

/-- The observations are the counted lines. -/
theorem length_observations (ds : List LcovDirective) :
    (observations ds).length = (lineNumbers ds).length ∧
      ((observations ds).filter fun o => decide (0 < o.count)).length =
        (coveredLines ds).length := by
  induction ds using List.reverseRecOn with
  | nil => exact ⟨rfl, rfl⟩
  | append_singleton ds d ih =>
    rw [observations_concat, List.filter_append, lineNumbers, coveredLines, List.filterMap_append,
      List.filter_append, List.length_append, List.length_append, List.length_append,
      List.length_append, ih.1, ih.2, lineNumbers, coveredLines]
    cases d with
    | data number count checksum =>
      by_cases hcount : 0 < count <;> simp [observe, hcount]
    | _ => exact ⟨rfl, rfl⟩

/-- There are at most as many covered lines as lines. -/
theorem length_coveredLines_le (ds : List LcovDirective) :
    (coveredLines ds).length ≤ (lineNumbers ds).length := by
  rw [← (length_observations ds).1, ← (length_observations ds).2]
  exact List.length_filter_le _ _

/-- What a record declares once is its last declaration. -/
theorem Opened.getLast?_of_alone {ds : List LcovDirective} {i j : ℕ} {file : String}
    (hopened : Opened ds i j file) {of : LcovDirective → Option ℕ}
    (halone : ∀ k d n, ds[k]? = some d → of d = some n →
      (sinceSource (ds.take k)).filterMap of = [])
    {d : LcovDirective} {n : ℕ} (hd : d ∈ between ds j i) (hn : of d = some n) :
    ((between ds j i).filterMap of).getLast? = some n := by
  have hearlier : ∀ {k k' d d' n n'}, j < k → k < k' → k' < i → ds[k]? = some d →
      of d = some n → ds[k']? = some d' → of d' = some n' → False := by
    intro k k' d d' n n' hjk hkk hki hk hn hk' hn'
    have hnone := halone k' d' n' hk' hn'
    rw [(hopened.front (by omega) hki.le).sinceSource_eq, List.filterMap_eq_nil_iff] at hnone
    rw [hnone d (mem_between.mpr ⟨k, hjk, hkk, hk⟩)] at hn
    cases hn
  have hmem : n ∈ (between ds j i).filterMap of := List.mem_filterMap.mpr ⟨d, hd, hn⟩
  obtain ⟨m, hm⟩ := Option.isSome_iff_exists.mp
    (List.getLast?_isSome.mpr (List.ne_nil_of_mem hmem))
  obtain ⟨d', hd', hn'⟩ := List.mem_filterMap.mp (List.mem_of_getLast? hm)
  obtain ⟨k, hjk, hki, hk⟩ := mem_between.mp hd
  obtain ⟨k', hjk', hki', hk'⟩ := mem_between.mp hd'
  rcases Nat.lt_trichotomy k k' with hlt | rfl | hlt
  · exact (hearlier hjk hlt hki' hk hn hk' hn').elim
  · rw [hk, Option.some.injEq] at hk'
    rw [hm, ← hn, ← hn', hk']
  · exact (hearlier hjk' hlt hki hk' hn' hk hn).elim

section Report

variable {uncoveredOnly : Bool} {ds : List LcovDirective} (h : LcovReport uncoveredOnly ds)

include h

/-- Every directive of an accepted report is allowed behind those in front of it. -/
theorem LcovReport.allowed_at {i : ℕ} (hd : ds[i]? = some d) :
    d.Allowed uncoveredOnly (ds.take i) := by
  obtain ⟨hlt, rfl⟩ := List.getElem?_eq_some_iff.mp hd
  refine h.allowed _ _ (ds.drop (i + 1)) ?_
  rw [List.getElem_cons_drop, List.take_append_drop]

/-- A directive in a record has a source line in front of it. -/
theorem LcovReport.exists_opened {i : ℕ} (hd : ds[i]? = some d)
    (htest : d.isTest = false) (hsource : d.isSource = false) : ∃ j file, Opened ds i j file := by
  have hlt := (List.getElem?_eq_some_iff.mp hd).1
  rw [← inRecord_take_iff hlt.le]
  have hallowed := h.allowed_at hd
  cases d with
  | test => cases htest
  | source => cases hsource
  | metadata => exact hallowed
  | _ => exact hallowed.1

/-- The table of an accepted report has exactly its rows and totals. -/
theorem LcovReport.exact : LcovExact uncoveredOnly ds (.of uncoveredOnly ds) where
  counted o := by
    rw [mem_observations]
    constructor
    · rintro ⟨i, d, hd, ho⟩
      obtain ⟨number, count, checksum, rfl, rfl⟩ := observe_eq_some_iff.mp ho
      obtain ⟨j, file, hopened⟩ := h.exists_opened hd rfl rfl
      have hlt := (List.getElem?_eq_some_iff.mp hd).1
      refine ⟨i, j, file, number, count, checksum, hd, hopened, ?_⟩
      rw [hopened.fileBefore_eq, List.length_take_of_le hlt.le]
    · rintro ⟨i, j, file, number, count, checksum, hd, hopened, rfl⟩
      have hlt := (List.getElem?_eq_some_iff.mp hd).1
      refine ⟨i, _, hd, observe_eq_some_iff.mpr ⟨number, count, checksum, rfl, ?_⟩⟩
      rw [hopened.fileBefore_eq, List.length_take_of_le hlt.le]
  once := pairwise_observations ds
  total := (length_observations ds).1.symm
  covered := (length_observations ds).2.symm
  covered_le := length_coveredLines_le ds
  records := rfl
  listed := by
    refine ⟨lcovListing uncoveredOnly ds, ?_, rfl, rfl⟩
    rw [lcovListing]
    cases uncoveredOnly with
    | false => simp
    | true => rfl
  ended i hi := by
    obtain ⟨j, file, hopened⟩ := h.exists_opened hi rfl rfl
    obtain ⟨-, hfound, hhit⟩ := h.allowed_at hi
    rw [hopened.sinceSource_eq] at hfound hhit
    refine ⟨j, file, hopened, length_coveredLines_le _, fun n hn => ?_, fun n hn => ?_⟩
    · refine hfound n (hopened.getLast?_of_alone (fun k d m hk hm => ?_) hn rfl)
      cases d <;> try cases hm
      exact (h.allowed_at hk).2
    · refine hhit n (hopened.getLast?_of_alone (fun k d m hk hm => ?_) hn rfl)
      cases d <;> try cases hm
      exact (h.allowed_at hk).2

/-- A report has no defect. -/
theorem LcovReport.not_defect : ¬LcovDefect ds := by
  rintro (⟨i, j, number, count, count', checksum, checksum', hlt, hi, hj, hsame⟩ |
    ⟨i, d, hd, htest, hsource, hout⟩ | ⟨i, stop, file, hi, hlt, hstop, hopen⟩)
  · refine (h.allowed_at hj).2.2.1 ?_
    have hmem : LcovDirective.data number count checksum ∈ sinceSource (ds.take j) := by
      rw [take_eq_append hlt hi, ← List.singleton_append, sinceSource, rtakeWhile_append]
      · simp
      · refine List.forall_mem_append.mpr ⟨by simp, fun d hd => ?_⟩
        obtain ⟨k, hik, hkj, hk⟩ := mem_between.mp hd
        cases d with
        | source file => exact absurd hk (hsame k file hik hkj)
        | _ => rfl
    exact List.mem_filterMap.mpr ⟨_, hmem, rfl⟩
  · obtain ⟨j, file, hopened⟩ := h.exists_opened hd htest hsource
    exact hout j file hopened
  · have hmem : LcovDirective.source file ∈ sinceEnding (ds.take stop) := by
      rw [take_eq_append hlt hi, ← List.singleton_append, sinceEnding, rtakeWhile_append]
      · simp
      · refine List.forall_mem_append.mpr ⟨by simp, fun d hd => ?_⟩
        obtain ⟨k, hik, hkj, hk⟩ := mem_between.mp hd
        have hne : d ≠ .ending := by
          rintro rfl
          exact hopen k hik hkj hk
        simpa using hne
    have hrecord : inRecord (ds.take stop) = true := List.any_eq_true.mpr ⟨_, hmem, rfl⟩
    rcases hstop with rfl | ⟨next, hnext⟩
    · rw [List.take_length, h.closed] at hrecord
      cases hrecord
    · rw [(h.allowed_at hnext).1] at hrecord
      cases hrecord

end Report

/-- An accepted report is counted line by line under its records, with the declared sums. A
report with a duplicate line, a directive outside of a record or a record without end is
refused. -/
theorem lcov_exact (text : String) (uncoveredOnly : Bool) :
    (∀ table, retainedLcovCsv text uncoveredOnly = .ok table →
      (lcovLines text).map lcovDirective = (lcovDirectives text).map some ∧
        LcovExact uncoveredOnly (lcovDirectives text) table) ∧
    (LcovDefect (lcovDirectives text) →
      ∀ table, retainedLcovCsv text uncoveredOnly ≠ .ok table) := by
  have hread : ∀ table, retainedLcovCsv text uncoveredOnly = .ok table →
      (lcovLines text).map lcovDirective = (lcovDirectives text).map some ∧
        LcovReport uncoveredOnly (lcovDirectives text) ∧
          table = .of uncoveredOnly (lcovDirectives text) := by
    intro table h
    obtain ⟨-, ds, hds, hreport, htable⟩ := retainedLcovCsv_eq_ok_iff.mp h
    have heq : lcovDirectives text = ds := by
      have hkept := congrArg (List.filterMap id) hds
      simpa [List.filterMap_map, lcovDirectives] using hkept
    rw [heq]
    exact ⟨hds, hreport, htable⟩
  constructor
  · intro table h
    obtain ⟨hlines, hreport, rfl⟩ := hread table h
    exact ⟨hlines, hreport.exact⟩
  · intro hdefect table h
    exact (hread table h).2.1.not_defect hdefect

/-- A report of one file with a covered and an uncovered line has the table of both. -/
theorem lcov_exact_sample :
    ∃ table, retainedLcovCsv "TN:t\nSF:a.c\nDA:3,1\nDA:4,0\nLF:2\nLH:1\nend_of_record\n" false =
        .ok table ∧ (table.records, table.total, table.covered, table.rows) = (1, 2, 1, 2) ∧
      LcovExact false (lcovDirectives
        "TN:t\nSF:a.c\nDA:3,1\nDA:4,0\nLF:2\nLH:1\nend_of_record\n") table := by
  have hchars : "TN:t\nSF:a.c\nDA:3,1\nDA:4,0\nLF:2\nLH:1\nend_of_record\n".toList = _ :=
    String.toList_ofList
  have hsplit : splitText '\n' "TN:t\nSF:a.c\nDA:3,1\nDA:4,0\nLF:2\nLH:1\nend_of_record\n" =
      ["TN:t", "SF:a.c", "DA:3,1", "DA:4,0", "LF:2", "LH:1", "end_of_record", ""] := by
    rw [splitText, hchars]
    rfl
  have hcounts : (retainedLcovCsv
      "TN:t\nSF:a.c\nDA:3,1\nDA:4,0\nLF:2\nLH:1\nend_of_record\n" false >>= fun table =>
        .ok (table.records, table.total, table.covered, table.rows)) = .ok (1, 2, 1, 2) := by
    rw [retainedLcovCsv, utf8Length, hsplit, hchars]
    decide
  obtain ⟨table, htable, hcounts⟩ := Loop.bind_eq_ok_iff.mp hcounts
  exact ⟨table, htable, Except.ok.inj hcounts, ((lcov_exact _ false).1 table htable).2⟩

end Moonfort.Executor
