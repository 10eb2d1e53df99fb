import Moonfort.LinkedMap
import Moonfort.MoonBit.Lines

/-!
# The reader of the coverage review tool

`lcov` of `coverage_review.py`: the line observations of an LCOV report, grouped by source path
and line. Dictionaries keep the order of insertion.
-/

namespace Moonfort.Tools

open MoonBit

/-- A value of `current['lines']`. -/
structure LcovRow where
  record : ℕ
  reportLine : ℕ
  testName : String
  hits : ℕ
  checksum : Option String
  deriving DecidableEq

/-- The dictionary `current`. -/
structure LcovCurrent where
  path : String
  lines : List (ℕ × LcovRow)
  counters : List (String × ℕ)
  deriving DecidableEq

/-- The variables of `lcov`. -/
structure LcovReader where
  current : Option LcovCurrent
  testName : String
  pendingTest : Bool
  records : ℕ
  count : ℕ
  groups : List ((String × ℕ) × List LcovRow)
  deriving DecidableEq

/-- What `lcov` returns: the groups and the statistics. -/
structure LcovResult where
  groups : List ((String × ℕ) × List LcovRow)
  recordCount : ℕ
  lineObservationCount : ℕ
  coordinateCount : ℕ
  deriving DecidableEq

/-- `line.partition(':')`: the tag, whether there is a separator, and the value. -/
def partitionLine (line : String) : String × Bool × String :=
  let tag := String.ofList (line.toList.takeWhile (· != ':'))
  match line.toList.dropWhile (· != ':') with
  | [] => (tag, false, "")
  | _ :: value => (tag, true, String.ofList value)

/-- `re.fullmatch(r'[0-9]+', field)`. -/
def isDecimal (field : String) : Bool := field != "" && allChars field Char.isDigit

/-- `int(field)` of decimal digits. An interpreter may have a limit for the number of digits. -/
def pythonInt (maxDigits : Option ℕ) (field : String) : Except String ℕ :=
  if maxDigits.any (· < field.toList.length) then
    .error "Exceeds the limit for integer string conversion"
  else .ok (DecimalText.digitsValue field.toList)

/-- `groups.setdefault(key, []).append(row)`. -/
def appendRow (groups : List ((String × ℕ) × List LcovRow)) (key : String × ℕ) (row : LcovRow) :
    List ((String × ℕ) × List LcovRow) :=
  LinkedMap.set key ((LinkedMap.get key groups).getD [] ++ [row]) groups

namespace LcovReader

/-- The variables in front of the loop. -/
def start : LcovReader := ⟨none, "", false, 0, 0, []⟩

/-- The tag `TN`. -/
def nameTest (s : LcovReader) (sep : Bool) (value : String) : Except String LcovReader :=
  if ¬(sep = true ∧ s.current = none ∧ s.pendingTest = false) then .error "misplaced TN"
  else .ok { s with testName := value, pendingTest := true }

/-- The tag `SF`. -/
def openRecord (s : LcovReader) (sep : Bool) (value : String) : Except String LcovReader :=
  if ¬(sep = true ∧ value ≠ "" ∧ s.current = none) then .error "misplaced or empty SF"
  else if ¬s.records + 1 ≤ 1000 then .error "LCOV exceeds 1000 records"
  else .ok { s with records := s.records + 1, current := some ⟨value, [], []⟩ }

/-- A declared counter is absent or right. -/
def counterAgrees (current : LcovCurrent) (key : String) (actual : ℕ) : Bool :=
  match LinkedMap.get key current.counters with
  | none => true
  | some declared => declared == actual

/-- The line `end_of_record`. -/
def endRecord (s : LcovReader) : Except String LcovReader :=
  match s.current with
  | none => .error "unexpected record terminator"
  | some current =>
    if counterAgrees current "LF" current.lines.length = false then
      .error "LCOV LF counter mismatch"
    else if counterAgrees current "LH"
        (current.lines.filter fun entry => decide (0 < entry.2.hits)).length = false then
      .error "LCOV LH counter mismatch"
    else .ok { s with
      groups := current.lines.foldl
        (fun groups entry => appendRow groups (current.path, entry.1) entry.2) s.groups
      current := none, testName := "", pendingTest := false }

/-- The tag `DA`. -/
def dataLine (maxDigits : Option ℕ) (s : LcovReader) (current : LcovCurrent) (physicalLine : ℕ)
    (value : String) : Except String LcovReader :=
  let fields := splitText ',' value
  if ¬(2 ≤ fields.length ∧ fields.length ≤ 3 ∧ (fields.take 2).all isDecimal = true) then
    .error "invalid DA observation"
  else do
    let sourceLine ← pythonInt maxDigits (fields.getD 0 "")
    let hits ← pythonInt maxDigits (fields.getD 1 "")
    if ¬(1 ≤ sourceLine ∧ sourceLine ≤ 2147483647 ∧ hits ≤ 2147483647) then
      .error "DA number outside range"
    else if ¬LinkedMap.get sourceLine current.lines = none then
      .error "duplicate DA source line within record"
    else if ¬(fields.length = 2 ∨ fields.getD 2 "" ≠ "") then .error "empty DA checksum"
    else if ¬s.count + 1 ≤ 10000 then .error "LCOV exceeds 10000 line observations"
    else
      let row : LcovRow := ⟨s.records, physicalLine, s.testName, hits,
        if fields.length = 3 then some (fields.getD 2 "") else none⟩
      .ok { s with
        count := s.count + 1
        current := some { current with lines := LinkedMap.set sourceLine row current.lines } }

/-- The tags `LF` and `LH`. -/
def declare (maxDigits : Option ℕ) (s : LcovReader) (current : LcovCurrent) (tag value : String) :
    Except String LcovReader :=
  if ¬(LinkedMap.get tag current.counters = none ∧ isDecimal value = true) then
    .error "invalid or duplicate LCOV counter"
  else do
    let declared ← pythonInt maxDigits value
    .ok { s with
      current := some { current with counters := LinkedMap.set tag declared current.counters } }

/-- `ignored`. -/
def ignoredTags : List String := ["FN", "FNDA", "FNF", "FNH", "BRDA", "BRF", "BRH"]

/-- The body of the loop over the lines. -/
def readLine (maxDigits : Option ℕ) (s : LcovReader) (raw : String × ℕ) :
    Except String LcovReader :=
  let line := raw.1
  let physicalLine := raw.2 + 1
  if ¬(line.toList.length ≤ 16384 ∧ line ≠ "") then .error "empty or oversized LCOV line"
  else
    let (tag, sep, value) := partitionLine line
    if tag = "TN" then s.nameTest sep value
    else if tag = "SF" then s.openRecord sep value
    else if line = "end_of_record" then s.endRecord
    else
      match s.current with
      | none => .error "unknown or misplaced LCOV record"
      | some current =>
        if sep = false then .error "unknown or misplaced LCOV record"
        else if tag = "DA" then s.dataLine maxDigits current physicalLine value
        else if tag = "LF" ∨ tag = "LH" then s.declare maxDigits current tag value
        else if tag ∈ ignoredTags then .ok s
        else .error ("unsupported LCOV tag: " ++ tag)

end LcovReader

/-- `text.replace('\r\n', replacement)`. -/
def replaceReturns (replacement : List Char) : List Char → List Char
  | [] => []
  | [c] => [c]
  | c :: d :: rest =>
    if c = '\r' ∧ d = '\n' then replacement ++ replaceReturns replacement rest
    else c :: replaceReturns replacement (d :: rest)

/-- The list `lines`. -/
def reportLines (text : String) : List String :=
  let lines := splitText '\n' (String.ofList (replaceReturns ['\n'] text.toList))
  if lines.getLast? = some "" then lines.dropLast else lines

/-- `lcov`, of the bytes of a text. -/
def lcov (maxDigits : Option ℕ) (text : String) : Except String LcovResult :=
  if ¬utf8Length text ≤ 1048576 then .error "LCOV exceeds 1 MiB"
  else if ¬('\x00' ∉ text.toList ∧ '\r' ∉ replaceReturns [] text.toList) then
    .error "LCOV requires LF or CRLF text without NUL"
  else do
    let s ← (reportLines text).zipIdx.foldlM (LcovReader.readLine maxDigits) .start
    if ¬(s.current = none ∧ s.pendingTest = false ∧ 0 < s.records) then
      .error "incomplete or empty LCOV report"
    else .ok ⟨s.groups, s.records, s.count, s.groups.length⟩

end Moonfort.Tools
