import Moonfort.DecimalText
import Moonfort.Executor.RetentionBundle
import Moonfort.Executor.RetentionJsonlCsv
import Moonfort.GregorianCalendar
import Moonfort.MoonBit.StringOrder
import Moonfort.MoonBit.Utf8Cuts
import Mathlib.Data.Prod.Lex

/-!
# The timeline of retained events

`merge_retained_timeline` puts the events of several files of JSON values in the order of their
timestamps. A timestamp is accepted exactly when it spells an instant of the years 1 to 9999, and
the order of the texts is the order of the instants, so the merged table has every event of every
file in the order of instant, path and line.
-/

namespace Moonfort.Executor

open DecimalText GregorianCalendar JsonGrammar MoonBit Sandbox

variable {ν τ : Type}

/-! ## Timestamps -/

/-- The body of the loop of `number`. -/
def timestampDigit (units : List ℕ) (value i : ℕ) : Except String ℕ :=
  if ¬(48 ≤ units.getD i 0 ∧ units.getD i 0 ≤ 57) then
    .error "timestamp requires ASCII decimal digits"
  else .ok (value * 10 + units.getD i 0 - 48)

/-- The closure `number`. -/
def timestampNumber (units : List ℕ) (start length : ℕ) : Except String ℕ :=
  (List.range' start length).foldlM (timestampDigit units) 0

/-- `days`. -/
def timestampDays (year month : ℕ) : ℕ :=
  let leap := year % 4 == 0 && (year % 100 != 0 || year % 400 == 0)
  if month = 2 then (if leap then 29 else 28) else if [4, 6, 9, 11].contains month then 30 else 31

/-- The separators of a timestamp. -/
def timestampSeparators : List (ℕ × Char) :=
  [(4, '-'), (7, '-'), (10, 'T'), (13, ':'), (16, ':'), (19, '.'), (23, 'Z')]

/-- `retained_timeline_timestamp`. -/
def retainedTimelineTimestamp (text : String) : Except String Unit :=
  let units := utf16Units text
  if ¬(units.length = 24 ∧ ∀ s ∈ timestampSeparators, units.getD s.1 0 = s.2.toNat) then
    .error "timestamp requires YYYY-MM-DDTHH:mm:ss.SSSZ"
  else do
    let year ← timestampNumber units 0 4
    let month ← timestampNumber units 5 2
    let day ← timestampNumber units 8 2
    let hour ← timestampNumber units 11 2
    let minute ← timestampNumber units 14 2
    let second ← timestampNumber units 17 2
    let _ ← timestampNumber units 20 3
    if ¬(1 ≤ year ∧ 1 ≤ month ∧ month ≤ 12 ∧ hour ≤ 23 ∧ minute ≤ 59 ∧ second ≤ 59) then
      .error "timestamp has an invalid calendar or clock component"
    else if ¬(1 ≤ day ∧ day ≤ timestampDays year month) then
      .error "timestamp has an invalid calendar day"
    else .ok ()

/-- The code units of the spelling of an instant. -/
def timestampUnits (t : CalendarTime) : List ℕ :=
  fixedDigits 4 t.year ++ 45 :: (fixedDigits 2 t.month ++ 45 :: (fixedDigits 2 t.day ++ 84 ::
    (fixedDigits 2 t.hour ++ 58 :: (fixedDigits 2 t.minute ++ 58 :: (fixedDigits 2 t.second ++
      46 :: (fixedDigits 3 t.millisecond ++ [90]))))))

/-- The spelling of an instant: `YYYY-MM-DDTHH:mm:ss.SSSZ`. -/
def timestampText (t : CalendarTime) : String := String.ofList ((timestampUnits t).map Char.ofNat)

/-- An instant of the years that have four digits. -/
structure IsTimestamp (t : CalendarTime) : Prop where
  valid : t.Valid
  year_pos : 1 ≤ t.year
  year_le : t.year ≤ 9999

/-! ## What a timestamp spells -/

/-- The source's month lengths are those of the calendar. -/
theorem timestampDays_eq (year month : ℕ) : timestampDays year month = daysInMonth year month := by
  rw [timestampDays, daysInMonth, isLeapYear]
  simp only [List.contains_iff_mem]

variable {units : List ℕ}

/-- The code units of characters with small codes. -/
theorem utf16Units_ofList_ofNat (h : ∀ unit ∈ units, unit < 128) :
    utf16Units (String.ofList (units.map Char.ofNat)) = units := by
  rw [utf16Units, String.toList_ofList, List.flatMap_map]
  have hunit : ∀ unit ∈ units, utf16Char (Char.ofNat unit) = [unit] := by
    intro unit hunit
    have hlt := h unit hunit
    have hvalid : unit.isValidChar := Or.inl (by omega)
    rw [utf16Char, Char.toNat_ofNat, if_pos hvalid, if_pos (by omega)]
  rw [List.flatMap_congr hunit, List.flatMap_singleton']

/-- A timestamp is written in ASCII. -/
theorem timestampUnits_lt (t : CalendarTime) : ∀ unit ∈ timestampUnits t, unit < 128 := by
  intro unit hunit
  simp only [timestampUnits, List.mem_append, List.mem_cons, List.not_mem_nil, or_false] at hunit
  have hdigits : ∀ {width n}, unit ∈ fixedDigits width n → unit < 128 :=
    fun h => (fixedDigits_lt h).trans (by decide)
  rcases hunit with h | rfl | h | rfl | h | rfl | h | rfl | h | rfl | h | rfl | h | rfl <;>
    first | exact hdigits h | decide

/-- The code units of a written timestamp. -/
theorem utf16Units_timestampText (t : CalendarTime) :
    utf16Units (timestampText t) = timestampUnits t :=
  utf16Units_ofList_ofNat (timestampUnits_lt t)

/-- Numbers are read from the places that they are spelled in. -/
theorem timestampNumber_eq_ok_iff {start width value : ℕ}
    (h : start + width ≤ units.length) :
    timestampNumber units start width = .ok value ↔
      value < 10 ^ width ∧ (units.drop start).take width = fixedDigits width value := by
  induction width generalizing value with
  | zero =>
    rw [pow_zero, Nat.lt_one_iff, List.take_zero]
    exact ⟨fun h => ⟨(Except.ok.inj h).symm, rfl⟩, fun h => congrArg Except.ok h.1.symm⟩
  | succ width ih =>
    have hplace : (units.drop start).take (width + 1) =
        (units.drop start).take width ++ [units.getD (start + width) 0] := by
      rw [List.take_add_one, List.getElem?_drop, List.getD_eq_getElem?_getD,
        List.getElem?_eq_getElem (by omega)]
      rfl
    rw [timestampNumber, List.range'_concat, Nat.one_mul, Loop.foldlM_concat_eq_ok_iff, hplace,
      fixedDigits, pow_succ]
    constructor
    · rintro ⟨front, hfront, hlast⟩
      obtain ⟨hlt, hdigits⟩ := (ih (by omega)).mp hfront
      rw [timestampDigit, Loop.guard_eq_ok_iff, not_not, Except.ok.injEq] at hlast
      obtain ⟨hdigit, rfl⟩ := hlast
      have hdiv : (front * 10 + units.getD (start + width) 0 - 48) / 10 = front := by omega
      have hmod : 48 + (front * 10 + units.getD (start + width) 0 - 48) % 10 =
          units.getD (start + width) 0 := by omega
      exact ⟨by omega, by rw [hdigits, hdiv, hmod]⟩
    · rintro ⟨hlt, heq⟩
      obtain ⟨hdigits, hlast⟩ := List.append_inj' heq rfl
      rw [List.singleton_inj] at hlast
      refine ⟨value / 10, (ih (by omega)).mpr ⟨by omega, hdigits⟩, ?_⟩
      rw [timestampDigit, Loop.guard_eq_ok_iff, not_not, hlast, Except.ok.injEq]
      omega

/-- A number at some places of a text. -/
theorem drop_of_timestampNumber {start width value : ℕ}
    (hlength : start + width ≤ units.length) (h : timestampNumber units start width = .ok value) :
    units.drop start = fixedDigits width value ++ units.drop (start + width) := by
  rw [← ((timestampNumber_eq_ok_iff hlength).mp h).2, ← List.drop_drop, List.take_append_drop]

/-- A number of fixed width is read where it stands. -/
theorem timestampNumber_of_drop {units rest : List ℕ} {start width value : ℕ}
    (hlength : start + width ≤ units.length) (hvalue : value < 10 ^ width)
    (h : units.drop start = fixedDigits width value ++ rest) :
    timestampNumber units start width = .ok value := by
  refine (timestampNumber_eq_ok_iff hlength).mpr ⟨hvalue, ?_⟩
  rw [h, List.take_left' (length_fixedDigits width value)]

/-- A separator at a place of a text. -/
theorem drop_of_getD {place unit : ℕ} (hlength : place < units.length)
    (h : units.getD place 0 = unit) : units.drop place = unit :: units.drop (place + 1) := by
  rw [List.drop_eq_getElem_cons hlength, ← h, List.getD_eq_getElem _ _ hlength]

/-- The numbers in a text of the right form. -/
theorem units_of_numbers {t : CalendarTime} (hlength : units.length = 24)
    (hseparators : ∀ s ∈ timestampSeparators, units.getD s.1 0 = s.2.toNat)
    (hyear : timestampNumber units 0 4 = .ok t.year)
    (hmonth : timestampNumber units 5 2 = .ok t.month)
    (hday : timestampNumber units 8 2 = .ok t.day)
    (hhour : timestampNumber units 11 2 = .ok t.hour)
    (hminute : timestampNumber units 14 2 = .ok t.minute)
    (hsecond : timestampNumber units 17 2 = .ok t.second)
    (hmillisecond : timestampNumber units 20 3 = .ok t.millisecond) :
    units = timestampUnits t := by
  have hplace : ∀ (place : ℕ) (c : Char), place < 24 → (place, c) ∈ timestampSeparators →
      units.drop place = c.toNat :: units.drop (place + 1) :=
    fun place c hlt hmem => drop_of_getD (by omega) (hseparators _ hmem)
  have hnumber : ∀ {start width value : ℕ}, start + width ≤ 24 →
      timestampNumber units start width = .ok value →
      units.drop start = fixedDigits width value ++ units.drop (start + width) :=
    fun hle h => drop_of_timestampNumber (by omega) h
  have hend : units.drop 24 = [] := List.drop_eq_nil_of_le hlength.le
  calc units = units.drop 0 := List.drop_zero.symm
    _ = timestampUnits t := by
      rw [hnumber (by omega) hyear, hplace 4 '-' (by omega) (by simp [timestampSeparators]),
        hnumber (by omega) hmonth, hplace 7 '-' (by omega) (by simp [timestampSeparators]),
        hnumber (by omega) hday, hplace 10 'T' (by omega) (by simp [timestampSeparators]),
        hnumber (by omega) hhour, hplace 13 ':' (by omega) (by simp [timestampSeparators]),
        hnumber (by omega) hminute, hplace 16 ':' (by omega) (by simp [timestampSeparators]),
        hnumber (by omega) hsecond, hplace 19 '.' (by omega) (by simp [timestampSeparators]),
        hnumber (by omega) hmillisecond, hplace 23 'Z' (by omega) (by simp [timestampSeparators]),
        hend]
      rfl

/-- The fields of a date and time of day fit their places. -/
theorem IsTimestamp.fits {t : CalendarTime} (h : IsTimestamp t) :
    t.year < 10 ^ 4 ∧ t.month < 10 ^ 2 ∧ t.day < 10 ^ 2 ∧ t.hour < 10 ^ 2 ∧ t.minute < 10 ^ 2 ∧
      t.second < 10 ^ 2 ∧ t.millisecond < 10 ^ 3 := by
  have hdays : daysInMonth t.year t.month ≤ 31 := by
    rw [daysInMonth]
    split_ifs <;> omega
  have hvalid := h.valid
  have hyear := h.year_le
  have hmonth := hvalid.month_le
  have hday := hvalid.day_le
  have hhour := hvalid.hour_le
  have hminute := hvalid.minute_le
  have hsecond := hvalid.second_le
  have hmillisecond := hvalid.millisecond_le
  refine ⟨?_, ?_, ?_, ?_, ?_, ?_, ?_⟩ <;> omega

/-- The accepted timestamps are the spellings of the instants of the years 1 to 9999. -/
theorem timestamp_eq_ok_iff {text : String} :
    retainedTimelineTimestamp text = .ok () ↔ ∃ t, IsTimestamp t ∧ text = timestampText t := by
  rw [retainedTimelineTimestamp, Loop.guard_eq_ok_iff, not_not]
  simp only [Loop.bind_eq_ok_iff, Loop.guard_eq_ok_iff, not_not, and_true, timestampDays_eq]
  constructor
  · rintro ⟨⟨hlength, hseparators⟩, year, hyear, month, hmonth, day, hday, hour, hhour, minute,
      hminute, second, hsecond, millisecond, hmillisecond, hclock, hdate⟩
    have hfits : ∀ {start width value : ℕ}, start + width ≤ 24 →
        timestampNumber (utf16Units text) start width = .ok value → value < 10 ^ width :=
      fun hle h => ((timestampNumber_eq_ok_iff (by omega)).mp h).1
    have hyear_lt := hfits (by omega) hyear
    have hmillisecond_lt := hfits (by omega) hmillisecond
    refine ⟨⟨year, month, day, hour, minute, second, millisecond⟩, ⟨⟨hclock.2.1, hclock.2.2.1,
      hdate.1, hdate.2, hclock.2.2.2.1, hclock.2.2.2.2.1, hclock.2.2.2.2.2, ?_⟩, hclock.1, ?_⟩, ?_⟩
    · change millisecond ≤ 999
      omega
    · change year ≤ 9999
      omega
    · apply utf16Units_inj
      rw [utf16Units_timestampText]
      exact units_of_numbers hlength hseparators hyear hmonth hday hhour hminute hsecond
        hmillisecond
  · rintro ⟨t, h, rfl⟩
    rw [utf16Units_timestampText]
    obtain ⟨hyear, hmonth, hday, hhour, hminute, hsecond, hmillisecond⟩ := h.fits
    have hlength : (timestampUnits t).length = 24 := rfl
    have hnumber : ∀ {start width value : ℕ} {rest : List ℕ}, start + width ≤ 24 →
        value < 10 ^ width → (timestampUnits t).drop start = fixedDigits width value ++ rest →
        timestampNumber (timestampUnits t) start width = .ok value :=
      fun hle hvalue hdrop => timestampNumber_of_drop (by omega) hvalue hdrop
    have hvalid := h.valid
    refine ⟨⟨hlength, ?_⟩, t.year, hnumber (by omega) hyear rfl, t.month,
      hnumber (by omega) hmonth rfl, t.day, hnumber (by omega) hday rfl, t.hour,
      hnumber (by omega) hhour rfl, t.minute, hnumber (by omega) hminute rfl, t.second,
      hnumber (by omega) hsecond rfl, t.millisecond, hnumber (by omega) hmillisecond rfl,
      ⟨h.year_pos, hvalid.month_pos, hvalid.month_le, hvalid.hour_le, hvalid.minute_le,
        hvalid.second_le⟩, hvalid.day_pos, hvalid.day_le⟩
    simp only [timestampSeparators, List.forall_mem_cons]
    exact ⟨rfl, rfl, rfl, rfl, rfl, rfl, rfl, fun s hs => absurd hs List.not_mem_nil⟩

/-- The order of the texts is the order of the instants. -/
theorem timestampText_lt_iff {t u : CalendarTime} (ht : IsTimestamp t) (hu : IsTimestamp u) :
    utf16Units (timestampText t) < utf16Units (timestampText u) ↔ t.instant < u.instant := by
  obtain ⟨hyear, hmonth, hday, hhour, hminute, hsecond, hmillisecond⟩ := ht.fits
  obtain ⟨hyear', hmonth', hday', hhour', hminute', hsecond', hmillisecond'⟩ := hu.fits
  have hsame : ∀ (unit : ℕ) (a b : List ℕ), unit :: a < unit :: b ↔ a < b := by
    intro unit a b
    rw [List.cons_lt_cons_iff, and_iff_right rfl, or_iff_right (lt_irrefl unit)]
  rw [utf16Units_timestampText, utf16Units_timestampText, ht.valid.instant_lt_iff hu.valid,
    CalendarTime.components_lt_iff, timestampUnits, timestampUnits,
    fixedDigits_append_lt_iff hyear hyear', hsame, fixedDigits_append_lt_iff hmonth hmonth', hsame,
    fixedDigits_append_lt_iff hday hday', hsame, fixedDigits_append_lt_iff hhour hhour', hsame,
    fixedDigits_append_lt_iff hminute hminute', hsame, fixedDigits_append_lt_iff hsecond hsecond',
    hsame, fixedDigits_append_lt_iff hmillisecond hmillisecond', hsame]
  simp only [lt_irrefl, and_false, or_false]

/-! ## The merge -/

/-- `RetentionTimelineSource`. -/
structure RetentionTimelineSource where
  file : ScratchEntry
  totalLines : ℕ
  rowCount : ℕ
  blankLinesSkipped : ℕ

/-- `RetainedTimelineEvent`. -/
structure TimelineEvent (ν : Type) where
  timestamp : String
  path : String
  line : ℕ
  value : JsonTree String (ExactNumber ν)

/-- A mapping and what its text says. -/
structure TimelineMapping where
  bytes : List UInt8
  files : List String
  timestamp : String
  columns : List RetentionJsonColumn

/-- The headers that the merge generates. -/
def timelineHeaders : List String := ["__source_path", "__source_line", "__timestamp"]

/-- `retained_timeline_mapping` behind the reading of its text. -/
def retainedTimelineMapping (mapping : TimelineMapping) :
    Except JsonFault (List String × List String) :=
  if ¬(1 ≤ mapping.files.length ∧ mapping.files.length ≤ 32) then
    .error (.failed "timeline requires 1..32 exact retained file paths")
  else if ¬((∀ path ∈ mapping.files, path ≠ "" ∧ utf16Length path ≤ 4096 ∧
      containsText path "\x00" = false) ∧ mapping.files.Nodup) then
    .error (.failed "timeline file paths must be nonempty, unique and bounded")
  else do
    let tokens ← (retainedEditTokens mapping.timestamp).mapError .failed
    if ¬(mapping.columns.length ≤ 61 ∧
        ∀ column ∈ mapping.columns, column.header ∉ timelineHeaders) then
      .error (.failed ("timeline requires 1..61 columns; generated source and timestamp headers " ++
        "are reserved"))
    else .ok (lexicalSort mapping.files, tokens)

/-- The retained file at a path. -/
def timelineFile (record : RetentionRecord) (path : String) : Except JsonFault ScratchEntry :=
  match record.reviewableFiles.find? fun file => file.relativePath == path with
  | none => .error (.failed "timeline requires exact retained files of at most 1 MiB each")
  | some file =>
    if ¬file.sizeBytes ≤ 1048576 then
      .error (.failed "timeline requires exact retained files of at most 1 MiB each")
    else .ok file

/-- `@utf8.decode(export_retained_artifact(binding, path, config))`. -/
def timelineText (crypto : Crypto) (store : RetentionLibrary τ) (host : BundleReading)
    (binding : RetentionArtifactBinding) (config : Deployment) (path : String) :
    Except JsonFault String :=
  match verifiedRetainedArtifact crypto store (host.artifact path) binding path config with
  | none => .error .invalid
  | some (_, _, bytes) =>
    match (utf8Items .idle bytes).mapM id with
    | none => .error .invalid
    | some chars => .ok (String.ofList chars)

/-- The handler around the reading of a file. What is no error of the language passes. -/
def timelineFault (describe : JsonFault → String) (place : String) : JsonFault → JsonFault
  | .outOfBounds => .outOfBounds
  | .exhausted => .exhausted
  | fault => .failed ("timeline " ++ place ++ ": " ++ describe fault)

/-- A file in a message. -/
def timelinePlace (path : String) : String := "file " ++ String.ofList (quotedChars path)

/-- The timestamp of a row. -/
def rowTimestamp (tokens : List String) (row : JsonTree String (ExactNumber ν)) :
    Except String String :=
  match retainedJsonCellAt row tokens with
  | .error message => .error message
  | .ok (some (.string value)) => (retainedTimelineTimestamp value).map fun _ => value
  | .ok _ => .error "timeline timestamp must select a present string"

/-- The event of a row of a file and of its line. -/
def timelineEvent (describe : JsonFault → String) (tokens : List String) (path : String)
    (row : JsonTree String (ExactNumber ν) × ℕ) : Except JsonFault (TimelineEvent ν) :=
  match rowTimestamp tokens row.1 with
  | .error message =>
    .error (timelineFault describe (timelinePlace path ++ " source line " ++ intText row.2)
      (.failed message))
  | .ok timestamp => .ok ⟨timestamp, path, row.2, row.1⟩

/-- The variables of the loop over the files. -/
structure TimelineState (ν : Type) where
  sources : List RetentionTimelineSource
  events : List (TimelineEvent ν)
  totalLines : ℕ
  blankLinesSkipped : ℕ
  totalValues : ℕ

/-- The body of the loop over the files. -/
def TimelineState.step (lib : StandardJson String ν) (describe : JsonFault → String)
    (text : String → Except JsonFault String) (skipBlankLines : Bool) (tokens : List String)
    (s : TimelineState ν) (file : ScratchEntry) : Except JsonFault (TimelineState ν) := do
  let content ← text file.relativePath
  let found ← (retainedJsonlRowsCounted lib describe content skipBlankLines s.totalValues).mapError
    (timelineFault describe (timelinePlace file.relativePath))
  if 20000 < s.totalLines + found.totalLines then
    .error (.failed "timeline exceeds 20000 physical lines across selected files")
  else do
    let events ← (found.rows.zip found.sourceLines).mapM
      (timelineEvent describe tokens file.relativePath)
    .ok {
      sources := s.sources ++ [⟨file, found.totalLines, found.rows.length, found.blanks⟩]
      events := s.events ++ events
      totalLines := s.totalLines + found.totalLines
      blankLinesSkipped := s.blankLinesSkipped + found.blanks
      totalValues := found.values }

/-- The comparison of `events.sort_by`. -/
def compareEvents (a b : TimelineEvent ν) : ℤ :=
  let time := lexicalCompare a.timestamp b.timestamp
  if time ≠ 0 then time
  else
    let path := lexicalCompare a.path b.path
    if path ≠ 0 then path else a.line - b.line

/-- `events.sort_by`. -/
def sortEvents (events : List (TimelineEvent ν)) : List (TimelineEvent ν) :=
  events.mergeSort fun a b => decide (compareEvents a b ≤ 0)

/-- `RetentionTimeline`. -/
structure RetentionTimeline where
  binding : RetentionArtifactBinding
  sources : List RetentionTimelineSource
  mappingFingerprint : String
  timestampPointer : String
  columns : List RetentionJsonColumn
  skipBlankLines : Bool
  totalLines : ℕ
  rowCount : ℕ
  blankLinesSkipped : ℕ
  missingCells : ℕ
  nullCells : ℕ
  firstTimestamp : String
  lastTimestamp : String
  candidateFingerprint : String
  candidateSizeBytes : ℕ
  csv : String

/-- `RetentionTimelineSource::to_json`. -/
def RetentionTimelineSource.toJson (source : RetentionTimelineSource) : Json :=
  .object [("file", scratchEntryJson source.file), ("total_lines", .number source.totalLines),
    ("row_count", .number source.rowCount),
    ("blank_lines_skipped", .number source.blankLinesSkipped)]

/-- `RetentionJsonColumn::to_json`. -/
def RetentionJsonColumn.toJson (column : RetentionJsonColumn) : Json :=
  .object [("header", .string column.header), ("pointer", .string column.pointer)]

/-- `RetentionTimeline::context`. -/
def RetentionTimeline.context (timeline : RetentionTimeline) : Json :=
  .object [("derived_candidate", .bool true),
    ("derivation", .string "moonfort-retained-jsonl-timeline-v1"),
    ("binding", timeline.binding.toJson),
    ("sources", .array (timeline.sources.map RetentionTimelineSource.toJson)),
    ("mapping_fingerprint", .string timeline.mappingFingerprint),
    ("timestamp_pointer", .string timeline.timestampPointer),
    ("timestamp_format", .string "YYYY-MM-DDTHH:mm:ss.SSSZ"),
    ("order", .string "timestamp-ascending-then-path-then-physical-line"),
    ("columns", .array (timeline.columns.map RetentionJsonColumn.toJson)),
    ("skip_blank_lines", .bool timeline.skipBlankLines),
    ("total_lines", .number timeline.totalLines), ("row_count", .number timeline.rowCount),
    ("blank_lines_skipped", .number timeline.blankLinesSkipped),
    ("missing_cells", .number timeline.missingCells), ("null_cells", .number timeline.nullCells),
    ("first_timestamp", .string timeline.firstTimestamp),
    ("last_timestamp", .string timeline.lastTimestamp),
    ("candidate_fingerprint", .string timeline.candidateFingerprint),
    ("candidate_size_bytes", .number timeline.candidateSizeBytes)]

/-- What one call of `merge_retained_timeline` is given. -/
structure TimelineCall (τ : Type) where
  crypto : Crypto
  store : RetentionLibrary τ
  host : BundleReading
  binding : RetentionArtifactBinding
  config : Deployment
  mapping : TimelineMapping
  skipBlankLines : Bool

/-- The text of a retained file. -/
def TimelineCall.text (call : TimelineCall τ) : String → Except JsonFault String :=
  timelineText call.crypto call.store call.host call.binding call.config

/-- The result for the events of all files in their order. -/
def TimelineCall.result (call : TimelineCall τ) (s : TimelineState ν)
    (events : List (TimelineEvent ν)) (table : JsonTable) : RetentionTimeline where
  binding := call.binding
  sources := s.sources
  mappingFingerprint := call.crypto.digest call.mapping.bytes
  timestampPointer := call.mapping.timestamp
  columns := call.mapping.columns
  skipBlankLines := call.skipBlankLines
  totalLines := s.totalLines
  rowCount := table.rows
  blankLinesSkipped := s.blankLinesSkipped
  missingCells := table.missing
  nullCells := table.nulls
  firstTimestamp := (events.head?.map TimelineEvent.timestamp).getD ""
  lastTimestamp := (events.getLast?.map TimelineEvent.timestamp).getD ""
  candidateFingerprint := call.crypto.digest (utf8Encode table.csv)
  candidateSizeBytes := utf8Length table.csv
  csv := table.csv

/-- `merge_retained_timeline`. -/
def mergeRetainedTimeline (lib : StandardJson String ν) (describe : JsonFault → String)
    (call : TimelineCall τ) : Except JsonFault RetentionTimeline := do
  let (paths, tokens) ← retainedTimelineMapping call.mapping
  match boundArtifactRecord call.store call.host.first call.binding call.config with
  | none => .error .invalid
  | some record => do
    let files ← paths.mapM (timelineFile record)
    if ¬(files.map ScratchEntry.sizeBytes).sum ≤ 4194304 then
      .error (.failed "timeline selected source files exceed 4 MiB")
    else do
      let s ← files.foldlM
        (TimelineState.step lib describe call.text call.skipBlankLines tokens) ⟨[], [], 0, 0, 0⟩
      let events := sortEvents s.events
      let table ← (retainedJsonCsv lib (fun message => describe (.failed message))
        (events.map TimelineEvent.value)
        (⟨"__timestamp", call.mapping.timestamp⟩ :: call.mapping.columns)
        (.files (events.map TimelineEvent.path) (events.map TimelineEvent.line))).mapError .failed
      if boundArtifactRecord call.store call.host.last call.binding call.config ≠ some record then
        .error (.failed "retention changed during timeline merge")
      else if ¬(utf8Length (call.result s events table).context.stringify + 1 : ℤ) ≤
          call.config.limits.maxProtocolBytes then
        .error (.failed "timeline context exceeds protocol budget")
      else .ok (call.result s events table)

/-- A merge whose parts succeed and whose context fits. -/
theorem mergeRetainedTimeline_of_parts {lib : StandardJson String ν} {describe : JsonFault → String}
    {call : TimelineCall τ} {paths tokens : List String} {record : RetentionRecord}
    {files : List ScratchEntry} {s : TimelineState ν} {events : List (TimelineEvent ν)}
    {table : JsonTable} {timeline : RetentionTimeline}
    (hmapping : retainedTimelineMapping call.mapping = .ok (paths, tokens))
    (hfirst : boundArtifactRecord call.store call.host.first call.binding call.config =
      some record)
    (hfiles : paths.mapM (timelineFile record) = .ok files)
    (hbytes : (files.map ScratchEntry.sizeBytes).sum ≤ 4194304)
    (hloop : files.foldlM (TimelineState.step lib describe call.text call.skipBlankLines tokens)
      ⟨[], [], 0, 0, 0⟩ = .ok s)
    (hsorted : sortEvents s.events = events)
    (htable : retainedJsonCsv lib (fun message => describe (.failed message))
      (events.map TimelineEvent.value)
      (⟨"__timestamp", call.mapping.timestamp⟩ :: call.mapping.columns)
      (.files (events.map TimelineEvent.path) (events.map TimelineEvent.line)) = .ok table)
    (hlast : boundArtifactRecord call.store call.host.last call.binding call.config = some record)
    (hresult : call.result s events table = timeline)
    (hbudget : (utf8Length timeline.context.stringify + 1 : ℤ) ≤
      call.config.limits.maxProtocolBytes) :
    mergeRetainedTimeline lib describe call = .ok timeline := by
  rw [mergeRetainedTimeline, hmapping, Loop.ok_bind]
  dsimp only
  rw [hfirst]
  dsimp only
  rw [hfiles, Loop.ok_bind, if_neg (not_not.mpr hbytes), hloop, Loop.ok_bind, hsorted]
  refine Loop.bind_eq_ok_iff.mpr ⟨table, Loop.mapError_eq_ok_iff.mpr htable, ?_⟩
  rw [hlast, if_neg (not_not.mpr rfl), hresult, if_neg (not_not.mpr hbudget)]

/-! ## The order of the events -/

/-- The key that the comparison orders by. -/
def TimelineEvent.key (e : TimelineEvent ν) : List ℕ ×ₗ (List ℕ ×ₗ ℕ) :=
  toLex (utf16Units e.timestamp, toLex (utf16Units e.path, e.line))

/-- One event is in front of another one: by instant, then path, then line. -/
def TimelineEvent.Before (a b : TimelineEvent ν) : Prop :=
  ∀ t u, IsTimestamp t → IsTimestamp u → a.timestamp = timestampText t →
    b.timestamp = timestampText u → t.instant < u.instant ∨ t.instant = u.instant ∧
      (utf16Units a.path < utf16Units b.path ∨ a.path = b.path ∧ a.line < b.line)

/-- The comparison is the linear order of the keys. -/
theorem compareEvents_le_zero_iff {a b : TimelineEvent ν} :
    compareEvents a b ≤ 0 ↔ a.key ≤ b.key := by
  rw [TimelineEvent.key, TimelineEvent.key, Prod.Lex.toLex_le_toLex, Prod.Lex.toLex_le_toLex,
    compareEvents]
  dsimp only
  by_cases htime : lexicalCompare a.timestamp b.timestamp = 0
  · have hsame := lexicalCompare_eq_zero_iff.mp htime
    rw [if_neg (not_not.mpr htime), hsame, or_iff_right (lt_irrefl _), and_iff_right rfl]
    by_cases hpath : lexicalCompare a.path b.path = 0
    · have hsame := lexicalCompare_eq_zero_iff.mp hpath
      rw [if_neg (not_not.mpr hpath), hsame, or_iff_right (lt_irrefl _), and_iff_right rfl]
      omega
    · have hne : utf16Units a.path ≠ utf16Units b.path :=
        fun h => hpath (lexicalCompare_eq_zero_iff.mpr (utf16Units_inj h))
      rw [if_pos hpath, lexicalCompare_le_zero_iff hpath, or_iff_left fun h => hne h.1]
  · have hne : utf16Units a.timestamp ≠ utf16Units b.timestamp :=
      fun h => htime (lexicalCompare_eq_zero_iff.mpr (utf16Units_inj h))
    rw [if_pos htime, lexicalCompare_le_zero_iff htime, or_iff_left fun h => hne h.1]

/-- Sorting keeps the events. -/
theorem sortEvents_perm (events : List (TimelineEvent ν)) : (sortEvents events).Perm events :=
  List.mergeSort_perm _ _

/-- Sorted events ascend by their keys. -/
theorem pairwise_sortEvents (events : List (TimelineEvent ν)) :
    (sortEvents events).Pairwise fun a b => a.key ≤ b.key := by
  have htrans : ∀ a b c : TimelineEvent ν, decide (compareEvents a b ≤ 0) = true →
      decide (compareEvents b c ≤ 0) = true → decide (compareEvents a c ≤ 0) = true := by
    simp only [decide_eq_true_eq, compareEvents_le_zero_iff]
    exact fun a b c => le_trans
  have htotal : ∀ a b : TimelineEvent ν,
      (decide (compareEvents a b ≤ 0) || decide (compareEvents b a ≤ 0)) = true := by
    simp only [Bool.or_eq_true, decide_eq_true_eq, compareEvents_le_zero_iff]
    exact fun a b => le_total _ _
  refine (List.pairwise_mergeSort htrans htotal events).imp fun hle => ?_
  exact compareEvents_le_zero_iff.mp (of_decide_eq_true hle)

/-- Timestamps with the same text are the same instant. -/
theorem timestampText_inj {t u : CalendarTime} (ht : IsTimestamp t) (hu : IsTimestamp u)
    (h : timestampText t = timestampText u) : t.instant = u.instant := by
  have hlt := timestampText_lt_iff ht hu
  have hgt := timestampText_lt_iff hu ht
  rw [h] at hlt hgt
  have hle := not_lt.mp (hlt.not.mp (lt_irrefl _))
  have hge := not_lt.mp (hgt.not.mp (lt_irrefl _))
  exact le_antisymm hge hle

/-- Events of different lines are in the order of instant, path and line. -/
theorem TimelineEvent.before_of_key {a b : TimelineEvent ν} (h : a.key ≤ b.key)
    (hne : (a.path, a.line) ≠ (b.path, b.line)) : a.Before b := by
  intro t u ht hu ha hb
  rw [key, key, Prod.Lex.toLex_le_toLex, Prod.Lex.toLex_le_toLex] at h
  rcases h with htime | ⟨htime, hrest⟩
  · dsimp only at htime
    rw [ha, hb, timestampText_lt_iff ht hu] at htime
    exact .inl htime
  · have hsame : a.timestamp = b.timestamp := utf16Units_inj htime
    rw [ha, hb] at hsame
    refine .inr ⟨timestampText_inj ht hu hsame, ?_⟩
    rcases hrest with hpath | ⟨hpath, hline⟩
    · exact .inl hpath
    · have hpath : a.path = b.path := utf16Units_inj hpath
      refine .inr ⟨hpath, lt_of_le_of_ne hline fun heq => hne ?_⟩
      rw [hpath]
      exact congrArg _ heq

/-! ## The events of the files -/

/-- The events of a file: those of its lines that are not blank, each with the value and the
timestamp of its line. -/
structure FileEvents (lib : StandardJson String ν) (tokens : List String) (path content : String)
    (events : List (TimelineEvent ν)) : Prop where
  path : ∀ e ∈ events, e.path = path
  lines : events.map TimelineEvent.line =
    ((jsonlLines content).zipIdx.filter fun line => !isBlankLine line.1).map fun line => line.2 + 1
  value : ∀ e ∈ events, ∃ line, (jsonlLines content)[e.line - 1]? = some line ∧
    isBlankLine line = false ∧ parseRetainedJson lib line = .ok e.value
  timestamp : ∀ e ∈ events,
    retainedJsonCellAt e.value tokens = .ok (some (.string e.timestamp)) ∧
      ∃ t, IsTimestamp t ∧ e.timestamp = timestampText t

variable {tokens : List String}

/-- The timestamp of a row is a written one at the pointer. -/
theorem rowTimestamp_eq_ok_iff {row : JsonTree String (ExactNumber ν)}
    {timestamp : String} : rowTimestamp tokens row = .ok timestamp ↔
      retainedJsonCellAt row tokens = .ok (some (.string timestamp)) ∧
        ∃ t, IsTimestamp t ∧ timestamp = timestampText t := by
  rw [rowTimestamp, ← timestamp_eq_ok_iff]
  split
  next message hcell => exact iff_of_false nofun fun h => by rw [hcell] at h; cases h.1
  next value hcell =>
    rw [hcell]
    cases hvalue : retainedTimelineTimestamp value with
    | error message =>
      refine iff_of_false nofun fun h => ?_
      obtain ⟨rfl⟩ := JsonTree.string.inj (Option.some.inj (Except.ok.inj h.1))
      rw [hvalue] at h
      cases h.2
    | ok _ =>
      change Except.ok value = Except.ok timestamp ↔ _
      rw [Except.ok.injEq]
      constructor
      · rintro rfl
        exact ⟨rfl, hvalue⟩
      · exact fun h => JsonTree.string.inj (Option.some.inj (Except.ok.inj h.1))
  next cell hother hcell =>
    refine iff_of_false nofun fun h => ?_
    exact hother timestamp (Except.ok.inj (hcell.symm.trans h.1))

/-- The event of a row has its timestamp, path, line and value. -/
theorem timelineEvent_eq_ok_iff {describe : JsonFault → String}
    {path : String} {row : JsonTree String (ExactNumber ν) × ℕ} {e : TimelineEvent ν} :
    timelineEvent describe tokens path row = .ok e ↔
      rowTimestamp tokens row.1 = .ok e.timestamp ∧ e.path = path ∧ e.line = row.2 ∧
        e.value = row.1 := by
  rw [timelineEvent]
  cases htime : rowTimestamp tokens row.1 with
  | error message => exact iff_of_false nofun fun h => nomatch h.1
  | ok timestamp =>
    dsimp only
    rw [Except.ok.injEq, Except.ok.injEq]
    constructor
    · rintro rfl
      exact ⟨rfl, rfl, rfl, rfl⟩
    · obtain ⟨time, place, line, value⟩ := e
      rintro ⟨rfl, rfl, rfl, rfl⟩
      rfl

variable {lib : StandardJson String ν} {events : List (TimelineEvent ν)}

/-- The events that the rows of a file give. -/
theorem fileEvents_of_rows {describe : JsonFault → String} {path content : String}
    {found : JsonlRows ν} (hfound : JsonlExact lib (jsonlLines content) found)
    (h : (found.rows.zip found.sourceLines).mapM (timelineEvent describe tokens path) =
      .ok events) : FileEvents lib tokens path content events := by
  have hlength := hfound.rows.length_eq
  have hevents : List.Forall₂ (fun row (e : TimelineEvent ν) =>
      rowTimestamp tokens row.1 = .ok e.timestamp ∧ e.path = path ∧ e.line = row.2 ∧
        e.value = row.1) (found.rows.zip found.sourceLines) events :=
    (mapM_eq_ok_iff.mp h).imp fun row e => timelineEvent_eq_ok_iff.mp
  have hrow : ∀ e ∈ events, ∃ row ∈ found.rows.zip found.sourceLines,
      rowTimestamp tokens row.1 = .ok e.timestamp ∧ e.path = path ∧ e.line = row.2 ∧
        e.value = row.1 := by
    intro e he
    obtain ⟨i, hi⟩ := List.getElem?_of_mem he
    obtain ⟨hlt, rfl⟩ := List.getElem?_eq_some_iff.mp hi
    exact ⟨_, List.getElem_mem (hevents.length_eq ▸ hlt), hevents.get _ hlt⟩
  refine ⟨fun e he => ?_, ?_, fun e he => ?_, fun e he => ?_⟩
  · obtain ⟨row, -, -, hpath, -⟩ := hrow e he
    exact hpath
  · have hlines : events.map TimelineEvent.line =
        (found.rows.zip found.sourceLines).map Prod.snd := by
      rw [← List.forall₂_eq_eq_eq, List.forall₂_map_left_iff, List.forall₂_map_right_iff]
      exact hevents.flip.imp fun e row h => h.2.2.1
    rw [hlines, List.map_snd_zip hlength.le, hfound.sourceLines]
  · obtain ⟨row, hmem, -, -, hline, hvalue⟩ := hrow e he
    rw [hline, hvalue]
    refine List.forall₂_zip hfound.rows ?_
    rw [← List.zip_swap]
    exact List.mem_map_of_mem hmem
  · obtain ⟨row, -, htime, -, -, hvalue⟩ := hrow e he
    rw [hvalue]
    exact rowTimestamp_eq_ok_iff.mp htime

/-- The events of a file come from different lines. -/
theorem FileEvents.pairwise_line {path content : String}
    (h : FileEvents lib tokens path content events) :
    events.Pairwise fun a b => (a.path, a.line) ≠ (b.path, b.line) := by
  have hplaces := ((List.filter_sublist (l := (jsonlLines content).zipIdx)
    (p := fun line => !isBlankLine line.1)).map Prod.snd).nodup (List.nodup_zipIdx_map_snd _)
  have hlines : (events.map TimelineEvent.line).Nodup := by
    have hsucc := hplaces.map Nat.succ_injective
    rw [List.map_map] at hsucc
    rw [h.lines]
    exact hsucc
  rw [List.Nodup, List.pairwise_map] at hlines
  exact hlines.imp fun hne heq => hne (congrArg Prod.snd heq)

/-- The events of files at different paths come from different lines. -/
theorem pairwise_flatten_line {text : String → Except JsonFault String} {paths : List String}
    {inputs : List (List (TimelineEvent ν))}
    (h : List.Forall₂ (fun path found => ∃ content, text path = .ok content ∧
      FileEvents lib tokens path content found) paths inputs) (hpaths : paths.Nodup) :
    inputs.flatten.Pairwise fun a b => (a.path, a.line) ≠ (b.path, b.line) := by
  have hfrom : ∀ {paths : List String} {inputs : List (List (TimelineEvent ν))},
      List.Forall₂ (fun path found => ∃ content, text path = .ok content ∧
        FileEvents lib tokens path content found) paths inputs →
      ∀ e ∈ inputs.flatten, e.path ∈ paths := by
    intro paths inputs h
    induction h with
    | nil => exact fun e he => absurd he List.not_mem_nil
    | cons hfound _ ih =>
      obtain ⟨content, -, hevents⟩ := hfound
      intro e he
      rw [List.flatten_cons, List.mem_append] at he
      rcases he with he | he
      · rw [hevents.path e he]
        exact List.mem_cons_self
      · exact List.mem_cons_of_mem _ (ih e he)
  induction h with
  | nil => exact .nil
  | cons hfound hrest ih =>
    obtain ⟨content, -, hevents⟩ := hfound
    obtain ⟨hfirst, hother⟩ := List.nodup_cons.mp hpaths
    rw [List.flatten_cons, List.pairwise_append]
    refine ⟨hevents.pairwise_line, ih hother, fun a ha b hb heq => hfirst ?_⟩
    have hsame : a.path = b.path := congrArg Prod.fst heq
    rw [← hevents.path a ha, hsame]
    exact hfrom hrest b hb

/-- The events in the order of instant, path and line, for all files together. -/
structure TimelineExact (lib : StandardJson String ν) (text : String → Except JsonFault String)
    (tokens : List String) (paths : List String) (events : List (TimelineEvent ν)) : Prop where
  perm : ∃ inputs, List.Forall₂ (fun path found => ∃ content, text path = .ok content ∧
    FileEvents lib tokens path content found) paths inputs ∧ events.Perm inputs.flatten
  sorted : events.Pairwise TimelineEvent.Before

/-- The loop over the files collects the events of each of them. -/
theorem timeline_files (hlib : lib.Conforms)
    {describe : JsonFault → String} {text : String → Except JsonFault String}
    {skipBlankLines : Bool} {tokens : List String} {files : List ScratchEntry}
    {s : TimelineState ν} (h : files.foldlM
      (TimelineState.step lib describe text skipBlankLines tokens) ⟨[], [], 0, 0, 0⟩ = .ok s) :
    ∃ inputs, List.Forall₂ (fun path found => ∃ content, text path = .ok content ∧
      FileEvents lib tokens path content found) (files.map ScratchEntry.relativePath) inputs ∧
      s.events = inputs.flatten := by
  refine Loop.holds_of_foldlM (fun before (s : TimelineState ν) => ∃ inputs,
    List.Forall₂ (fun path found => ∃ content, text path = .ok content ∧
      FileEvents lib tokens path content found) (before.map ScratchEntry.relativePath) inputs ∧
      s.events = inputs.flatten) ⟨[], .nil, rfl⟩ ?_ h
  rintro before file s next - ⟨inputs, hinputs, hevents⟩ hround
  obtain ⟨content, hcontent, hround⟩ := Loop.bind_eq_ok_iff.mp hround
  obtain ⟨found, hfound, hround⟩ := Loop.bind_eq_ok_iff.mp hround
  obtain ⟨-, hround⟩ := Loop.guard_eq_ok_iff.mp hround
  obtain ⟨events, hmap, hnext⟩ := Loop.bind_eq_ok_iff.mp hround
  obtain ⟨-, haccepted, rfl⟩ :=
    (retainedJsonlRowsCounted_eq_ok_iff hlib).mp (Loop.mapError_eq_ok_iff.mp hfound)
  rw [Except.ok.injEq] at hnext
  subst hnext
  refine ⟨inputs ++ [events], ?_, ?_⟩
  · rw [List.map_append]
    exact List.rel_append hinputs
      (.cons ⟨content, hcontent, fileEvents_of_rows haccepted.exact hmap⟩ .nil)
  · rw [List.flatten_append, ← hevents, List.flatten_singleton]

/-- The sorted events of the files are the timeline. -/
theorem timelineExact_sortEvents {text : String → Except JsonFault String} {paths : List String}
    {inputs : List (List (TimelineEvent ν))}
    (h : List.Forall₂ (fun path found => ∃ content, text path = .ok content ∧
      FileEvents lib tokens path content found) paths inputs) (hpaths : paths.Nodup) :
    TimelineExact lib text tokens paths (sortEvents inputs.flatten) where
  perm := ⟨inputs, h, sortEvents_perm _⟩
  sorted := by
    have hlines := ((sortEvents_perm inputs.flatten).pairwise_iff
      fun {a b} (hne : (a.path, a.line) ≠ (b.path, b.line)) => hne.symm).mpr
      (pairwise_flatten_line h hpaths)
    exact ((pairwise_sortEvents _).and hlines).imp fun h => TimelineEvent.before_of_key h.1 h.2

/-! ## The table -/

/-- The table of the events: each record starts with the file, the line and the timestamp of its
event. -/
def TimelineTable (columns : List RetentionJsonColumn) (events : List (TimelineEvent ν))
    (csv : String) : Prop :=
  ∃ records, records.length = events.length ∧
    csv = csvText ((timelineHeaders ++ columns.map RetentionJsonColumn.header) :: records) ∧
    ∀ (k : ℕ) (e : TimelineEvent ν), events[k]? = some e → ∃ cells,
      records[k]? = some (e.path :: intText e.line :: e.timestamp :: cells)

/-- The projection of the events to a table. -/
theorem timelineTable_of_csv {describe : String → String}
    {columns : List RetentionJsonColumn} {pointer : String} {table : JsonTable}
    (htokens : retainedEditTokens pointer = .ok tokens)
    (hevents : ∀ e ∈ events, retainedJsonCellAt e.value tokens = .ok (some (.string e.timestamp)))
    (h : retainedJsonCsv lib describe (events.map TimelineEvent.value)
      (⟨"__timestamp", pointer⟩ :: columns)
      (.files (events.map TimelineEvent.path) (events.map TimelineEvent.line)) = .ok table) :
    table.rows = events.length ∧ TimelineTable columns events table.csv := by
  obtain ⟨others, records, hothers, ⟨hlength, hrecords⟩, hrows, hcsv⟩ := csv_of_retainedJsonCsv h
  rw [List.length_map] at hlength hrows
  refine ⟨hrows, records, hlength, hcsv, fun k e hk => ?_⟩
  obtain ⟨cells, hcells, hrecord⟩ := hrecords k e.value (by rw [List.getElem?_map, hk]; rfl)
  obtain ⟨first, rest, hfirst, -, rfl⟩ := List.forall₂_cons_left_iff.mp (mapM_eq_ok_iff.mp hothers)
  rw [htokens, Except.ok.injEq] at hfirst
  subst hfirst
  rw [List.zipIdx_cons] at hcells
  obtain ⟨cell, tail, hcell, -, rfl⟩ := List.forall₂_cons_left_iff.mp (mapM_eq_ok_iff.mp hcells)
  have htime := hevents e (List.mem_of_getElem? hk)
  rw [jsonColumn, jsonTableCell, htime] at hcell
  dsimp only at hcell
  obtain ⟨-, hcell⟩ := Loop.guard_eq_ok_iff.mp hcell
  rw [Except.ok.injEq] at hcell
  subst hcell
  refine ⟨tail.map JsonCell.value, ?_⟩
  rw [hrecord, JsonSources.cells, List.getD_eq_getElem?_getD, List.getD_eq_getElem?_getD,
    List.getElem?_map, List.getElem?_map, hk]
  rfl

/-- What an accepted mapping gives. -/
theorem retainedTimelineMapping_eq_ok {mapping : TimelineMapping} {paths tokens : List String}
    (h : retainedTimelineMapping mapping = .ok (paths, tokens)) :
    paths.Perm mapping.files ∧ paths.Nodup ∧ retainedEditTokens mapping.timestamp = .ok tokens := by
  rw [retainedTimelineMapping, Loop.guard_eq_ok_iff, Loop.guard_eq_ok_iff] at h
  obtain ⟨-, hpaths, h⟩ := h
  obtain ⟨found, hfound, h⟩ := Loop.bind_eq_ok_iff.mp h
  obtain ⟨-, h⟩ := Loop.guard_eq_ok_iff.mp h
  obtain ⟨rfl, rfl⟩ := Prod.mk.inj (Except.ok.inj h)
  have hperm : (lexicalSort mapping.files).Perm mapping.files := List.mergeSort_perm _ _
  exact ⟨hperm, hperm.nodup_iff.mpr (not_not.mp hpaths).2, Loop.mapError_eq_ok_iff.mp hfound⟩

/-- The file of a path has that path. -/
theorem timelineFile_eq_ok {record : RetentionRecord} {path : String} {file : ScratchEntry}
    (h : timelineFile record path = .ok file) : file.relativePath = path := by
  rw [timelineFile] at h
  split at h
  next => cases h
  next found hfound =>
    obtain ⟨-, h⟩ := Loop.guard_eq_ok_iff.mp h
    have hpath := List.find?_some hfound
    rw [← Except.ok.inj h]
    exact beq_iff_eq.mp hpath

/-- The accepted timestamps are the spellings of the instants of the years 1 to 9999, and their
texts are in the order of the instants. A merged timeline has every event of every file once, in
the order of instant, path and line, each one with its file and line. -/
theorem timeline_sorted_permutation {lib : StandardJson String ν} (hlib : lib.Conforms) :
    (∀ text, retainedTimelineTimestamp text = .ok () ↔
      ∃ t, IsTimestamp t ∧ text = timestampText t) ∧
    (∀ t u, IsTimestamp t → IsTimestamp u →
      (utf16Units (timestampText t) < utf16Units (timestampText u) ↔ t.instant < u.instant)) ∧
    ∀ (describe : JsonFault → String) (call : TimelineCall τ) (timeline : RetentionTimeline),
      mergeRetainedTimeline lib describe call = .ok timeline → ∃ paths tokens events,
        paths.Perm call.mapping.files ∧ retainedEditTokens call.mapping.timestamp = .ok tokens ∧
        TimelineExact lib call.text tokens paths events ∧ timeline.rowCount = events.length ∧
        TimelineTable call.mapping.columns events timeline.csv := by
  refine ⟨fun text => timestamp_eq_ok_iff, fun t u => timestampText_lt_iff, ?_⟩
  intro describe call timeline h
  rw [mergeRetainedTimeline] at h
  obtain ⟨⟨paths, tokens⟩, hmapping, h⟩ := Loop.bind_eq_ok_iff.mp h
  obtain ⟨hperm, hnodup, htokens⟩ := retainedTimelineMapping_eq_ok hmapping
  dsimp only at h
  split at h
  next => cases h
  next record hrecord =>
    obtain ⟨files, hfiles, h⟩ := Loop.bind_eq_ok_iff.mp h
    obtain ⟨-, h⟩ := Loop.guard_eq_ok_iff.mp h
    obtain ⟨s, hloop, h⟩ := Loop.bind_eq_ok_iff.mp h
    obtain ⟨table, htable, h⟩ := Loop.bind_eq_ok_iff.mp h
    obtain ⟨-, h⟩ := Loop.guard_eq_ok_iff.mp h
    obtain ⟨-, h⟩ := Loop.guard_eq_ok_iff.mp h
    obtain ⟨inputs, hinputs, hevents⟩ := timeline_files hlib hloop
    have hpaths : files.map ScratchEntry.relativePath = paths := by
      rw [← List.forall₂_eq_eq_eq, List.forall₂_map_left_iff]
      exact ((mapM_eq_ok_iff.mp hfiles).imp fun path file => timelineFile_eq_ok).flip
    rw [hpaths] at hinputs
    have hexact := timelineExact_sortEvents hinputs hnodup
    rw [← hevents] at hexact
    have hcells : ∀ e ∈ sortEvents s.events,
        retainedJsonCellAt e.value tokens = .ok (some (.string e.timestamp)) := by
      intro e he
      have hmem : e ∈ inputs.flatten := hevents ▸ (sortEvents_perm s.events).mem_iff.mp he
      obtain ⟨found, hfound, he⟩ := List.mem_flatten.mp hmem
      obtain ⟨i, hi⟩ := List.getElem?_of_mem hfound
      obtain ⟨hlt, rfl⟩ := List.getElem?_eq_some_iff.mp hi
      obtain ⟨content, -, hfile⟩ := hinputs.get (hinputs.length_eq ▸ hlt) hlt
      exact (hfile.timestamp e he).1
    obtain ⟨hrows, hcsv⟩ := timelineTable_of_csv htokens hcells (Loop.mapError_eq_ok_iff.mp htable)
    rw [← Except.ok.inj h]
    exact ⟨paths, tokens, sortEvents s.events, hperm, htokens, hexact, hrows, hcsv⟩

/-! ## A sample -/

/-- An event with its time and a name. -/
def sampleEventTree (time name : String) : JsonTree String (ExactNumber ℕ) :=
  .object [("t", .string time), ("n", .string name)]

/-- Two events, with a blank line between them. -/
def sampleFirstLog : String :=
  "\x7b\"t\":\"2000-01-01T00:00:01.000Z\",\"n\":\"a\"\x7d\n\n" ++
    "\x7b\"t\":\"2000-01-01T00:00:03.000Z\",\"n\":\"c\"\x7d\n"

/-- An event at a time between them. -/
def sampleSecondLog : String := "\x7b\"t\":\"2000-01-01T00:00:02.000Z\",\"n\":\"b\"\x7d\n"

/-- The text of an event is read back. -/
theorem sampleEventTree_parse (time name : String) (h : ∃ s,
    (stringifyTree sampleJson (sampleEventTree time name)).toList.foldlM scanDepth
      ⟨0, false, false⟩ = .ok s) :
    parseRetainedJson sampleJson (stringifyTree sampleJson (sampleEventTree time name)) =
      .ok (sampleEventTree time name) := by
  have hwritten : Written sampleJson (sampleEventTree time name) := by
    refine ⟨⟨by simp [sampleEventTree, JsonTree.count, countMembers], ?_⟩, ?_⟩
    · simp [sampleEventTree, JsonTree.Distinct, DistinctMembers]
    · simp [sampleEventTree, JsonTree.AllNumbers, AllMembers]
  exact (parse_of_written sampleJson_conforms sampleJson_readsStrings hwritten h).1

/-- The lines of the first file. -/
theorem sampleFirstLog_lines : jsonlLines sampleFirstLog =
    [stringifyTree sampleJson (sampleEventTree "2000-01-01T00:00:01.000Z" "a"), "",
      stringifyTree sampleJson (sampleEventTree "2000-01-01T00:00:03.000Z" "c")] := by
  have hlines : jsonlLines sampleFirstLog =
      ["\x7b\"t\":\"2000-01-01T00:00:01.000Z\",\"n\":\"a\"\x7d", "",
        "\x7b\"t\":\"2000-01-01T00:00:03.000Z\",\"n\":\"c\"\x7d"] := by decide
  exact hlines

/-- The line of the second file. -/
theorem sampleSecondLog_lines : jsonlLines sampleSecondLog =
    [stringifyTree sampleJson (sampleEventTree "2000-01-01T00:00:02.000Z" "b")] := by
  have hlines : jsonlLines sampleSecondLog =
      ["\x7b\"t\":\"2000-01-01T00:00:02.000Z\",\"n\":\"b\"\x7d"] := by decide
  exact hlines

/-- The first file is read as its two events, in lines 1 and 3. -/
theorem sampleFirstLog_rows : retainedJsonlRowsCounted sampleJson (fun _ => "") sampleFirstLog
    true 0 = .ok ⟨[sampleEventTree "2000-01-01T00:00:01.000Z" "a",
      sampleEventTree "2000-01-01T00:00:03.000Z" "c"], [1, 3], 3, 1, 6⟩ := by
  have hfirst := sampleEventTree_parse "2000-01-01T00:00:01.000Z" "a" ⟨_, rfl⟩
  have hlast := sampleEventTree_parse "2000-01-01T00:00:03.000Z" "c" ⟨_, rfl⟩
  have hfirstBlank : isBlankLine (stringifyTree sampleJson
    (sampleEventTree "2000-01-01T00:00:01.000Z" "a")) = false := by rfl
  have hlastBlank : isBlankLine (stringifyTree sampleJson
    (sampleEventTree "2000-01-01T00:00:03.000Z" "c")) = false := by rfl
  have hblank : isBlankLine "" = true := by rfl
  have htotal : jsonlTotalLines sampleFirstLog = 3 := by
    rw [← length_jsonlLines, sampleFirstLog_lines]
    rfl
  have hrecords : jsonlRecords sampleJson (jsonlLines sampleFirstLog) =
      [(sampleEventTree "2000-01-01T00:00:01.000Z" "a", 1),
        (sampleEventTree "2000-01-01T00:00:03.000Z" "c", 3)] := by
    rw [sampleFirstLog_lines]
    simp [jsonlRecords, List.zipIdx_cons, hfirst, hlast, hfirstBlank, hlastBlank, hblank,
      Except.toOption]
  refine (retainedJsonlRowsCounted_eq_ok_iff sampleJson_conforms).mpr
    ⟨by decide, ⟨?_, fun _ _ _ => rfl, ?_, ?_⟩, ?_⟩
  · rw [length_jsonlLines, htotal]
    decide
  · rw [sampleFirstLog_lines]
    intro line hline hnonblank
    simp only [List.mem_cons, List.not_mem_nil, or_false] at hline
    rcases hline with rfl | rfl | rfl
    · exact ⟨_, hfirst⟩
    · rw [hblank] at hnonblank
      cases hnonblank
    · exact ⟨_, hlast⟩
  · rw [hrecords]
    decide
  · have hblanks : (jsonlLines sampleFirstLog).countP isBlankLine = 1 := by
      simp [sampleFirstLog_lines, hfirstBlank, hlastBlank, hblank]
    rw [JsonlRows.of, hrecords, htotal, hblanks]
    rfl

/-- The second file is read behind the values of the first one. -/
theorem sampleSecondLog_rows : retainedJsonlRowsCounted sampleJson (fun _ => "") sampleSecondLog
    true 6 = .ok ⟨[sampleEventTree "2000-01-01T00:00:02.000Z" "b"], [1], 1, 0, 9⟩ := by
  have hparse := sampleEventTree_parse "2000-01-01T00:00:02.000Z" "b" ⟨_, rfl⟩
  have hblank : isBlankLine (stringifyTree sampleJson
    (sampleEventTree "2000-01-01T00:00:02.000Z" "b")) = false := by rfl
  have htotal : jsonlTotalLines sampleSecondLog = 1 := by
    rw [← length_jsonlLines, sampleSecondLog_lines]
    rfl
  have hrecords : jsonlRecords sampleJson (jsonlLines sampleSecondLog) =
      [(sampleEventTree "2000-01-01T00:00:02.000Z" "b", 1)] := by
    rw [sampleSecondLog_lines]
    simp [jsonlRecords, hparse, hblank, Except.toOption]
  refine (retainedJsonlRowsCounted_eq_ok_iff sampleJson_conforms).mpr
    ⟨by decide, ⟨?_, fun _ _ _ => rfl, ?_, ?_⟩, ?_⟩
  · rw [length_jsonlLines, htotal]
    decide
  · rw [sampleSecondLog_lines]
    exact fun line hline _ => ⟨_, List.mem_singleton.mp hline ▸ hparse⟩
  · rw [hrecords]
    decide
  · have hblanks : (jsonlLines sampleSecondLog).countP isBlankLine = 0 := by
      simp [sampleSecondLog_lines, hblank]
    rw [JsonlRows.of, hrecords, htotal, hblanks]
    rfl

/-- An event of the sample. -/
def sampleEvent (time name path : String) (line : ℕ) : TimelineEvent ℕ :=
  ⟨time, path, line, sampleEventTree time name⟩

/-- The first event, of the first file. -/
def sampleFirstEvent : TimelineEvent ℕ :=
  sampleEvent "2000-01-01T00:00:01.000Z" "a" "a.jsonl" 1

/-- The second event, of the second file. -/
def sampleSecondEvent : TimelineEvent ℕ :=
  sampleEvent "2000-01-01T00:00:02.000Z" "b" "b.jsonl" 1

/-- The third event, of the first file again. -/
def sampleThirdEvent : TimelineEvent ℕ :=
  sampleEvent "2000-01-01T00:00:03.000Z" "c" "a.jsonl" 3

/-- The events in the order of the timeline. -/
def sampleTimelineEvents : List (TimelineEvent ℕ) :=
  [sampleFirstEvent, sampleSecondEvent, sampleThirdEvent]

/-- The event of the second file comes between those of the first one. -/
theorem sampleEvents_sorted :
    sortEvents [sampleFirstEvent, sampleThirdEvent, sampleSecondEvent] = sampleTimelineEvents := by
  have hoverThird : compareEvents sampleFirstEvent sampleThirdEvent ≤ 0 := by decide
  have hoverSecond : compareEvents sampleFirstEvent sampleSecondEvent ≤ 0 := by decide
  have hswap : ¬compareEvents sampleThirdEvent sampleSecondEvent ≤ 0 := by decide
  simp [sortEvents, sampleTimelineEvents, List.mergeSort, List.MergeSort.Internal.splitInTwo,
    hoverThird, hoverSecond, hswap]

/-- The merged table: the third event stands behind the one of the other file. -/
def sampleTimelineCsv : String := csvText
  [["__source_path", "__source_line", "__timestamp", "n"],
    ["a.jsonl", "1", "2000-01-01T00:00:01.000Z", "a"],
    ["b.jsonl", "1", "2000-01-01T00:00:02.000Z", "b"],
    ["a.jsonl", "3", "2000-01-01T00:00:03.000Z", "c"]]

/-- The events are projected to the table. -/
theorem sampleTimeline_table : retainedJsonCsv sampleJson (fun _ => "")
    (sampleTimelineEvents.map TimelineEvent.value) [⟨"__timestamp", "/t"⟩, ⟨"n", "/n"⟩]
    (.files (sampleTimelineEvents.map TimelineEvent.path)
      (sampleTimelineEvents.map TimelineEvent.line)) = .ok ⟨sampleTimelineCsv, 3, 0, 0⟩ := by
  rfl

/-- The mapping of the sample. -/
def sampleMappingText : String :=
  "\x7b\"version\":1,\"files\":[\"b.jsonl\",\"a.jsonl\"],\"timestamp\":\"/t\"," ++
    "\"columns\":[\x7b\"header\":\"n\",\"pointer\":\"/n\"\x7d]\x7d"

/-- SHA-256 on the two files, the mapping and the table. -/
def sampleTimelineCrypto : Crypto where
  sha256 := Crypto.tabled [
    (utf8Encode sampleFirstLog,
      [236, 166, 24, 50, 183, 27, 174, 62, 229, 130, 100, 139, 205, 142, 20, 246, 145, 120, 3, 67,
        143, 164, 44, 233, 232, 205, 136, 2, 244, 66, 151, 185]),
    (utf8Encode sampleSecondLog,
      [156, 204, 174, 242, 190, 58, 247, 228, 81, 55, 40, 199, 189, 142, 76, 94, 126, 97, 162, 247,
        150, 1, 200, 186, 136, 161, 6, 95, 236, 168, 85, 150]),
    (utf8Encode sampleMappingText,
      [67, 13, 150, 103, 29, 99, 173, 22, 25, 7, 153, 219, 255, 141, 181, 254, 96, 232, 220, 162,
        180, 63, 245, 250, 77, 228, 221, 206, 121, 139, 178, 44]),
    (utf8Encode sampleTimelineCsv,
      [79, 202, 115, 136, 2, 230, 36, 249, 240, 157, 153, 247, 113, 252, 22, 65, 54, 251, 51, 103,
        106, 217, 22, 53, 58, 171, 251, 196, 158, 194, 11, 25])]
  hmac _ := Crypto.tabled []

/-- The first file as it is retained. -/
def sampleFirstFile : ScratchEntry := ⟨"a.jsonl", .regularFile, 83,
  "eca61832b71bae3ee582648bcd8e14f6917803438fa42ce9e8cd8802f44297b9"⟩

/-- The second file as it is retained. -/
def sampleSecondFile : ScratchEntry := ⟨"b.jsonl", .regularFile, 41,
  "9cccaef2be3af7e4513728c7bd8e4c5e7e61a2f79601c8ba88a1065feca85596"⟩

/-- The record of the two files. -/
def sampleTimelineRecord : RetentionRecord :=
  { sampleBundleRecord with reviewableFiles := [sampleFirstFile, sampleSecondFile] }

/-- The record as a host answers it. -/
def sampleTimelineReading : RecordReading :=
  { sampleBundleReading with manifest := some sampleTimelineRecord }

/-- The merge of the two files. -/
def sampleTimelineCall : TimelineCall SampleText where
  crypto := sampleTimelineCrypto
  store := sampleRetentionLibrary
  host := ⟨sampleTimelineReading, fun path => ⟨sampleTimelineReading,
    some (utf8Encode (if path = "a.jsonl" then sampleFirstLog else sampleSecondLog)),
    sampleTimelineReading⟩, sampleTimelineReading⟩
  binding := sampleBundleBinding
  config := sampleDeployment
  mapping := ⟨utf8Encode sampleMappingText, ["b.jsonl", "a.jsonl"], "/t", [⟨"n", "/n"⟩]⟩
  skipBlankLines := true

/-- The record is the one that the binding names. -/
theorem sampleTimeline_record : boundArtifactRecord sampleRetentionLibrary sampleTimelineReading
    sampleBundleBinding sampleDeployment = some sampleTimelineRecord :=
  sampleBundle_record_of (by decide)

/-- A file of the record gives the text that it holds. -/
theorem sampleTimeline_text {path text : String} {file : ScratchEntry}
    (hpath : scratchRelativePathIsSafe path = true)
    (hfile : sampleTimelineRecord.reviewableFiles.find? (fun other => other.relativePath == path) =
      some file)
    (htext : (if path = "a.jsonl" then sampleFirstLog else sampleSecondLog) = text)
    (hlimits : (scratchRelativePathIsSafe file.relativePath && file.kind == .regularFile &&
      0 ≤ file.sizeBytes && file.sizeBytes ≤ 16777216) = true)
    (hsize : (utf8Length text : ℤ) = file.sizeBytes)
    (hdigest : sampleTimelineCrypto.digest (utf8Encode text) = file.fingerprint) :
    sampleTimelineCall.text path = .ok text := by
  have hlimit : retainedArtifactByteLimit sampleDeployment = 16777216 := by decide
  have hroot : pathIsCanonicalAbsolute sampleTimelineRecord.scratchPath = true := by decide
  have hread : readScratchArtifact sampleTimelineCrypto
      (sampleTimelineCall.host.artifact path).file sampleTimelineRecord.scratchPath file
      (retainedArtifactByteLimit sampleDeployment) = some (utf8Encode text) := by
    refine readScratchArtifact_of_digest ?_ ?_ ?_ hdigest
    · rw [← htext]
      rfl
    · simpa [hroot, hlimit, and_assoc] using hlimits
    · rw [length_utf8Encode]
      exact hsize
  have hverified : verifiedRetainedArtifact sampleTimelineCrypto sampleRetentionLibrary
      (sampleTimelineCall.host.artifact path) sampleBundleBinding path sampleDeployment =
        some (sampleTimelineRecord, file, utf8Encode text) :=
    verifiedRetainedArtifact_of_read hpath sampleTimeline_record hfile hread sampleTimeline_record
  rw [TimelineCall.text, timelineText]
  dsimp only [sampleTimelineCall] at hverified ⊢
  rw [hverified]
  dsimp only
  rw [mapM_utf8Items_utf8Encode]
  dsimp only
  rw [String.ofList_toList]

/-- The mapping is accepted, with its files in order. -/
theorem sampleTimeline_mapping : retainedTimelineMapping sampleTimelineCall.mapping =
    .ok (["a.jsonl", "b.jsonl"], ["t"]) := by
  have hsorted : lexicalSort ["b.jsonl", "a.jsonl"] = ["a.jsonl", "b.jsonl"] := by
    have hle : ¬utf16Units "b.jsonl" ≤ utf16Units "a.jsonl" := by decide
    simp [lexicalSort, List.mergeSort, List.MergeSort.Internal.splitInTwo, hle]
  have hpaths : (∀ path ∈ sampleTimelineCall.mapping.files, path ≠ "" ∧ utf16Length path ≤ 4096 ∧
      containsText path "\x00" = false) ∧ sampleTimelineCall.mapping.files.Nodup := by
    decide
  have htokens : (retainedEditTokens "/t").mapError JsonFault.failed = .ok ["t"] := by rfl
  rw [retainedTimelineMapping, if_neg (by decide), if_neg (not_not.mpr hpaths)]
  dsimp only [sampleTimelineCall]
  rw [htokens, hsorted, Loop.bind_eq_ok_iff]
  exact ⟨_, rfl, if_neg (by decide)⟩

/-- SHA-256 finds the digests of the files, of the mapping and of the table. -/
theorem sampleTimeline_digests :
    sampleTimelineCrypto.digest (utf8Encode sampleFirstLog) = sampleFirstFile.fingerprint ∧
      sampleTimelineCrypto.digest (utf8Encode sampleSecondLog) = sampleSecondFile.fingerprint ∧
      sampleTimelineCrypto.digest (utf8Encode sampleMappingText) =
        "430d96671d63ad16190799dbff8db5fe60e8dca2b43ff5fa4de4ddce798bb22c" ∧
      sampleTimelineCrypto.digest (utf8Encode sampleTimelineCsv) =
        "4fca738802e624f9f09d99f771fc164136fb33676ad916353aabfbc49ec20b19" := by
  have hfirst : (utf8Encode sampleFirstLog)[2]? = some 116 := by decide
  have hsecond : (utf8Encode sampleSecondLog)[2]? = some 116 := by decide
  have hmapping : (utf8Encode sampleMappingText)[2]? = some 118 := by decide
  have hcsv : (utf8Encode sampleTimelineCsv)[2]? = some 95 := by
    rw [utf8Encode, sampleTimelineCsv, toList_csvText]
    decide
  have hne {a b : List UInt8} (h : a[2]? ≠ b[2]?) : a ≠ b := by
    rintro rfl
    exact h rfl
  have hfiles : utf8Encode sampleSecondLog ≠ utf8Encode sampleFirstLog := by
    intro h
    have hlength := congrArg utf8Length (utf8Encode_inj h)
    exact absurd hlength (by decide)
  simp only [Crypto.digest]
  dsimp only [sampleTimelineCrypto]
  refine ⟨?_, ?_, ?_, ?_⟩
  · rw [Crypto.tabled_head]
    decide
  · rw [Crypto.tabled_cons_of_ne hfiles, Crypto.tabled_head]
    decide
  · rw [Crypto.tabled_cons_of_ne (hne (by rw [hmapping, hfirst]; decide)),
      Crypto.tabled_cons_of_ne (hne (by rw [hmapping, hsecond]; decide)), Crypto.tabled_head]
    decide
  · rw [Crypto.tabled_cons_of_ne (hne (by rw [hcsv, hfirst]; decide)),
      Crypto.tabled_cons_of_ne (hne (by rw [hcsv, hsecond]; decide)),
      Crypto.tabled_cons_of_ne (hne (by rw [hcsv, hmapping]; decide)), Crypto.tabled_head]
    decide

/-- Both files give what they hold. -/
theorem sampleTimeline_texts : sampleTimelineCall.text "a.jsonl" = .ok sampleFirstLog ∧
    sampleTimelineCall.text "b.jsonl" = .ok sampleSecondLog :=
  ⟨sampleTimeline_text (by decide) rfl rfl (by decide) (by decide)
      sampleTimeline_digests.1,
    sampleTimeline_text (by decide) rfl rfl (by decide) (by decide)
      sampleTimeline_digests.2.1⟩

/-- What is known behind both files. -/
def sampleTimelineState : TimelineState ℕ where
  sources := [⟨sampleFirstFile, 3, 2, 1⟩, ⟨sampleSecondFile, 1, 1, 0⟩]
  events := [sampleFirstEvent, sampleThirdEvent, sampleSecondEvent]
  totalLines := 4
  blankLinesSkipped := 1
  totalValues := 9

/-- A line is an event when its time is a timestamp. -/
theorem sampleEvent_read {time name path : String} {line : ℕ}
    (h : retainedTimelineTimestamp time = .ok ()) :
    timelineEvent (fun _ => "") ["t"] path (sampleEventTree time name, line) =
      .ok (sampleEvent time name path line) :=
  timelineEvent_eq_ok_iff.mpr
    ⟨rowTimestamp_eq_ok_iff.mpr ⟨rfl, timestamp_eq_ok_iff.mp h⟩, rfl, rfl, rfl⟩

/-- The loop over the files collects their events. -/
theorem sampleTimeline_loop : [sampleFirstFile, sampleSecondFile].foldlM
    (TimelineState.step sampleJson (fun _ => "") sampleTimelineCall.text true ["t"])
      ⟨[], [], 0, 0, 0⟩ = .ok sampleTimelineState := by
  have hfirst : TimelineState.step sampleJson (fun _ => "") sampleTimelineCall.text true ["t"]
      ⟨[], [], 0, 0, 0⟩ sampleFirstFile =
        .ok ⟨[⟨sampleFirstFile, 3, 2, 1⟩], [sampleFirstEvent, sampleThirdEvent], 3, 1, 6⟩ := by
    refine Loop.bind_eq_ok_iff.mpr ⟨_, sampleTimeline_texts.1, ?_⟩
    refine Loop.bind_eq_ok_iff.mpr ⟨_, Loop.mapError_eq_ok_iff.mpr sampleFirstLog_rows, ?_⟩
    rw [if_neg (by decide)]
    exact Loop.bind_eq_ok_iff.mpr ⟨[sampleFirstEvent, sampleThirdEvent], mapM_eq_ok_iff.mpr
      (.cons (sampleEvent_read (by decide))
        (.cons (sampleEvent_read (by decide)) .nil)), rfl⟩
  have hsecond : TimelineState.step sampleJson (fun _ => "") sampleTimelineCall.text true ["t"]
      ⟨[⟨sampleFirstFile, 3, 2, 1⟩], [sampleFirstEvent, sampleThirdEvent], 3, 1, 6⟩
        sampleSecondFile = .ok sampleTimelineState := by
    refine Loop.bind_eq_ok_iff.mpr ⟨_, sampleTimeline_texts.2, ?_⟩
    refine Loop.bind_eq_ok_iff.mpr ⟨_, Loop.mapError_eq_ok_iff.mpr sampleSecondLog_rows, ?_⟩
    rw [if_neg (by decide)]
    exact Loop.bind_eq_ok_iff.mpr ⟨[sampleSecondEvent], mapM_eq_ok_iff.mpr
      (.cons (sampleEvent_read (by decide)) .nil), rfl⟩
  rw [List.foldlM_cons, hfirst, Loop.ok_bind, List.foldlM_cons, hsecond, Loop.ok_bind,
    List.foldlM_nil]
  rfl

/-- The merged timeline. -/
def sampleTimeline : RetentionTimeline where
  binding := sampleBundleBinding
  sources := sampleTimelineState.sources
  mappingFingerprint := "430d96671d63ad16190799dbff8db5fe60e8dca2b43ff5fa4de4ddce798bb22c"
  timestampPointer := "/t"
  columns := [⟨"n", "/n"⟩]
  skipBlankLines := true
  totalLines := 4
  rowCount := 3
  blankLinesSkipped := 1
  missingCells := 0
  nullCells := 0
  firstTimestamp := "2000-01-01T00:00:01.000Z"
  lastTimestamp := "2000-01-01T00:00:03.000Z"
  candidateFingerprint := "4fca738802e624f9f09d99f771fc164136fb33676ad916353aabfbc49ec20b19"
  candidateSizeBytes := 189
  csv := sampleTimelineCsv

/-- It is the result for the events. -/
theorem sampleTimeline_result : sampleTimelineCall.result sampleTimelineState sampleTimelineEvents
    ⟨sampleTimelineCsv, 3, 0, 0⟩ = sampleTimeline := by
  obtain ⟨-, -, hmapping, hcsv⟩ := sampleTimeline_digests
  have hsize : utf8Length sampleTimelineCsv = 189 := by
    rw [utf8Length, sampleTimelineCsv, toList_csvText]
    decide +kernel
  dsimp only [TimelineCall.result, sampleTimelineCall]
  rw [hmapping, hcsv, hsize]
  rfl

/-- Its context is short. -/
theorem sampleTimeline_size : sampleTimeline.context.size ≤ 2000 := by
  rw [Json.size, sampleTimeline, RetentionTimeline.context]
  dsimp only [sampleTimelineState, sampleBundleBinding, sampleFirstFile, sampleSecondFile, List.map,
    RetentionArtifactBinding.toJson, RetentionTimelineSource.toJson, RetentionJsonColumn.toJson,
    scratchEntryJson, Json.chars, memberChars, itemChars]
  repeat rw [quotedChars_ofList]
  decide +kernel

/-- The merge of the two files succeeds. -/
theorem sampleTimeline_merge : mergeRetainedTimeline sampleJson (fun _ => "") sampleTimelineCall =
    .ok sampleTimeline := by
  have hfiles : ["a.jsonl", "b.jsonl"].mapM (timelineFile sampleTimelineRecord) =
      .ok [sampleFirstFile, sampleSecondFile] := by rfl
  have hbudget : (utf8Length sampleTimeline.context.stringify + 1 : ℤ) ≤
      sampleTimelineCall.config.limits.maxProtocolBytes := by
    have hlimit : sampleTimelineCall.config.limits.maxProtocolBytes = 4096 := rfl
    have hsize := sampleTimeline_size
    rw [utf8Length_stringify, hlimit]
    omega
  exact mergeRetainedTimeline_of_parts sampleTimeline_mapping sampleTimeline_record hfiles
    (by decide) sampleTimeline_loop sampleEvents_sorted sampleTimeline_table sampleTimeline_record
    sampleTimeline_result hbudget

/-- Two files are merged, with the event of the second one between those of the first. -/
theorem timeline_sorted_permutation_sample :
    retainedTimelineTimestamp "2000-02-29T12:34:56.789Z" = .ok () ∧
      mergeRetainedTimeline sampleJson (fun _ => "") sampleTimelineCall = .ok sampleTimeline ∧
      ∃ paths tokens events, paths.Perm ["b.jsonl", "a.jsonl"] ∧
        retainedEditTokens "/t" = .ok tokens ∧
        TimelineExact sampleJson sampleTimelineCall.text tokens paths events ∧
        3 = events.length ∧ TimelineTable [⟨"n", "/n"⟩] events sampleTimelineCsv := by
  obtain ⟨htimestamp, -, hmerge⟩ :=
    timeline_sorted_permutation (τ := SampleText) sampleJson_conforms
  refine ⟨(htimestamp _).mpr ⟨⟨2000, 2, 29, 12, 34, 56, 789⟩, ⟨⟨?_, ?_, ?_, ?_, ?_, ?_, ?_, ?_⟩,
    by decide, by decide⟩, rfl⟩, sampleTimeline_merge, hmerge _ _ _ sampleTimeline_merge⟩ <;> decide

end Moonfort.Executor
