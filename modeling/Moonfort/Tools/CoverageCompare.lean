import Mathlib.Data.Finset.Sort
import Mathlib.Data.Prod.Lex
import Mathlib.Data.String.Basic
import Moonfort.Loop
import Moonfort.Tally
import Moonfort.Tools.CoverageReview

/-!
# The comparison of the coverage review tool

`aggregate` and `compare` of `coverage_review.py` over the groups of two accepted reports.
-/

namespace Moonfort.Tools

/-- The line observations of a report by source path and line. -/
abbrev LcovGroups := List ((String × ℕ) × List LcovRow)

/-- What `aggregate` makes of the observations of one coordinate. -/
structure LcovAggregate where
  covered : Bool
  reportedHitsSum : ℕ
  checksums : List String
  missingChecksumCount : ℕ
  observations : List LcovRow
  deriving DecidableEq

/-- The checksums that rows report. -/
def checksumSet (rows : List LcovRow) : Finset String :=
  (rows.filterMap LcovRow.checksum).toFinset

/-- `aggregate` of observations. -/
def aggregate (rows : List LcovRow) : LcovAggregate where
  covered := rows.any fun row => decide (0 < row.hits)
  reportedHitsSum := (rows.map LcovRow.hits).sum
  checksums := (checksumSet rows).sort (· ≤ ·)
  missingChecksumCount := (rows.filter fun row => row.checksum.isNone).length
  observations := rows

/-- The variable `status`. -/
inductive CoverageStatus where
  | checksumConflict
  | sourceChanged
  | addedCovered
  | addedUncovered
  | removedCovered
  | removedUncovered
  | coveredToUncovered
  | uncoveredToCovered
  | stillCovered
  | stillUncovered
  deriving DecidableEq

/-- The text of a status. -/
def CoverageStatus.text : CoverageStatus → String
  | .checksumConflict => "checksum-conflict"
  | .sourceChanged => "source-changed"
  | .addedCovered => "added-covered"
  | .addedUncovered => "added-uncovered"
  | .removedCovered => "removed-covered"
  | .removedUncovered => "removed-uncovered"
  | .coveredToUncovered => "covered-to-uncovered"
  | .uncoveredToCovered => "uncovered-to-covered"
  | .stillCovered => "still-covered"
  | .stillUncovered => "still-uncovered"

/-- `status.startswith('still-')`. -/
def CoverageStatus.isStill (status : CoverageStatus) : Bool :=
  "still-".toList.isPrefixOf status.text.toList

/-- The variable `basis`. -/
inductive ComparisonBasis where
  | inconsistentReportedSource
  | differentReportedChecksum
  | sameReportedChecksum
  | coordinateOnly
  deriving DecidableEq

/-- A row of the comparison. -/
structure ComparisonRow where
  coordinate : String × ℕ
  status : CoverageStatus
  basis : ComparisonBasis
  before : Option LcovAggregate
  after : Option LcovAggregate
  deriving DecidableEq

/-- The variable `conflict`. -/
def conflict (old new : Option LcovAggregate) : Bool :=
  old.any (fun side => decide (1 < side.checksums.length)) ||
    new.any (fun side => decide (1 < side.checksums.length))

/-- The variable `mismatch`. -/
def mismatch : Option LcovAggregate → Option LcovAggregate → Bool
  | some old, some new =>
    !old.checksums.isEmpty && !new.checksums.isEmpty && old.checksums != new.checksums
  | _, _ => false

/-- `basis` where neither a conflict nor a mismatch is found. -/
def sourceBasis : Option LcovAggregate → Option LcovAggregate → ComparisonBasis
  | some old, some new =>
    if !old.checksums.isEmpty && !new.checksums.isEmpty && old.missingChecksumCount == 0 &&
        new.missingChecksumCount == 0 then .sameReportedChecksum
    else .coordinateOnly
  | _, _ => .coordinateOnly

/-- `status` where neither a conflict nor a mismatch is found. A coordinate that is not in the
first report is in the second. -/
def coverageStatus : Option LcovAggregate → Option LcovAggregate → CoverageStatus
  | none, new => if new.any LcovAggregate.covered then .addedCovered else .addedUncovered
  | some old, none => if old.covered then .removedCovered else .removedUncovered
  | some old, some new =>
    if old.covered && !new.covered then .coveredToUncovered
    else if !old.covered && new.covered then .uncoveredToCovered
    else if new.covered then .stillCovered else .stillUncovered

/-- `status` and `basis` of a coordinate. -/
def classify (old new : Option LcovAggregate) : CoverageStatus × ComparisonBasis :=
  if conflict old new then (.checksumConflict, .inconsistentReportedSource)
  else if mismatch old new then (.sourceChanged, .differentReportedChecksum)
  else (coverageStatus old new, sourceBasis old new)

section Compare

variable (before after : LcovGroups)

/-- `sorted(set(before) | set(after))`. -/
def sortedCoordinates : List (String × ℕ) :=
  ((((before.map Prod.fst).toFinset ∪ (after.map Prod.fst).toFinset).image toLex).sort
    (· ≤ ·)).map ofLex

/-- The row of a coordinate. -/
def comparisonRow (coordinate : String × ℕ) : ComparisonRow :=
  let old := (LinkedMap.get coordinate before).map aggregate
  let new := (LinkedMap.get coordinate after).map aggregate
  ⟨coordinate, (classify old new).1, (classify old new).2, old, new⟩

/-- `compare`: the rows, and the dictionary of the counts by status. -/
def compareReports (changesOnly : Bool) : List ComparisonRow × List (CoverageStatus × ℕ) :=
  (sortedCoordinates before after).foldl
    (fun (result, counts) coordinate =>
      let row := comparisonRow before after coordinate
      (if !changesOnly || !row.status.isStill then result ++ [row] else result,
        Tally.count counts row.status))
    ([], [])

end Compare

/-! ## Accepted reports -/

/-- The groups of a report: a dictionary, and no coordinate without an observation. -/
structure ReportGroups (groups : LcovGroups) : Prop where
  nodup : (LinkedMap.keys groups).Nodup
  ne_nil : ∀ group ∈ groups, group.2 ≠ []

/-- An entry behind a change is the new one or one from before. -/
theorem mem_set {κ ν : Type} [DecidableEq κ] {key : κ} {value : ν} {entries : List (κ × ν)}
    {entry : κ × ν} (h : entry ∈ LinkedMap.set key value entries) :
    entry = (key, value) ∨ entry ∈ entries := by
  induction entries with
  | nil => exact Or.inl (List.mem_singleton.mp h)
  | cons first rest ih =>
    obtain ⟨k, v⟩ := first
    rw [LinkedMap.set] at h
    split at h
    · rcases List.mem_cons.mp h with rfl | hrest
      · exact Or.inl rfl
      · exact Or.inr (List.mem_cons_of_mem _ hrest)
    · rcases List.mem_cons.mp h with rfl | hrest
      · exact Or.inr List.mem_cons_self
      · exact (ih hrest).imp_right (List.mem_cons_of_mem _)

/-- One more row keeps the groups those of a report. -/
theorem ReportGroups.appendRow {groups : LcovGroups} (h : ReportGroups groups) (key : String × ℕ)
    (row : LcovRow) : ReportGroups (appendRow groups key row) := by
  refine ⟨LinkedMap.nodup_keys_set h.nodup, ?_⟩
  intro group hgroup
  rcases mem_set hgroup with rfl | hmem
  · exact List.append_ne_nil_of_right_ne_nil _ (List.cons_ne_nil _ _)
  · exact h.ne_nil group hmem

/-- The rows of a file keep the groups those of a report. -/
theorem ReportGroups.foldl {groups : LcovGroups} (h : ReportGroups groups) (path : String)
    (lines : List (ℕ × LcovRow)) :
    ReportGroups (lines.foldl
      (fun groups entry => Tools.appendRow groups (path, entry.1) entry.2) groups) := by
  induction lines generalizing groups with
  | nil => exact h
  | cons entry rest ih => exact ih (h.appendRow _ _)

/-- Only the end of a record adds to the groups. -/
theorem reportGroups_readLine {maxDigits : Option ℕ} {s t : LcovReader} {raw : String × ℕ}
    (hs : ReportGroups s.groups) (h : s.readLine maxDigits raw = .ok t) :
    ReportGroups t.groups := by
  unfold LcovReader.readLine at h
  dsimp only at h
  obtain ⟨-, h⟩ := Loop.guard_eq_ok_iff.mp h
  by_cases htest : (partitionLine raw.1).1 = "TN"
  · rw [if_pos htest, LcovReader.nameTest, Loop.guard_eq_ok_iff] at h
    obtain rfl := Except.ok.inj h.2
    exact hs
  rw [if_neg htest] at h
  by_cases hsource : (partitionLine raw.1).1 = "SF"
  · rw [if_pos hsource, LcovReader.openRecord, Loop.guard_eq_ok_iff, Loop.guard_eq_ok_iff] at h
    obtain rfl := Except.ok.inj h.2.2
    exact hs
  rw [if_neg hsource] at h
  by_cases hline : raw.1 = "end_of_record"
  · rw [if_pos hline, LcovReader.endRecord] at h
    rcases hcurrent : s.current with _ | current
    · rw [hcurrent] at h
      cases h
    · rw [hcurrent] at h
      dsimp only at h
      rw [Loop.guard_eq_ok_iff, Loop.guard_eq_ok_iff] at h
      obtain rfl := Except.ok.inj h.2.2
      exact hs.foldl current.path current.lines
  rw [if_neg hline] at h
  rcases hcurrent : s.current with _ | current
  · rw [hcurrent] at h
    cases h
  rw [hcurrent] at h
  dsimp only at h
  obtain ⟨-, h⟩ := Loop.guard_eq_ok_iff.mp h
  by_cases hdata : (partitionLine raw.1).1 = "DA"
  · rw [if_pos hdata, LcovReader.dataLine] at h
    dsimp only at h
    obtain ⟨-, h⟩ := Loop.guard_eq_ok_iff.mp h
    obtain ⟨sourceLine, -, h⟩ := Loop.bind_eq_ok_iff.mp h
    obtain ⟨hits, -, h⟩ := Loop.bind_eq_ok_iff.mp h
    simp only [Loop.guard_eq_ok_iff] at h
    obtain rfl := Except.ok.inj h.2.2.2.2
    exact hs
  rw [if_neg hdata] at h
  by_cases hcounter : (partitionLine raw.1).1 = "LF" ∨ (partitionLine raw.1).1 = "LH"
  · rw [if_pos hcounter, LcovReader.declare, Loop.guard_eq_ok_iff] at h
    obtain ⟨declared, -, h⟩ := Loop.bind_eq_ok_iff.mp h.2
    obtain rfl := Except.ok.inj h
    exact hs
  rw [if_neg hcounter] at h
  by_cases hignored : (partitionLine raw.1).1 ∈ LcovReader.ignoredTags
  · rw [if_pos hignored] at h
    obtain rfl := Except.ok.inj h
    exact hs
  · rw [if_neg hignored] at h
    cases h

/-- The groups that `lcov` returns. -/
theorem reportGroups_of_lcov {maxDigits : Option ℕ} {text : String} {result : LcovResult}
    (h : lcov maxDigits text = .ok result) : ReportGroups result.groups := by
  rw [lcov, Loop.guard_eq_ok_iff, Loop.guard_eq_ok_iff] at h
  obtain ⟨s, hs, hend⟩ := Loop.bind_eq_ok_iff.mp h.2.2
  have hstart : ReportGroups LcovReader.start.groups := ⟨List.nodup_nil, nofun⟩
  have hgroups : ReportGroups s.groups :=
    Loop.holds_of_foldlM_zipIdx (fun _ state => ReportGroups state.groups) hstart
      (fun _ _ _ _ hstate hnext => reportGroups_readLine hstate hnext) hs
  obtain rfl := Except.ok.inj (Loop.guard_eq_ok_iff.mp hend).2
  exact hgroups

/-! ## What a report says of a coordinate -/

section Report

variable (groups : LcovGroups) (coordinate : String × ℕ)

/-- The report has the observation at the coordinate. -/
def HasRow (row : LcovRow) : Prop := ∃ rows, (coordinate, rows) ∈ groups ∧ row ∈ rows

/-- The report observes the coordinate. -/
def Observed : Prop := ∃ row, HasRow groups coordinate row

/-- The report has a hit at the coordinate. -/
def CoveredAt : Prop := ∃ row, HasRow groups coordinate row ∧ 0 < row.hits

/-- The report gives a checksum at the coordinate. -/
def ReportsChecksum (checksum : String) : Prop :=
  ∃ row, HasRow groups coordinate row ∧ row.checksum = some checksum

/-- The report gives two checksums at the coordinate. -/
def Conflicting : Prop :=
  ∃ a b, ReportsChecksum groups coordinate a ∧ ReportsChecksum groups coordinate b ∧ a ≠ b

/-- Both reports give checksums at the coordinate, and not the same ones. -/
def Differing (before after : LcovGroups) (coordinate : String × ℕ) : Prop :=
  (∃ a, ReportsChecksum before coordinate a) ∧ (∃ a, ReportsChecksum after coordinate a) ∧
    ¬∀ a, ReportsChecksum before coordinate a ↔ ReportsChecksum after coordinate a

variable {groups coordinate}

/-- A coordinate has the rows that are found at it. -/
theorem hasRow_iff_of_get (h : ReportGroups groups) {rows : List LcovRow}
    (hget : LinkedMap.get coordinate groups = some rows) (row : LcovRow) :
    HasRow groups coordinate row ↔ row ∈ rows := by
  constructor
  · rintro ⟨rows', hmem, hrow⟩
    have hget' := LinkedMap.get_of_mem h.nodup hmem
    obtain rfl := Option.some.inj (hget.symm.trans hget')
    exact hrow
  · exact fun hrow => ⟨rows, LinkedMap.mem_of_get hget, hrow⟩

/-- A coordinate is observed where the dictionary has it. -/
theorem observed_iff (h : ReportGroups groups) :
    Observed groups coordinate ↔ coordinate ∈ LinkedMap.keys groups := by
  constructor
  · rintro ⟨_, _, hmem, _⟩
    exact List.mem_map_of_mem hmem
  · intro hmem
    obtain ⟨⟨_, rows⟩, hgroup, rfl⟩ := List.mem_map.mp hmem
    obtain ⟨row, hrow⟩ := List.exists_mem_of_ne_nil rows (h.ne_nil _ hgroup)
    exact ⟨row, rows, hgroup, hrow⟩

/-- The checksums of rows. -/
theorem mem_checksumSet {rows : List LcovRow} {checksum : String} :
    checksum ∈ checksumSet rows ↔ ∃ row ∈ rows, row.checksum = some checksum := by
  rw [checksumSet, List.mem_toFinset, List.mem_filterMap]

/-- What the aggregate of a coordinate says is what the report says. -/
theorem aggregate_says (h : ReportGroups groups) {rows : List LcovRow}
    (hget : LinkedMap.get coordinate groups = some rows) :
    ((aggregate rows).covered = true ↔ CoveredAt groups coordinate) ∧
      (∀ checksum, checksum ∈ checksumSet rows ↔ ReportsChecksum groups coordinate checksum) ∧
      (1 < (aggregate rows).checksums.length ↔ Conflicting groups coordinate) ∧
      ((aggregate rows).checksums.isEmpty = false ↔
        ∃ checksum, ReportsChecksum groups coordinate checksum) := by
  have hrow := hasRow_iff_of_get h hget
  have hchecksum (checksum : String) :
      checksum ∈ checksumSet rows ↔ ReportsChecksum groups coordinate checksum := by
    rw [mem_checksumSet]
    simp only [ReportsChecksum, hrow]
  refine ⟨?_, hchecksum, ?_, ?_⟩
  · simp only [aggregate, List.any_eq_true, decide_eq_true_eq, CoveredAt, hrow]
  · simp only [aggregate, Finset.length_sort, Finset.one_lt_card, hchecksum, Conflicting]
    constructor
    · rintro ⟨a, ha, b, hb, hne⟩
      exact ⟨a, b, ha, hb, hne⟩
    · rintro ⟨a, b, ha, hb, hne⟩
      exact ⟨a, ha, b, hb, hne⟩
  · simp only [← hchecksum, aggregate, ← Bool.not_eq_true, List.isEmpty_iff,
      ← List.length_eq_zero_iff, Finset.length_sort, Finset.card_eq_zero]
    rw [← ne_eq, ← Finset.nonempty_iff_ne_empty]
    rfl

/-- Rows have equal checksums when these are the same as sets. -/
theorem checksums_eq_iff {rows rows' : List LcovRow} :
    (aggregate rows).checksums = (aggregate rows').checksums ↔
      ∀ checksum, checksum ∈ checksumSet rows ↔ checksum ∈ checksumSet rows' := by
  rw [← Finset.ext_iff]
  constructor
  · intro h
    have hsets := congrArg List.toFinset h
    rwa [aggregate, aggregate, Finset.sort_toFinset, Finset.sort_toFinset] at hsets
  · intro h
    rw [aggregate, aggregate, h]

end Report

/-! ## The classification -/

/-- Two statuses are still the same. -/
theorem isStill_iff (status : CoverageStatus) :
    status.isStill = true ↔ status = .stillCovered ∨ status = .stillUncovered := by
  cases status <;> simp [CoverageStatus.isStill, CoverageStatus.text]

/-- The status with the reports exchanged. -/
def CoverageStatus.mirror : CoverageStatus → CoverageStatus
  | .addedCovered => .removedCovered
  | .addedUncovered => .removedUncovered
  | .removedCovered => .addedCovered
  | .removedUncovered => .addedUncovered
  | .coveredToUncovered => .uncoveredToCovered
  | .uncoveredToCovered => .coveredToUncovered
  | status => status

/-- The row with the reports exchanged. -/
def ComparisonRow.mirror (row : ComparisonRow) : ComparisonRow :=
  { row with status := row.status.mirror, before := row.after, after := row.before }

/-- Mirrored twice a status is itself. -/
theorem mirror_mirror (status : CoverageStatus) : status.mirror.mirror = status := by
  cases status <;> rfl

/-- Different statuses have different mirrors. -/
theorem mirror_injective : Function.Injective CoverageStatus.mirror :=
  Function.LeftInverse.injective mirror_mirror

/-- The mirror of what is still the same is still the same. -/
theorem isStill_mirror (status : CoverageStatus) : status.mirror.isStill = status.isStill := by
  rw [Bool.eq_iff_iff, isStill_iff, isStill_iff]
  cases status <;> simp [CoverageStatus.mirror]

/-- A conflict does not depend on the direction. -/
theorem conflict_swap (old new : Option LcovAggregate) : conflict new old = conflict old new :=
  Bool.or_comm _ _

/-- A mismatch does not depend on the direction. -/
theorem mismatch_swap (old new : Option LcovAggregate) : mismatch new old = mismatch old new := by
  rcases old with _ | old <;> rcases new with _ | new
  · rfl
  · rfl
  · rfl
  · rw [Bool.eq_iff_iff]
    simp only [mismatch, Bool.and_eq_true, bne_iff_ne, ne_eq, eq_comm (a := old.checksums)]
    constructor <;> rintro ⟨⟨ha, hb⟩, hne⟩ <;> exact ⟨⟨hb, ha⟩, hne⟩

/-- The basis does not depend on the direction. -/
theorem sourceBasis_swap (old new : Option LcovAggregate) :
    sourceBasis new old = sourceBasis old new := by
  rcases old with _ | old <;> rcases new with _ | new
  · rfl
  · rfl
  · rfl
  · rw [sourceBasis, sourceBasis]
    congr 1
    simp only [Bool.and_eq_true, eq_iff_iff]
    constructor <;> rintro ⟨⟨⟨ha, hb⟩, hc⟩, hd⟩ <;> exact ⟨⟨⟨hb, ha⟩, hd⟩, hc⟩

/-- The other direction has the mirrored status. -/
theorem coverageStatus_swap {old new : Option LcovAggregate} (h : old ≠ none ∨ new ≠ none) :
    coverageStatus new old = (coverageStatus old new).mirror := by
  rcases old with _ | old <;> rcases new with _ | new
  · simp at h
  · rcases hcovered : new.covered <;> simp [coverageStatus, CoverageStatus.mirror, hcovered]
  · rcases hcovered : old.covered <;> simp [coverageStatus, CoverageStatus.mirror, hcovered]
  · rcases hold : old.covered <;> rcases hnew : new.covered <;>
      simp [coverageStatus, CoverageStatus.mirror, hold, hnew]

/-- Exchanged sides have the mirror image of the status, on the same basis. -/
theorem classify_swap {old new : Option LcovAggregate} (h : old ≠ none ∨ new ≠ none) :
    classify new old = ((classify old new).1.mirror, (classify old new).2) := by
  rw [classify, classify, conflict_swap, mismatch_swap]
  by_cases hconflict : conflict old new = true
  · rw [if_pos hconflict, if_pos hconflict]
    rfl
  · rw [if_neg hconflict, if_neg hconflict]
    by_cases hmismatch : mismatch old new = true
    · rw [if_pos hmismatch, if_pos hmismatch]
      rfl
    · rw [if_neg hmismatch, if_neg hmismatch, coverageStatus_swap h, sourceBasis_swap]

/-- A coordinate is still what it was where both sides have it, neither a conflict nor a mismatch
is found, and both are covered or neither is. -/
theorem isStill_classify (old new : Option LcovAggregate) :
    (classify old new).1.isStill = true ↔
      conflict old new = false ∧ mismatch old new = false ∧
        ∃ a b, old = some a ∧ new = some b ∧ a.covered = b.covered := by
  rw [classify, isStill_iff]
  by_cases hconflict : conflict old new = true
  · simp [hconflict]
  · rw [if_neg hconflict]
    rw [Bool.not_eq_true] at hconflict
    by_cases hmismatch : mismatch old new = true
    · simp [hmismatch]
    · rw [if_neg hmismatch]
      rw [Bool.not_eq_true] at hmismatch
      simp only [hconflict, hmismatch, true_and]
      rcases old with _ | old <;> rcases new with _ | new
      · simp [coverageStatus]
      · rcases hcovered : new.covered <;> simp [coverageStatus, hcovered]
      · rcases hcovered : old.covered <;> simp [coverageStatus, hcovered]
      · rcases hold : old.covered <;> rcases hnew : new.covered <;>
          simp [coverageStatus, hold, hnew]

/-! ## The comparison -/

section Comparison

variable {before after : LcovGroups}

/-- The coordinates of both reports. -/
theorem mem_sortedCoordinates {coordinate : String × ℕ} :
    coordinate ∈ sortedCoordinates before after ↔
      coordinate ∈ LinkedMap.keys before ∨ coordinate ∈ LinkedMap.keys after := by
  rw [sortedCoordinates, List.mem_map]
  simp only [Finset.mem_sort, Finset.mem_image, Finset.mem_union, List.mem_toFinset]
  constructor
  · rintro ⟨_, ⟨key, hkey, rfl⟩, rfl⟩
    exact hkey
  · intro hkey
    exact ⟨toLex coordinate, ⟨coordinate, hkey, rfl⟩, rfl⟩

/-- The coordinates come in increasing order. -/
theorem pairwise_sortedCoordinates :
    (sortedCoordinates before after).Pairwise fun a b => toLex a < toLex b := by
  rw [sortedCoordinates, List.pairwise_map]
  exact (Finset.sortedLT_sort _).pairwise

/-- The coordinates do not depend on the direction. -/
theorem sortedCoordinates_swap :
    sortedCoordinates after before = sortedCoordinates before after := by
  rw [sortedCoordinates, sortedCoordinates, Finset.union_comm]

/-- The rows that the flag leaves. -/
def keepsRow (changesOnly : Bool) (row : ComparisonRow) : Bool :=
  !changesOnly || !row.status.isStill

/-- A comparison is the rows that are kept and the tally of all. -/
theorem compareReports_eq (changesOnly : Bool) :
    compareReports before after changesOnly =
      (((sortedCoordinates before after).map (comparisonRow before after)).filter
          (keepsRow changesOnly),
        Tally.tally (((sortedCoordinates before after).map
          (comparisonRow before after)).map ComparisonRow.status)) := by
  have hfold (coordinates : List (String × ℕ)) (result : List ComparisonRow)
      (counts : List (CoverageStatus × ℕ)) :
      coordinates.foldl
        (fun (result, counts) coordinate =>
          let row := comparisonRow before after coordinate
          (if !changesOnly || !row.status.isStill then result ++ [row] else result,
            Tally.count counts row.status)) (result, counts) =
        (result ++ (coordinates.map (comparisonRow before after)).filter (keepsRow changesOnly),
          ((coordinates.map (comparisonRow before after)).map ComparisonRow.status).foldl
            Tally.count counts) := by
    induction coordinates generalizing result counts with
    | nil => rw [List.foldl_nil, List.map_nil, List.filter_nil, List.append_nil]; rfl
    | cons coordinate rest ih =>
      rw [List.foldl_cons]
      dsimp only
      rw [ih, List.map_cons, List.filter_cons, List.map_cons, List.foldl_cons]
      congr 1
      by_cases hkeeps : keepsRow changesOnly (comparisonRow before after coordinate) = true
      · rw [if_pos hkeeps, keepsRow] at *
        rw [if_pos hkeeps, List.append_assoc, List.singleton_append]
      · rw [if_neg hkeeps, keepsRow] at *
        rw [if_neg hkeeps]
  rw [compareReports, hfold, List.nil_append, Tally.tally]

/-- A row leaves its coordinate as it was where both reports observe it alike, and neither gives
two checksums nor both give different ones. -/
def Unchanged (before after : LcovGroups) (coordinate : String × ℕ) : Prop :=
  Observed before coordinate ∧ Observed after coordinate ∧
    (CoveredAt before coordinate ↔ CoveredAt after coordinate) ∧
    ¬Conflicting before coordinate ∧ ¬Conflicting after coordinate ∧
    ¬Differing before after coordinate

/-- The status of a row is still what it was exactly for an unchanged coordinate. -/
theorem isStill_comparisonRow (hbefore : ReportGroups before) (hafter : ReportGroups after)
    (coordinate : String × ℕ) :
    (comparisonRow before after coordinate).status.isStill = true ↔
      Unchanged before after coordinate := by
  have hstill := isStill_classify ((LinkedMap.get coordinate before).map aggregate)
    ((LinkedMap.get coordinate after).map aggregate)
  rw [comparisonRow]
  dsimp only
  rw [hstill, Unchanged, observed_iff hbefore, observed_iff hafter]
  rcases hold : LinkedMap.get coordinate before with _ | old
  · have hmissing := LinkedMap.get_eq_none_iff.mp hold
    constructor
    · rintro ⟨_, _, a, b, ha, _⟩
      cases ha
    · rintro ⟨hmem, _⟩
      exact absurd hmem hmissing
  rcases hnew : LinkedMap.get coordinate after with _ | new
  · have hmissing := LinkedMap.get_eq_none_iff.mp hnew
    constructor
    · rintro ⟨_, _, a, b, _, hb, _⟩
      cases hb
    · rintro ⟨_, hmem, _⟩
      exact absurd hmem hmissing
  have hmemOld : coordinate ∈ LinkedMap.keys before :=
    List.mem_map_of_mem (LinkedMap.mem_of_get hold)
  have hmemNew : coordinate ∈ LinkedMap.keys after :=
    List.mem_map_of_mem (LinkedMap.mem_of_get hnew)
  obtain ⟨hcoveredOld, hsetOld, hconflictOld, hsomeOld⟩ := aggregate_says hbefore hold
  obtain ⟨hcoveredNew, hsetNew, hconflictNew, hsomeNew⟩ := aggregate_says hafter hnew
  have hconflict : conflict (some (aggregate old)) (some (aggregate new)) = false ↔
      ¬Conflicting before coordinate ∧ ¬Conflicting after coordinate := by
    rw [← hconflictOld, ← hconflictNew]
    simp only [conflict, Option.any_some, Bool.or_eq_false_iff, decide_eq_false_iff_not]
  have hmismatch : mismatch (some (aggregate old)) (some (aggregate new)) = false ↔
      ¬Differing before after coordinate := by
    rw [Differing, ← hsomeOld, ← hsomeNew]
    simp only [← hsetOld, ← hsetNew, ← checksums_eq_iff, mismatch, ← Bool.not_eq_true,
      Bool.and_eq_true, Bool.not_eq_true', bne_iff_ne, ne_eq, and_assoc]
  have hcovered : (∃ a b, some (aggregate old) = some a ∧ some (aggregate new) = some b ∧
      a.covered = b.covered) ↔ (CoveredAt before coordinate ↔ CoveredAt after coordinate) := by
    rw [← hcoveredOld, ← hcoveredNew, ← Bool.eq_iff_iff]
    constructor
    · rintro ⟨a, b, ha, hb, heq⟩
      rwa [← Option.some.inj ha, ← Option.some.inj hb] at heq
    · exact fun heq => ⟨_, _, rfl, rfl, heq⟩
  simp only [Option.map_some, hconflict, hmismatch, hcovered, hmemOld, hmemNew, true_and]
  constructor
  · rintro ⟨⟨ha, hb⟩, hc, hd⟩
    exact ⟨hd, ha, hb, hc⟩
  · rintro ⟨hd, ha, hb, hc⟩
    exact ⟨⟨ha, hb⟩, hc, hd⟩

/-- A coordinate of either report, with the reports exchanged. -/
theorem comparisonRow_swap {coordinate : String × ℕ}
    (h : coordinate ∈ sortedCoordinates before after) :
    comparisonRow after before coordinate = (comparisonRow before after coordinate).mirror := by
  have hside : (LinkedMap.get coordinate before).map aggregate ≠ none ∨
      (LinkedMap.get coordinate after).map aggregate ≠ none := by
    rw [ne_eq, ne_eq, Option.map_eq_none_iff, Option.map_eq_none_iff, LinkedMap.get_eq_none_iff,
      LinkedMap.get_eq_none_iff, not_not, not_not]
    exact mem_sortedCoordinates.mp h
  rw [comparisonRow, classify_swap hside]
  rfl

/-- The comparison of two accepted reports. -/
structure ComparesExactly (before after : LcovGroups) : Prop where
  /-- Each coordinate of either report has one row, in order, with what the reports say. -/
  sorted : ((compareReports before after false).1.map ComparisonRow.coordinate).Pairwise
    fun a b => toLex a < toLex b
  observed : ∀ coordinate, coordinate ∈ (compareReports before after false).1.map
    ComparisonRow.coordinate ↔ Observed before coordinate ∨ Observed after coordinate
  rows : ∀ row ∈ (compareReports before after false).1,
    row = comparisonRow before after row.coordinate
  /-- With either flag the counts are those of the rows by status, and add up. -/
  counted : ∀ changesOnly status,
    (LinkedMap.get status (compareReports before after changesOnly).2).getD 0 =
      ((compareReports before after false).1.filter fun row => row.status = status).length
  total : ∀ changesOnly, ((compareReports before after changesOnly).2.map Prod.snd).sum =
    (compareReports before after false).1.length
  /-- With `changes_only` the unchanged coordinates are left out, and no others. -/
  changes : (compareReports before after true).1.Sublist (compareReports before after false).1
  omitted : ∀ row ∈ (compareReports before after false).1,
    row ∉ (compareReports before after true).1 ↔ Unchanged before after row.coordinate
  /-- A regression has a row, whatever its checksums. -/
  regressions : ∀ coordinate, CoveredAt before coordinate → ¬CoveredAt after coordinate →
    ∃ row ∈ (compareReports before after true).1, row.coordinate = coordinate
  /-- The exchanged reports have the mirror image. -/
  mirrored : ∀ changesOnly, compareReports after before changesOnly =
    ((compareReports before after changesOnly).1.map ComparisonRow.mirror,
      (compareReports before after changesOnly).2.map fun entry => (entry.1.mirror, entry.2))

/-- Without the filter there is a row for each coordinate. -/
theorem rows_eq : (compareReports before after false).1 =
    (sortedCoordinates before after).map (comparisonRow before after) := by
  rw [compareReports_eq]
  exact List.filter_eq_self.mpr fun _ _ => rfl

/-- The changes are the rows that are not still the same. -/
theorem mem_changes_iff {row : ComparisonRow} : row ∈ (compareReports before after true).1 ↔
    row ∈ (compareReports before after false).1 ∧ row.status.isStill = false := by
  rw [rows_eq, compareReports_eq, List.mem_filter, keepsRow, Bool.not_true, Bool.false_or,
    Bool.not_eq_true']

/-- The other direction has the mirrored rows and counts. -/
theorem compareReports_swap (changesOnly : Bool) : compareReports after before changesOnly =
    ((compareReports before after changesOnly).1.map ComparisonRow.mirror,
      (compareReports before after changesOnly).2.map
        fun entry => (entry.1.mirror, entry.2)) := by
  have hrows : (sortedCoordinates before after).map (comparisonRow after before) =
      ((sortedCoordinates before after).map (comparisonRow before after)).map
        ComparisonRow.mirror := by
    rw [List.map_map]
    exact List.map_congr_left fun coordinate hmem => comparisonRow_swap hmem
  have hkeeps : keepsRow changesOnly ∘ ComparisonRow.mirror = keepsRow changesOnly := by
    funext row
    rw [Function.comp_apply, keepsRow, keepsRow, ComparisonRow.mirror, isStill_mirror]
  have hstatus : ((sortedCoordinates before after).map (comparisonRow before after)).map
      (ComparisonRow.status ∘ ComparisonRow.mirror) =
      (((sortedCoordinates before after).map (comparisonRow before after)).map
        ComparisonRow.status).map CoverageStatus.mirror := by
    simp only [List.map_map]
    rfl
  rw [compareReports_eq, compareReports_eq, sortedCoordinates_swap, hrows, List.filter_map, hkeeps,
    List.map_map, hstatus, Tally.tally_map mirror_injective]

/-- The groups of two reports are compared exactly. -/
theorem comparesExactly (hbefore : ReportGroups before) (hafter : ReportGroups after) :
    ComparesExactly before after := by
  have hcoordinates : (compareReports before after false).1.map ComparisonRow.coordinate =
      sortedCoordinates before after := by
    rw [rows_eq, List.map_map]
    exact List.map_id _
  have hrow : ∀ row ∈ (compareReports before after false).1,
      row = comparisonRow before after row.coordinate := by
    intro row hmem
    rw [rows_eq] at hmem
    obtain ⟨coordinate, _, rfl⟩ := List.mem_map.mp hmem
    rfl
  have hstill : ∀ row ∈ (compareReports before after false).1,
      row.status.isStill = true ↔ Unchanged before after row.coordinate := by
    intro row hmem
    rw [← isStill_comparisonRow hbefore hafter, ← hrow row hmem]
  constructor
  · rw [hcoordinates]
    exact pairwise_sortedCoordinates
  · intro coordinate
    rw [hcoordinates, mem_sortedCoordinates, observed_iff hbefore, observed_iff hafter]
  · exact hrow
  · intro changesOnly status
    rw [rows_eq, compareReports_eq, Tally.getD_tally, List.count_eq_length_filter, List.filter_map,
      List.length_map]
    rfl
  · intro changesOnly
    rw [rows_eq, compareReports_eq, Tally.sum_tally, List.length_map]
  · rw [rows_eq, compareReports_eq]
    exact List.filter_sublist
  · intro row hmem
    rw [mem_changes_iff, ← hstill row hmem]
    simp [hmem]
  · intro coordinate hcovered huncovered
    have hobserved : Observed before coordinate := hcovered.imp fun _ h => h.1
    have hmem : coordinate ∈ sortedCoordinates before after :=
      mem_sortedCoordinates.mpr (Or.inl ((observed_iff hbefore).mp hobserved))
    have hrows : comparisonRow before after coordinate ∈ (compareReports before after false).1 := by
      rw [rows_eq]
      exact List.mem_map_of_mem hmem
    refine ⟨_, mem_changes_iff.mpr ⟨hrows, ?_⟩, rfl⟩
    rw [← Bool.not_eq_true, isStill_comparisonRow hbefore hafter]
    intro hunchanged
    exact huncovered (hunchanged.2.2.1.mp hcovered)
  · exact compareReports_swap

end Comparison

/-- The comparison of two reports that the reader accepts is exact: it hides no regression, and is
symmetric in the reports. -/
theorem coverage_comparison_exact {maxDigits : Option ℕ} {beforeText afterText : String}
    {before after : LcovResult} (hbefore : lcov maxDigits beforeText = .ok before)
    (hafter : lcov maxDigits afterText = .ok after) :
    ComparesExactly before.groups after.groups :=
  comparesExactly (reportGroups_of_lcov hbefore) (reportGroups_of_lcov hafter)

/-- A report of one line that was hit. -/
def sampleCovered : String := "SF:a.c\nDA:4,2,x\nend_of_record\n"

/-- A report of the same line without a hit. -/
def sampleUncovered : String := "SF:a.c\nDA:4,0\nend_of_record\n"

set_option maxRecDepth 20000 in
/-- A line that was covered and is not any more. -/
theorem coverage_comparison_sample :
    lcov (some 4300) sampleCovered = .ok ⟨[(("a.c", 4), [⟨1, 2, "", 2, some "x"⟩])], 1, 1, 1⟩ ∧
      lcov (some 4300) sampleUncovered = .ok ⟨[(("a.c", 4), [⟨1, 2, "", 0, none⟩])], 1, 1, 1⟩ ∧
      ComparesExactly [(("a.c", 4), [⟨1, 2, "", 2, some "x"⟩])]
        [(("a.c", 4), [⟨1, 2, "", 0, none⟩])] := by
  have hbefore : lcov (some 4300) sampleCovered =
      .ok ⟨[(("a.c", 4), [⟨1, 2, "", 2, some "x"⟩])], 1, 1, 1⟩ := by decide
  have hafter : lcov (some 4300) sampleUncovered =
      .ok ⟨[(("a.c", 4), [⟨1, 2, "", 0, none⟩])], 1, 1, 1⟩ := by decide
  exact ⟨hbefore, hafter, coverage_comparison_exact hbefore hafter⟩

end Moonfort.Tools
