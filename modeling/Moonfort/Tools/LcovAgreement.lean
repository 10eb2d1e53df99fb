import Moonfort.Executor.RetentionLcov
import Moonfort.Tools.CoverageReview

/-!
# Two readers of LCOV reports agree

What the coverage review tool accepts is a report of the retained LCOV reader, with the same
observations. Both read a report as the same directives, and the variables of the tool follow
the directives so far.
-/

namespace Moonfort.Tools

open MoonBit Executor LcovDirective

/-! ## Lines -/

/-- An element that is kept keeps those behind it. -/
theorem rdropWhile_cons {α : Type} {p : α → Bool} {a : α} (ha : p a = false) (rest : List α) :
    (a :: rest).rdropWhile p = a :: rest.rdropWhile p := by
  induction rest using List.reverseRecOn with
  | nil =>
    have hsingle : [a].rdropWhile p = [a] := List.rdropWhile_concat_neg p [] a (by simp [ha])
    rw [hsingle]
    rfl
  | append_singleton rest last ih =>
    rw [← List.cons_append]
    by_cases hlast : p last = true
    · rw [List.rdropWhile_concat_pos _ _ _ hlast, List.rdropWhile_concat_pos _ _ _ hlast, ih]
    · rw [List.rdropWhile_concat_neg _ _ _ hlast, List.rdropWhile_concat_neg _ _ _ hlast]
      rfl

/-- Where every carriage return belongs to a line end, trimming the lines is replacing the line
ends. -/
theorem splitOn_replaceReturns {chars : List Char} (h : '\r' ∉ replaceReturns [] chars) :
    (chars.splitOn '\n').map (fun line => line.rdropWhile (· == '\r')) =
      (replaceReturns ['\n'] chars).splitOn '\n' := by
  have hkeep : ∀ {c : Char} {rest : List Char}, c ≠ '\r' →
      ((c :: rest).splitOn '\n').map (fun line => line.rdropWhile (· == '\r')) =
        if c = '\n' then
          [] :: (rest.splitOn '\n').map (fun line => line.rdropWhile (· == '\r'))
        else ((rest.splitOn '\n').map fun line =>
          line.rdropWhile (· == '\r')).modifyHead (c :: ·) := by
    intro c rest hc
    rw [List.splitOn_cons_eq_if_modifyHead]
    by_cases hnewline : c = '\n'
    · simp [hnewline]
    · rw [if_neg (by simpa using hnewline), if_neg hnewline]
      obtain ⟨first, others, hsplit⟩ := List.exists_cons_of_ne_nil (List.splitOn_ne_nil '\n' rest)
      rw [hsplit, List.modifyHead_cons, List.map_cons, List.map_cons, List.modifyHead_cons,
        rdropWhile_cons (by simpa using hc)]
  induction chars using replaceReturns.induct with
  | case1 => simp [replaceReturns]
  | case2 c =>
    have hc : c ≠ '\r' := by
      rintro rfl
      exact h List.mem_cons_self
    rw [hkeep hc, replaceReturns, List.splitOn_cons_eq_if_modifyHead]
    by_cases hnewline : c = '\n' <;> simp [hnewline]
  | case3 c d rest hend ih =>
    obtain ⟨rfl, rfl⟩ := hend
    rw [replaceReturns, if_pos ⟨rfl, rfl⟩, List.nil_append] at h
    rw [replaceReturns, if_pos ⟨rfl, rfl⟩, List.singleton_append,
      ← List.singleton_append (l := '\n' :: rest),
      List.splitOn_append_cons_self_of_not_mem (by decide), List.map_cons, ih h,
      List.splitOn_cons_eq_if_modifyHead]
    rfl
  | case4 c d rest hend ih =>
    rw [replaceReturns, if_neg hend, List.mem_cons, not_or] at h
    rw [hkeep (Ne.symm h.1), ih h.2, replaceReturns, if_neg hend,
      List.splitOn_cons_eq_if_modifyHead]
    by_cases hnewline : c = '\n' <;> simp [hnewline]

/-- Both readers see the same lines. -/
theorem lcovLines_eq {text : String} (h : '\r' ∉ replaceReturns [] text.toList) :
    lcovLines text = reportLines text := by
  have hlines : (splitText '\n' text).map trimReturns =
      splitText '\n' (String.ofList (replaceReturns ['\n'] text.toList)) := by
    rw [splitText, splitText, String.toList_ofList, ← splitOn_replaceReturns h, List.map_map,
      List.map_map]
    apply List.map_congr_left
    intro line _
    simp [trimReturns]
  rw [lcovLines, reportLines, hlines]

/-- A line with a separator is split into its tag and the parts of its value. -/
theorem splitText_of_partitionLine {line tag value : String}
    (h : partitionLine line = (tag, true, value)) :
    ∃ part rest, splitText ':' line = tag :: part :: rest ∧
      ":".intercalate (part :: rest) = value := by
  have hspan := List.takeWhile_append_dropWhile (p := (· != ':')) (l := line.toList)
  rw [partitionLine] at h
  cases hdrop : line.toList.dropWhile (· != ':') with
  | nil =>
    rw [hdrop] at h
    simp at h
  | cons c chars =>
    rw [hdrop] at h hspan
    simp only [Prod.mk.injEq, true_and] at h
    obtain ⟨htag, hvalue⟩ := h
    have hc : c = ':' := by
      have hhead := List.head_dropWhile_not (· != ':') (l := line.toList) (by rw [hdrop]; simp)
      simpa [hdrop] using hhead
    have hnotMem : ':' ∉ line.toList.takeWhile (· != ':') := by
      intro hmem
      simpa using List.mem_takeWhile_imp hmem
    subst hc
    obtain ⟨first, others, hsplit⟩ := List.exists_cons_of_ne_nil (List.splitOn_ne_nil ':' chars)
    refine ⟨String.ofList first, others.map String.ofList, ?_, ?_⟩
    · rw [splitText, ← hspan, List.splitOn_append_cons_self_of_not_mem hnotMem, hsplit, ← htag]
      rfl
    · rw [← hvalue]
      apply String.toList_inj.mp
      have hjoin : [':'].intercalate (chars.splitOn ':') = chars := List.intercalate_splitOn ':'
      rw [hsplit] at hjoin
      rw [String.toList_ofList, ← hjoin, String.toList_intercalate, List.map_cons, List.map_map]
      simp

/-! ## Directives -/

/-- A line says what a directive says. A counter out of the range of the retained reader has no
directive there. -/
def Reads (line : String) (d : LcovDirective) : Prop :=
  lcovDirective line = some d ∨
    lcovDirective line = none ∧ ∃ n, 2147483647 < n ∧ (d = .found n ∨ d = .hit n)

/-- A line with a separator is read by its tag. -/
theorem lcovDirective_of_partitionLine {line tag value : String}
    (h : partitionLine line = (tag, true, value)) : lcovDirective line = lcovTagged tag value := by
  have hplain : (partitionLine "end_of_record").2.1 = false := by decide
  have hne : line ≠ "end_of_record" := by
    rintro rfl
    rw [h] at hplain
    cases hplain
  obtain ⟨part, rest, hsplit, hvalue⟩ := splitText_of_partitionLine h
  rw [lcovDirective, if_neg hne, hsplit]
  exact congrArg (lcovTagged tag) hvalue

/-- Both readers take a decimal field as its digits. -/
theorem lcovNumber_of_isDecimal {field : String} (h : isDecimal field = true) :
    lcovNumber field = parseDigits field := by
  rw [isDecimal, Bool.and_eq_true, bne_iff_ne] at h
  rw [lcovNumber, if_neg h.1, if_neg (by rw [h.2]; decide)]

variable {maxDigits : Option ℕ}

/-- What the Python reader takes, the other reader does. -/
theorem lcovNumber_eq_ok {field : String} {n : ℕ}
    (hfield : isDecimal field = true) (h : pythonInt maxDigits field = .ok n)
    (hn : n ≤ 2147483647) : lcovNumber field = .ok n := by
  obtain ⟨-, hvalue⟩ := Loop.guard_eq_ok_iff.mp h
  obtain rfl := Except.ok.inj hvalue
  rw [lcovNumber_of_isDecimal hfield, parseDigits]
  exact if_pos hn

/-- A counter is read, or it is out of range. -/
theorem lcovNumber_toOption {field : String} {n : ℕ}
    (hfield : isDecimal field = true) (h : pythonInt maxDigits field = .ok n) :
    (lcovNumber field).toOption = if n ≤ 2147483647 then some n else none := by
  by_cases hn : n ≤ 2147483647
  · rw [if_pos hn, lcovNumber_eq_ok hfield h hn]
    rfl
  · obtain ⟨-, hvalue⟩ := Loop.guard_eq_ok_iff.mp h
    obtain rfl := Except.ok.inj hvalue
    rw [if_neg hn, lcovNumber_of_isDecimal hfield, parseDigits, if_neg hn]
    rfl

/-- A counter is in the range of the retained reader, or it has no directive there. -/
theorem reads_counter {value : String} {n : ℕ}
    (hdecimal : isDecimal value = true) (hn : pythonInt maxDigits value = .ok n)
    (directive : ℕ → LcovDirective) :
    (lcovNumber value).toOption.map directive = some (directive n) ∨
      (lcovNumber value).toOption.map directive = none ∧ 2147483647 < n := by
  rw [lcovNumber_toOption hdecimal hn]
  by_cases hle : n ≤ 2147483647
  · exact .inl (by rw [if_pos hle]; rfl)
  · exact .inr ⟨by rw [if_neg hle]; rfl, by omega⟩

/-- A directive is allowed behind others as far as the size of the table does not forbid it. -/
def AllowedIfFits (before : List LcovDirective) (d : LcovDirective) : Prop :=
  ∀ uncoveredOnly, utf8Length (lcovText uncoveredOnly (before ++ [d])) ≤ 1048576 →
    d.Allowed uncoveredOnly before

/-! ## Observations -/

/-- The observation of a row. -/
def observation (path : String) (entry : ℕ × LcovRow) : LcovObservation :=
  ⟨entry.2.record, entry.2.reportLine, entry.2.testName, path, entry.1, entry.2.hits,
    entry.2.checksum.getD ""⟩

/-- The observations of all groups. -/
def groupObservations (groups : List ((String × ℕ) × List LcovRow)) : List LcovObservation :=
  groups.flatMap fun group => group.2.map fun row => observation group.1.1 (group.1.2, row)

/-- The observations of the record that is open. -/
def openObservations : Option LcovCurrent → List LcovObservation
  | none => []
  | some current => current.lines.map (observation current.path)

/-- A row is put into the group of its key or behind it. -/
theorem appendRow_cons (key other : String × ℕ) (rows : List LcovRow)
    (groups : List ((String × ℕ) × List LcovRow)) (row : LcovRow) :
    appendRow ((other, rows) :: groups) key row =
      if other = key then (other, rows ++ [row]) :: groups
      else (other, rows) :: appendRow groups key row := by
  by_cases h : other = key
  · subst h
    simp [appendRow, LinkedMap.get, LinkedMap.set]
  · simp [appendRow, LinkedMap.get, LinkedMap.set, h]

/-- A row is added to the observations of the groups. -/
theorem groupObservations_appendRow (groups : List ((String × ℕ) × List LcovRow)) (path : String)
    (entry : ℕ × LcovRow) :
    (groupObservations (appendRow groups (path, entry.1) entry.2)).Perm
      (groupObservations groups ++ [observation path entry]) := by
  induction groups with
  | nil => exact .refl _
  | cons group groups ih =>
    obtain ⟨other, rows⟩ := group
    rw [appendRow_cons]
    by_cases h : other = (path, entry.1)
    · subst h
      rw [if_pos rfl]
      simp only [groupObservations, List.flatMap_cons, List.map_append, List.map_singleton,
        List.append_assoc]
      exact List.perm_append_comm.append_left _
    · rw [if_neg h]
      simp only [groupObservations, List.flatMap_cons, List.append_assoc]
      exact ih.append_left _

/-- The rows of a record are added to the observations of the groups. -/
theorem groupObservations_foldl (path : String) (lines : List (ℕ × LcovRow))
    (groups : List ((String × ℕ) × List LcovRow)) :
    (groupObservations (lines.foldl
      (fun groups entry => appendRow groups (path, entry.1) entry.2) groups)).Perm
        (groupObservations groups ++ lines.map (observation path)) := by
  induction lines generalizing groups with
  | nil => simp
  | cons entry lines ih =>
    rw [List.foldl_cons, List.map_cons, List.append_cons]
    exact (ih _).trans ((groupObservations_appendRow groups path entry).append_right _)

/-! ## The variables behind some directives -/

/-- The open record behind some directives. -/
structure Follows (current : LcovCurrent) (ds : List LcovDirective) : Prop where
  path : current.path = fileBefore ds
  numbers : LinkedMap.keys current.lines = lineNumbers (sinceSource ds)
  covered : (current.lines.filter fun entry => decide (0 < entry.2.hits)).length =
    (coveredLines (sinceSource ds)).length
  found : LinkedMap.get "LF" current.counters = ((sinceSource ds).filterMap foundOf).getLast?
  hit : LinkedMap.get "LH" current.counters = ((sinceSource ds).filterMap hitOf).getLast?
  noTest : testPending ds = false

/-- The variables of the tool behind some directives. -/
structure Mirrors (s : LcovReader) (ds : List LcovDirective) : Prop where
  testName : s.testName = testBefore ds
  records : s.records = (lcovSources ds).length
  count : s.count = (lineNumbers ds).length
  outside : inRecord ds = false → s.current = none ∧ s.pendingTest = testPending ds
  inside : inRecord ds = true → ∃ current, s.current = some current ∧ Follows current ds
  observed : (groupObservations s.groups ++ openObservations s.current).Perm (observations ds)

/-- Both readers start alike. -/
theorem mirrors_start : Mirrors .start [] := by
  refine ⟨rfl, rfl, rfl, fun _ => ⟨rfl, rfl⟩, ?_, .refl _⟩
  intro h
  simp [inRecord, sinceEnding] at h

namespace Mirrors

variable {s next : LcovReader} {ds : List LcovDirective} (h : Mirrors s ds)

include h

/-- Without a current file no record is open. -/
theorem inRecord_eq_false (hcurrent : s.current = none) : inRecord ds = false := by
  cases hrecord : inRecord ds with
  | false => rfl
  | true =>
    obtain ⟨current, hsome, -⟩ := h.inside hrecord
    rw [hcurrent] at hsome
    cases hsome

variable {current : LcovCurrent}

/-- With a current file its record is open. -/
theorem follows (hcurrent : s.current = some current) :
    inRecord ds = true ∧ Follows current ds := by
  cases hrecord : inRecord ds with
  | false =>
    rw [(h.outside hrecord).1] at hcurrent
    cases hcurrent
  | true =>
    obtain ⟨other, hsome, hfollows⟩ := h.inside hrecord
    rw [hcurrent] at hsome
    obtain rfl := Option.some.inj hsome
    exact ⟨rfl, hfollows⟩

/-- The tag `TN`. -/
theorem nameTest {sep : Bool} {value : String} (hnext : s.nameTest sep value = .ok next) :
    sep = true ∧ AllowedIfFits ds (.test value) ∧ Mirrors next (ds ++ [.test value]) := by
  obtain ⟨hguard, hnext⟩ := Loop.guard_eq_ok_iff.mp hnext
  obtain ⟨hsep, hcurrent, hpending⟩ := not_not.mp hguard
  obtain rfl := Except.ok.inj hnext
  have hrecord := h.inRecord_eq_false hcurrent
  obtain ⟨-, hsame⟩ := h.outside hrecord
  have hrecord' : inRecord (ds ++ [.test value]) = false := by
    simpa [inRecord] using hrecord
  refine ⟨hsep, fun _ _ => ⟨hrecord, hsame ▸ hpending⟩, ?_⟩
  refine ⟨?_, ?_, ?_, fun _ => ⟨hcurrent, ?_⟩, fun htrue => ?_, ?_⟩
  · simp [testBefore]
  · simpa [lcovSources, List.filterMap_cons] using h.records
  · simpa [lineNumbers, List.filterMap_cons] using h.count
  · simp [testPending]
  · rw [hrecord'] at htrue
    cases htrue
  · rw [observations_concat]
    simpa [observe] using h.observed

/-- The tag `SF`. -/
theorem openRecord {sep : Bool} {value : String} (hnext : s.openRecord sep value = .ok next) :
    sep = true ∧ value ≠ "" ∧ AllowedIfFits ds (.source value) ∧
      Mirrors next (ds ++ [.source value]) := by
  obtain ⟨hguard, hnext⟩ := Loop.guard_eq_ok_iff.mp hnext
  obtain ⟨hsep, hvalue, hcurrent⟩ := not_not.mp hguard
  obtain ⟨hrecords, hnext⟩ := Loop.guard_eq_ok_iff.mp hnext
  obtain rfl := Except.ok.inj hnext
  have hrecord := h.inRecord_eq_false hcurrent
  have hcount := h.records
  have hrecord' : inRecord (ds ++ [.source value]) = true := by simp [inRecord]
  refine ⟨hsep, hvalue, fun _ _ => ⟨hrecord, hvalue, by omega⟩, ?_⟩
  refine ⟨?_, ?_, ?_, fun hfalse => ?_, fun _ => ⟨_, rfl, ?_⟩, ?_⟩
  · simpa [testBefore] using h.testName
  · simpa [lcovSources, List.filterMap_cons] using h.records
  · simpa [lineNumbers, List.filterMap_cons] using h.count
  · rw [hrecord'] at hfalse
    cases hfalse
  · refine ⟨?_, ?_, ?_, ?_, ?_, ?_⟩ <;>
      simp [fileBefore, lcovSources, lineNumbers, coveredLines, LinkedMap.get, testPending]
  · rw [observations_concat]
    have hobserved := h.observed
    rw [hcurrent] at hobserved
    simpa [observe, openObservations] using hobserved

/-- The line `end_of_record`. -/
theorem endRecord (hnext : s.endRecord = .ok next) :
    AllowedIfFits ds .ending ∧ Mirrors next (ds ++ [.ending]) := by
  cases hcurrent : s.current with
  | none =>
    rw [LcovReader.endRecord, hcurrent] at hnext
    cases hnext
  | some current =>
    obtain ⟨hrecord, hfollows⟩ := h.follows hcurrent
    rw [LcovReader.endRecord, hcurrent] at hnext
    obtain ⟨hfound, hnext⟩ := Loop.guard_eq_ok_iff.mp hnext
    obtain ⟨hhit, hnext⟩ := Loop.guard_eq_ok_iff.mp hnext
    obtain rfl := Except.ok.inj hnext
    have hlength : current.lines.length = (lineNumbers (sinceSource ds)).length := by
      rw [← hfollows.numbers, LinkedMap.keys, List.length_map]
    have hagrees : ∀ {key actual n}, ¬LcovReader.counterAgrees current key actual = false →
        LinkedMap.get key current.counters = some n → n = actual := by
      intro key actual n hagree hget
      rw [LcovReader.counterAgrees, hget] at hagree
      simpa using hagree
    have hrecord' : inRecord (ds ++ [.ending]) = false := by simp [inRecord]
    refine ⟨fun _ _ => ⟨hrecord, fun n hn => ?_, fun n hn => ?_⟩, ?_⟩
    · rw [hagrees hfound (hfollows.found.trans hn), hlength]
    · rw [hagrees hhit (hfollows.hit.trans hn), hfollows.covered]
    · refine ⟨?_, ?_, ?_, fun _ => ⟨rfl, ?_⟩, fun htrue => ?_, ?_⟩
      · simp [testBefore]
      · simpa [lcovSources, List.filterMap_cons] using h.records
      · simpa [lineNumbers, List.filterMap_cons] using h.count
      · have hnoTest := hfollows.noTest
        simpa [testPending] using hnoTest
      · rw [hrecord'] at htrue
        cases htrue
      · rw [observations_concat]
        have hobserved := h.observed
        rw [hcurrent, openObservations] at hobserved
        simp only [observe, Option.toList_none, List.append_nil, openObservations]
        exact (groupObservations_foldl current.path current.lines s.groups).trans hobserved

/-- The tag `DA`. -/
theorem dataLine {value : String}
    (hcurrent : s.current = some current)
    (hnext : s.dataLine maxDigits current (ds.length + 1) value = .ok next) :
    ∃ d, lcovData (splitText ',' value) = some d ∧ AllowedIfFits ds d ∧
      Mirrors next (ds ++ [d]) := by
  obtain ⟨hrecord, hfollows⟩ := h.follows hcurrent
  rw [LcovReader.dataLine] at hnext
  generalize splitText ',' value = fields at hnext ⊢
  obtain ⟨hfields, hnext⟩ := Loop.guard_eq_ok_iff.mp hnext
  obtain ⟨htwo, hthree, hdecimal⟩ := not_not.mp hfields
  obtain ⟨sourceLine, hsourceLine, hnext⟩ := Loop.bind_eq_ok_iff.mp hnext
  obtain ⟨hits, hhits, hnext⟩ := Loop.bind_eq_ok_iff.mp hnext
  obtain ⟨hrange, hnext⟩ := Loop.guard_eq_ok_iff.mp hnext
  obtain ⟨hpos, hsourceMax, hhitsMax⟩ := not_not.mp hrange
  obtain ⟨hnew, hnext⟩ := Loop.guard_eq_ok_iff.mp hnext
  obtain ⟨-, hnext⟩ := Loop.guard_eq_ok_iff.mp hnext
  obtain ⟨htotal, hnext⟩ := Loop.guard_eq_ok_iff.mp hnext
  obtain rfl := Except.ok.inj hnext
  have hfirst : isDecimal (fields.getD 0 "") = true ∧ isDecimal (fields.getD 1 "") = true := by
    obtain ⟨a, b, rest, rfl⟩ : ∃ a b rest, fields = a :: b :: rest := by
      match fields, htwo with
      | a :: b :: rest, _ => exact ⟨a, b, rest, rfl⟩
    simpa using hdecimal
  have hkey : sourceLine ∉ LinkedMap.keys current.lines :=
    LinkedMap.get_eq_none_iff.mp (not_not.mp hnew)
  have hcount := h.count
  refine ⟨.data sourceLine hits (fields.getD 2 ""), ?_, ?_, ?_⟩
  · rw [lcovData, if_pos (by omega), lcovNumber_eq_ok hfirst.1 hsourceLine hsourceMax,
      lcovNumber_eq_ok hfirst.2 hhits hhitsMax]
  · intro uncoveredOnly hsize
    refine ⟨hrecord, hpos, ?_, by omega, fun _ => hsize⟩
    rw [← hfollows.numbers]
    exact hkey
  · have hrecord' : inRecord (ds ++ [.data sourceLine hits (fields.getD 2 "")]) = true := by
      rw [inRecord] at hrecord ⊢
      simp [hrecord]
    have hchecksum : (if fields.length = 3 then some (fields.getD 2 "") else none).getD "" =
        fields.getD 2 "" := by
      by_cases hlength : fields.length = 3
      · rw [if_pos hlength]
        rfl
      · rw [if_neg hlength, List.getD_eq_getElem?_getD, List.getElem?_eq_none (by omega)]
    refine ⟨?_, ?_, ?_, fun hfalse => ?_, fun _ => ⟨_, rfl, ?_⟩, ?_⟩
    · simpa [testBefore, List.filterMap_cons] using h.testName
    · simpa [lcovSources, List.filterMap_cons] using h.records
    · simpa [lineNumbers, List.filterMap_cons] using h.count
    · rw [hrecord'] at hfalse
      cases hfalse
    · refine ⟨?_, ?_, ?_, ?_, ?_, ?_⟩
      · simpa [fileBefore, lcovSources, List.filterMap_cons] using hfollows.path
      · have hnumbers := hfollows.numbers
        rw [LinkedMap.set_of_notMem hkey, LinkedMap.keys, List.map_append]
        simpa [lineNumbers, List.filterMap_cons] using hnumbers
      · have hcovered := hfollows.covered
        rw [LinkedMap.set_of_notMem hkey, List.filter_append]
        by_cases hhit : 0 < hits <;> simpa [coveredLines, hhit] using hcovered
      · simpa [List.filterMap_cons] using hfollows.found
      · simpa [List.filterMap_cons] using hfollows.hit
      · simpa [testPending] using hfollows.noTest
    · have hobserved := h.observed
      rw [hcurrent, openObservations] at hobserved
      rw [observations_concat, openObservations, LinkedMap.set_of_notMem hkey, List.map_append,
        ← List.append_assoc]
      have hobserve : observation current.path
          (sourceLine, ⟨s.records, ds.length + 1, s.testName, hits,
          if fields.length = 3 then some (fields.getD 2 "") else none⟩) =
          ⟨(lcovSources ds).length, ds.length + 1, testBefore ds, fileBefore ds, sourceLine, hits,
            fields.getD 2 ""⟩ := by
        rw [observation, h.records, h.testName, hfollows.path]
        dsimp only
        rw [hchecksum]
      rw [List.map_singleton, hobserve]
      exact hobserved.append_right _

/-- A directive that opens, closes and counts nothing leaves the record open. -/
theorem plain (hcurrent : s.current = some current) {d : LcovDirective}
    (hd : (∃ n, d = .found n) ∨ (∃ n, d = .hit n) ∨ d = .metadata) {counters : List (String × ℕ)}
    (hfound : LinkedMap.get "LF" counters = ((sinceSource ds ++ [d]).filterMap foundOf).getLast?)
    (hhit : LinkedMap.get "LH" counters = ((sinceSource ds ++ [d]).filterMap hitOf).getLast?) :
    Mirrors { s with current := some { current with counters } } (ds ++ [d]) := by
  obtain ⟨hrecord, hfollows⟩ := h.follows hcurrent
  have hobserved := h.observed
  rw [hcurrent, openObservations] at hobserved
  have hsource : d.isSource = false ∧ d ≠ .ending := by
    rcases hd with ⟨n, rfl⟩ | ⟨n, rfl⟩ | rfl <;> simp
  have hsince : sinceSource (ds ++ [d]) = sinceSource ds ++ [d] := by
    rw [sinceSource_concat, if_neg (by rw [hsource.1]; decide)]
  have hrecord' : inRecord (ds ++ [d]) = true := by
    rw [inRecord] at hrecord ⊢
    simp [hsource.2, hrecord]
  refine ⟨?_, ?_, ?_, fun hfalse => ?_, fun _ => ⟨_, rfl, ?_, ?_, ?_, ?_, ?_, ?_⟩, ?_⟩
  · rcases hd with ⟨n, rfl⟩ | ⟨n, rfl⟩ | rfl <;>
      simpa [testBefore, List.filterMap_cons] using h.testName
  · rcases hd with ⟨n, rfl⟩ | ⟨n, rfl⟩ | rfl <;>
      simpa [lcovSources, List.filterMap_cons] using h.records
  · rcases hd with ⟨n, rfl⟩ | ⟨n, rfl⟩ | rfl <;>
      simpa [lineNumbers, List.filterMap_cons] using h.count
  · rw [hrecord'] at hfalse
    cases hfalse
  · rcases hd with ⟨n, rfl⟩ | ⟨n, rfl⟩ | rfl <;>
      simpa [fileBefore, lcovSources, List.filterMap_cons] using hfollows.path
  · rw [hsince]
    rcases hd with ⟨n, rfl⟩ | ⟨n, rfl⟩ | rfl <;>
      simpa [lineNumbers, List.filterMap_cons] using hfollows.numbers
  · rw [hsince]
    rcases hd with ⟨n, rfl⟩ | ⟨n, rfl⟩ | rfl <;> simpa [coveredLines] using hfollows.covered
  · rw [hsince, hfound]
  · rw [hsince, hhit]
  · rw [testPending, hsince]
    rcases hd with ⟨n, rfl⟩ | ⟨n, rfl⟩ | rfl <;> simpa [testPending] using hfollows.noTest
  · rw [observations_concat]
    rcases hd with ⟨n, rfl⟩ | ⟨n, rfl⟩ | rfl <;> simpa [observe, openObservations] using hobserved

/-- The tags `LF` and `LH`. -/
theorem declare {tag value : String}
    (hcurrent : s.current = some current) (htag : tag = "LF" ∨ tag = "LH")
    (hnext : s.declare maxDigits current tag value = .ok next) :
    ∃ d, (lcovTagged tag value = some d ∨ lcovTagged tag value = none ∧
        ∃ n, 2147483647 < n ∧ (d = .found n ∨ d = .hit n)) ∧
      AllowedIfFits ds d ∧ Mirrors next (ds ++ [d]) := by
  obtain ⟨hrecord, hfollows⟩ := h.follows hcurrent
  obtain ⟨hguard, hnext⟩ := Loop.guard_eq_ok_iff.mp hnext
  obtain ⟨hnew, hdecimal⟩ := not_not.mp hguard
  obtain ⟨n, hn, hnext⟩ := Loop.bind_eq_ok_iff.mp hnext
  obtain rfl := Except.ok.inj hnext
  rcases htag with rfl | rfl
  · refine ⟨.found n, ?_, fun _ _ => ⟨hrecord, ?_⟩, h.plain hcurrent (.inl ⟨n, rfl⟩) ?_ ?_⟩
    · exact (reads_counter hdecimal hn .found).imp_right fun hlarge =>
        ⟨hlarge.1, n, hlarge.2, .inl rfl⟩
    · rw [← List.getLast?_eq_none_iff, ← hfollows.found]
      exact hnew
    · rw [LinkedMap.get_set_self]
      simp
    · rw [LinkedMap.get_set_of_ne (by decide)]
      simpa [List.filterMap_cons] using hfollows.hit
  · refine ⟨.hit n, ?_, fun _ _ => ⟨hrecord, ?_⟩, h.plain hcurrent (.inr (.inl ⟨n, rfl⟩)) ?_ ?_⟩
    · exact (reads_counter hdecimal hn .hit).imp_right fun hlarge =>
        ⟨hlarge.1, n, hlarge.2, .inr rfl⟩
    · rw [← List.getLast?_eq_none_iff, ← hfollows.hit]
      exact hnew
    · rw [LinkedMap.get_set_of_ne (by decide)]
      simpa [List.filterMap_cons] using hfollows.found
    · rw [LinkedMap.get_set_self]
      simp

/-- A directive about functions or branches. -/
theorem ignore (hcurrent : s.current = some current) :
    AllowedIfFits ds .metadata ∧ Mirrors s (ds ++ [.metadata]) := by
  obtain ⟨hrecord, hfollows⟩ := h.follows hcurrent
  have hsame : { s with current := some { current with counters := current.counters } } = s := by
    rw [← hcurrent]
  refine ⟨fun _ _ => hrecord, ?_⟩
  rw [← hsame]
  refine h.plain hcurrent (.inr (.inr rfl)) ?_ ?_
  · simpa [List.filterMap_cons] using hfollows.found
  · simpa [List.filterMap_cons] using hfollows.hit

/-- A line is read as a directive, and the variables follow it. -/
theorem readLine {line : String}
    (hnext : s.readLine maxDigits (line, ds.length) = .ok next) :
    ∃ d, Reads line d ∧ AllowedIfFits ds d ∧ Mirrors next (ds ++ [d]) := by
  unfold LcovReader.readLine at hnext
  dsimp only at hnext
  generalize hparts : partitionLine line = parts at hnext
  obtain ⟨-, hnext⟩ := Loop.guard_eq_ok_iff.mp hnext
  obtain ⟨tag, sep, value⟩ := parts
  have htagged : sep = true → lcovDirective line = lcovTagged tag value := by
    rintro rfl
    exact lcovDirective_of_partitionLine hparts
  dsimp only at hnext
  by_cases htest : tag = "TN"
  · rw [if_pos htest] at hnext
    obtain ⟨hsep, hallowed, hmirrors⟩ := h.nameTest hnext
    exact ⟨_, .inl (by rw [htagged hsep, htest]; rfl), hallowed, hmirrors⟩
  rw [if_neg htest] at hnext
  by_cases hsource : tag = "SF"
  · rw [if_pos hsource] at hnext
    obtain ⟨hsep, hvalue, hallowed, hmirrors⟩ := h.openRecord hnext
    refine ⟨_, .inl ?_, hallowed, hmirrors⟩
    rw [htagged hsep, hsource]
    exact if_neg hvalue
  rw [if_neg hsource] at hnext
  by_cases hline : line = "end_of_record"
  · rw [if_pos hline] at hnext
    obtain ⟨hallowed, hmirrors⟩ := h.endRecord hnext
    exact ⟨_, .inl (if_pos hline), hallowed, hmirrors⟩
  rw [if_neg hline] at hnext
  cases hcurrent : s.current with
  | none =>
    rw [hcurrent] at hnext
    cases hnext
  | some current =>
    rw [hcurrent] at hnext
    obtain ⟨hsep, hnext⟩ := Loop.guard_eq_ok_iff.mp hnext
    rw [Bool.not_eq_false] at hsep
    by_cases hdata : tag = "DA"
    · rw [if_pos hdata] at hnext
      obtain ⟨d, hd, hallowed, hmirrors⟩ := h.dataLine hcurrent hnext
      exact ⟨d, .inl (by rw [htagged hsep, hdata]; exact hd), hallowed, hmirrors⟩
    rw [if_neg hdata] at hnext
    by_cases hcounter : tag = "LF" ∨ tag = "LH"
    · rw [if_pos hcounter] at hnext
      obtain ⟨d, hd, hallowed, hmirrors⟩ := h.declare hcurrent hcounter hnext
      rw [← htagged hsep] at hd
      exact ⟨d, hd, hallowed, hmirrors⟩
    rw [if_neg hcounter] at hnext
    by_cases hignored : tag ∈ LcovReader.ignoredTags
    · rw [if_pos hignored] at hnext
      obtain rfl := Except.ok.inj hnext
      obtain ⟨hallowed, hmirrors⟩ := h.ignore hcurrent
      refine ⟨.metadata, .inl ?_, hallowed, hmirrors⟩
      rw [not_or] at hcounter
      rw [htagged hsep, lcovTagged, if_neg htest, if_neg hsource, if_neg hdata, if_neg hcounter.1,
        if_neg hcounter.2]
      exact if_pos hignored
    · rw [if_neg hignored] at hnext
      cases hnext

end Mirrors

/-! ## Whole reports -/

/-- What the loop of the tool accepts. -/
structure Accepts (lines : List String) (ds : List LcovDirective) : Prop where
  reads : List.Forall₂ Reads lines ds
  allowed : ∀ before d after, ds = before ++ d :: after → AllowedIfFits before d

/-- The loop of the tool reads the directives of a report. -/
theorem accepts_of_foldlM {lines : List String} {final : LcovReader}
    (h : lines.zipIdx.foldlM (LcovReader.readLine maxDigits) .start = .ok final) :
    ∃ ds, Accepts lines ds ∧ Mirrors final ds := by
  refine Loop.holds_of_foldlM_zipIdx (fun lines s => ∃ ds, Accepts lines ds ∧ Mirrors s ds)
    ⟨[], ⟨.nil, fun before d after heq => by simp at heq⟩, mirrors_start⟩ ?_ h
  rintro before line s next ⟨ds, haccepts, hmirrors⟩ hnext
  rw [haccepts.reads.length_eq] at hnext
  obtain ⟨d, hreads, hallowed, hmirrors'⟩ := hmirrors.readLine hnext
  refine ⟨ds ++ [d], ⟨?_, Loop.forall_split_concat.mpr ⟨haccepts.allowed, hallowed⟩⟩, hmirrors'⟩
  exact List.rel_append haccepts.reads (.cons hreads .nil)

/-- The table of more directives is at least as large. -/
theorem utf8Length_lcovText_append (uncoveredOnly : Bool) (before after : List LcovDirective) :
    utf8Length (lcovText uncoveredOnly before) ≤
      utf8Length (lcovText uncoveredOnly (before ++ after)) := by
  induction after using List.reverseRecOn with
  | nil => rw [List.append_nil]
  | append_singleton after d ih =>
    rw [← List.append_assoc, lcovText_concat, utf8Length_append]
    omega

/-- Where the table fits, the accepted directives are allowed. -/
theorem Accepts.allowed_of_fits {lines : List String} {ds : List LcovDirective}
    (h : Accepts lines ds) {uncoveredOnly : Bool}
    (hsize : utf8Length (lcovText uncoveredOnly ds) ≤ 1048576) :
    ∀ before d after, ds = before ++ d :: after → d.Allowed uncoveredOnly before := by
  rintro before d after rfl
  have hle := utf8Length_lcovText_append uncoveredOnly (before ++ [d]) after
  rw [List.append_assoc, List.singleton_append] at hle
  exact h.allowed before d after rfl uncoveredOnly (hle.trans hsize)

/-- Directives that are allowed where they stand count at most 10000 lines in a table that fits. -/
theorem bounds_of_allowed {uncoveredOnly : Bool} {ds : List LcovDirective}
    (h : ∀ before d after, ds = before ++ d :: after → d.Allowed uncoveredOnly before) :
    (lineNumbers ds).length ≤ 10000 ∧ utf8Length (lcovText uncoveredOnly ds) ≤ 1048576 := by
  induction ds using List.reverseRecOn with
  | nil => exact ⟨Nat.zero_le _, utf8Length_lcovText_nil uncoveredOnly⟩
  | append_singleton ds d ih =>
    obtain ⟨hbefore, hlast⟩ := Loop.forall_split_concat.mp h
    obtain ⟨hlines, hsize⟩ := ih hbefore
    have hnumbers : (lineNumbers (ds ++ [d])).length =
        (lineNumbers ds).length + (numberOf d).toList.length := by
      rw [lineNumbers, List.filterMap_append, List.length_append]
      cases d <;> rfl
    by_cases hdata : ∃ number count checksum, d = .data number count checksum
    · obtain ⟨number, count, checksum, rfl⟩ := hdata
      obtain ⟨-, -, -, htotal, hfits⟩ := hlast
      refine ⟨by rw [hnumbers]; exact htotal, ?_⟩
      by_cases hlisted : uncoveredOnly = false ∨ count = 0
      · exact hfits hlisted
      · have hkept : (!uncoveredOnly || count == 0) = false := by simpa using hlisted
        rw [lcovText_concat]
        simpa [observe, hkept, csvText_nil] using hsize
    · have hnone : observe ds d = none ∧ numberOf d = none := by
        cases d with
        | data number count checksum => exact absurd ⟨number, count, checksum, rfl⟩ hdata
        | _ => exact ⟨rfl, rfl⟩
      rw [hnumbers, hnone.2, (behind_of_not_data uncoveredOnly ds hnone.1).2]
      exact ⟨hlines, hsize⟩

/-- A record is opened in one place. -/
theorem opened_unique {ds : List LcovDirective} {i j j' : ℕ} {file file' : String}
    (hopened : Opened ds i j file) (hopened' : Opened ds i j' file') : j = j' := by
  rcases Nat.lt_trichotomy j j' with hlt | heq | hlt
  · have hplain := (hopened.unbroken j' _ hlt hopened'.before hopened'.source).1
    cases hplain
  · exact heq
  · have hplain := (hopened'.unbroken j _ hlt hopened.before hopened.source).1
    cases hplain

section Report

variable {uncoveredOnly : Bool} {ds : List LcovDirective} (h : LcovReport uncoveredOnly ds)

include h

/-- Behind a directive of a record comes the end of that record. -/
theorem exists_ending {i : ℕ} {d : LcovDirective} (hd : ds[i]? = some d) (htest : d.isTest = false)
    (hsource : d.isSource = false) (hend : d ≠ .ending) :
    ∃ j stop file, j < i ∧ i < stop ∧ ds[stop]? = some .ending ∧ Opened ds stop j file := by
  classical
  obtain ⟨j, file, hopened⟩ := h.exists_opened hd htest hsource
  have hji := hopened.before
  have hi := (List.getElem?_eq_some_iff.mp hd).1
  -- the first place behind the `SF` where a record may end
  have hstop : ∃ stop, j < stop ∧ (stop = ds.length ∨ ds[stop]? = some .ending ∨
      ∃ next, ds[stop]? = some (.source next)) := ⟨ds.length, by omega, .inl rfl⟩
  obtain ⟨hlt, hkind⟩ := Nat.find_spec hstop
  have hfirst : ∀ k, j < k → k < Nat.find hstop → ds[k]? ≠ some .ending ∧
      ∀ next, ds[k]? ≠ some (.source next) := by
    intro k hjk hk
    have hnot := Nat.find_min hstop hk
    exact ⟨fun heq => hnot ⟨hjk, .inr (.inl heq)⟩,
      fun next heq => hnot ⟨hjk, .inr (.inr ⟨next, heq⟩)⟩⟩
  rcases hkind with hlength | hending | hnext
  · exact absurd (.unclosed j _ file hopened.source hlt (.inl hlength) fun k hjk hk =>
      (hfirst k hjk hk).1) h.not_defect
  · refine ⟨j, Nat.find hstop, file, hji, ?_, hending, hlt, hopened.source, fun k e hjk hk he => ?_⟩
    · by_contra hle
      rcases Nat.lt_or_eq_of_le (Nat.le_of_not_lt hle) with hbefore | heq
      · exact (hopened.unbroken _ _ hlt hbefore hending).2 rfl
      · rw [heq, hd, Option.some.injEq] at hending
        exact hend hending
    · obtain ⟨hnoEnd, hnoSource⟩ := hfirst k hjk hk
      refine ⟨?_, fun heq => hnoEnd (heq ▸ he)⟩
      cases e with
      | source next => exact absurd he (hnoSource next)
      | _ => rfl
  · exact absurd (.unclosed j _ file hopened.source hlt (.inr hnext) fun k hjk hk =>
      (hfirst k hjk hk).1) h.not_defect

/-- A counter of a report is at most the number of its lines. -/
theorem counter_le {d : LcovDirective} {n : ℕ} (hmem : d ∈ ds) (hd : d = .found n ∨ d = .hit n) :
    n ≤ 10000 := by
  obtain ⟨i, hi⟩ := List.mem_iff_getElem?.mp hmem
  have hplain : d.isTest = false ∧ d.isSource = false ∧ d ≠ .ending := by
    rcases hd with rfl | rfl <;> simp
  obtain ⟨j, stop, file, hji, histop, hending, hopened⟩ :=
    exists_ending h hi hplain.1 hplain.2.1 hplain.2.2
  obtain ⟨j', file', hopened', hcovered, hfound, hhit⟩ := h.exact.ended stop hending
  obtain rfl := opened_unique hopened hopened'
  have hbetween : d ∈ between ds j stop := mem_between.mpr ⟨i, hji, histop, hi⟩
  have hsub : (lineNumbers (between ds j stop)).length ≤ (lineNumbers ds).length :=
    (((List.drop_sublist _ _).trans (List.take_sublist _ _)).filterMap _).length_le
  have hbound := (bounds_of_allowed h.allowed).1
  rcases hd with rfl | rfl
  · have heq := hfound n hbetween
    omega
  · have heq := hhit n hbetween
    omega

end Report

/-- The lines of a report in range have its directives. -/
theorem map_lcovDirective {lines : List String} {ds : List LcovDirective}
    (h : List.Forall₂ Reads lines ds)
    (hrange : ∀ d ∈ ds, ∀ n, d = .found n ∨ d = .hit n → n ≤ 2147483647) :
    lines.map lcovDirective = ds.map some := by
  induction h with
  | nil => rfl
  | cons hline _ ih =>
    rw [List.forall_mem_cons] at hrange
    rw [List.map_cons, List.map_cons, ih hrange.2]
    rcases hline with hread | ⟨-, n, hlarge, hd⟩
    · rw [hread]
    · have := hrange.1 n hd
      omega

/-- Lines have at most one list of directives. -/
theorem eq_of_map_lcovDirective {lines : List String} {ds other : List LcovDirective}
    (h : List.Forall₂ Reads lines ds) (hother : lines.map lcovDirective = other.map some) :
    ds = other := by
  induction h generalizing other with
  | nil => exact (List.map_eq_nil_iff.mp hother.symm).symm
  | cons hline _ ih =>
    cases other with
    | nil => cases hother
    | cons e others =>
      rw [List.map_cons, List.map_cons, List.cons.injEq] at hother
      rw [ih hother.2]
      rcases hline with hread | ⟨hnone, -⟩
      · rw [hread, Option.some.injEq] at hother
        rw [hother.1]
      · rw [hnone] at hother
        cases hother.1

/-- Sorting the observations of the groups gives them in the order of the report. -/
theorem mergeSort_eq_observations {observed : List LcovObservation} {ds : List LcovDirective}
    (h : observed.Perm (observations ds)) :
    observed.mergeSort (fun o p => decide (o.reportLine ≤ p.reportLine)) = observations ds := by
  have hperm :=
    (List.mergeSort_perm observed fun o p => decide (o.reportLine ≤ p.reportLine)).trans h
  have hsorted := pairwise_observations ds
  have hle : (observed.mergeSort fun o p => decide (o.reportLine ≤ p.reportLine)).Pairwise
      fun o p => o.reportLine ≤ p.reportLine := by
    refine (List.pairwise_mergeSort (fun a b c hab hbc => ?_) (fun a b => ?_) observed).imp
      of_decide_eq_true
    · rw [decide_eq_true_eq] at hab hbc ⊢
      omega
    · rw [Bool.or_eq_true, decide_eq_true_eq, decide_eq_true_eq]
      omega
  have hne : (observed.mergeSort fun o p => decide (o.reportLine ≤ p.reportLine)).Pairwise
      fun o p => o.reportLine ≠ p.reportLine :=
    (hperm.symm.pairwise_iff fun h => Ne.symm h).mp (hsorted.imp Nat.ne_of_lt)
  have hstrict : (observed.mergeSort fun o p => decide (o.reportLine ≤ p.reportLine)).Pairwise
      fun o p => o.reportLine < p.reportLine :=
    (hle.and hne).imp fun hpair => Nat.lt_of_le_of_ne hpair.1 hpair.2
  refine hperm.eq_of_pairwise ?_ hstrict hsorted
  intro o p _ _ hop hpo
  omega

/-- The text of the retained reader's table of some observations. -/
def tableText (uncoveredOnly : Bool) (listing : List LcovObservation) : String :=
  csvText (lcovHeader ::
    (listing.filter fun o => !uncoveredOnly || o.count == 0).map LcovObservation.cells)

/-- What the tool accepts, the retained reader accepts as well, unless its table exceeds its limit:
with the same records, the same number of lines and of covered lines, and the same observations in
the order of the report. -/
theorem lcov_readers_agree {maxDigits : Option ℕ} {text : String} {result : LcovResult}
    (h : lcov maxDigits text = .ok result) (uncoveredOnly : Bool) {listing : List LcovObservation}
    (hlisting : listing = (groupObservations result.groups).mergeSort
      fun o p => decide (o.reportLine ≤ p.reportLine)) :
    (utf8Length (tableText uncoveredOnly listing) ≤ 1048576 →
      ∃ table, retainedLcovCsv text uncoveredOnly = .ok table ∧
        observations (lcovDirectives text) = listing ∧
        table.records = result.recordCount ∧
        table.total = result.lineObservationCount ∧
        table.covered = (listing.filter fun o => decide (0 < o.count)).length ∧
        table.rows = (listing.filter fun o => !uncoveredOnly || o.count == 0).length ∧
        table.csv = tableText uncoveredOnly listing) ∧
    (1048576 < utf8Length (tableText uncoveredOnly listing) →
      ∀ table, retainedLcovCsv text uncoveredOnly ≠ .ok table) := by
  obtain ⟨hlength, h⟩ := Loop.guard_eq_ok_iff.mp h
  obtain ⟨hplain, h⟩ := Loop.guard_eq_ok_iff.mp h
  obtain ⟨s, hloop, h⟩ := Loop.bind_eq_ok_iff.mp h
  obtain ⟨hguard, h⟩ := Loop.guard_eq_ok_iff.mp h
  obtain ⟨hcurrent, hpending, hrecords⟩ := not_not.mp hguard
  obtain rfl := Except.ok.inj h
  obtain ⟨ds, haccepts, hmirrors⟩ := accepts_of_foldlM hloop
  have hlines : lcovLines text = reportLines text := lcovLines_eq (not_not.mp hplain).2
  have hrecord := hmirrors.inRecord_eq_false hcurrent
  have hobserved := hmirrors.observed
  rw [hcurrent, openObservations, List.append_nil] at hobserved
  rw [mergeSort_eq_observations hobserved] at hlisting
  subst hlisting
  have htext : tableText uncoveredOnly (observations ds) = lcovText uncoveredOnly ds := rfl
  rw [htext]
  constructor
  · intro hsize
    have hreport : LcovReport uncoveredOnly ds := by
      refine ⟨haccepts.allowed_of_fits hsize, hrecord, ?_, ?_⟩
      · rw [← (hmirrors.outside hrecord).2]
        exact hpending
      · have hsources := hmirrors.records
        exact List.ne_nil_of_length_pos (by omega)
    have hdirectives : (lcovLines text).map lcovDirective = ds.map some := by
      rw [hlines]
      refine map_lcovDirective haccepts.reads fun d hmem n hd => ?_
      have hbound := counter_le hreport hmem hd
      omega
    have hsame : lcovDirectives text = ds := by
      have hkept := congrArg (List.filterMap id) hdirectives
      simpa [List.filterMap_map, lcovDirectives] using hkept
    refine ⟨.of uncoveredOnly ds, retainedLcovCsv_eq_ok_iff.mpr
      ⟨not_not.mp hlength, ds, hdirectives, hreport, rfl⟩, by rw [hsame], hmirrors.records.symm,
      hmirrors.count.symm, (length_observations ds).2.symm, rfl, rfl⟩
  · intro hlarge table htable
    obtain ⟨-, other, hdirectives, hreport, -⟩ := retainedLcovCsv_eq_ok_iff.mp htable
    rw [hlines] at hdirectives
    obtain rfl := eq_of_map_lcovDirective haccepts.reads hdirectives
    have hsize := (bounds_of_allowed hreport.allowed).2
    omega

/-- The report of the sample, with both kinds of line ends. -/
def sampleReport : String :=
  "TN:t\r\nSF:a.c\nDA:4,0\nDA:3,001,x\nLF:2\nLH:1\r\nend_of_record\nSF:a.c\nDA:4,2\nend_of_record"

/-- What the tool makes of the sample. -/
def sampleResult : LcovResult where
  groups := [(("a.c", 4), [⟨1, 3, "t", 0, none⟩, ⟨2, 9, "", 2, none⟩]),
    (("a.c", 3), [⟨1, 4, "t", 1, some "x"⟩])]
  recordCount := 2
  lineObservationCount := 3
  coordinateCount := 2

/-- The Python reader reads the sample report. -/
theorem lcov_sampleReport : lcov (some 4300) sampleReport = .ok sampleResult := by
  have hchars : sampleReport.toList = _ := String.toList_ofList
  have hsplit : splitText '\n' (String.ofList (replaceReturns ['\n'] sampleReport.toList)) =
      ["TN:t", "SF:a.c", "DA:4,0", "DA:3,001,x", "LF:2", "LH:1", "end_of_record", "SF:a.c",
        "DA:4,2", "end_of_record"] := by
    rw [splitText, String.toList_ofList, hchars]
    rfl
  rw [lcov, utf8Length, reportLines, hsplit, hchars]
  decide

/-- The directives of the sample report. -/
theorem lcovDirectives_sampleReport : lcovDirectives sampleReport =
    [.test "t", .source "a.c", .data 4 0 "", .data 3 1 "x", .found 2, .hit 1, .ending,
      .source "a.c", .data 4 2 "", .ending] := by
  have hchars : sampleReport.toList = _ := String.toList_ofList
  have hsplit : splitText '\n' sampleReport =
      ["TN:t\r", "SF:a.c", "DA:4,0", "DA:3,001,x", "LF:2", "LH:1\r", "end_of_record", "SF:a.c",
        "DA:4,2", "end_of_record"] := by
    rw [splitText, hchars]
    rfl
  rw [lcovDirectives, lcovLines, hsplit]
  decide

/-- A report with two records that both readers accept. -/
theorem lcov_readers_agree_sample :
    lcov (some 4300) sampleReport = .ok sampleResult ∧
      ∃ table, retainedLcovCsv sampleReport false = .ok table ∧ table.records = 2 ∧
        table.total = 3 ∧ table.csv =
          tableText false (observations (lcovDirectives sampleReport)) := by
  have hobservations : observations (lcovDirectives sampleReport) =
      [⟨1, 3, "t", "a.c", 4, 0, ""⟩, ⟨1, 4, "t", "a.c", 3, 1, "x"⟩,
        ⟨2, 9, "", "a.c", 4, 2, ""⟩] := by
    rw [lcovDirectives_sampleReport]
    rfl
  have hperm : (groupObservations sampleResult.groups).Perm
      (observations (lcovDirectives sampleReport)) := by
    rw [hobservations]
    exact .cons _ (.swap _ _ [])
  have hsize : utf8Length (tableText false (observations (lcovDirectives sampleReport))) ≤
      1048576 := by
    rw [hobservations, tableText, utf8Length_csvText]
    decide
  obtain ⟨table, htable, -, hrecords, htotal, -, -, hcsv⟩ :=
    (lcov_readers_agree lcov_sampleReport false (mergeSort_eq_observations hperm).symm).1 hsize
  exact ⟨lcov_sampleReport, table, htable, hrecords, htotal, hcsv⟩

end Moonfort.Tools
