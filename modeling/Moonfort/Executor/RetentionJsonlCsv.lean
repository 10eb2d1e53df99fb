import Mathlib
import Moonfort.Executor.RetentionJsonCsv
import Moonfort.Loop
import Moonfort.MoonBit.Lines

/-!
# JSON Lines as a table

The reader of a text with one JSON value on each line. One loop splits off the lines, skips
the blank ones, numbers the others and takes a budget of values through all of them. Every
line that is not blank becomes one row, whatever ends the lines.
-/

namespace Moonfort.Executor

open JsonGrammar MoonBit

variable {ν : Type}

/-! ## The reader -/

/-- The variables of the loop over the lines. -/
structure JsonlState (ν : Type) where
  rows : List (JsonTree String (ExactNumber ν))
  sourceLines : List ℕ
  values : ℕ
  blanks : ℕ

/-- The results of `retained_jsonl_rows_counted`. -/
structure JsonlRows (ν : Type) where
  rows : List (JsonTree String (ExactNumber ν))
  sourceLines : List ℕ
  totalLines : ℕ
  blanks : ℕ
  values : ℕ

/-- The test for a blank line. -/
def isBlankLine (line : String) : Bool :=
  allChars line fun c => c == ' ' || c == '\t' || c == '\r'

/-- `total_lines`. -/
def jsonlTotalLines (text : String) : ℕ :=
  if text = "" then 0
  else if hasSuffix text "\n" = true then (splitText '\n' text).length - 1
  else (splitText '\n' text).length

/-- The handler around the reading of a line. What is no error of the language passes. -/
def jsonlFault (describe : JsonFault → String) (index : ℕ) : JsonFault → JsonFault
  | .outOfBounds => .outOfBounds
  | .exhausted => .exhausted
  | fault => .failed ("JSONL source line " ++ intText (index + 1 : ℕ) ++ ": " ++ describe fault)

/-- A line is validated and then read, with a count of the values so far. -/
def readJsonlLine (lib : StandardJson String ν) (line : String) (values : ℕ) :
    Except JsonFault (JsonTree String (ExactNumber ν) × RetainedJsonReader) :=
  match validateRetainedJsonSyntax lib line with
  | .error fault => .error fault
  | .ok () => readValue lib (readerFuel line) ⟨line.toList, values⟩

/-- The body of the loop over the lines. -/
def JsonlState.step (lib : StandardJson String ν) (describe : JsonFault → String)
    (skipBlankLines : Bool) (s : JsonlState ν) (line : String × ℕ) :
    Except JsonFault (JsonlState ν) :=
  if isBlankLine line.1 = true then
    if skipBlankLines = false then
      .error (.failed ("JSONL source line " ++ intText (line.2 + 1 : ℕ) ++
        " is blank; explicitly enable skipping"))
    else .ok { s with blanks := s.blanks + 1 }
  else
    match readJsonlLine lib line.1 s.values with
    | .error fault => .error (jsonlFault describe line.2 fault)
    | .ok (value, reader) =>
      .ok { s with
        rows := s.rows ++ [value]
        sourceLines := s.sourceLines ++ [line.2 + 1]
        values := reader.values }

/-- `retained_jsonl_rows_counted`. -/
def retainedJsonlRowsCounted (lib : StandardJson String ν) (describe : JsonFault → String)
    (text : String) (skipBlankLines : Bool) (initialValues : ℕ) :
    Except JsonFault (JsonlRows ν) :=
  if 20000 < initialValues then .error (.failed "invalid JSONL initial value budget")
  else
    let lines := splitText '\n' text
    let totalLines := jsonlTotalLines text
    if 20000 < totalLines then .error (.failed "JSONL exceeds 20000 physical lines")
    else do
      let s ← (lines.take totalLines).zipIdx.foldlM
        (JsonlState.step lib describe skipBlankLines) ⟨[], [], initialValues, 0⟩
      .ok ⟨s.rows, s.sourceLines, totalLines, s.blanks, s.values⟩

/-! ## One line -/

variable {lib : StandardJson String ν}

/-- A line is read within a budget exactly when it can be read on its own and its values fit. -/
theorem readJsonlLine_eq_ok_iff (hlib : lib.Conforms) {line : String}
    {values : ℕ} {value : JsonTree String (ExactNumber ν)} {total : ℕ} :
    (∃ chars, readJsonlLine lib line values = .ok (value, ⟨chars, total⟩)) ↔
      parseRetainedJson lib line = .ok value ∧ values + value.count ≤ 20000 ∧
        total = values + value.count := by
  rw [readJsonlLine, parseRetainedJson]
  cases hvalid : validateRetainedJsonSyntax lib line with
  | error fault =>
    refine iff_of_false ?_ ?_
    · rintro ⟨chars, h⟩
      cases h
    · rintro ⟨h, -⟩
      cases h
  | ok _ =>
    obtain ⟨standard, hstandard⟩ := parse_of_validate hvalid
    obtain ⟨tree, ⟨before, body, after, hbefore, hafter, hbody, htext⟩, -⟩ :=
      hlib.returns hstandard
    have hfrom := readValue_document_from hlib hbefore hafter hbody htext values
    dsimp only
    obtain ⟨hgood, hread⟩ | ⟨hbad, message, -, hread⟩ :=
      readValue_document hlib hbefore hafter hbody htext
    · rw [hread]
      dsimp only
      constructor
      · rintro ⟨chars, h⟩
        obtain ⟨hfits, hsame⟩ | ⟨-, message, -, hfails⟩ := hfrom
        · rw [hsame, Except.ok.injEq, Prod.mk.injEq, RetainedJsonReader.mk.injEq] at h
          rw [← h.1, JsonTree.count_mapNumbers, ← h.2.2]
          exact ⟨rfl, hfits.1, rfl⟩
        · rw [hfails] at h
          cases h
      · rintro ⟨hvalue, hfits, rfl⟩
        rw [← Except.ok.inj hvalue, JsonTree.count_mapNumbers] at hfits ⊢
        obtain ⟨-, hsame⟩ | ⟨hlarge, -⟩ := hfrom
        · exact ⟨after, hsame⟩
        · exact absurd ⟨hfits, hgood.2⟩ hlarge
    · rw [hread]
      refine iff_of_false ?_ ?_
      · rintro ⟨chars, h⟩
        obtain ⟨hfits, -⟩ | ⟨-, message, -, hfails⟩ := hfrom
        · exact hbad ⟨by omega, hfits.2⟩
        · rw [hfails] at h
          cases h
      · rintro ⟨h, -⟩
        cases h

/-! ## All lines -/

/-- The values of the lines that are not blank, with the numbers of their lines. -/
def jsonlRecords (lib : StandardJson String ν) (lines : List String) :
    List (JsonTree String (ExactNumber ν) × ℕ) :=
  lines.zipIdx.filterMap fun line =>
    if isBlankLine line.1 = true then none
    else (parseRetainedJson lib line.1).toOption.map fun value => (value, line.2 + 1)

/-- The number of values in some records. -/
def recordValues (records : List (JsonTree String (ExactNumber ν) × ℕ)) : ℕ :=
  (records.map fun record => record.1.count).sum

/-- The variables of the loop behind some lines. -/
def JsonlState.behind (lib : StandardJson String ν) (initialValues : ℕ) (lines : List String) :
    JsonlState ν where
  rows := (jsonlRecords lib lines).map Prod.fst
  sourceLines := (jsonlRecords lib lines).map Prod.snd
  values := initialValues + recordValues (jsonlRecords lib lines)
  blanks := lines.countP isBlankLine

/-- A line is allowed behind others. -/
def JsonlAllowed (lib : StandardJson String ν) (skipBlankLines : Bool) (initialValues : ℕ)
    (before : List String) (line : String) : Prop :=
  if isBlankLine line = true then skipBlankLines = true
  else ∃ value, parseRetainedJson lib line = .ok value ∧
    initialValues + recordValues (jsonlRecords lib before) + value.count ≤ 20000

/-- One more line is a record unless it is blank. -/
theorem jsonlRecords_concat (lib : StandardJson String ν) (lines : List String) (line : String) :
    jsonlRecords lib (lines ++ [line]) = jsonlRecords lib lines ++
      (if isBlankLine line = true then none
        else (parseRetainedJson lib line).toOption.map fun value =>
          (value, lines.length + 1)).toList := by
  rw [jsonlRecords, jsonlRecords, Loop.zipIdx_concat, List.filterMap_append]
  congr 1

/-- The values of records add up. -/
theorem recordValues_append (a b : List (JsonTree String (ExactNumber ν) × ℕ)) :
    recordValues (a ++ b) = recordValues a + recordValues b := by
  rw [recordValues, List.map_append, List.sum_append]
  rfl

/-- One line is read exactly when it is allowed. -/
theorem step_behind (hlib : lib.Conforms)
    {describe : JsonFault → String} {skipBlankLines : Bool} {initialValues : ℕ}
    {before : List String} {line : String} {next : JsonlState ν} :
    (JsonlState.behind lib initialValues before).step lib describe skipBlankLines
        (line, before.length) = .ok next ↔
      JsonlAllowed lib skipBlankLines initialValues before line ∧
        next = .behind lib initialValues (before ++ [line]) := by
  rw [JsonlState.step, JsonlAllowed]
  dsimp only
  by_cases hblank : isBlankLine line = true
  · have hbehind : JsonlState.behind lib initialValues (before ++ [line]) =
        { JsonlState.behind lib initialValues before with
          blanks := (JsonlState.behind lib initialValues before).blanks + 1 } := by
      simp [JsonlState.behind, jsonlRecords_concat, hblank]
    rw [if_pos hblank, if_pos hblank, Loop.guard_eq_ok_iff, Bool.not_eq_false, hbehind,
      Except.ok.injEq, eq_comm (a := next)]
  · rw [if_neg hblank, if_neg hblank]
    have hbehind : ∀ value, parseRetainedJson lib line = .ok value →
        JsonlState.behind lib initialValues (before ++ [line]) =
          { JsonlState.behind lib initialValues before with
            rows := (JsonlState.behind lib initialValues before).rows ++ [value]
            sourceLines := (JsonlState.behind lib initialValues before).sourceLines ++
              [before.length + 1]
            values := (JsonlState.behind lib initialValues before).values + value.count } := by
      intro value hvalue
      simp [JsonlState.behind, jsonlRecords_concat, hblank, hvalue, Except.toOption, recordValues,
        Nat.add_assoc]
    cases hread : readJsonlLine lib line (JsonlState.behind lib initialValues before).values with
    | error fault =>
      refine iff_of_false ?_ ?_
      · intro h
        cases h
      · rintro ⟨⟨value, hvalue, hfits⟩, -⟩
        obtain ⟨chars, hsame⟩ := (readJsonlLine_eq_ok_iff hlib).mpr ⟨hvalue, hfits, rfl⟩
        change readJsonlLine lib line (JsonlState.behind lib initialValues before).values =
          _ at hsame
        rw [hread] at hsame
        cases hsame
    | ok result =>
      obtain ⟨value, chars, total⟩ := result
      obtain ⟨hvalue, hfits, rfl⟩ := (readJsonlLine_eq_ok_iff hlib).mp ⟨chars, hread⟩
      rw [hbehind value hvalue]
      dsimp only
      rw [Except.ok.injEq, eq_comm (a := next)]
      exact (and_iff_right ⟨value, hvalue, hfits⟩).symm

/-- The physical lines of a text. -/
def jsonlLines (text : String) : List String :=
  (splitText '\n' text).take (jsonlTotalLines text)

/-- A text is read within a budget when its lines are few, each of them is read on its own and
all their values fit. -/
structure JsonlAccepted (lib : StandardJson String ν) (text : String) (skipBlankLines : Bool)
    (initialValues : ℕ) : Prop where
  lines : (jsonlLines text).length ≤ 20000
  blank : ∀ line ∈ jsonlLines text, isBlankLine line = true → skipBlankLines = true
  parsed : ∀ line ∈ jsonlLines text, isBlankLine line = false →
    ∃ value, parseRetainedJson lib line = .ok value
  values : initialValues + recordValues (jsonlRecords lib (jsonlLines text)) ≤ 20000

/-- The number of lines is what the source counts. -/
theorem length_jsonlLines (text : String) : (jsonlLines text).length = jsonlTotalLines text := by
  rw [jsonlLines, List.length_take, Nat.min_eq_left]
  rw [jsonlTotalLines]
  split_ifs <;> omega

/-- The lines are all allowed when the values of all of them fit. -/
theorem allowed_iff {skipBlankLines : Bool} {initialValues : ℕ}
    (hinitial : initialValues ≤ 20000) {lines : List String} :
    (∀ before line after, lines = before ++ line :: after →
        JsonlAllowed lib skipBlankLines initialValues before line) ↔
      (∀ line ∈ lines, isBlankLine line = true → skipBlankLines = true) ∧
        (∀ line ∈ lines, isBlankLine line = false →
          ∃ value, parseRetainedJson lib line = .ok value) ∧
        initialValues + recordValues (jsonlRecords lib lines) ≤ 20000 := by
  induction lines using List.reverseRecOn with
  | nil => simp [jsonlRecords, recordValues, hinitial]
  | append_singleton lines line ih =>
    rw [Loop.forall_split_concat, ih, JsonlAllowed, jsonlRecords_concat, recordValues_append,
      List.forall_mem_append, List.forall_mem_append, List.forall_mem_singleton,
      List.forall_mem_singleton]
    by_cases hblank : isBlankLine line = true
    · simp only [hblank, if_true, forall_const, reduceCtorEq, false_implies, and_true,
        Option.toList_none, recordValues, List.map_nil, List.sum_nil, Nat.add_zero]
      exact ⟨fun h => ⟨⟨h.1.1, h.2⟩, h.1.2⟩, fun h => ⟨⟨h.1.1, h.2⟩, h.1.2⟩⟩
    · rw [if_neg hblank, if_neg hblank]
      constructor
      · rintro ⟨⟨hskip, hparsed, -⟩, value, hvalue, hfits⟩
        refine ⟨⟨hskip, fun h => absurd h hblank⟩, ⟨hparsed, fun _ => ⟨value, hvalue⟩⟩, ?_⟩
        rw [hvalue]
        simpa [recordValues, Except.toOption, Nat.add_assoc] using hfits
      · rintro ⟨⟨hskip, -⟩, ⟨hparsed, hlast⟩, hfits⟩
        obtain ⟨value, hvalue⟩ := hlast (by simpa using hblank)
        rw [hvalue] at hfits
        have hsum : recordValues (Option.map (fun value => (value, lines.length + 1))
            (Except.ok value : Except JsonFault _).toOption).toList = value.count := by
          simp [recordValues, Except.toOption]
        rw [hsum] at hfits
        exact ⟨⟨hskip, hparsed, by omega⟩, value, hvalue, by omega⟩

/-- The result of reading the lines of a text. -/
def JsonlRows.of (lib : StandardJson String ν) (initialValues : ℕ) (text : String) :
    JsonlRows ν where
  rows := (jsonlRecords lib (jsonlLines text)).map Prod.fst
  sourceLines := (jsonlRecords lib (jsonlLines text)).map Prod.snd
  totalLines := jsonlTotalLines text
  blanks := (jsonlLines text).countP isBlankLine
  values := initialValues + recordValues (jsonlRecords lib (jsonlLines text))

/-- The reader accepts exactly what fits its limits, and gives the records of all lines. -/
theorem retainedJsonlRowsCounted_eq_ok_iff (hlib : lib.Conforms)
    {describe : JsonFault → String} {text : String} {skipBlankLines : Bool} {initialValues : ℕ}
    {result : JsonlRows ν} :
    retainedJsonlRowsCounted lib describe text skipBlankLines initialValues = .ok result ↔
      initialValues ≤ 20000 ∧ JsonlAccepted lib text skipBlankLines initialValues ∧
        result = .of lib initialValues text := by
  have hstart : JsonlState.behind lib initialValues [] = ⟨[], [], initialValues, 0⟩ := by
    simp [JsonlState.behind, jsonlRecords, recordValues]
  have hloop : ∀ s, (jsonlLines text).zipIdx.foldlM (JsonlState.step lib describe skipBlankLines)
      ⟨[], [], initialValues, 0⟩ = .ok s ↔
        (∀ before line after, jsonlLines text = before ++ line :: after →
          JsonlAllowed lib skipBlankLines initialValues before line) ∧
        s = .behind lib initialValues (jsonlLines text) :=
    fun s => Loop.foldlM_zipIdx_eq_ok_iff hstart fun before line next => step_behind hlib
  rw [retainedJsonlRowsCounted, Loop.guard_eq_ok_iff, Nat.not_lt]
  refine and_congr_right fun hinitial => ?_
  dsimp only
  rw [Loop.guard_eq_ok_iff, Nat.not_lt, Loop.bind_eq_ok_iff]
  constructor
  · rintro ⟨hlines, s, hs, hresult⟩
    obtain ⟨hallowed, rfl⟩ := (hloop s).mp hs
    obtain ⟨hblank, hparsed, hvalues⟩ := (allowed_iff hinitial).mp hallowed
    exact ⟨⟨by rwa [length_jsonlLines], hblank, hparsed, hvalues⟩, (Except.ok.inj hresult).symm⟩
  · rintro ⟨h, rfl⟩
    refine ⟨by rw [← length_jsonlLines]; exact h.lines, .behind lib initialValues (jsonlLines text),
      (hloop _).mpr ⟨(allowed_iff hinitial).mpr ⟨h.blank, h.parsed, h.values⟩, rfl⟩, rfl⟩

/-! ## Ends of lines -/

/-- A text with the line ends of another system. -/
def crlf (text : String) : String := String.ofList (replaceAll '\n' ['\r', '\n'] text.toList)

/-- Every part but the last one with a carriage return behind it. -/
def addReturns : List (List Char) → List (List Char)
  | [] => []
  | [last] => [last]
  | part :: next :: rest => (part ++ ['\r']) :: addReturns (next :: rest)

/-- A line before others gets a carriage return. -/
theorem addReturns_cons {parts : List (List Char)} (h : parts ≠ []) (part : List Char) :
    addReturns (part :: parts) = (part ++ ['\r']) :: addReturns parts := by
  cases parts with
  | nil => exact absurd rfl h
  | cons next rest => rfl

/-- The last line gets none. -/
theorem addReturns_concat (parts : List (List Char)) (last : List Char) :
    addReturns (parts ++ [last]) = parts.map (· ++ ['\r']) ++ [last] := by
  induction parts with
  | nil => rfl
  | cons part parts ih => rw [List.cons_append, addReturns_cons (by simp), ih]; rfl

/-- A character in front of the first line stays there. -/
theorem addReturns_modifyHead (c : Char) (parts : List (List Char)) :
    addReturns (parts.modifyHead (c :: ·)) = (addReturns parts).modifyHead (c :: ·) := by
  cases parts with
  | nil => rfl
  | cons part rest => cases rest <;> rfl

/-- The lines between other line ends have carriage returns. -/
theorem splitOn_replaceAll (chars : List Char) :
    (replaceAll '\n' ['\r', '\n'] chars).splitOn '\n' = addReturns (chars.splitOn '\n') := by
  induction chars with
  | nil => rfl
  | cons c rest ih =>
    rw [replaceAll, List.flatMap_cons]
    change ((if c = '\n' then ['\r', '\n'] else [c]) ++
      replaceAll '\n' ['\r', '\n'] rest).splitOn '\n' = _
    by_cases hc : c = '\n'
    · have hreturn : '\n' ∉ ['\r'] := by decide
      rw [if_pos hc, hc, ← List.nil_append ('\n' :: rest),
        List.splitOn_append_cons_self_of_not_mem List.not_mem_nil,
        addReturns_cons (List.splitOn_ne_nil _ _), ← ih, List.nil_append]
      exact List.splitOn_append_cons_self_of_not_mem hreturn _
    · have hne : (c == '\n') = false := by simpa using hc
      rw [if_neg hc, List.singleton_append, List.splitOn_cons_eq_if_modifyHead,
        List.splitOn_cons_eq_if_modifyHead, hne, ih]
      exact (addReturns_modifyHead c _).symm

/-- A text is empty, ends with a line end or ends with another character. -/
theorem jsonlLines_cases (text : String) :
    (text.toList = [] ∧ jsonlLines text = []) ∨
      (∃ front, text.toList = front ++ ['\n'] ∧
        jsonlLines text = (front.splitOn '\n').map String.ofList) ∨
      ∃ front c, c ≠ '\n' ∧ text.toList = front ++ [c] ∧ jsonlLines text = splitText '\n' text := by
  rcases List.eq_nil_or_concat text.toList with hnil | ⟨front, c, htext⟩
  · refine .inl ⟨hnil, ?_⟩
    rw [jsonlLines, jsonlTotalLines, if_pos (String.toList_eq_nil_iff.mp hnil), List.take_zero]
  · rw [List.concat_eq_append] at htext
    have hne : text ≠ "" := by
      rintro rfl
      simp at htext
    by_cases hc : c = '\n'
    · subst hc
      have hsuffix : hasSuffix text "\n" = true := by
        rw [hasSuffix, htext]
        exact List.isSuffixOf_iff_suffix.mpr ⟨front, rfl⟩
      have hparts : splitText '\n' text = (front.splitOn '\n').map String.ofList ++ [""] := by
        rw [splitText, htext, List.splitOn_append_cons_self, List.map_append]
        rfl
      refine .inr (.inl ⟨front, htext, ?_⟩)
      rw [jsonlLines, jsonlTotalLines, if_neg hne, if_pos hsuffix, hparts, List.length_append,
        List.length_singleton, Nat.add_sub_cancel, List.take_left]
    · have hsuffix : ¬hasSuffix text "\n" = true := by
        rw [hasSuffix, htext]
        intro h
        obtain ⟨rest, hrest⟩ := List.isSuffixOf_iff_suffix.mp h
        have hlast := congrArg List.getLast? hrest
        rw [List.getLast?_concat] at hlast
        change (rest ++ ['\n']).getLast? = some c at hlast
        rw [List.getLast?_concat, Option.some.injEq] at hlast
        exact hc hlast.symm
      refine .inr (.inr ⟨front, c, hc, htext, ?_⟩)
      rw [jsonlLines, jsonlTotalLines, if_neg hne, if_neg hsuffix, List.take_length]

/-- A line with or without a carriage return behind it. -/
def SameLine (line other : String) : Prop :=
  other = line ∨ other.toList = line.toList ++ ['\r']

/-- A carriage return at its end leaves a line the same. -/
theorem sameLine_ofList (part : List Char) :
    SameLine (String.ofList part) (String.ofList (part ++ ['\r'])) :=
  .inr (by rw [String.toList_ofList, String.toList_ofList])

/-- Carriage returns leave the lines the same. -/
theorem sameLines_addReturns (parts : List (List Char)) :
    List.Forall₂ SameLine (parts.map String.ofList) ((addReturns parts).map String.ofList) := by
  induction parts with
  | nil => exact .nil
  | cons part rest ih =>
    cases rest with
    | nil => exact .cons (.inl rfl) .nil
    | cons next rest => exact .cons (sameLine_ofList part) ih

/-- The lines of a text with the line ends of another system. -/
theorem sameLines_crlf (text : String) :
    List.Forall₂ SameLine (jsonlLines text) (jsonlLines (crlf text)) := by
  have hchars : (crlf text).toList = replaceAll '\n' ['\r', '\n'] text.toList :=
    String.toList_ofList
  obtain ⟨hnil, hlines⟩ | ⟨front, htext, hlines⟩ | ⟨front, c, hc, htext, hlines⟩ :=
    jsonlLines_cases text
  · have hempty : text = "" := String.toList_eq_nil_iff.mp hnil
    rw [hlines, hempty]
    exact .nil
  · have hother : (crlf text).toList =
        replaceAll '\n' ['\r', '\n'] front ++ ['\r'] ++ ['\n'] := by
      rw [hchars, htext, replaceAll, List.flatMap_append]
      simp [replaceAll]
    have hsplit : (replaceAll '\n' ['\r', '\n'] front ++ ['\r']).splitOn '\n' =
        (front.splitOn '\n').map (· ++ ['\r']) := by
      have heq := splitOn_replaceAll text.toList
      rw [← hchars, hother, htext, List.splitOn_append_cons_self, List.splitOn_append_cons_self,
        List.splitOn_nil, addReturns_concat] at heq
      exact (List.append_inj' heq rfl).1
    obtain ⟨hnil, -⟩ | ⟨front', htext', hlines'⟩ | ⟨front', c, hc, htext', -⟩ :=
      jsonlLines_cases (crlf text)
    · rw [hother] at hnil
      simp at hnil
    · rw [hother] at htext'
      rw [hlines, hlines', ← (List.append_inj' htext' rfl).1, hsplit, List.map_map,
        List.forall₂_map_left_iff, List.forall₂_map_right_iff, List.forall₂_same]
      exact fun part _ => sameLine_ofList part
    · rw [hother] at htext'
      exact absurd (List.singleton_inj.mp (List.append_inj' htext' rfl).2).symm hc
  · have hother : (crlf text).toList = replaceAll '\n' ['\r', '\n'] front ++ [c] := by
      rw [hchars, htext, replaceAll, List.flatMap_append]
      simp [replaceAll, hc]
    obtain ⟨hnil, -⟩ | ⟨front', htext', -⟩ | ⟨front', d, -, -, hlines'⟩ :=
      jsonlLines_cases (crlf text)
    · rw [hother] at hnil
      simp at hnil
    · rw [hother] at htext'
      exact absurd (List.singleton_inj.mp (List.append_inj' htext' rfl).2) hc
    · rw [hlines, hlines', splitText, splitText, hchars, splitOn_replaceAll]
      exact sameLines_addReturns _

/-- The lines of a text do not change when the last one gets its line end. -/
theorem jsonlLines_append_newline {text : String} (hne : text ≠ "")
    (hend : hasSuffix text "\n" = false) : jsonlLines (text ++ "\n") = jsonlLines text := by
  have hother : (text ++ "\n").toList = text.toList ++ ['\n'] := String.toList_append
  obtain ⟨hnil, -⟩ | ⟨front, htext, -⟩ | ⟨front, c, hc, htext, hlines⟩ := jsonlLines_cases text
  · exact absurd (String.toList_eq_nil_iff.mp hnil) hne
  · rw [hasSuffix, htext] at hend
    have hsuffix : "\n".toList.isSuffixOf (front ++ ['\n']) = true :=
      List.isSuffixOf_iff_suffix.mpr ⟨front, rfl⟩
    rw [hend] at hsuffix
    cases hsuffix
  · obtain ⟨hnil, -⟩ | ⟨front', htext', hlines'⟩ | ⟨front', d, hd, htext', -⟩ :=
      jsonlLines_cases (text ++ "\n")
    · rw [hother] at hnil
      simp at hnil
    · rw [hother] at htext'
      rw [hlines', hlines, ← (List.append_inj' htext' rfl).1]
      rfl
    · rw [hother] at htext'
      exact absurd (List.singleton_inj.mp (List.append_inj' htext' rfl).2).symm hd

/-! ## The same rows -/

/-- What the reader of one text accepts, in terms of the grammar. -/
theorem parseRetainedJson_eq_ok_iff (hlib : lib.Conforms)
    {text : String} {value : JsonTree String (ExactNumber ν)} :
    parseRetainedJson lib text = .ok value ↔
      (∃ s, text.toList.foldlM scanDepth ⟨0, false, false⟩ = .ok s) ∧
        ∃ tree, Document lib.unescape text.toList tree ∧ tree.count ≤ 20000 ∧ tree.Distinct ∧
          value = tree.mapNumbers lib.exact := by
  constructor
  · intro h
    cases hvalid : validateRetainedJsonSyntax lib text with
    | error fault =>
      rw [parseRetainedJson, hvalid] at h
      cases h
    | ok _ =>
      obtain ⟨standard, hstandard⟩ := parse_of_validate hvalid
      obtain ⟨tree, hdocument, -⟩ := hlib.returns hstandard
      have hsame := hdocument
      obtain ⟨before, body, after, hbefore, hafter, hbody, htext⟩ := hdocument
      rw [parseRetainedJson, hvalid] at h
      dsimp only at h
      obtain ⟨hgood, hread⟩ | ⟨-, message, -, hread⟩ :=
        readValue_document hlib hbefore hafter hbody htext
      · rw [hread] at h
        exact ⟨(validate_eq_ok_iff.mp hvalid).1, tree, hsame, hgood.1, hgood.2,
          (Except.ok.inj h).symm⟩
      · rw [hread] at h
        cases h
  · rintro ⟨hscan, tree, ⟨before, body, after, hbefore, hafter, hbody, htext⟩, hcount, hdistinct,
      rfl⟩
    exact parse_of_derives hlib hbefore hafter hbody htext hscan ⟨hcount, hdistinct⟩

/-- A carriage return changes no depth. -/
theorem scanDepth_return (s : SyntaxScan) : ∃ next, scanDepth s '\r' = .ok next := by
  rw [scanDepth]
  cases s.inString <;> cases s.escaped <;> exact ⟨_, rfl⟩

/-- A carriage return behind a line does not change its value. -/
theorem parse_sameLine (hlib : lib.Conforms) {line other : String}
    (h : SameLine line other) {value : JsonTree String (ExactNumber ν)} :
    parseRetainedJson lib other = .ok value ↔ parseRetainedJson lib line = .ok value := by
  rcases h with rfl | hother
  · exact Iff.rfl
  · have hscan : (∃ s, (line.toList ++ ['\r']).foldlM scanDepth ⟨0, false, false⟩ = .ok s) ↔
        ∃ s, line.toList.foldlM scanDepth ⟨0, false, false⟩ = .ok s := by
      constructor
      · rintro ⟨s, hs⟩
        obtain ⟨state, hstate, -⟩ := Loop.foldlM_concat_eq_ok_iff.mp hs
        exact ⟨state, hstate⟩
      · rintro ⟨s, hs⟩
        obtain ⟨next, hnext⟩ := scanDepth_return s
        exact ⟨next, Loop.foldlM_concat_eq_ok_iff.mpr ⟨s, hs, hnext⟩⟩
    rw [parseRetainedJson_eq_ok_iff hlib, parseRetainedJson_eq_ok_iff hlib, hother, hscan]
    simp only [document_concat_space (show isSpace '\r' = true by rfl)]

/-- Same lines are blank together. -/
theorem isBlankLine_sameLine {line other : String} (h : SameLine line other) :
    isBlankLine other = isBlankLine line := by
  rcases h with rfl | hother
  · rfl
  · rw [isBlankLine, allChars, hother, List.all_append, isBlankLine, allChars]
    exact Bool.and_true _

/-- Same lines have as many blank ones. -/
theorem countP_sameLines {lines others : List String} (h : List.Forall₂ SameLine lines others) :
    others.countP isBlankLine = lines.countP isBlankLine := by
  induction h with
  | nil => rfl
  | cons hsame _ ih => rw [List.countP_cons, List.countP_cons, isBlankLine_sameLine hsame, ih]

/-- Equal lines, up to carriage returns, have equal records. -/
theorem sameLines_records (hlib : lib.Conforms)
    {lines others : List String} (h : List.Forall₂ SameLine lines others) :
    jsonlRecords lib others = jsonlRecords lib lines := by
  have hrecord : ∀ {line other : String}, SameLine line other →
      (parseRetainedJson lib other).toOption = (parseRetainedJson lib line).toOption := by
    intro line other hsame
    cases hline : parseRetainedJson lib line with
    | ok value => rw [(parse_sameLine hlib hsame).mpr hline]
    | error fault =>
      cases hother : parseRetainedJson lib other with
      | error fault' => rfl
      | ok value =>
        rw [(parse_sameLine hlib hsame).mp hother] at hline
        cases hline
  have hfrom : ∀ k, (others.zipIdx k).filterMap (fun line =>
      if isBlankLine line.1 = true then none
      else (parseRetainedJson lib line.1).toOption.map fun value => (value, line.2 + 1)) =
      (lines.zipIdx k).filterMap fun line =>
        if isBlankLine line.1 = true then none
        else (parseRetainedJson lib line.1).toOption.map fun value => (value, line.2 + 1) := by
    induction h with
    | nil => exact fun k => rfl
    | cons hsame _ ih =>
      intro k
      rw [List.zipIdx_cons, List.zipIdx_cons, List.filterMap_cons, List.filterMap_cons, ih,
        isBlankLine_sameLine hsame, hrecord hsame]
  exact hfrom 0

/-- What holds of lines holds of the same lines. -/
theorem forall_mem_sameLines {P : String → Prop} {lines others : List String}
    (h : List.Forall₂ SameLine lines others)
    (hP : ∀ line other, SameLine line other → (P other ↔ P line)) :
    (∀ line ∈ others, P line) ↔ ∀ line ∈ lines, P line := by
  induction h with
  | nil => exact Iff.rfl
  | cons hsame _ ih => rw [List.forall_mem_cons, List.forall_mem_cons, ih, hP _ _ hsame]

/-- Equal lines, up to carriage returns, are accepted alike. -/
theorem accepted_sameLines (hlib : lib.Conforms) {text other : String}
    (h : List.Forall₂ SameLine (jsonlLines text) (jsonlLines other)) {skipBlankLines : Bool}
    {initialValues : ℕ} :
    JsonlAccepted lib other skipBlankLines initialValues ↔
      JsonlAccepted lib text skipBlankLines initialValues := by
  have hblank := forall_mem_sameLines (P := fun line => isBlankLine line = true →
    skipBlankLines = true) h fun line other hsame => by rw [isBlankLine_sameLine hsame]
  have hparsed := forall_mem_sameLines (P := fun line => isBlankLine line = false →
    ∃ value, parseRetainedJson lib line = .ok value) h fun line other hsame => by
      rw [isBlankLine_sameLine hsame]
      simp only [parse_sameLine hlib hsame]
  constructor
  · rintro ⟨hlines, hskip, hvalid, hvalues⟩
    rw [sameLines_records hlib h] at hvalues
    exact ⟨h.length_eq ▸ hlines, hblank.mp hskip, hparsed.mp hvalid, hvalues⟩
  · rintro ⟨hlines, hskip, hvalid, hvalues⟩
    rw [← sameLines_records hlib h] at hvalues
    exact ⟨h.length_eq ▸ hlines, hblank.mpr hskip, hparsed.mpr hvalid, hvalues⟩

/-- Equal lines, up to carriage returns, give the same result. -/
theorem counted_sameLines (hlib : lib.Conforms)
    (describe : JsonFault → String) {text other : String}
    (h : List.Forall₂ SameLine (jsonlLines text) (jsonlLines other)) (skipBlankLines : Bool)
    (initialValues : ℕ) (result : JsonlRows ν) :
    retainedJsonlRowsCounted lib describe other skipBlankLines initialValues = .ok result ↔
      retainedJsonlRowsCounted lib describe text skipBlankLines initialValues = .ok result := by
  have htotal : jsonlTotalLines other = jsonlTotalLines text := by
    rw [← length_jsonlLines, ← length_jsonlLines, h.length_eq]
  have hresult : JsonlRows.of lib initialValues other = .of lib initialValues text := by
    rw [JsonlRows.of, JsonlRows.of, sameLines_records hlib h, countP_sameLines h, htotal]
  rw [retainedJsonlRowsCounted_eq_ok_iff hlib, retainedJsonlRowsCounted_eq_ok_iff hlib,
    accepted_sameLines hlib h, hresult]

/-! ## Every record is kept -/

/-- The rows of the lines that are not blank, in their order and with their numbers. -/
structure JsonlExact (lib : StandardJson String ν) (lines : List String) (result : JsonlRows ν) :
    Prop where
  sourceLines : result.sourceLines =
    (lines.zipIdx.filter fun line => !isBlankLine line.1).map fun line => line.2 + 1
  rows : List.Forall₂ (fun number value => ∃ line, lines[number - 1]? = some line ∧
    isBlankLine line = false ∧ parseRetainedJson lib line = .ok value)
    result.sourceLines result.rows
  totalLines : result.totalLines = lines.length
  blanks : result.blanks = lines.countP isBlankLine
  sum : result.totalLines = result.rows.length + result.blanks

/-- The records of lines that can all be read. -/
theorem records_exact {lines : List String}
    (h : ∀ line ∈ lines, isBlankLine line = false →
      ∃ value, parseRetainedJson lib line = .ok value) :
    (jsonlRecords lib lines).map Prod.snd =
        (lines.zipIdx.filter fun line => !isBlankLine line.1).map (fun line => line.2 + 1) ∧
      lines.length = (jsonlRecords lib lines).length + lines.countP isBlankLine := by
  induction lines using List.reverseRecOn with
  | nil => exact ⟨rfl, rfl⟩
  | append_singleton lines line ih =>
    rw [List.forall_mem_append, List.forall_mem_singleton] at h
    obtain ⟨hnumbers, hlength⟩ := ih h.1
    rw [jsonlRecords_concat, Loop.zipIdx_concat, List.map_append, List.filter_append,
      List.map_append, hnumbers, List.countP_append, List.length_append, List.length_append,
      List.countP_singleton]
    by_cases hblank : isBlankLine line = true
    · simp [hblank, hlength, Nat.add_assoc]
    · obtain ⟨value, hvalue⟩ := h.2 (by simpa using hblank)
      simp [hblank, hvalue, Except.toOption, hlength]
      omega

/-- Every record is parsed from its line. -/
theorem records_parsed {lines : List String} :
    List.Forall₂ (fun number value => ∃ line, lines[number - 1]? = some line ∧
      isBlankLine line = false ∧ parseRetainedJson lib line = .ok value)
      ((jsonlRecords lib lines).map Prod.snd) ((jsonlRecords lib lines).map Prod.fst) := by
  rw [List.forall₂_map_left_iff, List.forall₂_map_right_iff, List.forall₂_same]
  rintro ⟨value, number⟩ hmem
  obtain ⟨⟨line, i⟩, hline, hrecord⟩ := List.mem_filterMap.mp hmem
  dsimp only at hrecord
  by_cases hblank : isBlankLine line = true
  · rw [if_pos hblank] at hrecord
    cases hrecord
  · rw [if_neg hblank] at hrecord
    cases hparse : parseRetainedJson lib line with
    | error fault =>
      rw [hparse] at hrecord
      cases hrecord
    | ok found =>
      rw [hparse] at hrecord
      cases hrecord
      exact ⟨line, List.mem_zipIdx_iff_getElem?.mp hline, by simpa using hblank, hparse⟩

/-- An accepted text is read exactly. -/
theorem JsonlAccepted.exact {text : String} {skipBlankLines : Bool}
    {initialValues : ℕ} (h : JsonlAccepted lib text skipBlankLines initialValues) :
    JsonlExact lib (jsonlLines text) (.of lib initialValues text) where
  sourceLines := (records_exact h.parsed).1
  rows := records_parsed
  totalLines := (length_jsonlLines text).symm
  blanks := rfl
  sum := by
    rw [JsonlRows.of, ← length_jsonlLines, (records_exact h.parsed).2, List.length_map]

/-- The lines that are not blank, each read on its own. -/
def LinesRead (lib : StandardJson String ν) (text : String)
    (values : List (JsonTree String (ExactNumber ν))) : Prop :=
  List.Forall₂ (fun line value => parseRetainedJson lib line = .ok value)
    ((jsonlLines text).filter fun line => !isBlankLine line) values

/-- Lines that parse are read into the records, in order. -/
theorem linesRead_records {lines : List String}
    (h : ∀ line ∈ lines, isBlankLine line = false →
      ∃ value, parseRetainedJson lib line = .ok value) :
    List.Forall₂ (fun line value => parseRetainedJson lib line = .ok value)
      (lines.filter fun line => !isBlankLine line) ((jsonlRecords lib lines).map Prod.fst) := by
  induction lines using List.reverseRecOn with
  | nil => exact .nil
  | append_singleton lines line ih =>
    rw [List.forall_mem_append, List.forall_mem_singleton] at h
    rw [jsonlRecords_concat, List.filter_append, List.map_append]
    by_cases hblank : isBlankLine line = true
    · simpa [hblank] using ih h.1
    · obtain ⟨value, hvalue⟩ := h.2 (by simpa using hblank)
      refine List.rel_append (ih h.1) ?_
      simp [hblank, hvalue, Except.toOption]

/-- Every line can be read in one way only. -/
theorem LinesRead.eq {text : String}
    {values others : List (JsonTree String (ExactNumber ν))} (h : LinesRead lib text values)
    (h' : LinesRead lib text others) : values = others := by
  unfold LinesRead at h h'
  generalize ((jsonlLines text).filter fun line => !isBlankLine line) = lines at h h'
  induction h generalizing others with
  | nil => cases h'; rfl
  | cons hvalue _ ih =>
    cases h' with
    | cons hother hrest =>
      rw [hvalue, Except.ok.injEq] at hother
      rw [hother, ih hrest]

/-- Texts are accepted when the values of all their lines fit. -/
theorem accepted_iff_linesRead {text : String}
    {skipBlankLines : Bool} {initialValues : ℕ} :
    JsonlAccepted lib text skipBlankLines initialValues ↔
      (jsonlLines text).length ≤ 20000 ∧
        (∀ line ∈ jsonlLines text, isBlankLine line = true → skipBlankLines = true) ∧
        ∃ values, LinesRead lib text values ∧
          initialValues + (values.map JsonTree.count).sum ≤ 20000 := by
  have hsum : recordValues (jsonlRecords lib (jsonlLines text)) =
      (((jsonlRecords lib (jsonlLines text)).map Prod.fst).map JsonTree.count).sum := by
    rw [recordValues, List.map_map]
    rfl
  constructor
  · intro h
    exact ⟨h.lines, h.blank, _, linesRead_records h.parsed, hsum ▸ h.values⟩
  · rintro ⟨hlines, hblank, values, hread, hfits⟩
    have hparsed : ∀ line ∈ jsonlLines text, isBlankLine line = false →
        ∃ value, parseRetainedJson lib line = .ok value := by
      intro line hline hnot
      have hmem : line ∈ (jsonlLines text).filter fun line => !isBlankLine line := by
        rw [List.mem_filter, hnot]
        exact ⟨hline, rfl⟩
      obtain ⟨i, hi⟩ := List.getElem?_of_mem hmem
      obtain ⟨hlt, rfl⟩ := List.getElem?_eq_some_iff.mp hi
      exact ⟨_, (List.forall₂_iff_get.mp hread).2 i hlt ((hread.length_eq) ▸ hlt)⟩
    refine ⟨hlines, hblank, hparsed, ?_⟩
    rw [hsum, LinesRead.eq (linesRead_records hparsed) hread]
    exact hfits

/-- The lines of an accepted text that are not blank are its rows, in order and with their
numbers, whatever ends the lines. A text is accepted when the values of all its lines fit the
budget, and each record of the table starts with the number of its line. -/
theorem jsonl_keeps_records {lib : StandardJson String ν} (hlib : lib.Conforms)
    (describe : JsonFault → String) (text : String) (skipBlankLines : Bool) (initialValues : ℕ) :
    (∀ result, retainedJsonlRowsCounted lib describe text skipBlankLines initialValues =
        .ok result → JsonlExact lib (jsonlLines text) result) ∧
    ((∃ result, retainedJsonlRowsCounted lib describe text skipBlankLines initialValues =
        .ok result) ↔
      initialValues ≤ 20000 ∧ (jsonlLines text).length ≤ 20000 ∧
        (∀ line ∈ jsonlLines text, isBlankLine line = true → skipBlankLines = true) ∧
        ∃ values, LinesRead lib text values ∧
          initialValues + (values.map JsonTree.count).sum ≤ 20000) ∧
    (∀ result, retainedJsonlRowsCounted lib describe (crlf text) skipBlankLines initialValues =
        .ok result ↔
      retainedJsonlRowsCounted lib describe text skipBlankLines initialValues = .ok result) ∧
    (hasSuffix text "\n" = false → ∀ result other,
      retainedJsonlRowsCounted lib describe text skipBlankLines initialValues = .ok result →
      retainedJsonlRowsCounted lib describe (text ++ "\n") skipBlankLines initialValues =
        .ok other → other.rows = result.rows ∧ other.sourceLines = result.sourceLines) ∧
    (text ≠ "" → hasSuffix text "\n" = false → ∀ result,
      retainedJsonlRowsCounted lib describe (text ++ "\n") skipBlankLines initialValues =
          .ok result ↔
        retainedJsonlRowsCounted lib describe text skipBlankLines initialValues = .ok result) ∧
    ∀ result describeCell columns table,
      retainedJsonlRowsCounted lib describe text skipBlankLines initialValues = .ok result →
      retainedJsonCsv lib describeCell result.rows columns (.lines result.sourceLines) =
        .ok table → ∃ records, records.length = result.rows.length ∧
          table.csv = csvText (("__source_line" :: columns.map RetentionJsonColumn.header) ::
            records) ∧
          ∀ (k number : ℕ), result.sourceLines[k]? = some number → ∃ cells,
            records[k]? = some (intText number :: cells) := by
  have hnewline : text ≠ "" → hasSuffix text "\n" = false →
      List.Forall₂ SameLine (jsonlLines text) (jsonlLines (text ++ "\n")) := by
    intro hne hend
    rw [jsonlLines_append_newline hne hend, List.forall₂_same]
    exact fun line _ => .inl rfl
  have hexact : ∀ result, retainedJsonlRowsCounted lib describe text skipBlankLines
      initialValues = .ok result → JsonlExact lib (jsonlLines text) result := by
    intro result h
    obtain ⟨-, haccepted, rfl⟩ := (retainedJsonlRowsCounted_eq_ok_iff hlib).mp h
    exact haccepted.exact
  refine ⟨hexact, ?_, counted_sameLines hlib describe (sameLines_crlf text) _ _, ?_, ?_, ?_⟩
  · rw [← accepted_iff_linesRead]
    constructor
    · rintro ⟨result, h⟩
      obtain ⟨hinitial, haccepted, -⟩ := (retainedJsonlRowsCounted_eq_ok_iff hlib).mp h
      exact ⟨hinitial, haccepted⟩
    · rintro ⟨hinitial, haccepted⟩
      exact ⟨_, (retainedJsonlRowsCounted_eq_ok_iff hlib).mpr ⟨hinitial, haccepted, rfl⟩⟩
  · intro hend result other h hother
    by_cases hne : text = ""
    · obtain ⟨-, -, rfl⟩ := (retainedJsonlRowsCounted_eq_ok_iff hlib).mp h
      obtain ⟨-, -, rfl⟩ := (retainedJsonlRowsCounted_eq_ok_iff hlib).mp hother
      subst hne
      exact ⟨rfl, rfl⟩
    · rw [(counted_sameLines hlib describe (hnewline hne hend) _ _ other), h] at hother
      rw [Except.ok.inj hother]
      exact ⟨rfl, rfl⟩
  · exact fun hne hend => counted_sameLines hlib describe (hnewline hne hend) _ _
  · intro result describeCell columns table h htable
    obtain ⟨tokens, records, -, hrecords, -, hcsv⟩ := csv_of_retainedJsonCsv htable
    refine ⟨records, hrecords.1, hcsv, fun k number hnumber => ?_⟩
    have hlength := (hexact result h).rows.length_eq
    have hlt := (List.getElem?_eq_some_iff.mp hnumber).1
    obtain ⟨cells, -, hrecord⟩ := hrecords.2 k _ (List.getElem?_eq_getElem (by omega))
    refine ⟨cells.map JsonCell.value, ?_⟩
    rw [hrecord, JsonSources.cells, List.getD_eq_getElem?_getD, hnumber]
    rfl

/-! ## A sample -/

/-- Two arrays with a blank line between them. -/
def sampleJsonlText : String := "[10] \n\n[2]\n"

/-- The lines of the sample text. -/
theorem jsonlLines_sampleJsonlText : jsonlLines sampleJsonlText = ["[10] ", "", "[2]"] := by decide

/-- The values of the lines that are not blank. -/
theorem linesRead_sampleJsonlText : LinesRead sampleJson sampleJsonlText
    [(JsonTree.array [JsonTree.number "10"]).mapNumbers sampleJson.exact,
      (JsonTree.array [JsonTree.number "2"]).mapNumbers sampleJson.exact] := by
  have hgood : ∀ spelling : String,
      (JsonTree.array [JsonTree.number spelling] : JsonTree String String).count ≤ 20000 ∧
        (JsonTree.array [JsonTree.number spelling] : JsonTree String String).Distinct := by
    simp [JsonTree.count, countItems, JsonTree.Distinct, DistinctItems]
  have htoken : NumberToken ([] ++ (['2'] ++ ([] ++ []))) :=
    .intro (by simp) (.nonzero rfl (by decide) (by simp)) .absent .absent
  have hitems : Derives sampleJson.unescape (.items [.number "2"]) ([] ++ (['2'] ++ [])) :=
    .lastItem nofun nofun (.number htoken)
  have hspace : Space [' '] := by simp [Space, isSpace]
  have hfirst : parseRetainedJson sampleJson "[10] " = .ok _ :=
    parse_of_derives sampleJson_conforms space_nil hspace sampleJsonText_derives rfl ⟨_, rfl⟩
      (hgood "10")
  have hlast : parseRetainedJson sampleJson "[2]" = .ok _ :=
    parse_of_derives sampleJson_conforms space_nil space_nil (.array hitems) rfl ⟨_, rfl⟩
      (hgood "2")
  rw [LinesRead, jsonlLines_sampleJsonlText]
  exact .cons hfirst (.cons hlast .nil)

/-- The two records of the sample text are kept with their lines, whatever ends these. -/
theorem jsonl_keeps_records_sample : ∃ result,
    retainedJsonlRowsCounted sampleJson (fun _ => "") sampleJsonlText true 0 = .ok result ∧
      retainedJsonlRowsCounted sampleJson (fun _ => "") (crlf sampleJsonlText) true 0 =
        .ok result ∧
      JsonlExact sampleJson ["[10] ", "", "[2]"] result ∧ result.sourceLines = [1, 3] := by
  obtain ⟨hexact, haccepted, hends, -⟩ :=
    jsonl_keeps_records sampleJson_conforms (fun _ => "") sampleJsonlText true 0
  rw [jsonlLines_sampleJsonlText] at hexact haccepted
  obtain ⟨result, hresult⟩ := haccepted.mpr ⟨by decide, by decide, fun _ _ _ => rfl, _,
    linesRead_sampleJsonlText, by simp [JsonTree.count, countItems]⟩
  have hrows := hexact result hresult
  refine ⟨result, hresult, (hends result).mpr hresult, hrows, ?_⟩
  rw [hrows.sourceLines]
  decide

end Moonfort.Executor
