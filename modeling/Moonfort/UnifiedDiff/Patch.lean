import Mathlib.Data.List.Basic

/-!
# Unified patches

The meaning of a patch in the unified format: its hunks as a reader finds them
line by line, with counts checked and markers of missing final newlines
honoured, and their application to a text, with start lines checked. A patch
that describes how one text becomes another applies, and so does its reverse.
-/

namespace Moonfort.UnifiedDiff

/-- A line of a text, with its newline unless the text ends without one. -/
abbrev Line := List Char

/-- The role of a line in a hunk. -/
inductive EditKind where
  | context
  | removed
  | added
  deriving DecidableEq

/-- A line of a hunk. -/
structure Edit where
  kind : EditKind
  line : Line
  deriving DecidableEq

/-- The lines that the old text has. -/
def oldLines (edits : List Edit) : List Line :=
  (edits.filter fun e => e.kind ≠ .added).map Edit.line

/-- The lines that the new text has. -/
def newLines (edits : List Edit) : List Line :=
  (edits.filter fun e => e.kind ≠ .removed).map Edit.line

/-- A hunk: where it starts in the old and in the new text, how many lines of
each it covers, and its lines. -/
structure Hunk where
  oldStart : ℕ
  oldCount : ℕ
  newStart : ℕ
  newCount : ℕ
  body : List Edit
  deriving DecidableEq

/-- The lines of a text. -/
def splitLines : List Char → List Line
  | [] => []
  | '\n' :: rest => ['\n'] :: splitLines rest
  | c :: rest =>
    match splitLines rest with
    | [] => [[c]]
    | line :: lines => (c :: line) :: lines

/-- What a reader of a patch has found so far: the hunks, the last one first,
and how many lines of it are still to come. -/
structure Reader where
  hunks : List Hunk
  oldLeft : ℕ
  newLeft : ℕ

/-- A decimal number. -/
def readNumber (cs : List Char) : Option ℕ :=
  if cs ≠ [] ∧ cs.all Char.isDigit then some (Nat.ofDigitChars 10 cs 0) else none

/-- A range of lines, whose count is one unless it is given. -/
def readRange (cs : List Char) : Option (ℕ × ℕ) :=
  match cs.splitOn ',' with
  | [start] => (readNumber start).map (·, 1)
  | [start, count] => do return (← readNumber start, ← readNumber count)
  | _ => none

/-- The first line of a hunk. -/
def readHunkStart (reader : Reader) (line : Line) : Option Reader :=
  match line.splitOn ' ' with
  | [['@', '@'], '-' :: old, '+' :: new, ['@', '@', '\n']] => do
    let (oldStart, oldCount) ← readRange old
    let (newStart, newCount) ← readRange new
    return ⟨⟨oldStart, oldCount, newStart, newCount, []⟩ :: reader.hunks, oldCount, newCount⟩
  | _ => none

/-- A line of a hunk goes to the end of the hunk's body. -/
def addEdit (reader : Reader) (oldLeft newLeft : ℕ) (edit : Edit) : Option Reader :=
  match reader.hunks with
  | [] => none
  | hunk :: rest => some ⟨{ hunk with body := hunk.body ++ [edit] } :: rest, oldLeft, newLeft⟩

/-- The marker of a missing final newline: the line before it has none. -/
def dropNewline (reader : Reader) : Option Reader :=
  match reader.hunks with
  | [] => none
  | hunk :: rest =>
    match hunk.body.getLast? with
    | none => none
    | some edit =>
      if edit.line.getLast? = some '\n' then
        some { reader with hunks :=
          { hunk with body := hunk.body.dropLast ++ [⟨edit.kind, edit.line.dropLast⟩] } :: rest }
      else none

/-- A line of a patch after its two header lines. -/
def readLine (reader : Reader) (line : Line) : Option Reader :=
  match line with
  | '\\' :: ' ' :: _ => dropNewline reader
  | first :: text =>
    if reader.oldLeft = 0 ∧ reader.newLeft = 0 then readHunkStart reader (first :: text)
    else if first = ' ' ∧ 0 < reader.oldLeft ∧ 0 < reader.newLeft then
      addEdit reader (reader.oldLeft - 1) (reader.newLeft - 1) ⟨.context, text⟩
    else if first = '-' ∧ 0 < reader.oldLeft then
      addEdit reader (reader.oldLeft - 1) reader.newLeft ⟨.removed, text⟩
    else if first = '+' ∧ 0 < reader.newLeft then
      addEdit reader reader.oldLeft (reader.newLeft - 1) ⟨.added, text⟩
    else none
  | [] => none

/-- The hunks of a patch whose last hunk is complete. -/
def Reader.finish (reader : Reader) : Option (List Hunk) :=
  if reader.oldLeft = 0 ∧ reader.newLeft = 0 then some reader.hunks.reverse else none

/-- The hunks of a patch; the empty patch has none. -/
def readPatch (text : List Char) : Option (List Hunk) :=
  match splitLines text with
  | [] => some []
  | old :: new :: rest =>
    if ['-', '-', '-', ' '].isPrefixOf old ∧ ['+', '+', '+', ' '].isPrefixOf new then
      (rest.foldlM readLine ⟨[], 0, 0⟩).bind Reader.finish
    else none
  | [_] => none

/-- The start line of a range that follows `before` lines: an empty range names
the line before it. -/
def startLine (before count : ℕ) : ℕ := if count = 0 then before else before + 1

/-- The lines after `lead`, where `lines` begins with it. -/
def stripLines : List Line → List Line → Option (List Line)
  | [], lines => some lines
  | _ :: _, [] => none
  | line :: lead, other :: lines => if line = other then stripLines lead lines else none

/-- Apply hunks to what follows the first `before` lines of the old text, of
which the new text has `beforeNew`. -/
def applyHunks (before beforeNew : ℕ) (lines : List Line) : List Hunk → Option (List Line)
  | [] => some lines
  | hunk :: rest =>
    let start := if hunk.oldCount = 0 then hunk.oldStart else hunk.oldStart - 1
    let gap := start - before
    if before ≤ start ∧ gap ≤ lines.length ∧
        hunk.oldStart = startLine start hunk.oldCount ∧
        hunk.newStart = startLine (beforeNew + gap) hunk.newCount ∧
        hunk.oldCount = (oldLines hunk.body).length ∧
        hunk.newCount = (newLines hunk.body).length then do
      let after ← stripLines (oldLines hunk.body) (lines.drop gap)
      let applied ← applyHunks (start + hunk.oldCount) (beforeNew + gap + hunk.newCount) after rest
      return lines.take gap ++ newLines hunk.body ++ applied
    else none

/-- The text after the hunks are applied. -/
def applyToText (hunks : List Hunk) (text : List Char) : Option (List Char) :=
  (applyHunks 0 0 (splitLines text) hunks).map List.flatten

/-- The role of a line in the reverse of its hunk. -/
def EditKind.reverse : EditKind → EditKind
  | .context => .context
  | .removed => .added
  | .added => .removed

/-- A line of the reverse of a hunk. -/
def Edit.reverse (edit : Edit) : Edit := ⟨edit.kind.reverse, edit.line⟩

/-- The hunk that undoes a hunk. -/
def Hunk.reverse (hunk : Hunk) : Hunk :=
  ⟨hunk.newStart, hunk.newCount, hunk.oldStart, hunk.oldCount, hunk.body.map Edit.reverse⟩

/-- `patch` applied to `text`. -/
def applyPatch (patch text : String) : Option String :=
  ((readPatch patch.toList).bind fun hunks => applyToText hunks text.toList).map String.ofList

/-- The reverse of `patch` applied to `text`. -/
def applyReverse (patch text : String) : Option String :=
  ((readPatch patch.toList).bind fun hunks =>
    applyToText (hunks.map Hunk.reverse) text.toList).map String.ofList

/-- Hunks describe how the lines after the first `before` of the old text become
the lines after the first `beforeNew` of the new one. -/
inductive Describes : ℕ → ℕ → List Line → List Line → List Hunk → Prop
  | rest (before beforeNew : ℕ) (lines : List Line) : Describes before beforeNew lines lines []
  | hunk {before beforeNew : ℕ} {old new : List Line} {hunks : List Hunk} (gap : List Line)
      (body : List Edit)
      (htail : Describes (before + gap.length + (oldLines body).length)
        (beforeNew + gap.length + (newLines body).length) old new hunks) :
      Describes before beforeNew (gap ++ oldLines body ++ old) (gap ++ newLines body ++ new)
        (⟨startLine (before + gap.length) (oldLines body).length, (oldLines body).length,
          startLine (beforeNew + gap.length) (newLines body).length, (newLines body).length,
          body⟩ :: hunks)

/-- A line as it stands in a text: nothing follows its newline. -/
def IsLine (line : Line) : Prop := ∃ body, '\n' ∉ body ∧ (line = body ++ ['\n'] ∨ line = body)

/-- A character goes to the front of its line. -/
theorem splitLines_cons {c : Char} (hc : c ≠ '\n') (rest : List Char) :
    splitLines (c :: rest) = match splitLines rest with
      | [] => [[c]]
      | line :: lines => (c :: line) :: lines :=
  splitLines.eq_3 c rest hc

/-- The first line of a text ends with the first newline. -/
theorem splitLines_append {body : List Char} (hbody : '\n' ∉ body) (rest : List Char) :
    splitLines (body ++ '\n' :: rest) = (body ++ ['\n']) :: splitLines rest := by
  induction body with
  | nil => rfl
  | cons c body ih =>
    rw [List.mem_cons, not_or] at hbody
    rw [List.cons_append, splitLines_cons (Ne.symm hbody.1), ih hbody.2]
    rfl

/-- The lines of a text make up the text. -/
theorem splitLines_flatten (text : List Char) : (splitLines text).flatten = text := by
  induction text with
  | nil => rfl
  | cons c rest ih =>
    by_cases hc : c = '\n'
    · subst hc
      rw [splitLines, List.flatten_cons, ih]
      rfl
    · rw [splitLines_cons hc]
      cases hrest : splitLines rest with
      | nil =>
        rw [hrest] at ih
        rw [← ih]
        rfl
      | cons line lines =>
        rw [hrest] at ih
        rw [← ih]
        rfl

/-- Nothing follows the newline of a line of a text. -/
theorem isLine_of_mem_splitLines {text : List Char} {line : Line}
    (hline : line ∈ splitLines text) : IsLine line := by
  induction text generalizing line with
  | nil => cases hline
  | cons c rest ih =>
    by_cases hc : c = '\n'
    · subst hc
      rw [splitLines, List.mem_cons] at hline
      rcases hline with rfl | hline
      · exact ⟨[], List.not_mem_nil, .inl rfl⟩
      · exact ih hline
    · rw [splitLines_cons hc] at hline
      cases hrest : splitLines rest with
      | nil =>
        rw [hrest, List.mem_singleton] at hline
        exact ⟨[c], by simpa using Ne.symm hc, .inr hline⟩
      | cons head lines =>
        rw [hrest] at hline ih
        rcases List.mem_cons.mp hline with rfl | hline
        · obtain ⟨body, hbody, hhead⟩ := ih List.mem_cons_self
          have hnotin : '\n' ∉ c :: body := by
            rw [List.mem_cons, not_or]
            exact ⟨Ne.symm hc, hbody⟩
          rcases hhead with rfl | rfl
          · exact ⟨c :: body, hnotin, .inl rfl⟩
          · exact ⟨c :: head, hnotin, .inr rfl⟩
        · exact ih (List.mem_cons_of_mem _ hline)

/-- Lines that lead are stripped. -/
theorem stripLines_append (lead lines : List Line) :
    stripLines lead (lead ++ lines) = some lines := by
  induction lead with
  | nil => rfl
  | cons line lead ih =>
    rw [List.cons_append, stripLines, if_pos rfl]
    exact ih

/-- Hunks that describe a change apply. -/
theorem Describes.apply {before beforeNew : ℕ} {old new : List Line} {hunks : List Hunk}
    (h : Describes before beforeNew old new hunks) :
    applyHunks before beforeNew old hunks = some new := by
  induction h with
  | rest before beforeNew lines => rfl
  | @hunk before beforeNew old new hunks gap body htail ih =>
    have hstart : (if (oldLines body).length = 0 then
          startLine (before + gap.length) (oldLines body).length
        else startLine (before + gap.length) (oldLines body).length - 1) = before + gap.length := by
      unfold startLine
      split <;> omega
    have hgap : before + gap.length - before = gap.length := by omega
    have hdrop : (gap ++ oldLines body ++ old).drop gap.length = oldLines body ++ old := by
      rw [List.append_assoc, List.drop_left]
    have htake : (gap ++ oldLines body ++ old).take gap.length = gap := by
      rw [List.append_assoc, List.take_left]
    rw [applyHunks]
    simp only [hstart, hgap]
    rw [if_pos ⟨by omega, by simp, trivial, trivial, trivial, trivial⟩, hdrop, htake,
      stripLines_append]
    simp only [Option.bind_eq_bind, Option.bind_some, ih]
    rfl

/-- The old lines of a reversed script are the new ones. -/
theorem oldLines_reverse (edits : List Edit) :
    oldLines (edits.map Edit.reverse) = newLines edits := by
  induction edits with
  | nil => rfl
  | cons e edits ih =>
    obtain ⟨kind, line⟩ := e
    cases kind <;> simpa [oldLines, newLines, Edit.reverse, EditKind.reverse] using ih

/-- The new lines of a reversed script are the old ones. -/
theorem newLines_reverse (edits : List Edit) :
    newLines (edits.map Edit.reverse) = oldLines edits := by
  induction edits with
  | nil => rfl
  | cons e edits ih =>
    obtain ⟨kind, line⟩ := e
    cases kind <;> simpa [oldLines, newLines, Edit.reverse, EditKind.reverse] using ih

/-- The reverse hunks describe the change back. -/
theorem Describes.reverse {before beforeNew : ℕ} {old new : List Line} {hunks : List Hunk}
    (h : Describes before beforeNew old new hunks) :
    Describes beforeNew before new old (hunks.map Hunk.reverse) := by
  induction h with
  | rest before beforeNew lines => exact .rest beforeNew before lines
  | hunk gap body htail ih =>
    rw [← oldLines_reverse body, ← newLines_reverse body] at ih
    have hhunk := Describes.hunk gap (body.map Edit.reverse) ih
    rwa [oldLines_reverse, newLines_reverse] at hhunk

end Moonfort.UnifiedDiff
