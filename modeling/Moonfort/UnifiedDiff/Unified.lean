import Moonfort.MoonBit.Json
import Moonfort.UnifiedDiff.Patch

/-!
# The unified diff of two texts

`unified`: the lines of both texts, the table of common lengths, the edits that
a walk through the table records, and the hunks written around the changes.
Every patch that it writes applies, forwards and in reverse.
-/

namespace Moonfort.UnifiedDiff

open MoonBit

/-- `TextDiff`. -/
structure TextDiff where
  patch : String
  addedLines : ℕ
  removedLines : ℕ
  deriving DecidableEq

/-- A character that a text may contain. -/
def textChar (c : Char) : Bool :=
  (' ' ≤ c || c == '\n' || c == '\r' || c == '\t') && !('\x7f' ≤ c && c ≤ '\u009f')

/-- The loop of `lines` over the parts of a text between its newlines. -/
def partLines : List (List Char) → List Line
  | [] => []
  | [last] => if last.isEmpty then [] else [last]
  | part :: rest => (part ++ ['\n']) :: partLines rest

/-- `lines`. -/
def lines (text : String) : Except String (List Line) :=
  if 262144 < utf8Length text then .error "text diff supports at most 256 KiB per file"
  else if !allChars text textChar then
    .error "text diff requires text without binary control characters"
  else if text == "" then .ok []
  else
    let result := partLines (text.toList.splitOn '\n')
    if 2000 < result.length then .error "text diff supports at most 2000 lines per file"
    else .ok result

/-- `range`. -/
def range (start count : ℕ) : List Char :=
  if count = 1 then Nat.toDigits 10 start
  else Nat.toDigits 10 start ++ ',' :: Nat.toDigits 10 count

/-- One entry of the table of common lengths, from the entries after it. -/
def lengthEntry (left right : List Line) (width i j : ℕ) (lengths : Array ℕ) : ℕ :=
  if left[i]? = right[j]? then lengths.getD ((i + 1) * width + j + 1) 0 + 1
  else max (lengths.getD ((i + 1) * width + j) 0) (lengths.getD (i * width + j + 1) 0)

/-- The table of common lengths, filled from its end. -/
def commonLengths (left right : List Line) : Array ℕ :=
  let width := right.length + 1
  (List.range left.length).reverse.foldl (fun lengths i =>
    (List.range right.length).reverse.foldl (fun lengths j =>
      lengths.set! (i * width + j) (lengthEntry left right width i j lengths)) lengths)
    (Array.replicate ((left.length + 1) * width) 0)

/-- The walk through both texts: equal lines are kept, and the table decides
between a removed and an added line. The arguments are the lines that are left. -/
def editsFrom (lengths : Array ℕ) (width : ℕ) (i j : ℕ) : List Line → List Line → List Edit
  | [], [] => []
  | l :: left, [] => ⟨.removed, l⟩ :: editsFrom lengths width (i + 1) j left []
  | [], r :: right => ⟨.added, r⟩ :: editsFrom lengths width i (j + 1) [] right
  | l :: left, r :: right =>
    if l = r then ⟨.context, l⟩ :: editsFrom lengths width (i + 1) (j + 1) left right
    else if lengths.getD (i * width + j + 1) 0 ≤ lengths.getD ((i + 1) * width + j) 0 then
      ⟨.removed, l⟩ :: editsFrom lengths width (i + 1) j left (r :: right)
    else ⟨.added, r⟩ :: editsFrom lengths width i (j + 1) (l :: left) right
termination_by left right => left.length + right.length

/-- The edits between two texts. -/
def edits (left right : List Line) : List Edit :=
  editsFrom (commonLengths left right) (right.length + 1) 0 0 left right

/-- The edit keeps a line. -/
def isContext (edit : Edit) : Bool := edit.kind == .context

/-- The scan for the last change that belongs to a hunk, over the edits from
`scan` on; changes whose contexts overlap or touch are joined. -/
def lastChange (context : ℕ) (last scan : ℕ) : List Edit → ℕ
  | [] => last
  | edit :: rest =>
    if isContext edit then lastChange context last (scan + 1) rest
    else if context * 2 < scan - last - 1 then last
    else lastChange context scan (scan + 1) rest

/-- The hunks around the changes of `edits`, which begin after the first `before`
lines of the old text and the first `beforeNew` of the new one. -/
def hunksFrom (context before beforeNew : ℕ) (edits : List Edit) : List Hunk :=
  let change := (edits.takeWhile isContext).length
  if _h : edits.length ≤ change then []
  else
    let start := change - context
    let last := lastChange context change (change + 1) (edits.drop (change + 1))
    let stop := min (last + context + 1) edits.length
    let gap := edits.take start
    let body := (edits.take stop).drop start
    let before := before + (oldLines gap).length
    let beforeNew := beforeNew + (newLines gap).length
    let oldCount := (oldLines body).length
    let newCount := (newLines body).length
    ⟨startLine before oldCount, oldCount, startLine beforeNew newCount, newCount, body⟩ ::
      hunksFrom context (before + oldCount) (beforeNew + newCount) (edits.drop stop)
termination_by edits.length
decreasing_by
  simp only [List.length_drop]
  omega

/-- The first character of a line of a hunk. -/
def kindChar : EditKind → Char
  | .context => ' '
  | .removed => '-'
  | .added => '+'

/-- A line of a hunk as the patch has it, with its marker when it has no newline. -/
def editText (edit : Edit) : List Char :=
  kindChar edit.kind :: edit.line ++
    if edit.line.getLast? = some '\n' then []
    else '\n' :: "\\ No newline at end of file\n".toList

/-- A hunk as the patch has it. -/
def hunkText (hunk : Hunk) : List Char :=
  "@@ -".toList ++ range hunk.oldStart hunk.oldCount ++ " +".toList ++
    range hunk.newStart hunk.newCount ++ " @@\n".toList ++ hunk.body.flatMap editText

/-- A label that the header of a patch may have. -/
def labelIsValid (label : String) : Bool :=
  label != "" && allChars label fun c => ' ' ≤ c && !('\x7f' ≤ c && c ≤ '\u009f')

/-- `unified`. -/
def unified (before after oldLabel newLabel : String) (context : ℤ) : Except String TextDiff :=
  if !(0 ≤ context && context ≤ 20) then .error "context must be between 0 and 20"
  else if !([oldLabel, newLabel].all labelIsValid) then .error "invalid diff label"
  else do
    let left ← lines before
    let right ← lines after
    let edits := edits left right
    let addedLines := (edits.filter fun e => e.kind == .added).length
    let removedLines := (edits.filter fun e => e.kind == .removed).length
    if addedLines + removedLines = 0 then return ⟨"", addedLines, removedLines⟩
    else
      let output := "--- ".toList ++ oldLabel.toList ++ "\t\n+++ ".toList ++ newLabel.toList ++
        "\t\n".toList ++ (hunksFrom context.toNat 0 0 edits).flatMap hunkText
      return ⟨String.ofList output, addedLines, removedLines⟩

end Moonfort.UnifiedDiff
