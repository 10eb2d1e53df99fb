import Moonfort.Loop
import Moonfort.MoonBit.Lines

/-!
# Flat TAP reports

The parser of a TAP report and what it keeps of the lines. Every test line becomes one point,
unless it stands in a diagnostic block. A block may open in the first column, when the `---` there
has blanks behind it, and then the test lines in it are lost.
-/

namespace Moonfort.Tap

open MoonBit

/-! ## The parser -/

/-- How the parser fails. -/
inductive TapFault where
  /-- `fail(message)`. -/
  | refused (message : String)
  /-- An index that is out of range. -/
  | outOfRange
  deriving DecidableEq

/-- `Point`. -/
structure Point where
  number : ℕ
  reportLine : ℕ
  status : String
  description : String
  directive : String
  reason : String
  diagnostics : List String

/-- `Report`. -/
structure Report where
  points : List Point
  plan : Option ℕ
  skipReason : String
  bailout : Option String
  bailoutLine : Option ℕ

/-- `number`. -/
def number (value : String) : Except TapFault ℕ :=
  if value = "" ∨ 5 < utf16Length value then .error (.refused "TAP invalid test number or plan")
  else if allChars value Char.isDigit = false then
    .error (.refused "TAP expected decimal number")
  else
    let result := DecimalText.digitsValue value.toList
    if 10000 < result then .error (.refused "TAP exceeds 10000 test points") else .ok result

/-- The end of a word. -/
def isWordEnd (c : Char) : Bool := c == ' ' || c == '\t'

/-- `directive`. -/
def directive (value : String) : Except TapFault (String × String) :=
  let chars := (trim value).toList
  let key := toUpper (String.ofList (chars.takeWhile fun c => !isWordEnd c))
  if key ≠ "TODO" ∧ key ≠ "SKIP" ∧ key ≠ "SKIPPED:" then
    .error (.refused "TAP unsupported directive")
  else
    .ok (if key = "TODO" then "TODO" else "SKIP",
      trim (String.ofList (chars.dropWhile fun c => !isWordEnd c)))

/-- A line that reports a passed test. -/
def OkLine (line : String) : Prop :=
  line = "ok" ∨ hasPrefix line "ok " = true ∨ hasPrefix line "ok\t" = true

/-- A line that reports a failed test. -/
def NotOkLine (line : String) : Prop :=
  line = "not ok" ∨ hasPrefix line "not ok " = true ∨ hasPrefix line "not ok\t" = true

instance (line : String) : Decidable (OkLine line) := by unfold OkLine; infer_instance

instance (line : String) : Decidable (NotOkLine line) := by unfold NotOkLine; infer_instance

/-- The description behind the number of a test, which must be the next one. -/
def numberedDescription (sequence : ℕ) (description : String) : Except TapFault String :=
  let digits := description.toList.takeWhile Char.isDigit
  let rest := description.toList.dropWhile Char.isDigit
  if digits = [] then .ok description
  else if rest.head?.any (fun c => !isWordEnd c) = true then
    .error (.refused "TAP ambiguous test number")
  else do
    let found ← number (String.ofList digits)
    if found ≠ sequence then .error (.refused "TAP test numbers must be sequential")
    else .ok (trim (String.ofList rest))

/-- The status of a test with a directive. -/
def statusOf (passed : Bool) (kind : String) : String :=
  if kind = "SKIP" then "skipped"
  else if kind = "TODO" then (if passed then "unexpected-pass" else "todo")
  else if passed then "passed" else "failed"

/-- The directive of a test line in the pieces between its `#`. -/
def pointDirective (pieces : List String) : Except TapFault (String × String) :=
  if 1 < pieces.length then directive ("#".intercalate pieces.tail) else .ok ("", "")

/-- The point of a test line. -/
def testPoint (line : String) (sequence index : ℕ) : Except TapFault Point :=
  if ¬OkLine line ∧ ¬NotOkLine line then
    .error (.refused "TAP unsupported or malformed line")
  else
    let passed := decide (OkLine line)
    let pieces := splitText '#' (trim (dropText (if passed then 2 else 6) line))
    if 10000 < sequence then .error (.refused "TAP exceeds 10000 test points")
    else do
      let description ← numberedDescription sequence (trim (pieces.headD ""))
      let description := if description = "-" ∨ hasPrefix description "- " = true then
        trim (dropText 1 description) else description
      let found ← pointDirective pieces
      .ok ⟨sequence, index + 1, statusOf passed found.1, description, found.1, found.2, []⟩

/-- The variables of the loop over the lines. -/
structure State where
  points : List Point
  plan : Option ℕ
  skipReason : String
  trailingPlan : Bool
  bailout : Option String
  bailoutLine : Option ℕ
  yamlIndent : Option String
  yamlAllowed : Bool
  attachComments : Bool

/-- The variables in front of the loop. -/
def State.start : State := ⟨[], none, "", false, none, none, none, false, false⟩

/-- A point with one more line. -/
def Point.push (p : Point) (line : String) : Point :=
  { p with diagnostics := p.diagnostics ++ [line] }

namespace State

/-- `points[points.length() - 1].diagnostics.push(line)`. -/
def attach (s : State) (line : String) : Except TapFault State :=
  if s.points = [] then .error .outOfRange
  else .ok { s with points := s.points.modify (s.points.length - 1) (·.push line) }

/-- A line of a diagnostic block. -/
def blockLine (s : State) (indent line : String) : Except TapFault State :=
  if hasPrefix line indent = false ∧ trim line ≠ "" then
    .error (.refused "TAP unterminated diagnostic block")
  else do
    let s ← s.attach line
    .ok (if line = indent ++ "..." then { s with yamlIndent := none } else s)

/-- A comment. -/
def comment (s : State) (line : String) : Except TapFault State :=
  if s.attachComments = true then do
    let s ← s.attach line
    .ok { s with yamlAllowed := false }
  else .ok { s with yamlAllowed := false }

/-- The first line of a diagnostic block. -/
def openBlock (s : State) (line : String) : Except TapFault State :=
  if s.yamlAllowed = false then .error (.refused "TAP diagnostic block must follow a test")
  else
    match textBefore "---" line with
    | none => .error .outOfRange
    | some indent => do
      let s ← { s with yamlIndent := some indent }.attach line
      .ok { s with yamlAllowed := false }

/-- The line `Bail out!`. -/
def bail (s : State) (index : ℕ) (line : String) : State :=
  { s with
    bailout := some (trim (dropText 9 line))
    bailoutLine := some (index + 1)
    attachComments := false }

/-- The reason of a plan in the parts between its `#`. -/
def planReason (s : State) (parts : List String) (count : ℕ) : Except TapFault String :=
  if 1 < parts.length then do
    let found ← directive ("#".intercalate parts.tail)
    if found.1 ≠ "SKIP" ∨ count ≠ 0 then
      .error (.refused "TAP skip plan must declare zero tests")
    else .ok found.2
  else .ok s.skipReason

/-- The plan. -/
def planLine (s : State) (line : String) : Except TapFault State :=
  if s.plan.isSome = true then .error (.refused "TAP duplicate plan")
  else do
    let parts := splitText '#' (dropText 3 line)
    let count ← number (trim (parts.headD ""))
    let skipReason ← s.planReason parts count
    .ok { s with
      plan := some count
      skipReason := skipReason
      trailingPlan := !s.points.isEmpty
      attachComments := false }

/-- A test line. -/
def testLine (s : State) (index : ℕ) (line : String) : Except TapFault State :=
  if s.trailingPlan = true then .error (.refused "TAP test after trailing plan")
  else do
    let point ← testPoint line (s.points.length + 1) index
    .ok { s with points := s.points ++ [point], yamlAllowed := true, attachComments := true }

/-- A line that no diagnostic block can start with. -/
def reportLine (s : State) (index : ℕ) (line : String) : Except TapFault State :=
  if hasPrefix line "Bail out!" = true then .ok (s.bail index line)
  else if hasPrefix line "1.." = true then s.planLine line
  else s.testLine index line

/-- A line outside of a diagnostic block. -/
def topLine (s : State) (index : ℕ) (line : String) : Except TapFault State :=
  let trimmed := trim line
  if trimmed = "" then .ok s
  else if line = "TAP version 13" then
    if index = 0 then .ok s else .error (.refused "TAP version must be first line")
  else if hasPrefix trimmed "# Subtest:" = true then
    .error (.refused "TAP nested subtests are outside this flat report view")
  else if hasPrefix trimmed "#" = true then s.comment line
  else if s.bailout.isSome = true then .error (.refused "TAP content after bailout")
  else if trimmed = "---" ∧ line ≠ trimmed then s.openBlock line
  else { s with yamlAllowed := false }.reportLine index line

/-- The body of the loop over the lines. -/
def step (s : State) (raw : String × ℕ) : Except TapFault State :=
  match s.yamlIndent with
  | some indent => s.blockLine indent (trimReturns raw.1)
  | none => s.topLine raw.2 (trimReturns raw.1)

end State

/-- The checks behind the loop. -/
def finish (s : State) : Except TapFault Report :=
  if s.yamlIndent.isSome = true then .error (.refused "TAP unterminated diagnostic block")
  else if s.plan.any (fun count =>
      !((s.bailout.isSome && s.points.length ≤ count) || count == s.points.length)) = true then
    .error (.refused "TAP plan does not match observed tests")
  else if s.points = [] ∧ s.plan ≠ some 0 ∧ s.bailout = none then
    .error (.refused "TAP has no test points, skip plan or bailout")
  else .ok ⟨s.points, s.plan, s.skipReason, s.bailout, s.bailoutLine⟩

/-- `parse`. -/
def parse (text : String) : Except TapFault Report :=
  if 1048576 < utf8Length text then .error (.refused "TAP exceeds 1 MiB")
  else do
    let s ← (splitText '\n' text).zipIdx.foldlM State.step .start
    finish s

/-- The physical lines of a report. -/
def reportLines (text : String) : List String := (splitText '\n' text).map trimReturns

end Moonfort.Tap
