import Moonfort.Junit.XmlReader

/-!
# JUnit reports

The rows of a report are observed from the testcases of an element tree. A tree that is no
report is refused as a whole.
-/

namespace Moonfort.Junit

open MoonBit

/-- `Report`. -/
structure Report where
  headers : List String
  rows : List (List String)
  passed : ℕ
  failed : ℕ
  errors : ℕ
  skipped : ℕ
  deriving DecidableEq

/-- `fail(message)`. -/
def refuse {α : Type} (message : String) : Except XmlFault α := .error (.refused message)

/-- The value of an attribute, or the empty string. -/
def XmlElement.attr (element : XmlElement) (name : String) : String :=
  (element.attrs.lookup name).getD ""

/-- A text of blanks. -/
def isBlankText (text : String) : Bool := text.toList.all xmlSpace

/-- `junit_metadata`. -/
def junitMetadata (element : XmlElement) : Except XmlFault Unit :=
  if element.name = "properties" then
    if isBlankText element.text then
      if element.children.all (fun property =>
          property.name = "property" && property.children.isEmpty) then
        pure ()
      else refuse "unsupported JUnit property content"
    else refuse "text outside JUnit property"
  else if element.children.isEmpty then pure ()
  else refuse "nested JUnit system output is unsupported"

/-- What the loop of `junit_case` has found. -/
structure CaseFound where
  failures : ℕ
  errors : ℕ
  skipped : ℕ
  messages : List String
  details : List String

/-- The details of a failure, an error or a skip. -/
def detailsText (child : XmlElement) : String :=
  "[" ++ child.name ++ (if child.attr "type" = "" then "" else ": " ++ child.attr "type") ++
    "]\n" ++ child.text

/-- One more failure, error or skip. -/
def CaseFound.count (found : CaseFound) (child : XmlElement) : CaseFound where
  failures := if child.name = "failure" then found.failures + 1 else found.failures
  errors := if child.name = "error" then found.errors + 1 else found.errors
  skipped :=
    if child.name = "failure" ∨ child.name = "error" then found.skipped else found.skipped + 1
  messages := found.messages ++ [child.attr "message"]
  details := found.details ++ [detailsText child]

/-- The elements that say how a testcase went. -/
def outcomeNames : List String := ["failure", "error", "skipped"]

/-- The elements that are checked and left out. -/
def metadataNames : List String := ["properties", "system-out", "system-err"]

/-- The loop of `junit_case`. -/
def caseLoop : CaseFound → List XmlElement → Except XmlFault CaseFound
  | found, [] => pure found
  | found, child :: rest =>
    if child.name ∈ outcomeNames then
      if child.children.isEmpty then caseLoop (found.count child) rest
      else refuse "nested JUnit outcome content is unsupported"
    else if child.name ∈ metadataNames then do
      junitMetadata child
      caseLoop found rest
    else refuse ("unsupported JUnit testcase element: " ++ child.name)

/-- The testcase says itself that it has not run. -/
def notrun (element : XmlElement) : Bool :=
  element.attr "status" == "notrun" || element.attr "result" == "suppressed" ||
    element.attr "result" == "skipped"

/-- The outcome of a testcase. -/
def caseOutcome (element : XmlElement) (found : CaseFound) : String :=
  if 0 < found.errors then "error"
  else if 0 < found.failures then "failed"
  else if 0 < found.skipped ∨ notrun element then "skipped"
  else "passed"

/-- The cells of a row. -/
def caseCells (element : XmlElement) (suite name : String) (found : CaseFound) : List String :=
  [intText element.line, suite, element.attr "classname", name, caseOutcome element found,
    element.attr "time", element.attr "file", element.attr "line",
    "\n".intercalate found.messages, "\n\n".intercalate found.details,
    intText found.failures, intText found.errors, intText found.skipped]

/-- `junit_case`. -/
def junitCase (element : XmlElement) (suite : String) : Except XmlFault (List String) :=
  match element.attrs.lookup "name" with
  | none => refuse "JUnit testcase requires a nonempty name"
  | some name =>
    if name = "" then refuse "JUnit testcase requires a nonempty name"
    else if !isBlankText element.text then refuse "unexpected text in JUnit testcase"
    else if element.attr "status" ∉ ["", "run", "notrun"] ∨
        element.attr "result" ∉ ["", "completed", "suppressed", "skipped"] then
      refuse ("unsupported JUnit testcase status/result at source line " ++ intText element.line)
    else do
      let found ← caseLoop ⟨0, 0, 0, [], []⟩ element.children
      if element.attr "status" = "notrun" ∧ element.attr "result" = "completed" then
        refuse "contradictory JUnit status/result"
      else if notrun element ∧ (0 < found.failures ∨ 0 < found.errors) ∨
          0 < found.skipped ∧ (0 < found.failures ∨ 0 < found.errors) then
        refuse "contradictory JUnit skipped and failing outcomes"
      else if (caseCells element suite name found).all (fun cell => utf16Length cell ≤ 16384) then
        pure (caseCells element suite name found)
      else refuse "JUnit CSV cell exceeds 16384 UTF-16 units"

/-- The names of the suites around the children of an element. -/
def suitePath (name : String) (attrs : List (String × String)) (parents : List String) :
    List String :=
  if name = "testsuite" then parents ++ [(attrs.lookup "name").getD ""] else parents

mutual

/-- `junit_suites`. -/
def junitSuites : XmlElement → (parents : List String) → (rows : List (List String)) →
    Except XmlFault (List (List String))
  | ⟨name, attrs, children, text, _⟩, parents, rows =>
    if isBlankText text then suiteLoop name (suitePath name attrs parents) children rows
    else refuse "unexpected text in JUnit suite"

/-- The loop of `junit_suites`. -/
def suiteLoop (name : String) (path : List String) : List XmlElement →
    (rows : List (List String)) → Except XmlFault (List (List String))
  | [], rows => pure rows
  | child :: rest, rows => do
    let rows ← (
      if child.name = "testsuite" then junitSuites child path rows
      else if child.name = "testcase" ∧ name = "testsuite" then
        if rows.length < 10000 then do
          let row ← junitCase child (" / ".intercalate path)
          pure (rows ++ [row])
        else refuse "JUnit exceeds 10000 testcases"
      else if name = "testsuite" ∧ child.name ∈ metadataNames then do
        junitMetadata child
        pure rows
      else refuse ("unsupported JUnit suite element: " ++ child.name))
    suiteLoop name path rest rows

end

/-- The headers of a report. -/
def reportHeaders : List String :=
  ["__source_line", "suite", "classname", "name", "outcome", "time", "file", "line",
    "message", "details", "failure_count", "error_count", "skipped_count"]

/-- The rows with this outcome. -/
def countOutcome (outcome : String) (rows : List (List String)) : ℕ :=
  (rows.filter fun row => row[4]? = some outcome).length

/-- The report of a tree. -/
def reportOf (root : XmlElement) : Except XmlFault Report :=
  if root.name = "testsuites" ∨ root.name = "testsuite" then do
    let rows ← junitSuites root [] []
    pure ⟨reportHeaders, rows, countOutcome "passed" rows, countOutcome "failed" rows,
      countOutcome "error" rows, countOutcome "skipped" rows⟩
  else refuse "JUnit requires testsuite or testsuites root"

/-- `parse`. -/
def parse (text : String) : Except XmlFault Report := do
  let root ← parseXml text
  reportOf root

/-- A testcase that has passed. -/
example : (parse "<testsuite tests=\"1\"><testcase name=\"x\"/></testsuite>").toOption.map
    Report.rows = some [["1", "", "", "x", "passed", "", "", "", "", "", "0", "0", "0"]] := by
  decide +kernel

end Moonfort.Junit
