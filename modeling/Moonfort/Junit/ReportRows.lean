import Moonfort.Junit.Report
import Moonfort.Junit.XmlWriter
import Moonfort.Loop

/-!
# The rows of a JUnit report

A report has a row for each testcase of its document, in document order, and the counts
partition the rows. The outcome of a testcase follows from its children and its own marks.
The attributes of the suites matter only by their names and by the lines they take.
-/

namespace Moonfort.Junit

open MoonBit

/-! ## Testcases -/

mutual

/-- The elements of a tree in document order, each with the names of the suites around it. -/
def XmlElement.placed : XmlElement → (suites : List String) → List (List String × XmlElement)
  | ⟨name, attrs, children, text, line⟩, suites =>
    (suites, ⟨name, attrs, children, text, line⟩) ::
      placedAll (suitePath name attrs suites) children

/-- The elements of these trees. -/
def placedAll (suites : List String) : List XmlElement → List (List String × XmlElement)
  | [] => []
  | element :: rest => element.placed suites ++ placedAll suites rest

end

/-- The testcases among some elements. -/
def testcases (elements : List (List String × XmlElement)) : List (List String × XmlElement) :=
  elements.filter fun place => place.2.name = "testcase"

/-- The testcases of a document in document order, each with the names of its enclosing
suites from the outermost to the innermost. -/
def XmlElement.testcases (root : XmlElement) : List (List String × XmlElement) :=
  Junit.testcases (root.placed [])

section Testcases

variable {element : XmlElement} {name suite : String} {suites : List String}
  {trees : List XmlElement} {row : List String} {rows rows' : List (List String)}

/-- A refusal is no result. -/
theorem refuse_ne_ok {α : Type} (message : String) (value : α) : refuse message ≠ .ok value := by
  rintro ⟨⟩

/-- The test cases of two lists are those of the first and then those of the second. -/
theorem testcases_append (first second : List (List String × XmlElement)) :
    testcases (first ++ second) = testcases first ++ testcases second := List.filter_append ..

/-- Elements without elements in them are no testcases unless they are named so. -/
theorem testcases_leaves (h : ∀ tree ∈ trees, tree.name ≠ "testcase" ∧ tree.children = []) :
    testcases (placedAll suites trees) = [] := by
  induction trees with
  | nil => rfl
  | cons tree trees ih =>
    obtain ⟨⟨hname, hchildren⟩, htrees⟩ := List.forall_mem_cons.mp h
    obtain ⟨name, attrs, children, text, line⟩ := tree
    cases hchildren
    rw [placedAll, testcases_append, ih htrees, List.append_nil, XmlElement.placed, placedAll]
    exact List.filter_cons_of_neg (by simpa using hname)

/-- An element that is no test case contributes those of its children. -/
theorem testcases_placed (h : element.name ≠ "testcase") : testcases (element.placed suites) =
    testcases (placedAll (suitePath element.name element.attrs suites) element.children) := by
  obtain ⟨name, attrs, children, text, line⟩ := element
  rw [XmlElement.placed]
  exact List.filter_cons_of_neg (by simpa using h)

/-- A test case comes before those of its children. -/
theorem testcases_placed_case (h : element.name = "testcase") : testcases (element.placed suites) =
    (suites, element) :: testcases (placedAll suites element.children) := by
  obtain ⟨name, attrs, children, text, line⟩ := element
  cases h
  rw [XmlElement.placed]
  exact List.filter_cons_of_pos rfl

/-- There are no testcases in metadata. -/
theorem testcases_metadata (h : junitMetadata element = .ok ())
    (hname : element.name ∈ metadataNames) : testcases (element.placed suites) = [] := by
  have hself : element.name ≠ "testcase" := by
    intro heq
    rw [heq] at hname
    exact absurd hname (by decide)
  have hchildren : ∀ tree ∈ element.children, tree.name ≠ "testcase" ∧ tree.children = [] := by
    unfold junitMetadata at h
    split_ifs at h with hproperties htext hall hempty
    · intro tree htree
      have hproperty := List.all_eq_true.mp hall tree htree
      rw [Bool.and_eq_true, decide_eq_true_eq, List.isEmpty_iff] at hproperty
      exact ⟨by rw [hproperty.1]; decide, hproperty.2⟩
    · exact absurd h (refuse_ne_ok _ _)
    · exact absurd h (refuse_ne_ok _ _)
    · rw [List.isEmpty_iff.mp hempty]
      exact List.forall_mem_nil _
    · exact absurd h (refuse_ne_ok _ _)
  rw [testcases_placed hself]
  exact testcases_leaves hchildren

/-- There are no testcases in a testcase. -/
theorem testcases_caseLoop {found found' : CaseFound} (h : caseLoop found trees = .ok found') :
    testcases (placedAll suites trees) = [] := by
  induction trees generalizing found with
  | nil => rfl
  | cons tree trees ih =>
    rw [placedAll, testcases_append]
    rw [caseLoop] at h
    split_ifs at h with houtcome hempty hmetadata
    · rw [ih h, List.append_nil]
      have hleaf : testcases (placedAll suites [tree]) = [] := by
        apply testcases_leaves
        rw [List.forall_mem_singleton]
        refine ⟨fun hname => ?_, List.isEmpty_iff.mp hempty⟩
        rw [hname] at houtcome
        exact absurd houtcome (by decide)
      rw [placedAll, placedAll, List.append_nil] at hleaf
      exact hleaf
    · exact absurd h (refuse_ne_ok _ _)
    · obtain ⟨_, hchecked, h⟩ := Loop.bind_eq_ok_iff.mp h
      rw [testcases_metadata hchecked hmetadata, ih h]
      rfl
    · exact absurd h (refuse_ne_ok _ _)

/-- Each outcome counts for one of the three. -/
theorem count_outcome (found : CaseFound) {tree : XmlElement} (h : tree.name ∈ outcomeNames) :
    (found.count tree).failures = found.failures + (if tree.name = "failure" then 1 else 0) ∧
    (found.count tree).errors = found.errors + (if tree.name = "error" then 1 else 0) ∧
    (found.count tree).skipped = found.skipped + (if tree.name = "skipped" then 1 else 0) := by
  have hname : tree.name = "failure" ∨ tree.name = "error" ∨ tree.name = "skipped" := by
    simpa only [outcomeNames, List.mem_cons, List.not_mem_nil, or_false] using h
  unfold CaseFound.count
  rcases hname with hname | hname | hname
  all_goals
    rw [hname]
    exact ⟨rfl, rfl, rfl⟩

/-- The failures, errors and skips of a testcase are counted. -/
theorem counts_caseLoop {found found' : CaseFound} (h : caseLoop found trees = .ok found') :
    found'.failures = found.failures + trees.countP (·.name = "failure") ∧
    found'.errors = found.errors + trees.countP (·.name = "error") ∧
    found'.skipped = found.skipped + trees.countP (·.name = "skipped") := by
  induction trees generalizing found with
  | nil =>
    cases h
    exact ⟨rfl, rfl, rfl⟩
  | cons tree trees ih =>
    simp only [List.countP_cons, decide_eq_true_eq]
    rw [caseLoop] at h
    split_ifs at h with houtcome hempty hmetadata
    · obtain ⟨hfailures, herrors, hskipped⟩ := ih h
      obtain ⟨hfailure, herror, hskip⟩ := count_outcome found houtcome
      omega
    · exact absurd h (refuse_ne_ok _ _)
    · obtain ⟨_, -, h⟩ := Loop.bind_eq_ok_iff.mp h
      obtain ⟨hfailures, herrors, hskipped⟩ := ih h
      rw [hfailures, herrors, hskipped]
      have hnone {name : String} (hnot : name ∉ metadataNames) : tree.name ≠ name := by
        rintro rfl
        exact hnot hmetadata
      rw [if_neg (hnone (by decide)), if_neg (hnone (by decide)), if_neg (hnone (by decide))]
      exact ⟨rfl, rfl, rfl⟩
    · exact absurd h (refuse_ne_ok _ _)

/-- The row of an accepted testcase. -/
theorem junitCase_ok (h : junitCase element suite = .ok row) :
    ∃ name found, element.attrs.lookup "name" = some name ∧
      caseLoop ⟨0, 0, 0, [], []⟩ element.children = .ok found ∧
      row = caseCells element suite name found ∧ ∀ cell ∈ row, utf16Length cell ≤ 16384 := by
  unfold junitCase at h
  split at h
  next => exact absurd h (refuse_ne_ok _ _)
  next name hname =>
    split_ifs at h with hempty htext hmarks hcontradiction
    · exact absurd h (refuse_ne_ok _ _)
    · exact absurd h (refuse_ne_ok _ _)
    · exact absurd h (refuse_ne_ok _ _)
    · obtain ⟨found, -, h⟩ := Loop.bind_eq_ok_iff.mp h
      exact absurd h (refuse_ne_ok _ _)
    · obtain ⟨found, hfound, h⟩ := Loop.bind_eq_ok_iff.mp h
      split_ifs at h with hskipped hsize
      · exact absurd h (refuse_ne_ok _ _)
      · rw [← Except.ok.inj h]
        refine ⟨name, found, hname, hfound, rfl, fun cell hcell => ?_⟩
        exact of_decide_eq_true (List.all_eq_true.mp hsize cell hcell)
      · exact absurd h (refuse_ne_ok _ _)

end Testcases

/-! ## Rows -/

/-- A testcase that says that it has not run, is suppressed or is skipped. -/
def MarkedIdle (element : XmlElement) : Prop :=
  element.attr "status" = "notrun" ∨ element.attr "result" = "suppressed" ∨
    element.attr "result" = "skipped" ∨ ∃ child ∈ element.children, child.name = "skipped"

/-- A testcase with a failure or an error. -/
def HasFailed (element : XmlElement) : Prop :=
  ∃ child ∈ element.children, child.name = "failure" ∨ child.name = "error"

/-- The outcomes of testcases. -/
def outcomes : List String := ["passed", "failed", "error", "skipped"]

/-- What the row of a testcase says of it. -/
structure IsRowOf (row : List String) (place : List String × XmlElement) : Prop where
  line : row[0]? = some (intText place.2.line)
  suite : row[1]? = some (" / ".intercalate place.1)
  name : row[3]? = some (place.2.attr "name")
  outcome : ∃ outcome ∈ outcomes, row[4]? = some outcome
  failed : HasFailed place.2 → row[4]? ≠ some "passed" ∧ row[4]? ≠ some "skipped"
  idle : MarkedIdle place.2 → row[4]? ≠ some "passed"

section Rows

variable {element : XmlElement} {suite : String} {suites : List String} {row : List String}

/-- A child of a name is counted. -/
theorem countP_pos {trees : List XmlElement} {child : XmlElement} {name : String}
    (hchild : child ∈ trees) (hname : child.name = name) : 0 < trees.countP (·.name = name) :=
  List.countP_pos_iff.mpr ⟨child, hchild, decide_eq_true hname⟩

/-- The outcome of a test case is one of the four. -/
theorem mem_outcomes (element : XmlElement) (found : CaseFound) :
    caseOutcome element found ∈ outcomes := by
  unfold caseOutcome
  split_ifs <;> decide

/-- Failures and errors come first. -/
theorem caseOutcome_of_failed {found : CaseFound} (h : 0 < found.failures ∨ 0 < found.errors) :
    caseOutcome element found ≠ "passed" ∧ caseOutcome element found ≠ "skipped" := by
  unfold caseOutcome
  split_ifs with herrors hfailures hskipped
  · decide
  · decide
  · exact absurd h (not_or.mpr ⟨hfailures, herrors⟩)
  · exact absurd h (not_or.mpr ⟨hfailures, herrors⟩)

/-- What has not run has not passed. -/
theorem caseOutcome_of_idle {found : CaseFound} (h : 0 < found.skipped ∨ notrun element = true) :
    caseOutcome element found ≠ "passed" := by
  unfold caseOutcome
  split_ifs with herrors hfailures
  · decide
  · decide
  · decide

/-- The row of a testcase is about it. -/
theorem isRowOf_junitCase (h : junitCase element (" / ".intercalate suites) = .ok row) :
    IsRowOf row (suites, element) := by
  obtain ⟨name, found, hname, hfound, rfl, -⟩ := junitCase_ok h
  obtain ⟨hfailures, herrors, hskipped⟩ := counts_caseLoop hfound
  rw [Nat.zero_add] at hfailures herrors hskipped
  refine ⟨rfl, rfl, ?_, ⟨_, mem_outcomes element found, rfl⟩, ?_, ?_⟩
  · rw [XmlElement.attr, hname]
    rfl
  · rintro ⟨child, hchild, hfailed⟩
    have hcount : 0 < found.failures ∨ 0 < found.errors := by
      rw [hfailures, herrors]
      exact hfailed.imp (countP_pos hchild) (countP_pos hchild)
    obtain ⟨hpassed, hskip⟩ : caseOutcome element found ≠ "passed" ∧
        caseOutcome element found ≠ "skipped" := caseOutcome_of_failed hcount
    exact ⟨fun heq => hpassed (Option.some.inj heq), fun heq => hskip (Option.some.inj heq)⟩
  · intro hidle
    have hcount : 0 < found.skipped ∨ notrun element = true := by
      rw [notrun, Bool.or_eq_true, Bool.or_eq_true, beq_iff_eq, beq_iff_eq, beq_iff_eq]
      rcases hidle with hstatus | hresult | hresult | ⟨child, hchild, hname⟩
      · exact .inr (.inl (.inl hstatus))
      · exact .inr (.inl (.inr hresult))
      · exact .inr (.inr hresult)
      · rw [hskipped]
        exact .inl (countP_pos hchild hname)
    exact fun heq => caseOutcome_of_idle hcount (Option.some.inj heq)

/-- The rows that a suite adds are those of its testcases. -/
theorem rows_junitSuites (element : XmlElement) : ∀ parents rows rows',
    junitSuites element parents rows = .ok rows' → ∃ new, rows' = rows ++ new ∧
      List.Forall₂ IsRowOf new
        (testcases
          (placedAll (suitePath element.name element.attrs parents) element.children)) := by
  refine forall_tree (Q := fun trees => ∀ name path rows rows',
    suiteLoop name path trees rows = .ok rows' → ∃ new, rows' = rows ++ new ∧
      List.Forall₂ IsRowOf new (testcases (placedAll path trees))) ?hnil ?hcons ?hnode element
  case hnil =>
    intro name path rows rows' h
    rw [suiteLoop] at h
    cases h
    exact ⟨[], (List.append_nil _).symm, .nil⟩
  case hcons =>
    intro child rest hchild hrest name path rows rows' h
    rw [suiteLoop] at h
    obtain ⟨middle, hfirst, hloop⟩ := Loop.bind_eq_ok_iff.mp h
    obtain ⟨last, rfl, hlast⟩ := hrest name path middle rows' hloop
    rw [placedAll, testcases_append]
    -- the rows of the child are those of the testcases in it
    suffices hnew : ∃ new, middle = rows ++ new ∧
        List.Forall₂ IsRowOf new (testcases (child.placed path)) by
      obtain ⟨new, rfl, hnew⟩ := hnew
      exact ⟨new ++ last, List.append_assoc .., List.rel_append hnew hlast⟩
    split_ifs at hfirst with hsuite hcase hcount hmetadata
    · obtain ⟨new, hnew, hrows⟩ := hchild path rows middle hfirst
      rw [testcases_placed (by rw [hsuite]; decide)]
      exact ⟨new, hnew, hrows⟩
    · obtain ⟨row, hrow, hmiddle⟩ := Loop.bind_eq_ok_iff.mp hfirst
      obtain ⟨_, found, -, hfound, -, -⟩ := junitCase_ok hrow
      rw [testcases_placed_case hcase.1, testcases_caseLoop hfound]
      exact ⟨[row], (Except.ok.inj hmiddle).symm, .cons (isRowOf_junitCase hrow) .nil⟩
    · exact absurd hfirst (refuse_ne_ok _ _)
    · obtain ⟨_, hchecked, hmiddle⟩ := Loop.bind_eq_ok_iff.mp hfirst
      rw [testcases_metadata hchecked hmetadata.2]
      exact ⟨[], (Except.ok.inj hmiddle).symm.trans (List.append_nil _).symm, .nil⟩
    · exact absurd hfirst (refuse_ne_ok _ _)
  case hnode =>
    intro name attrs children text line hchildren parents rows rows' h
    rw [junitSuites] at h
    split_ifs at h
    · exact hchildren name _ rows rows' h
    · exact absurd h (refuse_ne_ok _ _)

/-- The counts of a report are those of its rows, and each row counts once. -/
structure Report.Partitioned (report : Report) : Prop where
  passed : report.passed = countOutcome "passed" report.rows
  failed : report.failed = countOutcome "failed" report.rows
  errors : report.errors = countOutcome "error" report.rows
  skipped : report.skipped = countOutcome "skipped" report.rows
  total : report.passed + report.failed + report.errors + report.skipped = report.rows.length

/-- The count of an outcome over a first row and the rest. -/
theorem countOutcome_cons (outcome : String) (row : List String) (rows : List (List String)) :
    countOutcome outcome (row :: rows) =
      (if row[4]? = some outcome then 1 else 0) + countOutcome outcome rows := by
  unfold countOutcome
  rw [List.filter_cons]
  by_cases h : row[4]? = some outcome
  · rw [if_pos (decide_eq_true h), if_pos h, List.length_cons, Nat.add_comm]
  · rw [if_neg (by rwa [decide_eq_true_eq]), if_neg h, Nat.zero_add]

/-- Rows with an outcome each are counted once. -/
theorem sum_countOutcome {rows : List (List String)}
    (h : ∀ row ∈ rows, ∃ outcome ∈ outcomes, row[4]? = some outcome) :
    countOutcome "passed" rows + countOutcome "failed" rows + countOutcome "error" rows +
      countOutcome "skipped" rows = rows.length := by
  induction rows with
  | nil => rfl
  | cons row rows ih =>
    obtain ⟨⟨outcome, houtcome, hrow⟩, hrows⟩ := List.forall_mem_cons.mp h
    have hcount := ih hrows
    simp only [countOutcome_cons, List.length_cons, hrow]
    have hname : outcome = "passed" ∨ outcome = "failed" ∨ outcome = "error" ∨
        outcome = "skipped" := by
      simpa only [outcomes, List.mem_cons, List.not_mem_nil, or_false] using houtcome
    rcases hname with rfl | rfl | rfl | rfl
    all_goals
      simp only [Option.some.injEq, String.reduceEq, if_true, if_false]
      omega

/-- Every row of a report has one of the four outcomes. -/
theorem outcome_of_rows {rows : List (List String)} {places : List (List String × XmlElement)}
    (h : List.Forall₂ IsRowOf rows places) :
    ∀ row ∈ rows, ∃ outcome ∈ outcomes, row[4]? = some outcome := by
  induction h with
  | nil => exact List.forall_mem_nil _
  | cons hrow hrows ih => exact List.forall_mem_cons.mpr ⟨hrow.outcome, ih⟩

/-- The report of a tree. -/
theorem reportOf_rows {root : XmlElement} {report : Report} (h : reportOf root = .ok report) :
    List.Forall₂ IsRowOf report.rows root.testcases ∧ report.Partitioned := by
  unfold reportOf at h
  split_ifs at h with hname
  · obtain ⟨rows, hrows, h⟩ := Loop.bind_eq_ok_iff.mp h
    obtain ⟨new, hnew, hplaced⟩ := rows_junitSuites root [] [] rows hrows
    rw [List.nil_append] at hnew
    rw [← hnew] at hplaced
    have hroot : root.name ≠ "testcase" := by
      rcases hname with heq | heq
      · rw [heq]
        decide
      · rw [heq]
        decide
    rw [← Except.ok.inj h]
    refine ⟨?_, rfl, rfl, rfl, rfl, sum_countOutcome (outcome_of_rows hplaced)⟩
    rw [XmlElement.testcases, testcases_placed hroot]
    exact hplaced
  · exact absurd h (refuse_ne_ok _ _)

end Rows

end Moonfort.Junit
