import Moonfort.Junit.ReportRows

/-!
# The attributes of suites

Two documents whose suites differ in other attributes than their names have the same
report, up to the lines in which their testcases start.
-/

namespace Moonfort.Junit

open MoonBit

/-! ## Trees with the same content -/

/-- A suite, or suites. -/
def IsSuite (name : String) : Prop := name = "testsuite" ∨ name = "testsuites"

instance (name : String) : Decidable (IsSuite name) := inferInstanceAs (Decidable (_ ∨ _))

/-- A relation of trees that have the same content but for lines and attributes of suites. -/
structure KeepsContent (R : XmlElement → XmlElement → Prop) : Prop where
  name : ∀ {e e'}, R e e' → e'.name = e.name
  text : ∀ {e e'}, R e e' → e'.text = e.text
  children : ∀ {e e'}, R e e' → List.Forall₂ R e.children e'.children
  attrs : ∀ {e e'}, R e e' → ¬ IsSuite e.name → e'.attrs = e.attrs
  suite : ∀ {e e'}, R e e' → e'.attrs.lookup "name" = e.attrs.lookup "name"

section Congruence

variable {R : XmlElement → XmlElement → Prop} {e e' : XmlElement} {trees trees' : List XmlElement}

/-- Related lists are empty together. -/
theorem isEmpty_congr (h : List.Forall₂ R trees trees') : trees'.isEmpty = trees.isEmpty := by
  cases h with
  | nil => rfl
  | cons => rfl

/-- Related elements have the same metadata. -/
theorem junitMetadata_congr (hR : KeepsContent R) (h : R e e') :
    junitMetadata e' = junitMetadata e := by
  have hproperties : ∀ {trees trees'}, List.Forall₂ R trees trees' →
      trees'.all (fun property => property.name = "property" && property.children.isEmpty) =
        trees.all (fun property => property.name = "property" && property.children.isEmpty) := by
    intro trees trees' htrees
    induction htrees with
    | nil => rfl
    | cons htree htrees ih =>
      rw [List.all_cons, List.all_cons, ih, hR.name htree, isEmpty_congr (hR.children htree)]
  unfold junitMetadata
  rw [hR.name h, hR.text h, hproperties (hR.children h), isEmpty_congr (hR.children h)]

/-- Related children give a test case the same findings. -/
theorem caseLoop_congr (hR : KeepsContent R) (h : List.Forall₂ R trees trees')
    (found : CaseFound) : caseLoop found trees' = caseLoop found trees := by
  induction h generalizing found with
  | nil => rfl
  | @cons tree tree' trees trees' htree htrees ih =>
    rw [caseLoop, caseLoop, hR.name htree, isEmpty_congr (hR.children htree),
      junitMetadata_congr hR htree]
    split
    next houtcome =>
      have hsuite : ¬ IsSuite tree.name := by
        rintro (hname | hname)
        · rw [hname] at houtcome
          exact absurd houtcome (by decide)
        · rw [hname] at houtcome
          exact absurd houtcome (by decide)
      have hcount : found.count tree' = found.count tree := by
        unfold CaseFound.count detailsText XmlElement.attr
        rw [hR.name htree, hR.attrs htree hsuite, hR.text htree]
      rw [hcount, ih]
    next =>
      simp only [ih]

/-- The row of a testcase depends on its line only in its first cell. -/
theorem junitCase_congr (hR : KeepsContent R) (h : R e e') (hname : e.name = "testcase")
    (hline : utf16Length (intText e'.line) ≤ 16384) {suite : String} {row : List String}
    (hrow : junitCase e suite = .ok row) :
    junitCase e' suite = .ok (row.set 0 (intText e'.line)) := by
  have hsuite : ¬ IsSuite e.name := by
    rw [hname]
    decide
  have hattr (key : String) : e'.attr key = e.attr key := by
    rw [XmlElement.attr, hR.attrs h hsuite, XmlElement.attr]
  have hnotrun : notrun e' = notrun e := by
    unfold notrun
    rw [hattr, hattr]
  have hcells (name : String) (found : CaseFound) :
      caseCells e' suite name found = (caseCells e suite name found).set 0 (intText e'.line) := by
    unfold caseCells caseOutcome
    rw [hnotrun]
    simp only [hattr]
    rfl
  unfold junitCase at hrow ⊢
  rw [hR.attrs h hsuite]
  split at hrow
  next => exact absurd hrow (refuse_ne_ok _ _)
  next name hlookup =>
    rw [hattr, hattr, hnotrun, hR.text h, caseLoop_congr hR (hR.children h)]
    split_ifs at hrow ⊢ with hempty htext hmarks hcontradiction
    · exact absurd hrow (refuse_ne_ok _ _)
    · exact absurd hrow (refuse_ne_ok _ _)
    · exact absurd hrow (refuse_ne_ok _ _)
    · obtain ⟨found, -, hrow⟩ := Loop.bind_eq_ok_iff.mp hrow
      exact absurd hrow (refuse_ne_ok _ _)
    · obtain ⟨found, hfound, hrow⟩ := Loop.bind_eq_ok_iff.mp hrow
      refine Loop.bind_eq_ok_iff.mpr ⟨found, hfound, ?_⟩
      split_ifs at hrow with hskipped hsize
      · exact absurd hrow (refuse_ne_ok _ _)
      · have hsize' : (caseCells e' suite name found).all
            (fun cell => utf16Length cell ≤ 16384) = true := by
          rw [List.all_eq_true, hcells]
          intro cell hcell
          rcases List.mem_or_eq_of_mem_set hcell with hcell | rfl
          · exact List.all_eq_true.mp hsize cell hcell
          · exact decide_eq_true hline
        rw [if_neg hskipped, if_pos hsize', hcells, ← Except.ok.inj hrow]
        rfl
      · exact absurd hrow (refuse_ne_ok _ _)

/-- Suites with the same content have the same rows, as far as their testcases have. -/
theorem junitSuites_congr (hR : KeepsContent R) {g : List String → List String}
    (hcase : ∀ e e' suite row, R e e' → e.name = "testcase" → junitCase e suite = .ok row →
      junitCase e' suite = .ok (g row)) (e : XmlElement) : ∀ e' parents rows rows', R e e' →
    junitSuites e parents rows = .ok rows' →
      junitSuites e' parents (rows.map g) = .ok (rows'.map g) := by
  refine forall_tree (Q := fun trees => ∀ trees' name path rows rows', List.Forall₂ R trees trees' →
    suiteLoop name path trees rows = .ok rows' →
      suiteLoop name path trees' (rows.map g) = .ok (rows'.map g)) ?hnil ?hcons ?hnode e
  case hnil =>
    intro trees' name path rows rows' htrees h
    cases htrees
    rw [suiteLoop] at h ⊢
    rw [← Except.ok.inj h]
    rfl
  case hcons =>
    intro child rest hchild hrest trees' name path rows rows' htrees h
    obtain ⟨child', rest', hrelated, hrests, rfl⟩ := List.forall₂_cons_left_iff.mp htrees
    rw [suiteLoop] at h ⊢
    obtain ⟨middle, hfirst, hloop⟩ := Loop.bind_eq_ok_iff.mp h
    refine Loop.bind_eq_ok_iff.mpr ⟨middle.map g, ?_,
      hrest rest' name path middle rows' hrests hloop⟩
    rw [hR.name hrelated, List.length_map]
    split_ifs at hfirst ⊢ with hsuite hname hcount hmetadata
    · exact hchild child' path rows middle hrelated hfirst
    · obtain ⟨row, hrow, hmiddle⟩ := Loop.bind_eq_ok_iff.mp hfirst
      refine Loop.bind_eq_ok_iff.mpr ⟨g row, hcase child child' _ row hrelated hname.1 hrow, ?_⟩
      rw [← Except.ok.inj hmiddle, List.map_append]
      rfl
    · exact absurd hfirst (refuse_ne_ok _ _)
    · rw [junitMetadata_congr hR hrelated]
      obtain ⟨_, hchecked, hmiddle⟩ := Loop.bind_eq_ok_iff.mp hfirst
      refine Loop.bind_eq_ok_iff.mpr ⟨(), hchecked, ?_⟩
      rw [← Except.ok.inj hmiddle]
      rfl
    · exact absurd hfirst (refuse_ne_ok _ _)
  case hnode =>
    intro name attrs children text line hchildren e' parents rows rows' hrelated h
    have hname := hR.name hrelated
    have htext := hR.text hrelated
    have hsuite := hR.suite hrelated
    have hrelatedChildren := hR.children hrelated
    obtain ⟨name', attrs', children', text', line'⟩ := e'
    change name' = name at hname
    change text' = text at htext
    change attrs'.lookup "name" = attrs.lookup "name" at hsuite
    have hpath : suitePath name' attrs' parents = suitePath name attrs parents := by
      unfold suitePath
      rw [hname, hsuite]
    rw [junitSuites] at h ⊢
    rw [htext, hpath, hname]
    split_ifs at h ⊢
    · exact hchildren children' name _ rows rows' hrelatedChildren h
    · exact absurd h (refuse_ne_ok _ _)

/-- Roots with the same content have the same report, as far as their testcases have. -/
theorem reportOf_congr (hR : KeepsContent R) {g : List String → List String}
    (hcase : ∀ e e' suite row, R e e' → e.name = "testcase" → junitCase e suite = .ok row →
      junitCase e' suite = .ok (g row)) (h : R e e') {report : Report}
    (hreport : reportOf e = .ok report) :
    ∃ report', reportOf e' = .ok report' ∧ report'.rows = report.rows.map g := by
  unfold reportOf at hreport ⊢
  rw [hR.name h]
  split_ifs at hreport ⊢
  · obtain ⟨rows, hrows, hreport⟩ := Loop.bind_eq_ok_iff.mp hreport
    have hrows' := junitSuites_congr hR hcase e e' [] [] rows h hrows
    refine ⟨_, Loop.bind_eq_ok_iff.mpr ⟨rows.map g, hrows', rfl⟩, ?_⟩
    rw [← Except.ok.inj hreport]
  · exact absurd hreport (refuse_ne_ok _ _)

/-- A report is given by its rows. -/
theorem report_eq {report : Report} (h : reportOf e = .ok report) :
    report = ⟨reportHeaders, report.rows, countOutcome "passed" report.rows,
      countOutcome "failed" report.rows, countOutcome "error" report.rows,
      countOutcome "skipped" report.rows⟩ := by
  unfold reportOf at h
  split_ifs at h
  · obtain ⟨rows, -, h⟩ := Loop.bind_eq_ok_iff.mp h
    rw [← Except.ok.inj h]
  · exact absurd h (refuse_ne_ok _ _)

end Congruence

/-! ## Attributes and lines left out -/

mutual

/-- A tree whose suites have no attributes but their names, and whose lines are those of its
testcases. -/
def XmlElement.core : XmlElement → XmlElement
  | ⟨name, attrs, children, text, line⟩ =>
    ⟨name, if IsSuite name then attrs.filter (fun pair => pair.1 == "name") else attrs,
      coreAll children, text, if name = "testcase" then line else 0⟩

/-- The cores of these trees. -/
def coreAll : List XmlElement → List XmlElement
  | [] => []
  | element :: rest => element.core :: coreAll rest

end

/-- Keeping the `name` attributes keeps the name. -/
theorem lookup_filter_name (attrs : List (String × String)) :
    (attrs.filter fun pair => pair.1 == "name").lookup "name" = attrs.lookup "name" := by
  induction attrs with
  | nil => rfl
  | cons pair attrs ih =>
    obtain ⟨key, value⟩ := pair
    rw [List.filter_cons, List.lookup_cons]
    by_cases hkey : key = "name"
    · subst hkey
      rfl
    · have hne : (key == "name") = false := beq_eq_false_iff_ne.mpr hkey
      have hne' : ("name" == key) = false := beq_eq_false_iff_ne.mpr (Ne.symm hkey)
      rw [hne, hne', ← ih]
      rfl

section Core

variable {e e' : XmlElement}

/-- The core of an element has its name. -/
theorem core_name (e : XmlElement) : e.core.name = e.name := by
  obtain ⟨name, attrs, children, text, line⟩ := e
  rfl

/-- The core of an element has its text. -/
theorem core_text (e : XmlElement) : e.core.text = e.text := by
  obtain ⟨name, attrs, children, text, line⟩ := e
  rfl

/-- The children of a core are the cores of the children. -/
theorem core_children (e : XmlElement) : e.core.children = coreAll e.children := by
  obtain ⟨name, attrs, children, text, line⟩ := e
  rfl

/-- The core of an element that is no suite has its attributes. -/
theorem core_attrs (h : ¬ IsSuite e.name) : e.core.attrs = e.attrs := by
  obtain ⟨name, attrs, children, text, line⟩ := e
  exact if_neg h

/-- The core of a suite has its `name` attribute. -/
theorem core_suite (e : XmlElement) : e.core.attrs.lookup "name" = e.attrs.lookup "name" := by
  obtain ⟨name, attrs, children, text, line⟩ := e
  rw [XmlElement.core]
  split
  · exact lookup_filter_name attrs
  · rfl

/-- The core of a test case has its line. -/
theorem core_line (h : e.name = "testcase") : e.core.line = e.line := by
  obtain ⟨name, attrs, children, text, line⟩ := e
  exact if_pos h

/-- Lists with the same cores agree element by element. -/
theorem forall₂_of_coreAll {trees trees' : List XmlElement} (h : coreAll trees = coreAll trees') :
    List.Forall₂ (fun e e' => e.core = e'.core) trees trees' := by
  induction trees generalizing trees' with
  | nil =>
    cases trees' with
    | nil => exact .nil
    | cons tree' trees' => cases h
  | cons tree trees ih =>
    cases trees' with
    | nil => cases h
    | cons tree' trees' =>
      rw [coreAll, coreAll] at h
      obtain ⟨htree, htrees⟩ := List.cons.inj h
      exact .cons htree (ih htrees)

/-- Trees with one core have the same content. -/
theorem keepsContent_core : KeepsContent fun e e' => e.core = e'.core where
  name {e e'} h := by rw [← core_name e', ← h, core_name]
  text {e e'} h := by rw [← core_text e', ← h, core_text]
  children {e e'} h := by
    apply forall₂_of_coreAll
    rw [← core_children, h, core_children]
  attrs {e e'} h hsuite := by
    have hsuite' : ¬ IsSuite e'.name := by
      rw [← core_name e', ← h, core_name]
      exact hsuite
    rw [← core_attrs hsuite', ← h, core_attrs hsuite]
  suite {e e'} h := by rw [← core_suite e', ← h, core_suite]

/-- Each element is related to its core without lines. -/
theorem forall₂_unlined_core (trees : List XmlElement) :
    List.Forall₂ (fun e e' => e' = e.core.unlined) trees (unlinedAll (coreAll trees)) := by
  induction trees with
  | nil => exact .nil
  | cons tree trees ih => exact .cons rfl ih

/-- A core without its lines has the same content. -/
theorem keepsContent_unlined : KeepsContent fun e e' => e' = e.core.unlined where
  name {e e'} h := by
    obtain ⟨name, attrs, children, text, line⟩ := e
    rw [h]
    rfl
  text {e e'} h := by
    obtain ⟨name, attrs, children, text, line⟩ := e
    rw [h]
    rfl
  children {e e'} h := by
    obtain ⟨name, attrs, children, text, line⟩ := e
    rw [h]
    exact forall₂_unlined_core children
  attrs {e e'} h hsuite := by
    obtain ⟨name, attrs, children, text, line⟩ := e
    rw [h]
    exact if_neg hsuite
  suite {e e'} h := by
    have hsuite := core_suite e
    obtain ⟨name, attrs, children, text, line⟩ := e
    rw [h]
    exact hsuite

/-- The first cell of a row is the line of its testcase. -/
theorem line_of_junitCase {suite : String} {row : List String} (h : junitCase e suite = .ok row) :
    row.set 0 (intText e.line) = row ∧ utf16Length (intText e.line) ≤ 16384 := by
  obtain ⟨name, found, -, -, rfl, hcells⟩ := junitCase_ok h
  exact ⟨rfl, hcells _ List.mem_cons_self⟩

/-- Trees with one core have one report. -/
theorem reportOf_core {report : Report} (h : e.core = e'.core) (hreport : reportOf e = .ok report) :
    reportOf e' = .ok report := by
  have hcase : ∀ e e' suite row, e.core = e'.core → e.name = "testcase" →
      junitCase e suite = .ok row → junitCase e' suite = .ok (id row) := by
    intro e e' suite row hcore hname hrow
    obtain ⟨hset, hsize⟩ := line_of_junitCase hrow
    have hname' : e'.name = "testcase" := by rw [keepsContent_core.name hcore, hname]
    have hline : e'.line = e.line := by rw [← core_line hname', ← hcore, core_line hname]
    rw [← hline] at hset hsize
    have hrow' := junitCase_congr keepsContent_core hcore hname hsize hrow
    rw [hset] at hrow'
    exact hrow'
  obtain ⟨report', hreport', hrows⟩ := reportOf_congr keepsContent_core hcase h hreport
  rw [List.map_id] at hrows
  rw [hreport', report_eq hreport', hrows, ← report_eq hreport]

/-- A report without the lines of its testcases. -/
def Report.withoutLines (report : Report) : Report :=
  { report with rows := report.rows.map List.tail }

/-- Writing the line column leaves the count of an outcome. -/
theorem countOutcome_set (outcome line : String) (rows : List (List String)) :
    countOutcome outcome (rows.map fun row => row.set 0 line) = countOutcome outcome rows := by
  induction rows with
  | nil => rfl
  | cons row rows ih =>
    rw [List.map_cons, countOutcome_cons, countOutcome_cons, ih, List.getElem?_set_ne (by decide)]

/-- Writing the line column leaves the other columns. -/
theorem map_tail_set (line : String) (rows : List (List String)) :
    (rows.map fun row => row.set 0 line).map List.tail = rows.map List.tail := by
  rw [List.map_map]
  apply List.map_congr_left
  intro row _
  cases row with
  | nil => rfl
  | cons cell row => rfl

/-- The report of a core without its lines is the report without them. -/
theorem reportOf_unlined {report : Report} (hreport : reportOf e = .ok report) :
    ∃ report', reportOf e.core.unlined = .ok report' ∧
      report'.withoutLines = report.withoutLines := by
  have hcase : ∀ e e' suite row, e' = e.core.unlined → e.name = "testcase" →
      junitCase e suite = .ok row → junitCase e' suite = .ok (row.set 0 "0") := by
    rintro e e' suite row rfl hname hrow
    have hline : e.core.unlined.line = 0 := by
      obtain ⟨name, attrs, children, text, line⟩ := e
      rfl
    have hrow' := junitCase_congr keepsContent_unlined rfl hname (by rw [hline]; decide) hrow
    rw [hline] at hrow'
    exact hrow'
  obtain ⟨report', hreport', hrows⟩ := reportOf_congr keepsContent_unlined hcase rfl hreport
  refine ⟨report', hreport', ?_⟩
  rw [report_eq hreport', report_eq hreport, hrows]
  simp only [Report.withoutLines, countOutcome_set, map_tail_set]

end Core

/-! ## Documents -/

/-- A report has one row for each testcase, in document order, with the path of its suites and
an outcome that its failures, errors, skips and own marks allow; the counts partition the
rows. Documents that differ only in attributes of suites other than their names, and whose
testcases start in the same lines, have the same report; without that, the same up to the lines. -/
theorem parse_classifies :
    (∀ text report, parse text = .ok report → ∃ tree, parseXml text = .ok tree ∧
      List.Forall₂ IsRowOf report.rows tree.testcases ∧ report.Partitioned) ∧
    (∀ text text' tree tree' report, parseXml text = .ok tree → parseXml text' = .ok tree' →
      tree.core = tree'.core → parse text = .ok report → parse text' = .ok report) ∧
    ∀ text text' tree tree' report report', parseXml text = .ok tree →
      parseXml text' = .ok tree' → tree.core.unlined = tree'.core.unlined →
      parse text = .ok report → parse text' = .ok report' →
      report'.withoutLines = report.withoutLines := by
  have hparse {text : String} {tree : XmlElement} (h : parseXml text = .ok tree) :
      parse text = reportOf tree := by
    rw [parse, h]
    rfl
  refine ⟨?_, ?_, ?_⟩
  · intro text report h
    obtain ⟨tree, htree, hreport⟩ := Loop.bind_eq_ok_iff.mp h
    exact ⟨tree, htree, reportOf_rows hreport⟩
  · intro text text' tree tree' report htree htree' hcore h
    rw [hparse htree] at h
    rw [hparse htree']
    exact reportOf_core hcore h
  · intro text text' tree tree' report report' htree htree' hcore h h'
    rw [hparse htree] at h
    rw [hparse htree'] at h'
    obtain ⟨plain, hplain, hsame⟩ := reportOf_unlined h
    obtain ⟨plain', hplain', hsame'⟩ := reportOf_unlined h'
    rw [← hcore, hplain] at hplain'
    rw [← hsame', ← Except.ok.inj hplain', hsame]

/-- A suite in a suite with a testcase of each outcome, all in one line. -/
def sampleSuite (attrs : List (String × String)) (line : ℕ) : XmlElement :=
  let inner : XmlElement := ⟨"testsuite", [("name", "b")],
    [⟨"testcase", [("name", "f")], [⟨"failure", [("message", "m")], [], "d", line⟩], "", line⟩,
      ⟨"testcase", [("name", "e")], [⟨"error", [], [], "", line⟩], "", line⟩], "", line⟩
  ⟨"testsuites", [], [⟨"testsuite", ("name", "a") :: attrs,
    [inner, ⟨"testcase", [("name", "s")], [⟨"skipped", [], [], "", line⟩], "", line⟩,
      ⟨"testcase", [("name", "p")], [], "", line⟩], "", line⟩], "", line⟩

/-- Its report. -/
def sampleReport (line : String) : Report where
  headers := reportHeaders
  rows := [[line, "a / b", "", "f", "failed", "", "", "", "m", "[failure]\nd", "1", "0", "0"],
    [line, "a / b", "", "e", "error", "", "", "", "", "[error]\n", "0", "1", "0"],
    [line, "a", "", "s", "skipped", "", "", "", "", "[skipped]\n", "0", "0", "1"],
    [line, "a", "", "p", "passed", "", "", "", "", "", "0", "0", "0"]]
  passed := 1
  failed := 1
  errors := 1
  skipped := 1

/-- A document of the suite behind so many line ends. -/
def sampleDocument (attrs : List (String × String)) (lines : ℕ) : Document :=
  { (sampleSuite attrs 1).document with before := ⟨[], List.replicate lines '\n'⟩ }

/-- The text of the document. -/
def sampleText (attrs : List (String × String)) (lines : ℕ) : String :=
  String.ofList (sampleDocument attrs lines).chars

/-- The document is well-formed. -/
theorem wellFormed_sampleDocument {attrs : List (String × String)} (lines : ℕ)
    (hbounded : (sampleSuite attrs 1).Bounded) : (sampleDocument attrs lines).WellFormed := by
  obtain ⟨hd, -, -⟩ := hbounded.exists_document
  have hblank : ∀ c ∈ List.replicate lines '\n', IsBlank c ∧ IsPlainChar c := by
    intro c hc
    rw [List.eq_of_mem_replicate hc]
    exact ⟨.inr (.inr rfl), by decide⟩
  refine ⟨hd.declaration, ⟨List.forall_mem_nil _, List.forall_mem_nil _,
    fun c hc => (hblank c hc).1⟩, hd.root, hd.after, hd.depth, hd.elements, ?_⟩
  have hchars : (sampleDocument attrs lines).chars =
      List.replicate lines '\n' ++ (sampleSuite attrs 1).document.chars := rfl
  rw [hchars, List.forall_mem_append]
  exact ⟨fun c hc => (hblank c hc).2, hd.chars⟩

/-- The text is parsed as the suite in the line where it starts. -/
theorem parseXml_sampleText {attrs : List (String × String)} {lines : ℕ}
    (hbounded : (sampleSuite attrs 1).Bounded)
    (hsize : ((sampleDocument attrs lines).chars.map Char.utf8Size).sum ≤ 1048576)
    (hlines : (sampleDocument attrs lines).tree = sampleSuite attrs (lines + 1)) :
    parseXml (sampleText attrs lines) = .ok (sampleSuite attrs (lines + 1)) := by
  have hd := wellFormed_sampleDocument lines hbounded
  rw [← hlines]
  refine parseXml_writes hd ⟨_, lineEnds_self fun hmem => (hd.chars _ hmem).2 rfl,
    .inl String.toList_ofList⟩ ?_
  rw [sampleText, utf8Length, String.toList_ofList]
  exact hsize

/-- The four testcases have the four outcomes. Another attribute of a suite changes nothing, and
a line end before the suites moves the rows and changes nothing else. -/
theorem parse_classifies_sample :
    (∃ tree, parseXml (sampleText [] 0) = .ok tree ∧
      List.Forall₂ IsRowOf (sampleReport "1").rows tree.testcases ∧
      (sampleReport "1").Partitioned) ∧
    parse (sampleText [("tests", "4")] 0) = .ok (sampleReport "1") ∧
    parse (sampleText [("tests", "4")] 1) = .ok (sampleReport "2") ∧
    (sampleReport "2").withoutLines = (sampleReport "1").withoutLines := by
  have hfirst := @parseXml_sampleText [] 0 (by decide) (by decide +kernel) rfl
  have hbounded : (sampleSuite [("tests", "4")] 1).Bounded := by decide
  have hsecond := @parseXml_sampleText [("tests", "4")] 0 hbounded (by decide +kernel) rfl
  have hthird := @parseXml_sampleText [("tests", "4")] 1 hbounded (by decide +kernel) rfl
  have hreport : parse (sampleText [] 0) = .ok (sampleReport "1") := by
    rw [parse, hfirst]
    decide
  have hmoved : parse (sampleText [("tests", "4")] 1) = .ok (sampleReport "2") := by
    rw [parse, hthird]
    decide
  exact ⟨parse_classifies.1 _ _ hreport,
    parse_classifies.2.1 _ _ _ _ _ hfirst hsecond rfl hreport, hmoved,
    parse_classifies.2.2 _ _ _ _ _ _ hfirst hthird rfl hreport hmoved⟩

/-- A line end in the attribute of a suite moves its testcases to the next line. -/
theorem suite_attribute_moves_lines : ∃ report report',
    parse ("<testsuite tests='" ++ "1" ++ "'><testcase name='x'/></testsuite>") = .ok report ∧
    parse ("<testsuite tests='" ++ "\n" ++ "'><testcase name='x'/></testsuite>") = .ok report' ∧
    report ≠ report' := by
  refine ⟨⟨reportHeaders, [["1", "", "", "x", "passed", "", "", "", "", "", "0", "0", "0"]],
    1, 0, 0, 0⟩, ⟨reportHeaders, [["2", "", "", "x", "passed", "", "", "", "", "", "0", "0", "0"]],
    1, 0, 0, 0⟩, by decide +kernel, by decide +kernel, by decide⟩

end Moonfort.Junit
