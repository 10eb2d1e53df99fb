import Moonfort.Tap.ReportLines

/-!
# What a TAP report keeps

The invariant of the loop over the lines. Outside of the blocks that open in the first column
every test line has its point, the points are in order, and the diagnostics of a point are the
diagnostic lines between it and the next one. The plan and the end of the run are those of their
lines. An accepted report is faithful exactly when no block of the first column hides a test line.
-/

namespace Moonfort.Tap

open MoonBit

/-! ## The tests -/

/-- A point without its diagnostics. -/
def Point.bare (p : Point) : Point := { p with diagnostics := [] }

/-- The tests of the lines outside of the blocks that open in the first column. -/
structure Tests (lines : List String) (tests : List Point) : Prop where
  reported : ∀ j line, lines[j]? = some line → TestLine line → ¬Hidden lines j →
    ∃ p ∈ tests, p.reportLine = j + 1
  read : ∀ k p, tests[k]? = some p → ∃ j line, lines[j]? = some line ∧ ¬Hidden lines j ∧
    p.reportLine = j + 1 ∧ testPoint line (k + 1) j = .ok p
  ordered : tests.Pairwise fun p q => p.reportLine < q.reportLine

/-- A report without lines has no tests. -/
theorem Tests.nil : Tests [] [] :=
  ⟨fun _ _ h => (nomatch h), fun _ _ h => (nomatch h), .nil⟩

variable {tests : List Point}

/-- A test stands in a line of the report. -/
theorem Tests.reportLine_le {lines : List String} (h : Tests lines tests)
    {p : Point} (hp : p ∈ tests) : p.reportLine ≤ lines.length := by
  obtain ⟨k, hk⟩ := List.getElem?_of_mem hp
  obtain ⟨j, line, hj, -, hline, -⟩ := h.read k p hk
  have hlt := (List.getElem?_eq_some_iff.mp hj).1
  omega

/-- A test is read from the same line when more lines follow. -/
theorem Tests.read_append {lines : List String} (h : Tests lines tests)
    (line : String) {k : ℕ} {p : Point} (hk : tests[k]? = some p) :
    ∃ j found, (lines ++ [line])[j]? = some found ∧ ¬Hidden (lines ++ [line]) j ∧
      p.reportLine = j + 1 ∧ testPoint found (k + 1) j = .ok p := by
  obtain ⟨j, found, hj, hvisible, hp⟩ := h.read k p hk
  have hlt := (List.getElem?_eq_some_iff.mp hj).1
  exact ⟨j, found, by rw [List.getElem?_append_left hlt, hj],
    by rwa [hidden_append hlt.le], hp⟩

/-- A line that is no test line, or that is hidden, adds no test. -/
theorem Tests.skip {lines : List String} (h : Tests lines tests)
    {line : String} (hline : TestLine line → Hidden lines lines.length) :
    Tests (lines ++ [line]) tests := by
  refine ⟨fun j found hj htest hvisible => ?_, fun k p hk => h.read_append line hk, h.ordered⟩
  by_cases heq : j = lines.length
  · subst heq
    rw [List.getElem?_concat_length, Option.some.injEq] at hj
    rw [hidden_append le_rfl] at hvisible
    exact absurd (hline (hj ▸ htest)) hvisible
  · have hlt := (List.getElem?_eq_some_iff.mp hj).1
    rw [List.length_append, List.length_singleton] at hlt
    rw [List.getElem?_append_left (by omega)] at hj
    exact h.reported j found hj htest (by rwa [hidden_append (by omega)] at hvisible)

/-- A test line that is not hidden adds its point. -/
theorem Tests.concat {lines : List String} (h : Tests lines tests)
    {line : String} {p : Point} (hvisible : ¬Hidden lines lines.length)
    (hp : testPoint line (tests.length + 1) lines.length = .ok p)
    (hline : p.reportLine = lines.length + 1) : Tests (lines ++ [line]) (tests ++ [p]) := by
  refine ⟨fun j found hj htest hfound => ?_, fun k q hk => ?_, ?_⟩
  · by_cases heq : j = lines.length
    · exact ⟨p, by simp, by rw [hline, heq]⟩
    · have hlt := (List.getElem?_eq_some_iff.mp hj).1
      rw [List.length_append, List.length_singleton] at hlt
      rw [List.getElem?_append_left (by omega)] at hj
      rw [hidden_append (by omega)] at hfound
      obtain ⟨q, hq, hqline⟩ := h.reported j found hj htest hfound
      exact ⟨q, List.mem_append_left _ hq, hqline⟩
  · by_cases heq : k = tests.length
    · subst heq
      rw [List.getElem?_concat_length, Option.some.injEq] at hk
      subst hk
      refine ⟨lines.length, line, List.getElem?_concat_length, ?_, hline, hp⟩
      rwa [hidden_append le_rfl]
    · have hlt := (List.getElem?_eq_some_iff.mp hk).1
      rw [List.length_append, List.length_singleton] at hlt
      rw [List.getElem?_append_left (by omega)] at hk
      exact h.read_append line hk
  · rw [List.pairwise_append]
    refine ⟨h.ordered, List.pairwise_singleton _ _, fun q hq r hr => ?_⟩
    rw [List.mem_singleton.mp hr, hline]
    exact Nat.lt_succ_of_le (h.reportLine_le hq)

/-! ## The diagnostic blocks -/

/-- The block that is open, which is none of the first column unless it hides lines. -/
structure Blocks (lines : List String) (indent : Option String) : Prop where
  indent_eq : blockIndent lines = indent
  hidden : indent = some "" ↔ Hidden lines lines.length
  blank : ∀ d, indent = some d → ∀ c ∈ d.toList, isTrimmed c = true

/-- No block is open in front of the first line. -/
theorem Blocks.nil : Blocks [] none := by
  refine ⟨rfl, iff_of_false nofun ?_, nofun⟩
  rintro ⟨i, opener, hi, -⟩
  exact absurd hi (Nat.not_lt_zero i)

/-- A line that opens no block. -/
theorem Blocks.skip {lines : List String} (h : Blocks lines none) {line : String}
    (hline : ¬Fence line) : Blocks (lines ++ [line]) none := by
  refine ⟨?_, iff_of_false nofun ?_, nofun⟩
  · rw [blockIndent_concat, h.indent_eq, blockAfter, if_neg hline]
  · rw [hidden_concat, not_or]
    exact ⟨fun hhidden => (nomatch h.hidden.mpr hhidden.1), fun hopens => hline hopens.fence⟩

/-- The blanks in front of a `---`. -/
theorem textBefore_of_trim {line : String} (h : trim line = "---") :
    ∃ indent, textBefore "---" line = some indent ∧ (∀ c ∈ indent.toList, isTrimmed c = true) ∧
      (indent = "" ↔ hasPrefix line "---" = true) := by
  obtain ⟨front, back, hline, hfront, -⟩ := exists_trim line
  have hdashes : (trim line).toList = ['-', '-', '-'] := by rw [h]; rfl
  rw [hdashes] at hline
  have hbefore : ∀ front : List Char, (∀ c ∈ front, isTrimmed c = true) →
      beforePattern ['-', '-', '-'] (front ++ (['-', '-', '-'] ++ back)) = some front := by
    intro front hfront
    induction front with
    | nil => rfl
    | cons c front ih =>
      obtain ⟨hc, hrest⟩ := List.forall_mem_cons.mp hfront
      have hne : ('-' == c) = false := by
        rw [beq_eq_false_iff_ne]
        rintro rfl
        cases hc
      rw [List.cons_append, beforePattern, List.isPrefixOf, hne, Bool.false_and, ih hrest]
      rfl
  refine ⟨String.ofList front, ?_, by rwa [String.toList_ofList], ?_⟩
  · rw [textBefore, hline]
    exact congrArg _ (hbefore front hfront)
  · rw [hasPrefix, hline]
    cases front with
    | nil => exact iff_of_true rfl rfl
    | cons c front =>
      refine iff_of_false (fun hempty => ?_) fun hstarts => ?_
      · have hnil := congrArg String.toList hempty
        rw [String.toList_ofList] at hnil
        cases hnil
      · have hc := hfront c List.mem_cons_self
        obtain ⟨rest, hrest⟩ := List.isPrefixOf_iff_prefix.mp hstarts
        have hdash : '-' = c := (List.cons.inj hrest).1
        rw [← hdash] at hc
        cases hc

/-- A line that opens a block. -/
theorem Blocks.open {lines : List String} (h : Blocks lines none) {line indent : String}
    (hfence : Fence line) (hindent : textBefore "---" line = some indent) :
    Blocks (lines ++ [line]) (some indent) := by
  obtain ⟨front, hfront, hblank, hempty⟩ := textBefore_of_trim hfence.1
  rw [hindent, Option.some.injEq] at hfront
  subst hfront
  refine ⟨?_, ?_, fun d hd => Option.some.inj hd ▸ hblank⟩
  · rw [blockIndent_concat, h.indent_eq, blockAfter, if_pos hfence, hindent]
  have hvisible : ¬Hidden lines lines.length := fun hhidden => (nomatch h.hidden.mpr hhidden)
  rw [hidden_concat, Option.some.injEq, hempty, Opens]
  exact ⟨fun hstarts => .inr ⟨hstarts, hfence.2, hfence.1⟩,
    fun hor => (hor.resolve_left fun hhidden =>
    hvisible hhidden.1).1⟩

/-- A line that starts with the blanks of a block does not open one in the first column. -/
theorem head_of_indent {line indent : String} (hblank : ∀ c ∈ indent.toList, isTrimmed c = true)
    (hne : indent ≠ "") (hstarts : hasPrefix line indent = true) :
    ∃ c, line.toList.head? = some c ∧ isTrimmed c = true := by
  cases hindent : indent.toList with
  | nil => exact absurd (String.toList_eq_nil_iff.mp hindent) hne
  | cons c rest =>
    exact ⟨c, head?_of_hasPrefix hstarts (by rw [hindent]; rfl),
      hblank c (hindent ▸ List.mem_cons_self)⟩

/-- A line in a block, which may end it. -/
theorem Blocks.inside {lines : List String} {indent line : String}
    (h : Blocks lines (some indent)) (hline : hasPrefix line indent = true ∨ trim line = "") :
    Blocks (lines ++ [line]) (if line = indent ++ "..." then none else some indent) := by
  have hblank : ∀ d, (if line = indent ++ "..." then none else some indent) = some d →
      ∀ c ∈ d.toList, isTrimmed c = true := by
    intro d hd
    split at hd
    · cases hd
    · exact h.blank d hd
  refine ⟨by rw [blockIndent_concat, h.indent_eq, blockAfter], ?_, hblank⟩
  rw [hidden_concat, ← h.hidden, Option.some.injEq]
  by_cases hempty : indent = ""
  · subst hempty
    rw [String.empty_append, and_iff_right rfl]
    by_cases hend : line = "..."
    · subst hend
      rw [if_pos rfl]
      refine iff_of_false nofun (not_or.mpr ⟨fun hne => hne rfl, fun hopens => ?_⟩)
      exact absurd hopens.1 (by decide)
    · rw [if_neg hend]
      exact iff_of_true rfl (.inl hend)
  · refine iff_of_false (fun hif => ?_) (not_or.mpr ⟨fun hand => hempty hand.1, fun hopens => ?_⟩)
    · split at hif
      · cases hif
      · exact hempty (Option.some.inj hif)
    · rcases hline with hstarts | htrim
      · obtain ⟨c, hhead, hc⟩ := head_of_indent (h.blank indent rfl) hempty hstarts
        have hdash := head?_of_hasPrefix (c := '-') hopens.1 rfl
        rw [hhead, Option.some.injEq] at hdash
        rw [hdash] at hc
        cases hc
      · exact absurd (htrim.symm.trans hopens.2.2) (by decide)

/-- A test line in a diagnostic block is hidden. -/
theorem Blocks.hidden_of_testLine {lines : List String} {indent line : String}
    (h : Blocks lines (some indent)) (hline : hasPrefix line indent = true ∨ trim line = "")
    (htest : TestLine line) : Hidden lines lines.length := by
  rw [← h.hidden, Option.some.injEq]
  by_contra hne
  rcases hline with hstarts | htrim
  · obtain ⟨c, hhead, hc⟩ := head_of_indent (h.blank indent rfl) hne hstarts
    have hletter := htest.head?
    rw [hhead, Option.some.injEq, Option.some.injEq] at hletter
    rcases hletter with rfl | rfl <;> cases hc
  · exact not_testLine (leading_of_blank htrim) nofun nofun htest

/-! ## The diagnostics -/

/-- The number of lines in front of the point behind a point. -/
def nextLine (lines : List String) (points : List Point) (k : ℕ) : ℕ :=
  (points[k + 1]?.map fun p => p.reportLine - 1).getD lines.length

/-- The diagnostics of every point are, in order, the diagnostic lines between it and the next
point. -/
def Attached (lines : List String) (points : List Point) : Prop :=
  ∀ (k : ℕ) (p : Point), points[k]? = some p →
    p.diagnostics = diagnosticLines lines p.reportLine (nextLine lines points k)

/-- The points stand in the lines. -/
def Within (lines : List String) (points : List Point) : Prop :=
  ∀ (k : ℕ) (p : Point), points[k]? = some p → p.reportLine ≤ lines.length

variable {points : List Point}

/-- The lines of the last point go on to the end. -/
theorem nextLine_last {k : ℕ} (h : points.length ≤ k + 1)
    (lines : List String) : nextLine lines points k = lines.length := by
  rw [nextLine, List.getElem?_eq_none h]
  rfl

/-- The lines of another point end in front of the next point, whatever follows. -/
theorem nextLine_le {lines : List String} (hwithin : Within lines points)
    {k : ℕ} (h : k + 1 < points.length) :
    nextLine lines points k ≤ lines.length ∧
      ∀ line, nextLine (lines ++ [line]) points k = nextLine lines points k := by
  obtain ⟨p, hp⟩ : ∃ p, points[k + 1]? = some p := ⟨_, List.getElem?_eq_getElem h⟩
  have hle := hwithin _ p hp
  rw [nextLine, hp]
  refine ⟨?_, fun line => ?_⟩
  · rw [Option.map_some, Option.getD_some]
    omega
  · rw [nextLine, hp]
    rfl

/-- The last point has the last number. -/
theorem getLast?_of_length {k : ℕ} {p : Point} (hp : points[k]? = some p)
    (hk : points.length = k + 1) : p ∈ points.getLast? := by
  rw [List.getLast?_eq_getElem?, hk]
  exact hp

/-- A line that does not belong to the last point. -/
theorem Attached.skip {lines : List String} {line : String} (h : Attached lines points)
    (hwithin : Within lines points)
    (hline : ∀ p ∈ points.getLast?, ¬Diagnostic (lines ++ [line]) p.reportLine lines.length) :
    Attached (lines ++ [line]) points := by
  intro k p hp
  have hlt := (List.getElem?_eq_some_iff.mp hp).1
  by_cases hlast : k + 1 < points.length
  · obtain ⟨hnext, heq⟩ := nextLine_le hwithin hlast
    rw [h k p hp, heq line, diagnosticLines_append hnext]
  · have hdiagnostic := hline p (getLast?_of_length hp (by omega))
    rw [h k p hp, nextLine_last (by omega), nextLine_last (by omega), List.length_append,
      List.length_singleton, diagnosticLines_concat, if_neg hdiagnostic, List.append_nil]

/-- A line that belongs to the last point. -/
theorem Attached.push {lines : List String} {line : String} (h : Attached lines points)
    (hwithin : Within lines points)
    (hline : ∀ p ∈ points.getLast?, Diagnostic (lines ++ [line]) p.reportLine lines.length) :
    Attached (lines ++ [line]) (points.modify (points.length - 1) (·.push line)) := by
  have hlines : ∀ k : ℕ,
      ((points.modify (points.length - 1) (·.push line))[k]?).map Point.reportLine =
        (points[k]?).map Point.reportLine := by
    intro k
    rw [List.getElem?_modify]
    cases points[k]? with
    | none => rfl
    | some p => by_cases hk : points.length - 1 = k <;> simp [hk, Point.push]
  intro k p hp
  have hnext : nextLine (lines ++ [line]) (points.modify (points.length - 1) (·.push line)) k =
      nextLine (lines ++ [line]) points k := by
    have heq := congrArg (Option.map fun n => n - 1) (hlines (k + 1))
    rw [Option.map_map, Option.map_map] at heq
    exact congrArg (fun next : Option ℕ => next.getD (lines ++ [line]).length) heq
  rw [hnext]
  rw [List.getElem?_modify] at hp
  cases hk : points[k]? with
  | none =>
    rw [hk] at hp
    cases hp
  | some q =>
    rw [hk, Option.map_eq_map, Option.map_some, Option.some.injEq] at hp
    have hlt := (List.getElem?_eq_some_iff.mp hk).1
    by_cases hlast : points.length - 1 = k
    · rw [if_pos hlast] at hp
      subst hp
      have hdiagnostic := hline q (getLast?_of_length hk (by omega))
      change q.diagnostics ++ [line] = diagnosticLines (lines ++ [line]) q.reportLine _
      rw [h k q hk, nextLine_last (by omega), nextLine_last (by omega), List.length_append,
        List.length_singleton, diagnosticLines_concat, if_pos hdiagnostic]
    · rw [if_neg hlast] at hp
      subst hp
      obtain ⟨hnext, heq⟩ := nextLine_le (k := k) hwithin (by omega)
      rw [h k q hk, heq line, diagnosticLines_append hnext]

/-- A new point, which no line belongs to yet. -/
theorem Attached.concat {lines : List String} (h : Attached lines points)
    (hwithin : Within lines points) (line : String) {p : Point} (hempty : p.diagnostics = [])
    (hline : p.reportLine = lines.length + 1) : Attached (lines ++ [line]) (points ++ [p]) := by
  intro k q hq
  by_cases hnew : k = points.length
  · subst hnew
    rw [List.getElem?_concat_length, Option.some.injEq] at hq
    rw [← hq, hempty, hline, nextLine_last (by simp), List.length_append, List.length_singleton]
    exact (diagnosticLines_self _ _).symm
  · have hlt := (List.getElem?_eq_some_iff.mp hq).1
    rw [List.length_append, List.length_singleton] at hlt
    rw [List.getElem?_append_left (by omega)] at hq
    by_cases hlast : k + 1 < points.length
    · obtain ⟨hnext, -⟩ := nextLine_le hwithin hlast
      have heq : nextLine (lines ++ [line]) (points ++ [p]) k = nextLine lines points k := by
        obtain ⟨r, hr⟩ : ∃ r, points[k + 1]? = some r := ⟨_, List.getElem?_eq_getElem hlast⟩
        rw [nextLine, nextLine, List.getElem?_append_left hlast, hr]
        rfl
      rw [h k q hq, heq, diagnosticLines_append hnext]
    · have heq : nextLine (lines ++ [line]) (points ++ [p]) k = lines.length := by
        rw [nextLine, (by omega : k + 1 = points.length), List.getElem?_concat_length,
          Option.map_some, Option.getD_some, hline, Nat.add_sub_cancel]
      rw [h k q hq, heq, nextLine_last (by omega), diagnosticLines_append le_rfl]

/-- Whether comments still belong to the last point. -/
def CommentsAttach (lines : List String) (points : List Point) (attach : Bool) : Prop :=
  ∀ p ∈ points.getLast?,
    attach = true ↔ ∀ i, p.reportLine ≤ i → i < lines.length → ¬Stands Closing lines i

/-- A line behind which comments belong to the same point. -/
theorem CommentsAttach.skip {lines : List String} {line : String} {attach : Bool}
    (h : CommentsAttach lines points attach)
    (hline : ¬Stands Closing (lines ++ [line]) lines.length) :
    CommentsAttach (lines ++ [line]) points attach := by
  intro p hp
  refine (h p hp).trans (forall_congr' fun i => imp_congr_right fun _ => ?_)
  rw [List.length_append, List.length_singleton, stands_concat hline]
  refine ⟨fun hall _ hstands => hall hstands.lt hstands, fun hall hi => hall (by omega)⟩

/-- The last point takes a line and stays the last one. -/
theorem CommentsAttach.push {lines : List String} {attach : Bool}
    (h : CommentsAttach lines points attach) (line : String) :
    CommentsAttach lines (points.modify (points.length - 1) (·.push line)) attach := by
  intro p hp
  rw [List.getLast?_eq_getElem?, List.length_modify, List.getElem?_modify, Option.map_eq_map] at hp
  obtain ⟨q, hq, rfl⟩ := Option.map_eq_some_iff.mp hp
  rw [if_pos rfl]
  exact h q (by rwa [List.getLast?_eq_getElem?])

/-- A line behind which comments belong to no point. -/
theorem CommentsAttach.close {lines : List String} {line : String}
    (hwithin : Within lines points) (hline : Stands Closing (lines ++ [line]) lines.length) :
    CommentsAttach (lines ++ [line]) points false := by
  intro p hp
  obtain ⟨k, hk⟩ := List.getElem?_of_mem (List.mem_of_getLast? hp)
  refine iff_of_false nofun fun hall => hall lines.length (hwithin k p hk) ?_ hline
  rw [List.length_append, List.length_singleton]
  exact Nat.lt_succ_self _

/-! ## The plan and the end of the run -/

/-- The plan and its reason are those of the only plan line, which stands in front of all tests or
behind them. -/
def PlanRead (lines : List String) (tests : List Point) (plan : Option ℕ) (skipReason : String) :
    Prop :=
  (plan = none ∧ skipReason = "" ∧ ∀ i, ¬Stands PlanLine lines i) ∨
  ∃ (j : ℕ) (line : String) (n : ℕ), (∀ i, Stands PlanLine lines i ↔ i = j) ∧
    lines[j]? = some line ∧ plan = some n ∧
    number (trim ((splitText '#' (dropText 3 line)).headD "")) = .ok n ∧
    State.start.planReason (splitText '#' (dropText 3 line)) n = .ok skipReason ∧
    ((∀ p ∈ tests, j + 1 < p.reportLine) ∨ ∀ p ∈ tests, p.reportLine < j + 1)

/-- A line that holds no plan. -/
theorem PlanRead.skip {lines : List String} {line : String} {plan : Option ℕ} {skipReason : String}
    (h : PlanRead lines tests plan skipReason)
    (hline : ¬Stands PlanLine (lines ++ [line]) lines.length) :
    PlanRead (lines ++ [line]) tests plan skipReason := by
  rcases h with ⟨hplan, hreason, hnone⟩ | ⟨j, found, n, honly, hj, hplan, hread⟩
  · exact .inl ⟨hplan, hreason, fun i hi => hnone i ((stands_concat hline).mp hi)⟩
  · have hlt := (List.getElem?_eq_some_iff.mp hj).1
    refine .inr ⟨j, found, n, fun i => (stands_concat hline).trans (honly i), ?_, hplan, hread⟩
    rw [List.getElem?_append_left hlt, hj]

/-- The end of the run is that of its only line, which stands behind all tests. -/
def BailoutRead (lines : List String) (tests : List Point) (bailout : Option String)
    (bailoutLine : Option ℕ) : Prop :=
  (bailout = none ∧ bailoutLine = none ∧ ∀ i, ¬Stands BailLine lines i) ∨
  ∃ (j : ℕ) (line : String), (∀ i, Stands BailLine lines i ↔ i = j) ∧ lines[j]? = some line ∧
    bailout = some (trim (dropText 9 line)) ∧ bailoutLine = some (j + 1) ∧
    ∀ p ∈ tests, p.reportLine < j + 1

/-- A line that does not end the run. -/
theorem BailoutRead.skip {lines : List String} {line : String} {bailout : Option String}
    {bailoutLine : Option ℕ} (h : BailoutRead lines tests bailout bailoutLine)
    (hline : ¬Stands BailLine (lines ++ [line]) lines.length) :
    BailoutRead (lines ++ [line]) tests bailout bailoutLine := by
  rcases h with ⟨hbailout, hnumber, hnone⟩ | ⟨j, found, honly, hj, hread⟩
  · exact .inl ⟨hbailout, hnumber, fun i hi => hnone i ((stands_concat hline).mp hi)⟩
  · have hlt := (List.getElem?_eq_some_iff.mp hj).1
    refine .inr ⟨j, found, fun i => (stands_concat hline).trans (honly i), ?_, hread⟩
    rw [List.getElem?_append_left hlt, hj]

/-- A line of a kind that no line has had so far is the only one. -/
theorem stands_only {kind : String → Prop} {lines : List String} {line : String}
    (hnone : ∀ i, ¬Stands kind lines i) (hline : Stands kind (lines ++ [line]) lines.length)
    (i : ℕ) : Stands kind (lines ++ [line]) i ↔ i = lines.length := by
  refine ⟨fun hi => ?_, fun heq => heq ▸ hline⟩
  by_contra hne
  have hlt := hi.lt
  rw [List.length_append, List.length_singleton] at hlt
  exact hnone i ((stands_append (by omega) line).mp hi)

/-! ## The loop -/

/-- What holds behind every line. -/
structure Inv (lines : List String) (s : State) : Prop where
  tests : Tests lines (s.points.map Point.bare)
  blocks : Blocks lines s.yamlIndent
  attached : Attached lines s.points
  comments : CommentsAttach lines s.points s.attachComments
  plan : PlanRead lines (s.points.map Point.bare) s.plan s.skipReason
  ahead : s.trailingPlan = false → ∀ j, Stands PlanLine lines j →
    ∀ p ∈ s.points.map Point.bare, j + 1 < p.reportLine
  bailout : BailoutRead lines (s.points.map Point.bare) s.bailout s.bailoutLine
  nonempty : s.yamlIndent.isSome = true ∨ s.yamlAllowed = true ∨ s.attachComments = true →
    s.points ≠ []

/-- The invariant in front of the first line. -/
theorem Inv.start : Inv [] .start where
  tests := .nil
  blocks := .nil
  attached := fun _ _ h => nomatch h
  comments := fun _ h => nomatch h
  plan := .inl ⟨rfl, rfl, fun _ h => absurd h.lt (Nat.not_lt_zero _)⟩
  ahead := fun _ _ h => absurd h.lt (Nat.not_lt_zero _)
  bailout := .inl ⟨rfl, rfl, fun _ h => absurd h.lt (Nat.not_lt_zero _)⟩
  nonempty := fun h => absurd h (by decide)

/-- The points without their diagnostics do not change with the diagnostics. -/
theorem map_bare_push (points : List Point) (line : String) :
    (points.modify (points.length - 1) (·.push line)).map Point.bare = points.map Point.bare := by
  refine List.ext_getElem? fun k => ?_
  rw [List.getElem?_map, List.getElem?_map, List.getElem?_modify]
  cases points[k]? with
  | none => rfl
  | some p => by_cases hk : points.length - 1 = k <;> simp [hk, Point.push, Point.bare]

section Step

variable {lines : List String} {s next : State} {line : String} (h : Inv lines s)

include h

/-- The points stand in the lines so far. -/
theorem Inv.within : Within lines s.points := fun _ p hp =>
  h.tests.reportLine_le (p := p.bare) (List.mem_map_of_mem (List.mem_of_getElem? hp))

/-- The last point stands in the lines. -/
theorem Inv.reportLine_le {p : Point} (hp : p ∈ s.points.getLast?) : p.reportLine ≤ lines.length :=
  h.tests.reportLine_le (p := p.bare) (List.mem_map_of_mem (List.mem_of_getLast? hp))

/-- A line that neither opens a block nor is a comment of the last point does not belong to it. -/
theorem Inv.not_diagnostic (hindent : s.yamlIndent = none) (hfence : ¬Fence line)
    (hcomment : Comment line → s.attachComments = false) (p : Point)
    (hp : p ∈ s.points.getLast?) : ¬Diagnostic (lines ++ [line]) p.reportLine lines.length := by
  have hblock : blockIndent lines = none := h.blocks.indent_eq.trans hindent
  rw [diagnostic_length, hblock]
  rintro ⟨-, hblock | ⟨-, hopens | ⟨hline, hclear⟩⟩⟩
  · cases hblock
  · exact hfence hopens
  · have hattach := (h.comments p hp).mpr hclear
    rw [hcomment hline] at hattach
    cases hattach

/-- No plan is ahead that was not there. -/
theorem Inv.ahead_skip (hplan : ¬Stands PlanLine (lines ++ [line]) lines.length)
    (htrailing : s.trailingPlan = false) (j : ℕ) (hj : Stands PlanLine (lines ++ [line]) j) :
    ∀ p ∈ s.points.map Point.bare, j + 1 < p.reportLine :=
  h.ahead htrailing j ((stands_concat hplan).mp hj)

/-- A line that is attached. -/
theorem Inv.push (htest : TestLine line → Hidden lines lines.length) {indent : Option String}
    (hblocks : Blocks (lines ++ [line]) indent) (hpoints : s.points ≠ [])
    (hclosing : ¬Stands Closing (lines ++ [line]) lines.length)
    (hline : ∀ p ∈ s.points.getLast?, Diagnostic (lines ++ [line]) p.reportLine lines.length)
    (allowed : Bool) :
    Inv (lines ++ [line]) { s with
      points := s.points.modify (s.points.length - 1) (·.push line)
      yamlIndent := indent
      yamlAllowed := allowed } := by
  have hne : s.points.modify (s.points.length - 1) (·.push line) ≠ [] := by
    rw [← List.length_pos_iff, List.length_modify]
    exact List.length_pos_iff.mpr hpoints
  have hplan : ¬Stands PlanLine (lines ++ [line]) lines.length := fun hstands =>
    hclosing (hstands.imp fun _ => .inl)
  have hbail : ¬Stands BailLine (lines ++ [line]) lines.length := fun hstands =>
    hclosing (hstands.imp fun _ => .inr)
  refine ⟨?_, hblocks, h.attached.push h.within hline, (h.comments.skip hclosing).push line,
    ?_, ?_, ?_,
    fun _ => hne⟩
  all_goals dsimp only; rw [map_bare_push]
  · exact h.tests.skip htest
  · exact h.plan.skip hplan
  · exact h.ahead_skip hplan
  · exact h.bailout.skip hbail

/-- A line that is skipped. -/
theorem Inv.skip (hindent : s.yamlIndent = none) (htest : ¬TestLine line) (hfence : ¬Fence line)
    (hclosing : ¬Closing line) (hcomment : Comment line → s.attachComments = false) :
    Inv (lines ++ [line]) s where
  tests := h.tests.skip fun ht => absurd ht htest
  blocks := by
    have hblocks := h.blocks
    rw [hindent] at hblocks ⊢
    exact hblocks.skip hfence
  attached := h.attached.skip h.within (h.not_diagnostic hindent hfence hcomment)
  comments := h.comments.skip fun hstands => hclosing ((stands_length _ _).mp hstands).2
  plan := h.plan.skip fun hstands => hclosing (.inl ((stands_length _ _).mp hstands).2)
  ahead := h.ahead_skip fun hstands => hclosing (.inl ((stands_length _ _).mp hstands).2)
  bailout := h.bailout.skip fun hstands => hclosing (.inr ((stands_length _ _).mp hstands).2)
  nonempty := h.nonempty

/-- No block may start behind a line. -/
theorem Inv.forbid : Inv lines { s with yamlAllowed := false } :=
  { h with nonempty := fun hor =>
      h.nonempty (hor.imp_right fun hor => .inr (hor.resolve_left nofun)) }

end Step

/-- A line is attached exactly when there is a point. -/
theorem attach_eq_ok_iff {s next : State} {line : String} :
    s.attach line = .ok next ↔ s.points ≠ [] ∧
      next = { s with points := s.points.modify (s.points.length - 1) (·.push line) } := by
  rw [State.attach, Loop.guard_eq_ok_iff, Except.ok.injEq, eq_comm (a := next)]

/-- The point that a test line becomes. -/
theorem testPoint_fields {line : String} {sequence index : ℕ} {p : Point}
    (hp : testPoint line sequence index = .ok p) :
    p.reportLine = index + 1 ∧ p.number = sequence ∧ p.diagnostics = [] ∧ TestLine line := by
  rw [testPoint, Loop.guard_eq_ok_iff] at hp
  obtain ⟨htest, hp⟩ := hp
  rw [Loop.guard_eq_ok_iff] at hp
  obtain ⟨description, -, hp⟩ := Loop.bind_eq_ok_iff.mp hp.2
  obtain ⟨found, -, hp⟩ := Loop.bind_eq_ok_iff.mp hp
  rw [Except.ok.injEq] at hp
  subst hp
  exact ⟨rfl, rfl, rfl, by rwa [not_and_or, not_not, not_not] at htest⟩

section Rounds

variable {lines : List String} {s next : State} {line : String} (h : Inv lines s)

include h

/-- A line in an open block. -/
theorem Inv.blockLine {indent : String} (hindent : s.yamlIndent = some indent)
    (hs : s.blockLine indent line = .ok next) : Inv (lines ++ [line]) next := by
  rw [State.blockLine, Loop.guard_eq_ok_iff, Loop.bind_eq_ok_iff] at hs
  obtain ⟨hguard, t, ht, hnext⟩ := hs
  obtain ⟨hpoints, rfl⟩ := attach_eq_ok_iff.mp ht
  have hline : hasPrefix line indent = true ∨ trim line = "" := by
    rwa [not_and_or, Bool.not_eq_false, not_not] at hguard
  have hblocks := h.blocks
  rw [hindent] at hblocks
  have hopen : (blockIndent lines).isSome = true := by
    rw [hblocks.indent_eq]
    rfl
  have hinside : InBlock (lines ++ [line]) lines.length := (inBlock_length _ _).mpr hopen
  have hline' : ∀ p ∈ s.points.getLast?,
      Diagnostic (lines ++ [line]) p.reportLine lines.length := fun p hp =>
    ⟨h.reportLine_le hp, .inl hinside⟩
  have hpush := h.push (hblocks.hidden_of_testLine hline) (hblocks.inside hline) hpoints
    (fun hstands => hstands.1 hinside) hline' s.yamlAllowed
  by_cases hend : line = indent ++ "..."
  · rw [if_pos hend, Except.ok.injEq] at hnext
    rw [if_pos hend] at hpush
    exact hnext ▸ hpush
  · rw [if_neg hend, Except.ok.injEq] at hnext
    rw [if_neg hend, ← hindent] at hpush
    exact hnext ▸ hpush

/-- A comment outside of the blocks. -/
theorem Inv.comment (hindent : s.yamlIndent = none) (hcomment : Comment line)
    (hs : s.comment line = .ok next) : Inv (lines ++ [line]) next := by
  have hlead := hcomment.leading
  have htest : ¬TestLine line := not_testLine hlead (by decide) (by decide)
  have hfence : ¬Fence line := not_fence hlead (by decide)
  have hclosing : ¬Closing line := not_closing hlead (by decide) (by decide)
  have hblocks := h.blocks
  rw [hindent] at hblocks
  rw [State.comment] at hs
  by_cases hattach : s.attachComments = true
  · rw [if_pos hattach, Loop.bind_eq_ok_iff] at hs
    obtain ⟨t, ht, hnext⟩ := hs
    obtain ⟨hpoints, rfl⟩ := attach_eq_ok_iff.mp ht
    rw [Except.ok.injEq] at hnext
    subst hnext
    have hpush := h.push (fun htrue => absurd htrue htest) (hblocks.skip hfence) hpoints
      (fun hstands => hclosing ((stands_length _ _).mp hstands).2) (fun p hp => ?_) false
    · rwa [← hindent] at hpush
    · exact (diagnostic_length _ _).mpr ⟨h.reportLine_le hp, .inr ⟨hblocks.indent_eq,
        .inr ⟨hcomment, (h.comments p hp).mp hattach⟩⟩⟩
  · rw [if_neg hattach, Except.ok.injEq] at hs
    subst hs
    rw [Bool.not_eq_true] at hattach
    exact (h.skip hindent htest hfence hclosing fun _ => hattach).forbid

/-- A line that opens a block. -/
theorem Inv.openBlock (hindent : s.yamlIndent = none) (hfence : Fence line)
    (hs : s.openBlock line = .ok next) : Inv (lines ++ [line]) next := by
  have htest : ¬TestLine line := not_testLine hfence.leading (by decide) (by decide)
  have hclosing : ¬Closing line := not_closing hfence.leading (by decide) (by decide)
  have hblocks := h.blocks
  rw [hindent] at hblocks
  rw [State.openBlock, Loop.guard_eq_ok_iff] at hs
  obtain ⟨-, hs⟩ := hs
  split at hs
  · cases hs
  · rename_i indent hbefore
    obtain ⟨t, ht, hnext⟩ := Loop.bind_eq_ok_iff.mp hs
    obtain ⟨hpoints, rfl⟩ := attach_eq_ok_iff.mp ht
    rw [Except.ok.injEq] at hnext
    subst hnext
    refine h.push (fun htrue => absurd htrue htest) (hblocks.open hfence hbefore) hpoints
      (fun hstands => hclosing ((stands_length _ _).mp hstands).2) (fun p hp => ?_) false
    exact (diagnostic_length _ _).mpr ⟨h.reportLine_le hp, .inr ⟨hblocks.indent_eq, .inl hfence⟩⟩

/-- The line that ends the run. -/
theorem Inv.bail (hindent : s.yamlIndent = none) (hbail : BailLine line)
    (hbailout : s.bailout = none) : Inv (lines ++ [line]) (s.bail lines.length line) := by
  have hlead := hbail.leading
  have hfence : ¬Fence line := not_fence hlead (by decide)
  have hblocks := h.blocks
  rw [hindent] at hblocks
  have hstands {kind : String → Prop} (hkind : kind line) :
      Stands kind (lines ++ [line]) lines.length :=
    (stands_length _ _).mpr ⟨hblocks.indent_eq, hkind⟩
  have hplan : ¬Stands PlanLine (lines ++ [line]) lines.length := fun hplan => by
    have hlead' := ((stands_length _ _).mp hplan).2.leading
    rw [hlead] at hlead'
    exact absurd hlead' (by decide)
  have hnone : ∀ i, ¬Stands BailLine lines i := by
    rcases h.bailout with ⟨-, -, hnone⟩ | ⟨j, found, -, -, hsome, -⟩
    · exact hnone
    · rw [hbailout] at hsome
      cases hsome
  refine ⟨h.tests.skip fun htest => absurd htest (not_testLine hlead (by decide) (by decide)), ?_,
    h.attached.skip h.within (h.not_diagnostic hindent hfence fun hcomment =>
      absurd hcomment (not_comment hlead (by decide))),
    .close h.within (hstands (.inr hbail)), h.plan.skip hplan, h.ahead_skip hplan,
    .inr ⟨lines.length, line, stands_only hnone (hstands hbail), List.getElem?_concat_length, rfl,
      rfl, fun p hp => Nat.lt_succ_of_le (h.tests.reportLine_le hp)⟩, fun hor => ?_⟩
  · change Blocks (lines ++ [line]) s.yamlIndent
    rw [hindent]
    exact hblocks.skip hfence
  · exact h.nonempty (hor.imp_right fun hor => hor.imp_right nofun)

/-- The line of the plan. -/
theorem Inv.planLine (hindent : s.yamlIndent = none) (hplan : PlanLine line)
    (hs : s.planLine line = .ok next) : Inv (lines ++ [line]) next := by
  have hlead := hplan.leading
  have hfence : ¬Fence line := not_fence hlead (by decide)
  have hblocks := h.blocks
  rw [hindent] at hblocks
  have hstands {kind : String → Prop} (hkind : kind line) :
      Stands kind (lines ++ [line]) lines.length :=
    (stands_length _ _).mpr ⟨hblocks.indent_eq, hkind⟩
  have hbail : ¬Stands BailLine (lines ++ [line]) lines.length := fun hbail => by
    have hlead' := ((stands_length _ _).mp hbail).2.leading
    rw [hlead] at hlead'
    exact absurd hlead' (by decide)
  rw [State.planLine, Loop.guard_eq_ok_iff, Bool.not_eq_true, Option.isSome_eq_false_iff,
    Option.isNone_iff_eq_none] at hs
  obtain ⟨hnone, hs⟩ := hs
  obtain ⟨hreason, hfirst⟩ : s.skipReason = "" ∧ ∀ i, ¬Stands PlanLine lines i := by
    rcases h.plan with ⟨-, hreason, hfirst⟩ | ⟨j, found, n, -, -, hsome, -⟩
    · exact ⟨hreason, hfirst⟩
    · rw [hnone] at hsome
      cases hsome
  have honly := stands_only hfirst (hstands hplan)
  obtain ⟨count, hcount, hs⟩ := Loop.bind_eq_ok_iff.mp hs
  obtain ⟨reason, hread, hnext⟩ := Loop.bind_eq_ok_iff.mp hs
  rw [State.planReason, hreason] at hread
  rw [Except.ok.injEq] at hnext
  subst hnext
  have hbehind : ∀ p ∈ s.points.map Point.bare, p.reportLine < lines.length + 1 := fun p hp =>
    Nat.lt_succ_of_le (h.tests.reportLine_le hp)
  refine ⟨h.tests.skip fun htest => absurd htest (not_testLine hlead (by decide) (by decide)), ?_,
    h.attached.skip h.within (h.not_diagnostic hindent hfence fun hcomment =>
      absurd hcomment (not_comment hlead (by decide))),
    .close h.within (hstands (.inl hplan)),
    .inr ⟨lines.length, line, count, honly, List.getElem?_concat_length, rfl, hcount, hread,
      .inr hbehind⟩, fun htrailing j hj p hp => ?_, h.bailout.skip hbail, fun hor => ?_⟩
  · dsimp only
    rw [hindent]
    exact hblocks.skip hfence
  · cases hpoints : s.points with
    | nil =>
      rw [hpoints] at hp
      cases hp
    | cons first rest =>
      rw [hpoints] at htrailing
      cases htrailing
  · exact h.nonempty (hor.imp_right fun hor => hor.imp_right nofun)

/-- A line that reports a test. -/
theorem Inv.testLine (hindent : s.yamlIndent = none) (hbailout : s.bailout = none)
    (hs : s.testLine lines.length line = .ok next) : Inv (lines ++ [line]) next := by
  rw [State.testLine, Loop.guard_eq_ok_iff, Bool.not_eq_true] at hs
  obtain ⟨htrailing, hs⟩ := hs
  obtain ⟨p, hp, hnext⟩ := Loop.bind_eq_ok_iff.mp hs
  rw [Except.ok.injEq] at hnext
  subst hnext
  obtain ⟨hline, -, hdiagnostics, htest⟩ := testPoint_fields hp
  have hbare : p.bare = p := by
    rw [Point.bare, ← hdiagnostics]
  have hmap : (s.points ++ [p]).map Point.bare = s.points.map Point.bare ++ [p] := by
    rw [List.map_append, List.map_singleton, hbare]
  have hblocks := h.blocks
  rw [hindent] at hblocks
  have hvisible : ¬Hidden lines lines.length := fun hhidden => (nomatch hblocks.hidden.mpr hhidden)
  have hfence : ¬Fence line := fun hfence =>
    not_testLine hfence.leading (by decide) (by decide) htest
  have hplan : ¬Stands PlanLine (lines ++ [line]) lines.length := fun hstands =>
    not_testLine ((stands_length _ _).mp hstands).2.leading (by decide) (by decide) htest
  have hbail : ¬Stands BailLine (lines ++ [line]) lines.length := fun hstands =>
    not_testLine ((stands_length _ _).mp hstands).2.leading (by decide) (by decide) htest
  -- a test behind the plan is refused when the plan stands behind other tests
  have hahead : ∀ j, Stands PlanLine (lines ++ [line]) j →
      ∀ q ∈ s.points.map Point.bare ++ [p], j + 1 < q.reportLine := by
    intro j hj q hq
    have hstands := (stands_concat hplan).mp hj
    rcases List.mem_append.mp hq with hq | hq
    · exact h.ahead htrailing j hstands q hq
    · rw [List.mem_singleton.mp hq, hline]
      exact Nat.succ_lt_succ hstands.lt
  refine ⟨?_, ?_, h.attached.concat h.within line hdiagnostics hline, fun q hq => ?_, ?_, ?_, ?_,
    fun _ => by simp⟩
  · rw [hmap]
    exact h.tests.concat hvisible (by rwa [List.length_map]) hline
  · dsimp only
    rw [hindent]
    exact hblocks.skip hfence
  · rw [List.getLast?_concat, Option.mem_some_iff] at hq
    refine iff_of_true rfl fun i hstart hi => ?_
    rw [← hq, hline] at hstart
    rw [List.length_append, List.length_singleton] at hi
    omega
  · dsimp only
    rw [hmap]
    rcases h.plan.skip hplan with hnone | ⟨j, found, n, honly, hj, hsome, hcount, hreason, -⟩
    · exact .inl hnone
    · exact .inr ⟨j, found, n, honly, hj, hsome, hcount, hreason,
        .inl (hahead j ((honly j).mpr rfl))⟩
  · dsimp only
    rw [hmap]
    exact fun _ => hahead
  · dsimp only
    rw [hmap]
    rcases h.bailout.skip hbail with hnone | ⟨j, found, -, -, hsome, -⟩
    · exact .inl hnone
    · rw [hbailout] at hsome
      cases hsome

/-- A line outside of the blocks. -/
theorem Inv.topLine (hindent : s.yamlIndent = none)
    (hs : s.topLine lines.length line = .ok next) : Inv (lines ++ [line]) next := by
  rw [State.topLine] at hs
  by_cases hblank : trim line = ""
  · rw [if_pos hblank, Except.ok.injEq] at hs
    have hlead := leading_of_blank hblank
    exact hs ▸ h.skip hindent (not_testLine hlead nofun nofun) (not_fence hlead nofun)
      (not_closing hlead nofun nofun) fun hcomment => absurd hcomment (not_comment hlead nofun)
  rw [if_neg hblank] at hs
  by_cases hversion : line = "TAP version 13"
  · rw [if_pos hversion] at hs
    have hlead : leading line = some 'T' := by
      rw [hversion]
      rfl
    split at hs
    · exact Except.ok.inj hs ▸ h.skip hindent (not_testLine hlead (by decide) (by decide))
        (not_fence hlead (by decide)) (not_closing hlead (by decide) (by decide))
        fun hcomment => absurd hcomment (not_comment hlead (by decide))
    · cases hs
  rw [if_neg hversion, Loop.guard_eq_ok_iff] at hs
  by_cases hcomment : hasPrefix (trim line) "#" = true
  · rw [if_pos hcomment] at hs
    exact h.comment hindent hcomment hs.2
  rw [if_neg hcomment, Loop.guard_eq_ok_iff] at hs
  obtain ⟨-, hbailout, hs⟩ := hs
  rw [Bool.not_eq_true, Option.isSome_eq_false_iff, Option.isNone_iff_eq_none] at hbailout
  by_cases hblock : trim line = "---" ∧ line ≠ trim line
  · rw [if_pos hblock] at hs
    exact h.openBlock hindent ⟨hblock.1, hblock.1 ▸ hblock.2⟩ hs
  rw [if_neg hblock, State.reportLine] at hs
  have hforbid := h.forbid
  by_cases hbail : hasPrefix line "Bail out!" = true
  · rw [if_pos hbail, Except.ok.injEq] at hs
    exact hs ▸ hforbid.bail hindent hbail hbailout
  by_cases hplan : hasPrefix line "1.." = true
  · rw [if_neg hbail, if_pos hplan] at hs
    exact hforbid.planLine hindent hplan hs
  · rw [if_neg hbail, if_neg hplan] at hs
    exact hforbid.testLine hindent hbailout hs

/-- One line keeps the invariant. -/
theorem Inv.step {raw : String} (hs : s.step (raw, lines.length) = .ok next) :
    Inv (lines ++ [trimReturns raw]) next := by
  rw [State.step] at hs
  cases hindent : s.yamlIndent with
  | none =>
    rw [hindent] at hs
    exact h.topLine hindent hs
  | some indent =>
    rw [hindent] at hs
    exact h.blockLine hindent hs

end Rounds

/-- The invariant behind the loop. -/
theorem Inv.of_foldlM {lines : List String} {s : State}
    (h : lines.zipIdx.foldlM State.step .start = .ok s) : Inv (lines.map trimReturns) s := by
  refine Loop.holds_of_foldlM_zipIdx (fun lines s => Inv (lines.map trimReturns) s)
    Inv.start (fun before raw state next hinv hround => ?_) h
  rw [List.map_append, List.map_singleton]
  exact hinv.step (by rwa [List.length_map])

/-! ## Indices -/

/-- A computation with all its indices in range. -/
def InRange {α : Type} (x : Except TapFault α) : Prop := x ≠ .error .outOfRange

/-- A result has no index out of range. -/
theorem InRange.ok {α : Type} (a : α) : InRange (.ok a : Except TapFault α) := nofun

/-- A refusal has no index out of range. -/
theorem InRange.guard {α : Type} {p : Prop} [Decidable p] {message : String}
    {rest : Except TapFault α} (h : ¬p → InRange rest) :
    InRange (if p then .error (.refused message) else rest) := by
  by_cases hp : p
  · rw [if_pos hp]
    exact nofun
  · rw [if_neg hp]
    exact h hp

/-- A composed computation has its indices in range when both parts have. -/
theorem InRange.bind {α β : Type} {first : Except TapFault α} {rest : α → Except TapFault β}
    (hfirst : InRange first) (hrest : ∀ a, first = .ok a → InRange (rest a)) :
    InRange (first >>= rest) := by
  cases first with
  | error fault => exact fun h => hfirst (Except.error.inj h ▸ rfl)
  | ok a => exact hrest a rfl

/-- Reading a number has no index out of range. -/
theorem inRange_number (value : String) : InRange (number value) :=
  .guard fun _ => .guard fun _ => .guard fun _ => .ok _

/-- Reading a directive has no index out of range. -/
theorem inRange_directive (value : String) : InRange (directive value) := by
  rw [directive]
  exact .guard fun _ => .ok _

/-- Reading the number of a test has no index out of range. -/
theorem inRange_numberedDescription (sequence : ℕ) (description : String) :
    InRange (numberedDescription sequence description) := by
  rw [numberedDescription]
  split
  · exact .ok _
  · exact .guard fun _ => .bind (inRange_number _) fun _ _ => .guard fun _ => .ok _

/-- Reading the directive of a test has no index out of range. -/
theorem inRange_pointDirective (pieces : List String) : InRange (pointDirective pieces) := by
  rw [pointDirective]
  split
  · exact inRange_directive _
  · exact .ok _

/-- Reading a test line has no index out of range. -/
theorem inRange_testPoint (line : String) (sequence index : ℕ) :
    InRange (testPoint line sequence index) :=
  .guard fun _ => .guard fun _ => .bind (inRange_numberedDescription _ _) fun _ _ =>
    .bind (inRange_pointDirective _) fun _ _ => .ok _

/-- Reading the reason of a plan has no index out of range. -/
theorem inRange_planReason (s : State) (parts : List String) (count : ℕ) :
    InRange (s.planReason parts count) := by
  rw [State.planReason]
  split
  · exact .bind (inRange_directive _) fun _ _ => .guard fun _ => .ok _
  · exact .ok _

/-- Attaching a line has its index in range when there is a point. -/
theorem inRange_attach {s : State} (h : s.points ≠ []) (line : String) :
    InRange (s.attach line) := by
  rw [State.attach, if_neg h]
  exact .ok _

/-- Lines of the report itself have no index out of range. -/
theorem inRange_reportLine (s : State) (index : ℕ) (line : String) :
    InRange (s.reportLine index line) := by
  rw [State.reportLine]
  split
  · exact .ok _
  split
  · exact .guard fun _ => .bind (inRange_number _) fun _ _ =>
      .bind (inRange_planReason s _ _) fun _ _ => .ok _
  · exact .guard fun _ => .bind (inRange_testPoint _ _ _) fun _ _ => .ok _

/-- A block opens with its indices in range, since it follows a test. -/
theorem Inv.inRange_openBlock {lines : List String} {s : State} (h : Inv lines s) {line : String}
    (htrim : trim line = "---") : InRange (s.openBlock line) := by
  rw [State.openBlock]
  refine .guard fun hallowed => ?_
  obtain ⟨indent, hbefore, -⟩ := textBefore_of_trim htrim
  rw [hbefore]
  refine .bind (inRange_attach ?_ line) fun _ _ => .ok _
  exact h.nonempty (.inr (.inl (by rwa [Bool.not_eq_false] at hallowed)))

/-- No line reaches for a point that is not there. -/
theorem Inv.inRange_step {lines : List String} {s : State} (h : Inv lines s) (raw : String × ℕ) :
    InRange (s.step raw) := by
  rw [State.step]
  cases hindent : s.yamlIndent with
  | some indent =>
    have hpoints := h.nonempty (.inl (by rw [hindent]; rfl))
    exact .guard fun _ => .bind (inRange_attach hpoints _) fun _ _ => .ok _
  | none =>
    dsimp only
    rw [State.topLine]
    split
    · exact .ok _
    split
    · split
      · exact .ok _
      · exact nofun
    refine .guard fun _ => ?_
    split
    · rw [State.comment]
      split
      · rename_i hattach
        exact .bind (inRange_attach (h.nonempty (.inr (.inr hattach))) _) fun _ _ => .ok _
      · exact .ok _
    refine .guard fun _ => ?_
    split
    · rename_i hblock
      exact h.inRange_openBlock hblock.1
    · exact inRange_reportLine _ _ _

/-- No index of the parser is out of range, whatever the text. -/
theorem inRange_parse (text : String) : InRange (parse text) := by
  refine .guard fun _ => .bind (fun hfault => ?_) fun s _ => ?_
  · obtain ⟨before, raw, s, hinv, hround⟩ := Loop.exists_of_foldlM_zipIdx_error
      (fun lines s => Inv (lines.map trimReturns) s) Inv.start
      (fun before raw state next hinv hround => by
        rw [List.map_append, List.map_singleton]
        exact hinv.step (by rwa [List.length_map])) hfault
    exact hinv.inRange_step _ hround
  · exact .guard fun _ => .guard fun _ => .guard fun _ => .ok _

/-! ## Accepted reports -/

/-- A failed test with a `TODO` or `SKIP` behind its first `#`. -/
def HasDirective (line : String) : Prop :=
  1 < (splitText '#' (trim (dropText 6 line))).length ∧
    ∃ found, pointDirective (splitText '#' (trim (dropText 6 line))) = .ok found

/-- What a report keeps of its lines. -/
structure Faithful (lines : List String) (report : Report) : Prop where
  /-- Every test line gives exactly one point. -/
  reported : ∀ (j : ℕ) (line : String), lines[j]? = some line → TestLine line →
    ∃! k : ℕ, ∃ p : Point, report.points[k]? = some p ∧ p.reportLine = j + 1
  /-- Every point is read from its test line. -/
  read : ∀ (k : ℕ) (p : Point), report.points[k]? = some p → ∃ (j : ℕ) (line : String),
    lines[j]? = some line ∧ TestLine line ∧ p.reportLine = j + 1 ∧
      testPoint line (k + 1) j = .ok p.bare
  numbered : ∀ (k : ℕ) (p : Point), report.points[k]? = some p → p.number = k + 1
  ordered : report.points.Pairwise fun p q => p.reportLine < q.reportLine
  /-- The diagnostic lines behind a point, and no others, are its diagnostics. -/
  attached : Attached lines report.points
  /-- The plan is that of its line, and no other line holds one. -/
  plan : PlanRead lines report.points report.plan report.skipReason
  counted : ∀ n, report.plan = some n → n = report.points.length ∨
    report.bailout.isSome = true ∧ report.points.length ≤ n
  /-- The end of the run is that of its line, and no other line ends it. -/
  bailout : BailoutRead lines report.points report.bailout report.bailoutLine
  /-- A failed test without a directive is reported as failed. -/
  failed : ∀ (j : ℕ) (line : String), lines[j]? = some line → NotOkLine line → ¬HasDirective line →
    ∃ p ∈ report.points, p.reportLine = j + 1 ∧ p.status = "failed"

/-- A block that opens in the first column and has not ended stands around a test line. -/
def Hides (lines : List String) (i j : ℕ) : Prop :=
  i < j ∧ (∃ opener, lines[i]? = some opener ∧ Opens opener) ∧
    (∃ line, lines[j]? = some line ∧ TestLine line) ∧
    ∀ k, i < k → k < j → lines[k]? ≠ some "..."

/-- A line is hidden as a test exactly when a block around it opened in the first column. -/
theorem exists_hides_iff {lines : List String} {j : ℕ} :
    (∃ i, Hides lines i j) ↔ Hidden lines j ∧ ∃ line, lines[j]? = some line ∧ TestLine line := by
  constructor
  · rintro ⟨i, hij, ⟨opener, hi, hopens⟩, htest, hend⟩
    exact ⟨⟨i, opener, hij, hi, hopens, hend⟩, htest⟩
  · rintro ⟨⟨i, opener, hij, hi, hopens, hend⟩, htest⟩
    exact ⟨i, hij, ⟨opener, hi, hopens⟩, htest, hend⟩

/-- A failed test without a directive has the status of a failure. -/
theorem status_of_notOkLine {line : String} {sequence index : ℕ} {p : Point}
    (hp : testPoint line sequence index = .ok p) (hline : NotOkLine line)
    (hdirective : ¬HasDirective line) : p.status = "failed" := by
  have hok : ¬OkLine line := by
    intro hok
    have hn : line.toList.head? = some 'n' := by
      rcases hline with rfl | h | h
      · rfl
      · exact head?_of_hasPrefix h rfl
      · exact head?_of_hasPrefix h rfl
    have ho : line.toList.head? = some 'o' := by
      rcases hok with rfl | h | h
      · rfl
      · exact head?_of_hasPrefix h rfl
      · exact head?_of_hasPrefix h rfl
    rw [hn] at ho
    cases ho
  rw [testPoint, Loop.guard_eq_ok_iff] at hp
  obtain ⟨-, hp⟩ := hp
  rw [Loop.guard_eq_ok_iff, decide_eq_false hok, if_neg Bool.false_ne_true] at hp
  obtain ⟨description, -, hp⟩ := Loop.bind_eq_ok_iff.mp hp.2
  obtain ⟨found, hfound, hp⟩ := Loop.bind_eq_ok_iff.mp hp
  rw [Except.ok.injEq] at hp
  subst hp
  have hnone : ¬1 < (splitText '#' (trim (dropText 6 line))).length := fun hlength =>
    hdirective ⟨hlength, found, hfound⟩
  rw [pointDirective, if_neg hnone, Except.ok.injEq] at hfound
  subst hfound
  rfl

/-- A report is accepted exactly when no block is open, the plan agrees and there is content. -/
theorem finish_eq_ok_iff {s : State} {report : Report} : finish s = .ok report ↔
    s.yamlIndent = none ∧ (∀ n, s.plan = some n → n = s.points.length ∨
      s.bailout.isSome = true ∧ s.points.length ≤ n) ∧
      ¬(s.points = [] ∧ s.plan ≠ some 0 ∧ s.bailout = none) ∧
        report = ⟨s.points, s.plan, s.skipReason, s.bailout, s.bailoutLine⟩ := by
  have hplan : ¬s.plan.any (fun count => !((s.bailout.isSome && s.points.length ≤ count) ||
      count == s.points.length)) = true ↔
      ∀ n, s.plan = some n → n = s.points.length ∨
        s.bailout.isSome = true ∧ s.points.length ≤ n := by
    cases s.plan with
    | none => simp
    | some n =>
      simp only [Option.any_some, Bool.not_eq_true', Bool.not_eq_false, Bool.or_eq_true,
        Bool.and_eq_true, decide_eq_true_eq, beq_iff_eq, Option.some.injEq]
      exact ⟨fun h m hm => hm ▸ h.symm, fun h => (h n rfl).symm⟩
  rw [finish, Loop.guard_eq_ok_iff, Loop.guard_eq_ok_iff, Loop.guard_eq_ok_iff, hplan,
    Bool.not_eq_true, Option.isSome_eq_false_iff, Option.isNone_iff_eq_none, Except.ok.injEq,
    eq_comm (a := report)]

/-- What the invariant says of the points of an accepted report. -/
theorem Inv.faithful {lines : List String} {s : State} (h : Inv lines s) (report : Report)
    (hfinish : finish s = .ok report) (hclear : ∀ i j, ¬Hides lines i j) :
    Faithful lines report := by
  obtain ⟨-, hplan, -, rfl⟩ := finish_eq_ok_iff.mp hfinish
  have hbare : ∀ {k : ℕ} {p : Point}, s.points[k]? = some p →
      (s.points.map Point.bare)[k]? = some p.bare := by
    intro k p hp
    rw [List.getElem?_map, hp]
    rfl
  have hread : ∀ (k : ℕ) (p : Point), s.points[k]? = some p → ∃ (j : ℕ) (line : String),
      lines[j]? = some line ∧ TestLine line ∧ p.reportLine = j + 1 ∧
        testPoint line (k + 1) j = .ok p.bare := by
    intro k p hp
    obtain ⟨j, line, hj, -, hline, htest⟩ := h.tests.read k _ (hbare hp)
    exact ⟨j, line, hj, (testPoint_fields htest).2.2.2, hline, htest⟩
  have hordered : s.points.Pairwise fun p q => p.reportLine < q.reportLine := by
    have hsame := h.tests.ordered
    rw [List.pairwise_map] at hsame
    exact hsame
  have hreported : ∀ (j : ℕ) (line : String), lines[j]? = some line → TestLine line →
      ∃ (k : ℕ) (p : Point), s.points[k]? = some p ∧ p.reportLine = j + 1 := by
    intro j line hj htest
    have hvisible : ¬Hidden lines j := fun hhidden => by
      obtain ⟨i, hi⟩ := exists_hides_iff.mpr ⟨hhidden, line, hj, htest⟩
      exact hclear i j hi
    obtain ⟨q, hq, hline⟩ := h.tests.reported j line hj htest hvisible
    obtain ⟨p, hp, rfl⟩ := List.mem_map.mp hq
    obtain ⟨k, hk⟩ := List.getElem?_of_mem hp
    exact ⟨k, p, hk, hline⟩
  refine ⟨fun j line hj htest => ?_, hread, fun k p hp => ?_, hordered, h.attached, ?_, hplan, ?_,
    fun j line hj htest hnone => ?_⟩
  · obtain ⟨k, p, hk, hline⟩ := hreported j line hj htest
    refine ⟨k, ⟨p, hk, hline⟩, ?_⟩
    rintro l ⟨q, hl, hq⟩
    obtain ⟨hklt, hkp⟩ := List.getElem?_eq_some_iff.mp hk
    obtain ⟨hllt, hlq⟩ := List.getElem?_eq_some_iff.mp hl
    rw [List.pairwise_iff_getElem] at hordered
    rcases Nat.lt_trichotomy k l with hlt | heq | hlt
    · have hless := hordered k l hklt hllt hlt
      rw [hkp, hlq] at hless
      omega
    · exact heq.symm
    · have hless := hordered l k hllt hklt hlt
      rw [hkp, hlq] at hless
      omega
  · obtain ⟨j, line, -, -, -, htest⟩ := hread k p hp
    exact (testPoint_fields htest).2.1
  · refine h.plan.imp_right ?_
    rintro ⟨j, line, n, honly, hj, hn, hcount, hreason, hplace⟩
    refine ⟨j, line, n, honly, hj, hn, hcount, hreason, hplace.imp (fun hfront p hp => ?_)
      fun hback p hp => ?_⟩
    · exact hfront p.bare (List.mem_map_of_mem hp)
    · exact hback p.bare (List.mem_map_of_mem hp)
  · refine h.bailout.imp_right ?_
    rintro ⟨j, line, honly, hj, hreason, hnumber, hback⟩
    exact ⟨j, line, honly, hj, hreason, hnumber, fun p hp =>
      hback p.bare (List.mem_map_of_mem hp)⟩
  · obtain ⟨k, p, hk, hline⟩ := hreported j line hj (.inr htest)
    obtain ⟨i, found, hi, -, hpline, hpoint⟩ := hread k p hk
    have heq : i = j := by omega
    subst heq
    rw [hj, Option.some.injEq] at hi
    subst hi
    exact ⟨p, List.mem_of_getElem? hk, hline, status_of_notOkLine (p := p.bare) hpoint htest hnone⟩

/-- No index of the parser is out of range, and an accepted report is faithful exactly when no
block that opens in the first column stands around a test line. -/
theorem tap_faithful_iff (text : String) :
    parse text ≠ .error .outOfRange ∧ ∀ report, parse text = .ok report →
      (Faithful (reportLines text) report ↔ ∀ i j, ¬Hides (reportLines text) i j) := by
  refine ⟨inRange_parse text, fun report h => ?_⟩
  rw [parse, Loop.guard_eq_ok_iff] at h
  obtain ⟨s, hloop, hfinish⟩ := Loop.bind_eq_ok_iff.mp h.2
  have hinv := Inv.of_foldlM hloop
  refine ⟨fun hfaithful i j hhides => ?_, hinv.faithful report hfinish⟩
  obtain ⟨hhidden, line, hj, htest⟩ := exists_hides_iff.mp ⟨i, hhides⟩
  obtain ⟨k, ⟨p, hk, hline⟩, -⟩ := hfaithful.reported j line hj htest
  obtain ⟨-, -, -, rfl⟩ := finish_eq_ok_iff.mp hfinish
  have hbare : (s.points.map Point.bare)[k]? = some p.bare := by
    rw [List.getElem?_map, hk]
    rfl
  obtain ⟨l, found, -, hvisible, hpline, -⟩ := hinv.tests.read k _ hbare
  have heq : l = j := by
    change p.reportLine = l + 1 at hpline
    omega
  exact hvisible (heq ▸ hhidden)

/-- A report with its plan in front, a diagnostic block, a comment and an early end. -/
def sampleReport : String :=
  "TAP version 13\n1..3\nnot ok 1 - a\n  ---\n  found: ok 2\n  ...\n# slow\nok 2 # SKIP b\n" ++
    "Bail out! full\n# end"

/-- The report of a run that ended early is faithful, with its diagnostics at the failed test. -/
theorem tap_faithful_iff_sample :
    ∃ report, parse sampleReport = .ok report ∧ Faithful (reportLines sampleReport) report ∧
      report.points.map (fun p => (p.status, p.diagnostics)) =
        [("failed", ["  ---", "  found: ok 2", "  ...", "# slow"]), ("skipped", [])] ∧
      report.plan = some 3 ∧ report.bailout = some "full" := by
  refine ⟨_, rfl, ((tap_faithful_iff sampleReport).2 _ rfl).mpr fun i j hhides => ?_, rfl, rfl, rfl⟩
  have hnone : ∀ line ∈ reportLines sampleReport, ¬Opens line := by decide
  obtain ⟨-, ⟨opener, hi, hopens⟩, -⟩ := hhides
  exact hnone opener (List.mem_of_getElem? hi) hopens

/-- A failed test in a block that opens in the first column is lost, and the report is green. -/
theorem tap_hides_failure :
    ∃ report, parse "ok 1\n--- \nnot ok 2\n...\n1..1" = .ok report ∧
      (∀ p ∈ report.points, p.status = "passed") ∧
        ¬Faithful (reportLines "ok 1\n--- \nnot ok 2\n...\n1..1") report := by
  refine ⟨_, rfl, by decide, fun h => ?_⟩
  have hdirective : ¬HasDirective "not ok 2" := fun h => absurd h.1 (by decide)
  obtain ⟨p, hp, hline, -⟩ := h.failed 2 "not ok 2" rfl (by decide) hdirective
  rw [List.mem_singleton.mp hp] at hline
  exact absurd hline (by decide)

end Moonfort.Tap
