import Moonfort.UnifiedDiff.Unified

/-!
# Unified diffs apply

The hunks that `unified` writes describe the change between its two texts, and a
reader of the patch finds exactly these hunks again.
-/

namespace Moonfort.UnifiedDiff

open MoonBit

/-- The parts of a text between its newlines give its lines. -/
theorem partLines_splitOn (text : List Char) :
    partLines (text.splitOn '\n') = splitLines text := by
  induction text with
  | nil => rfl
  | cons c rest ih =>
    rw [List.splitOn_cons_eq_if_modifyHead]
    obtain ⟨part, parts, hparts⟩ := List.exists_cons_of_ne_nil (List.splitOn_ne_nil '\n' rest)
    rw [hparts] at ih ⊢
    by_cases hc : c = '\n'
    · subst hc
      rw [splitLines, ← ih]
      rfl
    · rw [splitLines_cons hc, ← ih, if_neg (by simpa using hc), List.modifyHead_cons]
      cases parts with
      | nil =>
        cases part with
        | nil => rfl
        | cons d part => rfl
      | cons next parts => rfl

/-- A text that `unified` takes: its size, its characters and its number of lines. -/
def withinLimits (text : String) : Bool :=
  utf8Length text ≤ 262144 && allChars text textChar && (splitLines text.toList).length ≤ 2000

/-- `lines` answers with the lines of the text exactly within the limits. -/
theorem lines_eq_ok_iff (text : String) (result : List Line) :
    lines text = .ok result ↔ withinLimits text = true ∧ result = splitLines text.toList := by
  unfold lines withinLimits
  rw [partLines_splitOn]
  by_cases hsize : 262144 < utf8Length text
  · have hlarge : ¬ utf8Length text ≤ 262144 := by omega
    simp [hsize, hlarge]
  have hsmall : decide (utf8Length text ≤ 262144) = true := by
    rw [decide_eq_true_eq]
    omega
  rw [if_neg hsize, hsmall, Bool.true_and]
  by_cases hchars : allChars text textChar = true
  · rw [if_neg (by rw [hchars]; decide), hchars, Bool.true_and, decide_eq_true_eq]
    by_cases hempty : text = ""
    · have hnil : splitLines text.toList = [] := by
        rw [hempty]
        rfl
      rw [if_pos (by rw [hempty]; rfl), hnil, List.length_nil, Except.ok.injEq]
      exact ⟨fun h => ⟨by omega, h.symm⟩, fun h => h.2.symm⟩
    · rw [if_neg (by simpa using hempty)]
      dsimp only
      by_cases hlength : 2000 < (splitLines text.toList).length
      · rw [if_pos hlength]
        exact ⟨(fun h => by cases h), fun h => absurd h.1 (by omega)⟩
      · rw [if_neg hlength, Except.ok.injEq]
        exact ⟨fun h => ⟨by omega, h.symm⟩, fun h => h.2.symm⟩
  · rw [if_pos (by simpa using hchars), Bool.eq_false_of_not_eq_true hchars, Bool.false_and]
    exact ⟨(fun h => by cases h), fun h => by cases h.1⟩

/-- An edit that adds nothing holds an old line. -/
theorem oldLines_cons (kind : EditKind) (line : Line) (rest : List Edit) :
    oldLines (⟨kind, line⟩ :: rest) =
      if kind = .added then oldLines rest else line :: oldLines rest := by
  cases kind <;> rfl

/-- An edit that removes nothing holds a new line. -/
theorem newLines_cons (kind : EditKind) (line : Line) (rest : List Edit) :
    newLines (⟨kind, line⟩ :: rest) =
      if kind = .removed then newLines rest else line :: newLines rest := by
  cases kind <;> rfl

/-- The old lines of two scripts. -/
theorem oldLines_append (a b : List Edit) : oldLines (a ++ b) = oldLines a ++ oldLines b := by
  simp [oldLines]

/-- The new lines of two scripts. -/
theorem newLines_append (a b : List Edit) : newLines (a ++ b) = newLines a ++ newLines b := by
  simp [newLines]

/-- Whatever the table says, the edits of a walk lead from one text to the other. -/
theorem editsFrom_lines (lengths : Array ℕ) (width i j : ℕ) (left right : List Line) :
    oldLines (editsFrom lengths width i j left right) = left ∧
      newLines (editsFrom lengths width i j left right) = right := by
  fun_induction editsFrom lengths width i j left right with
  | case1 => exact ⟨rfl, rfl⟩
  | case2 i j l left ih => simp [oldLines_cons, newLines_cons, ih]
  | case3 i j r right ih => simp [oldLines_cons, newLines_cons, ih]
  | case4 i j l left right ih => simp [oldLines_cons, newLines_cons, ih]
  | case5 i j l left r right hne hle ih => simp [oldLines_cons, newLines_cons, ih]
  | case6 i j l left r right hne hlt ih => simp [oldLines_cons, newLines_cons, ih]

/-- Where nothing changes, the old and the new lines are the same. -/
theorem newLines_eq_of_context {edits : List Edit} (h : ∀ e ∈ edits, isContext e = true) :
    newLines edits = oldLines edits := by
  induction edits with
  | nil => rfl
  | cons e edits ih =>
    obtain ⟨kind, line⟩ := e
    have hkind : kind = .context := by simpa [isContext] using h _ List.mem_cons_self
    have hrest := ih fun e he => h e (List.mem_cons_of_mem _ he)
    rw [hkind, oldLines_cons, newLines_cons, if_neg (by decide), if_neg (by decide), hrest]

/-- The edits before the first change all keep their lines. -/
theorem isContext_of_mem_take {edits : List Edit} {count : ℕ}
    (hcount : count ≤ (edits.takeWhile isContext).length) :
    ∀ e ∈ edits.take count, isContext e = true := by
  intro e he
  have hprefix : edits.take (edits.takeWhile isContext).length = edits.takeWhile isContext :=
    (List.prefix_iff_eq_take.mp (List.takeWhile_prefix isContext)).symm
  have hmem : e ∈ edits.takeWhile isContext := by
    rw [← hprefix]
    exact List.mem_of_mem_take (by rwa [List.take_take, Nat.min_eq_left hcount])
  exact List.all_eq_true.mp List.all_takeWhile e hmem

/-- The last change of a hunk is not before its first one. -/
theorem le_lastChange (context last scan : ℕ) (edits : List Edit) (h : last ≤ scan) :
    last ≤ lastChange context last scan edits := by
  induction edits generalizing last scan with
  | nil => exact le_rfl
  | cons edit rest ih =>
    rw [lastChange]
    split
    · exact ih last (scan + 1) (by omega)
    · split
      · exact le_rfl
      · exact h.trans (ih scan (scan + 1) (by omega))

/-- The hunks around the changes describe the change of the lines. -/
theorem hunksFrom_describes (context before beforeNew : ℕ) (edits : List Edit) :
    Describes before beforeNew (oldLines edits) (newLines edits)
      (hunksFrom context before beforeNew edits) := by
  induction hsize : edits.length using Nat.strong_induction_on
    generalizing before beforeNew edits with
  | _ size ih =>
    rw [hunksFrom]
    split
    · rename_i hlast
      have hcontext : ∀ e ∈ edits, isContext e = true := by
        intro e he
        have hmem : e ∈ edits.take edits.length := by rwa [List.take_length]
        exact isContext_of_mem_take hlast e hmem
      rw [newLines_eq_of_context hcontext]
      exact .rest before beforeNew (oldLines edits)
    · rename_i hchange
      have hle := le_lastChange context (edits.takeWhile isContext).length
        ((edits.takeWhile isContext).length + 1)
        (edits.drop ((edits.takeWhile isContext).length + 1)) (by omega)
      set change := (edits.takeWhile isContext).length with hchangedef
      set last := lastChange context change (change + 1) (edits.drop (change + 1))
      set stop := min (last + context + 1) edits.length with hstop
      have hgap : ∀ e ∈ edits.take (change - context), isContext e = true :=
        isContext_of_mem_take (by omega)
      have hsplit : edits.take (change - context) ++
          ((edits.take stop).drop (change - context) ++ edits.drop stop) = edits := by
        have htake : edits.take (change - context) = (edits.take stop).take (change - context) := by
          rw [List.take_take, Nat.min_eq_left (by omega)]
        rw [htake, ← List.append_assoc, List.take_append_drop, List.take_append_drop]
      have hold := congrArg oldLines hsplit
      have hnew := congrArg newLines hsplit
      rw [oldLines_append, oldLines_append, ← List.append_assoc] at hold
      rw [newLines_append, newLines_append, ← List.append_assoc, newLines_eq_of_context hgap]
        at hnew
      have htail := ih (edits.drop stop).length (by rw [List.length_drop]; omega)
        (before + (oldLines (edits.take (change - context))).length +
          (oldLines ((edits.take stop).drop (change - context))).length)
        (beforeNew + (oldLines (edits.take (change - context))).length +
          (newLines ((edits.take stop).drop (change - context))).length) (edits.drop stop) rfl
      have hhunk := Describes.hunk (oldLines (edits.take (change - context)))
        ((edits.take stop).drop (change - context)) htail
      rw [hold, hnew] at hhunk
      dsimp only
      rw [newLines_eq_of_context hgap]
      exact hhunk

/-- The characters of a range: digits and a comma. -/
theorem mem_range {start count : ℕ} {c : Char} (hc : c ∈ range start count) :
    c.isDigit = true ∨ c = ',' := by
  unfold range at hc
  split at hc
  · exact .inl (toDigits_isDigit c hc)
  · rcases List.mem_append.mp hc with hc | hc
    · exact .inl (toDigits_isDigit c hc)
    · rcases List.mem_cons.mp hc with hc | hc
      · exact .inr hc
      · exact .inl (toDigits_isDigit c hc)

/-- A range is written in digits and a comma. -/
theorem notMem_range {start count : ℕ} {c : Char} (hdigit : c.isDigit = false) (hcomma : c ≠ ',') :
    c ∉ range start count := by
  intro hc
  rcases mem_range hc with h | h
  · rw [hdigit] at h
    cases h
  · exact hcomma h

/-- A written number reads back. -/
theorem readNumber_toDigits (n : ℕ) : readNumber (Nat.toDigits 10 n) = some n := by
  have hdigits : (Nat.toDigits 10 n).all Char.isDigit = true :=
    List.all_eq_true.mpr fun c hc => toDigits_isDigit c hc
  rw [readNumber, if_pos ⟨Nat.toDigits_ne_nil, hdigits⟩, Nat.ofDigitChars_ten_toDigits]

/-- A written number has no comma. -/
theorem comma_notMem_toDigits (n : ℕ) : ',' ∉ Nat.toDigits 10 n := by
  intro h
  exact absurd (toDigits_isDigit _ h) (by decide)

/-- A range is read as it was written. -/
theorem readRange_range (start count : ℕ) :
    readRange (range start count) = some (start, count) := by
  by_cases hone : count = 1
  · have hsplit : (range start count).splitOn ',' = [Nat.toDigits 10 start] := by
      rw [range, if_pos hone, List.splitOn_eq_singleton (comma_notMem_toDigits start)]
    rw [readRange, hsplit]
    simp only [readNumber_toDigits, Option.map_some, hone]
  · have hsplit : (range start count).splitOn ',' =
        [Nat.toDigits 10 start, Nat.toDigits 10 count] := by
      rw [range, if_neg hone,
        List.splitOn_append_cons_self_of_not_mem (comma_notMem_toDigits start),
        List.splitOn_eq_singleton (comma_notMem_toDigits count)]
    rw [readRange, hsplit]
    simp only [readNumber_toDigits, Option.bind_eq_bind, Option.bind_some]
    rfl

/-- The first line of a hunk. -/
def hunkLine (hunk : Hunk) : Line :=
  "@@ -".toList ++ range hunk.oldStart hunk.oldCount ++ " +".toList ++
    range hunk.newStart hunk.newCount ++ " @@\n".toList

/-- The parts of a hunk's header. -/
theorem hunkLine_eq (hunk : Hunk) : hunkLine hunk =
    "@@ -".toList ++ range hunk.oldStart hunk.oldCount ++ " +".toList ++
      range hunk.newStart hunk.newCount ++ " @@\n".toList := rfl

/-- The lines of a hunk's edit: the line, and its marker when it has no newline. -/
def editLines (edit : Edit) : List Line :=
  if edit.line.getLast? = some '\n' then [kindChar edit.kind :: edit.line]
  else [kindChar edit.kind :: (edit.line ++ ['\n']), "\\ No newline at end of file\n".toList]

/-- The marks of a hunk's first line. -/
theorem hunkMarks : "@@ -".toList = ['@', '@', ' ', '-'] ∧ " +".toList = [' ', '+'] ∧
    " @@".toList = [' ', '@', '@'] ∧ " @@\n".toList = [' ', '@', '@', '\n'] := by decide

/-- The first line of a hunk is read as it was written. -/
theorem readHunkStart_hunkLine (reader : Reader) (hunk : Hunk) :
    readHunkStart reader (hunkLine hunk) =
      some ⟨{ hunk with body := [] } :: reader.hunks, hunk.oldCount, hunk.newCount⟩ := by
  have hold : ' ' ∉ '-' :: range hunk.oldStart hunk.oldCount := by
    rw [List.mem_cons, not_or]
    exact ⟨by decide, notMem_range (by decide) (by decide)⟩
  have hnew : ' ' ∉ '+' :: range hunk.newStart hunk.newCount := by
    rw [List.mem_cons, not_or]
    exact ⟨by decide, notMem_range (by decide) (by decide)⟩
  have hline : hunkLine hunk = ['@', '@'] ++ ' ' ::
      (('-' :: range hunk.oldStart hunk.oldCount) ++ ' ' ::
        (('+' :: range hunk.newStart hunk.newCount) ++ ' ' :: ['@', '@', '\n'])) := by
    obtain ⟨hopen, hplus, -, hclose⟩ := hunkMarks
    rw [hunkLine_eq, hopen, hplus, hclose]
    simp only [List.append_assoc, List.cons_append, List.nil_append]
  have hsplit : (hunkLine hunk).splitOn ' ' = [['@', '@'],
      '-' :: range hunk.oldStart hunk.oldCount, '+' :: range hunk.newStart hunk.newCount,
      ['@', '@', '\n']] := by
    rw [hline, List.splitOn_append_cons_self_of_not_mem (by decide),
      List.splitOn_append_cons_self_of_not_mem hold, List.splitOn_append_cons_self_of_not_mem hnew,
      List.splitOn_eq_singleton (by decide)]
  rw [readHunkStart, hsplit]
  simp only [readRange_range, Option.bind_eq_bind, Option.bind_some]
  rfl

/-- How many lines of the old text an edit covers. -/
def oldCount (edit : Edit) : ℕ := if edit.kind = .added then 0 else 1

/-- How many lines of the new text an edit covers. -/
def newCount (edit : Edit) : ℕ := if edit.kind = .removed then 0 else 1

/-- The line of an edit, without its marker, goes to the body of the open hunk. -/
theorem readLine_edit (hunk : Hunk) (hunks : List Hunk) (oldLeft newLeft : ℕ) (kind : EditKind)
    (line : Line) (hold : oldCount ⟨kind, line⟩ ≤ oldLeft)
    (hnew : newCount ⟨kind, line⟩ ≤ newLeft) :
    readLine ⟨hunk :: hunks, oldLeft, newLeft⟩ (kindChar kind :: line) =
      some ⟨{ hunk with body := hunk.body ++ [⟨kind, line⟩] } :: hunks,
        oldLeft - oldCount ⟨kind, line⟩, newLeft - newCount ⟨kind, line⟩⟩ := by
  cases kind with
  | context =>
    have ho : 0 < oldLeft := hold
    have hn : 0 < newLeft := hnew
    simp [readLine, kindChar, addEdit, oldCount, newCount, ho, hn, ho.ne']
  | removed =>
    have ho : 0 < oldLeft := hold
    simp [readLine, kindChar, addEdit, oldCount, newCount, ho, ho.ne']
  | added =>
    have hn : 0 < newLeft := hnew
    simp [readLine, kindChar, addEdit, oldCount, newCount, hn, hn.ne']

/-- The lines of an edit are read as the edit. -/
theorem readLines_editLines (hunk : Hunk) (hunks : List Hunk) (oldLeft newLeft : ℕ) (edit : Edit)
    (hold : oldCount edit ≤ oldLeft) (hnew : newCount edit ≤ newLeft) :
    (editLines edit).foldlM readLine ⟨hunk :: hunks, oldLeft, newLeft⟩ =
      some ⟨{ hunk with body := hunk.body ++ [edit] } :: hunks, oldLeft - oldCount edit,
        newLeft - newCount edit⟩ := by
  obtain ⟨kind, line⟩ := edit
  unfold editLines
  split
  · rw [List.foldlM_cons, readLine_edit hunk hunks oldLeft newLeft kind line hold hnew]
    rfl
  · have hread := readLine_edit hunk hunks oldLeft newLeft kind (line ++ ['\n']) hold hnew
    rw [List.foldlM_cons, hread]
    simp [readLine, dropNewline, oldCount, newCount]

/-- An edit counts its old line. -/
theorem oldLines_length_cons (edit : Edit) (rest : List Edit) :
    (oldLines (edit :: rest)).length = oldCount edit + (oldLines rest).length := by
  obtain ⟨kind, line⟩ := edit
  cases kind <;> simp [oldLines_cons, oldCount, Nat.add_comm]

/-- An edit counts its new line. -/
theorem newLines_length_cons (edit : Edit) (rest : List Edit) :
    (newLines (edit :: rest)).length = newCount edit + (newLines rest).length := by
  obtain ⟨kind, line⟩ := edit
  cases kind <;> simp [newLines_cons, newCount, Nat.add_comm]

/-- The lines of a body are read as the body. -/
theorem readLines_body (hunk : Hunk) (hunks : List Hunk) (body : List Edit) :
    (body.flatMap editLines).foldlM readLine
        ⟨hunk :: hunks, (oldLines body).length, (newLines body).length⟩ =
      some ⟨{ hunk with body := hunk.body ++ body } :: hunks, 0, 0⟩ := by
  induction body generalizing hunk with
  | nil =>
    rw [List.append_nil]
    rfl
  | cons edit rest ih =>
    rw [List.flatMap_cons, List.foldlM_append, oldLines_length_cons, newLines_length_cons,
      readLines_editLines hunk hunks _ _ edit (by omega) (by omega)]
    simp only [Option.bind_eq_bind, Option.bind_some, Nat.add_sub_cancel_left]
    rw [ih { hunk with body := hunk.body ++ [edit] }]
    simp

/-- The lines of the text of an edit. -/
theorem splitLines_editText {edit : Edit} (hline : IsLine edit.line) (rest : List Char) :
    splitLines (editText edit ++ rest) = editLines edit ++ splitLines rest := by
  obtain ⟨body, hbody, hedit⟩ := hline
  have hkind : '\n' ∉ kindChar edit.kind :: body := by
    rw [List.mem_cons, not_or]
    exact ⟨by cases edit.kind <;> decide, hbody⟩
  unfold editText editLines
  rcases hedit with hedit | hedit
  · have hlast : edit.line.getLast? = some '\n' := by rw [hedit, List.getLast?_concat]
    have htext : kindChar edit.kind :: edit.line ++ [] ++ rest =
        (kindChar edit.kind :: body) ++ '\n' :: rest := by
      simp [hedit]
    rw [if_pos hlast, if_pos hlast, htext, splitLines_append hkind, hedit]
    rfl
  · have hlast : edit.line.getLast? ≠ some '\n' := by
      intro h
      rw [hedit] at h
      exact hbody (List.mem_of_getLast? h)
    have hmarker : '\n' ∉ "\\ No newline at end of file".toList := by decide
    have htext : kindChar edit.kind :: edit.line ++
          '\n' :: "\\ No newline at end of file\n".toList ++ rest =
        (kindChar edit.kind :: body) ++ '\n' ::
          ("\\ No newline at end of file".toList ++ '\n' :: rest) := by
      simp [hedit]
    rw [if_neg hlast, if_neg hlast, htext, splitLines_append hkind, splitLines_append hmarker,
      hedit]
    rfl

/-- The text of a body splits into its lines. -/
theorem splitLines_bodyText {body : List Edit} (hbody : ∀ e ∈ body, IsLine e.line)
    (rest : List Char) :
    splitLines (body.flatMap editText ++ rest) = body.flatMap editLines ++ splitLines rest := by
  induction body with
  | nil => rfl
  | cons edit body ih =>
    rw [List.flatMap_cons, List.flatMap_cons, List.append_assoc, List.append_assoc,
      splitLines_editText (hbody edit List.mem_cons_self),
      ih fun e he => hbody e (List.mem_cons_of_mem _ he)]

/-- The lines of the text of a hunk. -/
theorem splitLines_hunkText {hunk : Hunk} (hbody : ∀ e ∈ hunk.body, IsLine e.line)
    (rest : List Char) :
    splitLines (hunkText hunk ++ rest) =
      hunkLine hunk :: (hunk.body.flatMap editLines ++ splitLines rest) := by
  have hnotin : '\n' ∉ "@@ -".toList ++ range hunk.oldStart hunk.oldCount ++ " +".toList ++
      range hunk.newStart hunk.newCount ++ " @@".toList := by
    simp only [List.mem_append, not_or]
    exact ⟨⟨⟨⟨by decide, notMem_range (by decide) (by decide)⟩, by decide⟩,
      notMem_range (by decide) (by decide)⟩, by decide⟩
  have htext : hunkText hunk ++ rest = ("@@ -".toList ++ range hunk.oldStart hunk.oldCount ++
      " +".toList ++ range hunk.newStart hunk.newCount ++ " @@".toList) ++ '\n' ::
        (hunk.body.flatMap editText ++ rest) := by
    have hhunk : hunkText hunk = hunkLine hunk ++ hunk.body.flatMap editText := rfl
    obtain ⟨hopen, hplus, hat, hclose⟩ := hunkMarks
    rw [hhunk, hunkLine_eq, hopen, hplus, hat, hclose]
    simp only [List.append_assoc, List.cons_append, List.nil_append]
  rw [htext, splitLines_append hnotin, splitLines_bodyText hbody]
  obtain ⟨hopen, hplus, hat, hclose⟩ := hunkMarks
  rw [hunkLine_eq, hopen, hplus, hat, hclose]
  simp only [List.append_assoc, List.cons_append, List.nil_append]

/-- A hunk whose counts are those of its body. -/
def Hunk.Counted (hunk : Hunk) : Prop :=
  hunk.oldCount = (oldLines hunk.body).length ∧ hunk.newCount = (newLines hunk.body).length ∧
    ∀ e ∈ hunk.body, IsLine e.line

/-- The text of hunks is read as the hunks, after those that were read before. -/
theorem readLines_hunks (earlier hunks : List Hunk) (hcounted : ∀ hunk ∈ hunks, hunk.Counted) :
    (splitLines (hunks.flatMap hunkText)).foldlM readLine ⟨earlier, 0, 0⟩ =
      some ⟨hunks.reverse ++ earlier, 0, 0⟩ := by
  induction hunks generalizing earlier with
  | nil => rfl
  | cons hunk hunks ih =>
    obtain ⟨hold, hnew, hlines⟩ := hcounted hunk List.mem_cons_self
    have hstart : readLine ⟨earlier, 0, 0⟩ (hunkLine hunk) =
        some ⟨{ hunk with body := [] } :: earlier, hunk.oldCount, hunk.newCount⟩ :=
      readHunkStart_hunkLine ⟨earlier, 0, 0⟩ hunk
    have hbody := readLines_body { hunk with body := [] } earlier hunk.body
    rw [← hold, ← hnew] at hbody
    rw [List.flatMap_cons, splitLines_hunkText hlines, List.foldlM_cons, hstart,
      Option.bind_eq_bind, Option.bind_some, List.foldlM_append, hbody, Option.bind_eq_bind,
      Option.bind_some, List.nil_append,
      ih (hunk :: earlier) fun h hh => hcounted h (List.mem_cons_of_mem _ hh)]
    simp

/-- The hunks that `unified` writes count their lines. -/
theorem hunksFrom_counted (context before beforeNew : ℕ) (edits : List Edit)
    (hlines : ∀ e ∈ edits, IsLine e.line) :
    ∀ hunk ∈ hunksFrom context before beforeNew edits, hunk.Counted := by
  induction hsize : edits.length using Nat.strong_induction_on
    generalizing before beforeNew edits with
  | _ size ih =>
    rw [hunksFrom]
    split
    · intro hunk hmem
      cases hmem
    · rename_i hchange
      dsimp only
      intro hunk hmem
      rcases List.mem_cons.mp hmem with rfl | hmem
      · exact ⟨rfl, rfl, fun e he => hlines e (List.mem_of_mem_take (List.mem_of_mem_drop he))⟩
      · exact ih _ (by rw [List.length_drop]; omega) _ _ _
          (fun e he => hlines e (List.mem_of_mem_drop he)) rfl hunk hmem

/-- Every edit of a walk holds a line of one of the texts. -/
theorem mem_editsFrom {lengths : Array ℕ} {width i j : ℕ} {left right : List Line} {edit : Edit}
    (h : edit ∈ editsFrom lengths width i j left right) : edit.line ∈ left ∨ edit.line ∈ right := by
  obtain ⟨hold, hnew⟩ := editsFrom_lines lengths width i j left right
  obtain ⟨kind, line⟩ := edit
  cases kind with
  | added =>
    right
    rw [← hnew]
    exact List.mem_map.mpr ⟨_, List.mem_filter.mpr ⟨h, by simp⟩, rfl⟩
  | context =>
    left
    rw [← hold]
    exact List.mem_map.mpr ⟨_, List.mem_filter.mpr ⟨h, by simp⟩, rfl⟩
  | removed =>
    left
    rw [← hold]
    exact List.mem_map.mpr ⟨_, List.mem_filter.mpr ⟨h, by simp⟩, rfl⟩

/-- Two equal texts have only edits that keep their lines. -/
theorem isContext_of_editsFrom_self (lengths : Array ℕ) (width i j : ℕ) (left : List Line) :
    ∀ e ∈ editsFrom lengths width i j left left, isContext e = true := by
  induction left generalizing i j with
  | nil =>
    intro e he
    rw [editsFrom] at he
    cases he
  | cons l left ih =>
    intro e he
    rw [editsFrom, if_pos rfl] at he
    rcases List.mem_cons.mp he with rfl | he
    · rfl
    · exact ih _ _ e he

/-- Nothing is counted exactly when every line is kept. -/
theorem count_eq_zero_iff (edits : List Edit) :
    (edits.filter fun e => e.kind == .added).length +
        (edits.filter fun e => e.kind == .removed).length = 0 ↔
      ∀ e ∈ edits, isContext e = true := by
  rw [Nat.add_eq_zero_iff, List.length_eq_zero_iff, List.length_eq_zero_iff, List.filter_eq_nil_iff,
    List.filter_eq_nil_iff]
  constructor
  · rintro ⟨hadded, hremoved⟩ ⟨kind, line⟩ he
    have ha := hadded _ he
    have hr := hremoved _ he
    cases kind with
    | context => rfl
    | added => exact absurd rfl ha
    | removed => exact absurd rfl hr
  · intro hcontext
    constructor <;> (intro e he hkind; have h := hcontext e he; simp_all [isContext])

/-- A valid label has no newline. -/
theorem notMem_of_labelIsValid {label : String} (h : labelIsValid label = true) :
    '\n' ∉ label.toList := by
  rw [labelIsValid, Bool.and_eq_true, allChars, List.all_eq_true] at h
  intro hmem
  exact absurd (h.2 _ hmem) (by decide)

/-- The patch that `unified` writes is read as the hunks it was written from. -/
theorem readPatch_output {oldLabel newLabel : String} {hunks : List Hunk}
    (hold : labelIsValid oldLabel = true) (hnew : labelIsValid newLabel = true)
    (hcounted : ∀ hunk ∈ hunks, hunk.Counted) :
    readPatch ("--- ".toList ++ oldLabel.toList ++ "\t\n+++ ".toList ++ newLabel.toList ++
      "\t\n".toList ++ hunks.flatMap hunkText) = some hunks := by
  have holdLine : '\n' ∉ "--- ".toList ++ oldLabel.toList ++ ['\t'] := by
    simp only [List.mem_append, not_or]
    exact ⟨⟨by decide, notMem_of_labelIsValid hold⟩, by decide⟩
  have hnewLine : '\n' ∉ "+++ ".toList ++ newLabel.toList ++ ['\t'] := by
    simp only [List.mem_append, not_or]
    exact ⟨⟨by decide, notMem_of_labelIsValid hnew⟩, by decide⟩
  have htext : "--- ".toList ++ oldLabel.toList ++ "\t\n+++ ".toList ++ newLabel.toList ++
      "\t\n".toList ++ hunks.flatMap hunkText =
        ("--- ".toList ++ oldLabel.toList ++ ['\t']) ++ '\n' ::
          (("+++ ".toList ++ newLabel.toList ++ ['\t']) ++ '\n' :: hunks.flatMap hunkText) := by
    simp
  rw [readPatch, htext, splitLines_append holdLine, splitLines_append hnewLine]
  simp only [readLines_hunks [] hunks hcounted]
  simp [Reader.finish]

/-- The texts of described lines: the patch that is read applies and its reverse applies. -/
theorem applies_of_describes {patch before after : String} {hunks : List Hunk}
    (hread : readPatch patch.toList = some hunks)
    (hdescribes : Describes 0 0 (splitLines before.toList) (splitLines after.toList) hunks) :
    applyPatch patch before = some after ∧ applyReverse patch after = some before := by
  have happly := hdescribes.apply
  have hreverse := hdescribes.reverse.apply
  constructor
  · rw [applyPatch, hread, Option.bind_some, applyToText, happly, Option.map_some, Option.map_some,
      splitLines_flatten, String.ofList_toList]
  · rw [applyReverse, hread, Option.bind_some, applyToText, hreverse, Option.map_some,
      Option.map_some, splitLines_flatten, String.ofList_toList]

/-- Texts with the same lines are the same. -/
theorem eq_of_splitLines_eq {before after : String}
    (h : splitLines before.toList = splitLines after.toList) : before = after := by
  have hflat := congrArg List.flatten h
  rw [splitLines_flatten, splitLines_flatten] at hflat
  exact String.toList_inj.mp hflat

/-- Within the size limits and for every context size from 0 to 20 there is a
patch. It applies to the first text with the second one as the result, its
reverse applies to the second text with the first one as the result, and it is
empty exactly when the texts are equal. -/
theorem unified_applies (before after oldLabel newLabel : String) (context : ℤ)
    (hbefore : withinLimits before = true) (hafter : withinLimits after = true)
    (hold : labelIsValid oldLabel = true) (hnew : labelIsValid newLabel = true)
    (hcontext : 0 ≤ context ∧ context ≤ 20) :
    ∃ diff, unified before after oldLabel newLabel context = .ok diff ∧
      applyPatch diff.patch before = some after ∧
      applyReverse diff.patch after = some before ∧ (diff.patch = "" ↔ before = after) := by
  have hleft := (lines_eq_ok_iff before _).mpr ⟨hbefore, rfl⟩
  have hright := (lines_eq_ok_iff after _).mpr ⟨hafter, rfl⟩
  set left := splitLines before.toList with hleftdef
  set right := splitLines after.toList with hrightdef
  obtain ⟨holdLines, hnewLines⟩ := editsFrom_lines (commonLengths left right) (right.length + 1)
    0 0 left right
  have hdescribes := hunksFrom_describes context.toNat 0 0 (edits left right)
  rw [edits, holdLines, hnewLines] at hdescribes
  have hwell : ∀ e ∈ edits left right, IsLine e.line := by
    intro e he
    rcases mem_editsFrom he with h | h
    · exact isLine_of_mem_splitLines h
    · exact isLine_of_mem_splitLines h
  rw [unified, if_neg (by simpa using hcontext), if_neg (by simp [hold, hnew]), hleft, hright]
  simp only [bind, Except.bind]
  split
  · rename_i hzero
    have hcontext := (count_eq_zero_iff _).mp hzero
    have hsame : before = after := by
      apply eq_of_splitLines_eq
      have hlines := newLines_eq_of_context hcontext
      rw [edits, hnewLines, holdLines] at hlines
      exact hlines.symm
    have hread : readPatch "".toList = some [] := rfl
    have hdescribes : Describes 0 0 (splitLines before.toList) (splitLines after.toList) [] := by
      rw [hsame]
      exact .rest 0 0 _
    have happlies := applies_of_describes hread hdescribes
    exact ⟨_, rfl, happlies.1, happlies.2, fun _ => hsame, fun _ => rfl⟩
  · rename_i hnonzero
    have hread := readPatch_output hold hnew (hunksFrom_counted context.toNat 0 0 _ hwell)
    have hne : before ≠ after := by
      intro heq
      apply hnonzero
      apply (count_eq_zero_iff _).mpr
      have hlr : right = left := by rw [hrightdef, ← heq]
      rw [hlr]
      exact isContext_of_editsFrom_self _ _ 0 0 left
    rw [← String.toList_ofList (l := "--- ".toList ++ oldLabel.toList ++ "\t\n+++ ".toList ++
      newLabel.toList ++ "\t\n".toList ++ _)] at hread
    have happlies := applies_of_describes hread hdescribes
    refine ⟨_, rfl, happlies.1, happlies.2, ?_⟩
    constructor
    · intro hempty
      exact absurd (congrArg String.toList hempty) (by simp)
    · exact fun heq => absurd heq hne

/-- A change in the first of two lines and no newline at the end of the second text. -/
theorem unified_applies_sample : ∃ diff, unified "a\nb\n" "c\nb" "old" "new" 0 = .ok diff ∧
    applyPatch diff.patch "a\nb\n" = some "c\nb" ∧
    applyReverse diff.patch "c\nb" = some "a\nb\n" ∧ (diff.patch = "" ↔ "a\nb\n" = "c\nb") :=
  unified_applies "a\nb\n" "c\nb" "old" "new" 0 (by decide) (by decide) (by decide) (by decide)
    (by decide)

end Moonfort.UnifiedDiff
