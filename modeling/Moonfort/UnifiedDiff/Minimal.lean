import Moonfort.CommonSubsequence
import Moonfort.UnifiedDiff.Correctness

/-!
# Unified diffs are minimal

The table of `unified` holds the lengths of the longest common subsequences of all pairs of
suffixes, and the walk through it keeps that many lines. No edits between the two texts change
fewer lines than the patch does.
-/

namespace Moonfort.UnifiedDiff

open CommonSubsequence MoonBit

/-- How many lines are added or removed. -/
def changes (edits : List Edit) : ℕ :=
  (edits.filter fun e => e.kind == .added).length +
    (edits.filter fun e => e.kind == .removed).length

/-- The lines that are kept. -/
def keptLines (edits : List Edit) : List Line := (edits.filter isContext).map Edit.line

/-- An edit is a change unless it is context. -/
theorem changes_cons (kind : EditKind) (line : Line) (rest : List Edit) :
    changes (⟨kind, line⟩ :: rest) = (if kind = .context then 0 else 1) + changes rest := by
  cases kind <;> simp [changes] <;> omega

/-- An edit keeps its line if it is context. -/
theorem keptLines_cons (kind : EditKind) (line : Line) (rest : List Edit) :
    keptLines (⟨kind, line⟩ :: rest) =
      if kind = .context then line :: keptLines rest else keptLines rest := by
  cases kind <;> rfl

/-- Every line of either text is kept or changed. -/
theorem length_add_length (edits : List Edit) :
    (oldLines edits).length + (newLines edits).length =
      changes edits + 2 * (keptLines edits).length := by
  induction edits with
  | nil => rfl
  | cons edit rest ih =>
    obtain ⟨kind, line⟩ := edit
    cases kind <;>
      simp only [oldLines_cons, newLines_cons, changes_cons, keptLines_cons, reduceCtorEq, if_true,
        if_false, List.length_cons] <;> omega

/-- The kept lines are a common subsequence. -/
theorem keptLines_sublist (edits : List Edit) :
    (keptLines edits).Sublist (oldLines edits) ∧ (keptLines edits).Sublist (newLines edits) := by
  constructor
  · refine List.Sublist.map _ (List.monotone_filter_right _ fun e he => ?_)
    rw [isContext, beq_iff_eq] at he
    simp [he]
  · refine List.Sublist.map _ (List.monotone_filter_right _ fun e he => ?_)
    rw [isContext, beq_iff_eq] at he
    simp [he]

/-- Edits keep at most as many lines as a longest common subsequence has. -/
theorem keptLines_le {edits : List Edit} {left right : List Line} (hold : oldLines edits = left)
    (hnew : newLines edits = right) : (keptLines edits).length ≤ longest left right := by
  obtain ⟨hleft, hright⟩ := keptLines_sublist edits
  rw [hold] at hleft
  rw [hnew] at hright
  exact length_le_longest left right hleft hright

/-! ## The table and the walk -/

/-- The entry that the loop computes is right. -/
theorem lengthEntry_eq {left right : List Line} {i j : ℕ} {lengths : Array ℕ}
    (h : Filled left right i (j + 1) lengths) (hi : i < left.length) (hj : j < right.length) :
    lengthEntry left right (right.length + 1) i j lengths =
      longest (left.drop i) (right.drop j) := by
  have hl := List.getElem?_eq_getElem hi
  have hr := List.getElem?_eq_getElem hj
  rw [h.next hl hr, lengthEntry, hl, hr]
  simp only [Option.some.injEq]

/-- The table is right everywhere. -/
theorem filled_commonLengths (left right : List Line) :
    Filled left right 0 0 (commonLengths left right) := by
  unfold commonLengths
  dsimp only
  refine foldl_countdown (P := fun i lengths => Filled left right i 0 lengths)
    (filled_replicate left right) fun i lengths hi hbelow => ?_
  refine foldl_countdown (P := fun j lengths => Filled left right i j lengths) hbelow.row
    fun j lengths hj hbeside => ?_
  exact hbeside.set hi hj (lengthEntry_eq hbeside hi hj)

/-- The walk keeps as many lines as a longest common subsequence of what is left has. -/
theorem keptLines_editsFrom {old new : List Line} {lengths : Array ℕ}
    (h : Filled old new 0 0 lengths) (i j : ℕ) (left right : List Line) (hi : i ≤ old.length)
    (hj : j ≤ new.length) (hleft : left = old.drop i) (hright : right = new.drop j) :
    (keptLines (editsFrom lengths (new.length + 1) i j left right)).length =
      longest left right := by
  -- The rest behind the first line is the next suffix.
  have hnext : ∀ {lines rest : List Line} {line : Line} {k : ℕ}, line :: rest = lines.drop k →
      k + 1 ≤ lines.length ∧ rest = lines.drop (k + 1) := by
    intro lines rest line k hdrop
    have hlength := congrArg List.length hdrop
    rw [List.length_cons, List.length_drop] at hlength
    refine ⟨by omega, ?_⟩
    rw [← List.tail_drop, ← hdrop, List.tail_cons]
  fun_induction editsFrom lengths (new.length + 1) i j left right with
  | case1 => simp [keptLines]
  | case2 i j l left ih =>
    obtain ⟨hi', hleft'⟩ := hnext hleft
    rw [keptLines_cons, if_neg (by decide), ih hi' hj hleft' hright, longest_nil_right,
      longest_nil_right]
  | case3 i j r right ih =>
    obtain ⟨hj', hright'⟩ := hnext hright
    rw [keptLines_cons, if_neg (by decide), ih hi hj' hleft hright', longest_nil_left,
      longest_nil_left]
  | case4 i j left r right ih =>
    obtain ⟨hi', hleft'⟩ := hnext hleft
    obtain ⟨hj', hright'⟩ := hnext hright
    rw [keptLines_cons, if_pos rfl, List.length_cons, ih hi' hj' hleft' hright', longest_cons_self]
  | case5 i j l left r right hne hle ih =>
    obtain ⟨hi', hleft'⟩ := hnext hleft
    obtain ⟨hj', hright'⟩ := hnext hright
    have hbelow := h.entry (i + 1) j hi' hj (by omega)
    have hbeside := h.entry i (j + 1) hi hj' (by omega)
    rw [Nat.add_assoc, hbelow, hbeside, ← hleft, ← hright, ← hleft', ← hright'] at hle
    rw [keptLines_cons, if_neg (by decide), ih hi' hj hleft' hright, longest_cons_of_ne hne]
    omega
  | case6 i j l left r right hne hlt ih =>
    obtain ⟨hi', hleft'⟩ := hnext hleft
    obtain ⟨hj', hright'⟩ := hnext hright
    have hbelow := h.entry (i + 1) j hi' hj (by omega)
    have hbeside := h.entry i (j + 1) hi hj' (by omega)
    rw [Nat.add_assoc, hbelow, hbeside, ← hleft, ← hright, ← hleft', ← hright'] at hlt
    rw [keptLines_cons, if_neg (by decide), ih hi hj' hleft hright', longest_cons_of_ne hne]
    omega

/-- The edits keep a longest common subsequence. -/
theorem keptLines_edits (left right : List Line) :
    (keptLines (edits left right)).length = longest left right :=
  keptLines_editsFrom (filled_commonLengths left right) 0 0 left right (Nat.zero_le _)
    (Nat.zero_le _) rfl rfl

/-! ## The hunks -/

/-- Context holds no edit of another kind. -/
theorem filter_eq_nil_of_context {edits : List Edit} (h : ∀ e ∈ edits, isContext e = true)
    {kind : EditKind} (hkind : kind ≠ .context) : (edits.filter fun e => e.kind == kind) = [] := by
  rw [List.filter_eq_nil_iff]
  intro e he hsame
  have hcontext := h e he
  rw [isContext, beq_iff_eq] at hcontext
  rw [beq_iff_eq, hcontext] at hsame
  exact hkind hsame.symm

/-- The hunks hold every change once. -/
theorem filter_hunksFrom (context before beforeNew : ℕ) (edits : List Edit) {kind : EditKind}
    (hkind : kind ≠ .context) :
    (((hunksFrom context before beforeNew edits).flatMap Hunk.body).filter
      fun e => e.kind == kind) = edits.filter fun e => e.kind == kind := by
  induction hsize : edits.length using Nat.strong_induction_on
    generalizing before beforeNew edits with
  | _ size ih =>
    rw [hunksFrom]
    split
    · rename_i hlast
      have hcontext : ∀ e ∈ edits, isContext e = true := by
        intro e he
        have hmem : e ∈ edits.take edits.length := by rwa [List.take_length]
        exact isContext_of_mem_take hlast e hmem
      rw [filter_eq_nil_of_context hcontext hkind]
      rfl
    · rename_i hchange
      dsimp only
      set change := (edits.takeWhile isContext).length
      set last := lastChange context change (change + 1) (edits.drop (change + 1))
      set stop := min (last + context + 1) edits.length with hstop
      have hle := le_lastChange context change (change + 1) (edits.drop (change + 1)) (by omega)
      have hgap : ∀ e ∈ edits.take (change - context), isContext e = true :=
        isContext_of_mem_take (by omega)
      have hsplit : edits.take (change - context) ++
          ((edits.take stop).drop (change - context) ++ edits.drop stop) = edits := by
        have htake : edits.take (change - context) = (edits.take stop).take (change - context) := by
          rw [List.take_take, Nat.min_eq_left (by omega)]
        rw [htake, ← List.append_assoc, List.take_append_drop, List.take_append_drop]
      have hrest := ih (edits.drop stop).length (by rw [List.length_drop]; omega)
      rw [List.flatMap_cons, List.filter_append, hrest _ _ _ rfl]
      conv_rhs => rw [← hsplit]
      rw [List.filter_append, List.filter_append, filter_eq_nil_of_context hgap hkind,
        List.nil_append]

/-- What the result of `unified` says about the lines of the texts. -/
theorem unified_eq_ok {before after oldLabel newLabel : String} {context : ℤ}
    (hbefore : withinLimits before = true) (hafter : withinLimits after = true)
    (hold : labelIsValid oldLabel = true) (hnew : labelIsValid newLabel = true)
    (hcontext : 0 ≤ context ∧ context ≤ 20) :
    ∃ diff hunks script, unified before after oldLabel newLabel context = .ok diff ∧
      readPatch diff.patch.toList = some hunks ∧
      script = edits (splitLines before.toList) (splitLines after.toList) ∧
      diff.addedLines = (script.filter fun e => e.kind == .added).length ∧
      diff.removedLines = (script.filter fun e => e.kind == .removed).length ∧
      ∀ kind, kind ≠ .context → ((hunks.flatMap Hunk.body).filter fun e => e.kind == kind) =
        script.filter fun e => e.kind == kind := by
  have hleft := (lines_eq_ok_iff before _).mpr ⟨hbefore, rfl⟩
  have hright := (lines_eq_ok_iff after _).mpr ⟨hafter, rfl⟩
  set left := splitLines before.toList with hleftdef
  set right := splitLines after.toList with hrightdef
  have hwell : ∀ e ∈ edits left right, IsLine e.line := by
    intro e he
    rcases mem_editsFrom he with h | h
    · exact isLine_of_mem_splitLines h
    · exact isLine_of_mem_splitLines h
  rw [unified, if_neg (by simpa using hcontext), if_neg (by simp [hold, hnew]), hleft, hright]
  simp only [bind, Except.bind]
  split
  · rename_i hzero
    have hkept := (count_eq_zero_iff _).mp hzero
    refine ⟨_, [], edits left right, rfl, rfl, rfl, rfl, rfl, fun kind hkind => ?_⟩
    rw [filter_eq_nil_of_context hkept hkind]
    rfl
  · have hread := readPatch_output hold hnew (hunksFrom_counted context.toNat 0 0 _ hwell)
    refine ⟨_, _, edits left right, rfl, ?_, rfl, rfl, rfl, fun kind hkind =>
      filter_hunksFrom context.toNat 0 0 _ hkind⟩
    rw [String.toList_ofList]
    exact hread

/-- Within the limits, the added and the removed lines of the diff, which are those of the hunks
in its patch, are together the lines of both texts but twice those of a longest common
subsequence. No edits from one text to the other are fewer. -/
theorem unified_minimal (before after oldLabel newLabel : String) (context : ℤ)
    (hbefore : withinLimits before = true) (hafter : withinLimits after = true)
    (hold : labelIsValid oldLabel = true) (hnew : labelIsValid newLabel = true)
    (hcontext : 0 ≤ context ∧ context ≤ 20) :
    ∃ diff hunks common, unified before after oldLabel newLabel context = .ok diff ∧
      readPatch diff.patch.toList = some hunks ∧
      changes (hunks.flatMap Hunk.body) = diff.addedLines + diff.removedLines ∧
      IsLongest (splitLines before.toList) (splitLines after.toList) common ∧
      diff.addedLines + diff.removedLines =
        (splitLines before.toList).length + (splitLines after.toList).length - 2 * common ∧
      ∀ script, oldLines script = splitLines before.toList →
        newLines script = splitLines after.toList →
          diff.addedLines + diff.removedLines ≤ changes script := by
  obtain ⟨diff, hunks, script, hdiff, hread, rfl, hadded, hremoved, hhunks⟩ :=
    unified_eq_ok hbefore hafter hold hnew hcontext
  set left := splitLines before.toList
  set right := splitLines after.toList
  obtain ⟨holdLines, hnewLines⟩ := editsFrom_lines (commonLengths left right) (right.length + 1)
    0 0 left right
  have hcount : changes (edits left right) = diff.addedLines + diff.removedLines := by
    rw [changes, hadded, hremoved]
  have hlength := length_add_length (edits left right)
  rw [hcount, keptLines_edits, edits, holdLines, hnewLines] at hlength
  refine ⟨diff, hunks, longest left right, hdiff, hread, ?_, isLongest_longest left right,
    by omega, fun other hother hother' => ?_⟩
  · rw [changes, hhunks .added (by decide), hhunks .removed (by decide), hadded, hremoved]
  · have hkept := keptLines_le hother hother'
    have hsum := length_add_length other
    rw [hother, hother'] at hsum
    omega

/-- Of three and two lines one is kept. -/
theorem unified_minimal_sample : ∃ diff hunks common,
    unified "a\nb\nc\n" "c\nd\n" "old" "new" 1 = .ok diff ∧
      readPatch diff.patch.toList = some hunks ∧
      changes (hunks.flatMap Hunk.body) = diff.addedLines + diff.removedLines ∧
      IsLongest (splitLines "a\nb\nc\n".toList) (splitLines "c\nd\n".toList) common ∧
      diff.addedLines + diff.removedLines =
        (splitLines "a\nb\nc\n".toList).length + (splitLines "c\nd\n".toList).length -
          2 * common ∧
      ∀ script, oldLines script = splitLines "a\nb\nc\n".toList →
        newLines script = splitLines "c\nd\n".toList →
          diff.addedLines + diff.removedLines ≤ changes script :=
  unified_minimal "a\nb\nc\n" "c\nd\n" "old" "new" 1 (by decide) (by decide) (by decide)
    (by decide) (by decide)

end Moonfort.UnifiedDiff
