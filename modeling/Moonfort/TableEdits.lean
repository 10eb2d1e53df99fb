import Mathlib.Data.List.Basic
import Mathlib.Data.List.Nodup
import Mathlib.Data.List.Range
import Mathlib.Data.List.Induction
import Mathlib.Data.List.InsertIdx

/-!
# Edits of tables

A table is a list of rows. An edit names a row of the table as it is when the edit is made, so
an earlier removal shifts the rows behind it. The rows may live in a memory of mutable arrays,
where two tables can share a row.
-/

namespace TableEdits

variable {α : Type}

/-- An edit of the current table. -/
inductive Edit (α : Type) where
  | set (row column : ℕ) (value : α)
  | remove (row : ℕ)
  | append (cells : List α)
  deriving DecidableEq

namespace Edit

/-- The table after an edit. -/
def applyTo (edit : Edit α) (table : List (List α)) : List (List α) :=
  match edit with
  | set row column value => table.modify row fun cells => cells.set column value
  | remove row => table.eraseIdx row
  | append cells => table ++ [cells]

/-- Where an edit leaves a row. -/
def follow (edit : Edit α) (i : ℕ) : Option ℕ :=
  match edit with
  | remove row => if i < row then some i else if i = row then none else some (i - 1)
  | _ => some i

/-- An edit writes a cell. -/
def Touches (edit : Edit α) (i j : ℕ) : Prop := ∃ value, edit = set i j value

end Edit

/-- The table after edits in order. -/
def edited (table : List (List α)) (edits : List (Edit α)) : List (List α) :=
  edits.foldl (fun table edit => edit.applyTo table) table

/-- Where edits leave a row. -/
def follow (edits : List (Edit α)) (i : ℕ) : Option ℕ :=
  edits.foldlM (fun i edit => edit.follow i) i

/-- No edit writes a cell of a row, wherever the row is by then. -/
def Untouched (edits : List (Edit α)) (i j : ℕ) : Prop :=
  ∀ k edit i', edits[k]? = some edit → follow (edits.take k) i = some i' → ¬edit.Touches i' j

/-- A cell of a table. -/
def cellAt (table : List (List α)) (i j : ℕ) : Option α := table[i]?.bind fun cells => cells[j]?

/-! ## Cells that no edit writes -/

/-- Without edits a table stays as it is. -/
@[simp] theorem edited_nil (table : List (List α)) : edited table [] = table := rfl

/-- Edits are applied from the first one on. -/
@[simp] theorem edited_cons (table : List (List α)) (edit : Edit α) (edits : List (Edit α)) :
    edited table (edit :: edits) = edited (edit.applyTo table) edits := rfl

/-- A row that stays is in the table after the edit. -/
theorem Edit.follow_lt {edit : Edit α} {table : List (List α)} {i i' : ℕ} (hi : i < table.length)
    (hfollow : edit.follow i = some i') : i' < (edit.applyTo table).length := by
  cases edit with
  | set row column value =>
    obtain rfl := Option.some.inj hfollow
    simpa [applyTo] using hi
  | remove row =>
    rw [Edit.follow] at hfollow
    rw [applyTo, List.length_eraseIdx]
    split at hfollow
    · obtain rfl := Option.some.inj hfollow
      split <;> omega
    · split at hfollow
      · cases hfollow
      · obtain rfl := Option.some.inj hfollow
        split <;> omega
  | append cells =>
    obtain rfl := Option.some.inj hfollow
    rw [applyTo, List.length_append]
    omega

/-- One edit leaves a cell that it does not write. -/
theorem Edit.cellAt_applyTo {edit : Edit α} {table : List (List α)} {i i' j : ℕ}
    (hi : i < table.length) (hfollow : edit.follow i = some i') (huntouched : ¬edit.Touches i j) :
    cellAt (edit.applyTo table) i' j = cellAt table i j := by
  cases edit with
  | set row column value =>
    obtain rfl := Option.some.inj hfollow
    rw [cellAt, cellAt, applyTo, List.getElem?_modify]
    by_cases hrow : row = i
    · subst hrow
      have hcolumn : column ≠ j := fun h => huntouched ⟨value, by rw [h]⟩
      cases hcells : table[row]? with
      | none => rfl
      | some cells => simp [hcolumn]
    · simp [hrow]
  | remove row =>
    rw [Edit.follow] at hfollow
    rw [cellAt, cellAt, applyTo, List.getElem?_eraseIdx]
    split at hfollow
    · obtain rfl := Option.some.inj hfollow
      rw [if_pos (by assumption)]
    · split at hfollow
      · cases hfollow
      · obtain rfl := Option.some.inj hfollow
        rw [if_neg (by omega), Nat.sub_add_cancel (by omega)]
  | append cells =>
    obtain rfl := Option.some.inj hfollow
    rw [cellAt, cellAt, applyTo, List.getElem?_append_left hi]

/-- A run of edits leaves every cell that none of them writes. -/
theorem cellAt_edited {table : List (List α)} {edits : List (Edit α)} {i i' j : ℕ}
    (hi : i < table.length) (hfollow : follow edits i = some i')
    (huntouched : Untouched edits i j) : cellAt (edited table edits) i' j = cellAt table i j := by
  induction edits generalizing table i with
  | nil =>
    obtain rfl := Option.some.inj hfollow
    rfl
  | cons edit edits ih =>
    obtain ⟨next, hnext, hrest⟩ := Option.bind_eq_some_iff.mp hfollow
    have hfirst : ¬edit.Touches i j := huntouched 0 edit i rfl rfl
    have hlater : Untouched edits next j := by
      intro k later position hk hposition
      refine huntouched (k + 1) later position hk ?_
      rw [List.take_succ_cons]
      exact Option.bind_eq_some_iff.mpr ⟨next, hnext, hposition⟩
    rw [edited_cons, ih (Edit.follow_lt hi hnext) hrest hlater, Edit.cellAt_applyTo hi hnext hfirst]

/-! ## Rows in a memory -/

/-- The row that a reference stands for. -/
def row (memory : List (List α)) (reference : ℕ) : List α := memory.getD reference []

/-- A copy of every row. -/
def copyRows (memory : List (List α)) (references : List ℕ) : List (List α) × List ℕ :=
  (memory ++ references.map (row memory),
    (List.range references.length).map fun i => memory.length + i)

/-- References to rows of their own, behind a memory that stays as it is, hold a table. -/
structure Holds (base memory : List (List α)) (references : List ℕ) (table : List (List α)) :
    Prop where
  kept : base <+: memory
  fresh : ∀ reference ∈ references, base.length ≤ reference ∧ reference < memory.length
  distinct : references.Nodup
  rows : references.map (row memory) = table

/-- More rows in memory do not change those that are there. -/
theorem row_append {memory more : List (List α)} {reference : ℕ}
    (hlt : reference < memory.length) : row (memory ++ more) reference = row memory reference := by
  rw [row, row, List.getD_eq_getElem?_getD, List.getD_eq_getElem?_getD,
    List.getElem?_append_left hlt]

/-- Copies are rows of their own. -/
theorem holds_copyRows {memory : List (List α)} {references : List ℕ} :
    Holds memory (copyRows memory references).1 (copyRows memory references).2
      (references.map (row memory)) := by
  refine ⟨List.prefix_append _ _, ?_, ?_, ?_⟩
  · intro reference hmem
    obtain ⟨i, hi, rfl⟩ := List.mem_map.mp hmem
    rw [List.mem_range] at hi
    rw [copyRows, List.length_append, List.length_map]
    omega
  · exact List.nodup_range.map fun a b h => by omega
  · apply List.ext_getElem
    · simp [copyRows]
    · intro i hi hi'
      have hlt : i < references.length := by simpa using hi'
      simp [copyRows, row, hlt]

variable {base memory : List (List α)} {references : List ℕ} {table : List (List α)}

/-- There is one reference for every row. -/
theorem Holds.length_eq (h : Holds base memory references table) :
    references.length = table.length := by
  rw [← h.rows, List.length_map]

/-- The row behind a reference. -/
theorem Holds.row_getElem (h : Holds base memory references table) {i : ℕ}
    (hi : i < references.length) (hi' : i < table.length) :
    row memory references[i] = table[i] := by
  have hrows := h.rows
  subst hrows
  rw [List.getElem_map]

/-- Writing one row changes the other rows and the memory in front in no way. -/
theorem Holds.set (h : Holds base memory references table) {i : ℕ} (hi : i < references.length)
    (cells : List α) :
    Holds base (memory.set references[i] cells) references (table.set i cells) := by
  obtain ⟨hbase, hmemory⟩ := h.fresh _ (List.getElem_mem hi)
  refine ⟨?_, ?_, h.distinct, ?_⟩
  · obtain ⟨rest, hrest⟩ := h.kept
    subst hrest
    rw [List.set_append_right _ _ hbase]
    exact List.prefix_append _ _
  · intro reference hmem
    rw [List.length_set]
    exact h.fresh reference hmem
  · apply List.ext_getElem
    · rw [List.length_map, List.length_set, h.length_eq]
    · intro k hk hk'
      have hk₁ : k < references.length := by simpa using hk
      have hk₂ : k < table.length := by simpa using hk'
      rw [List.getElem_map, List.getElem_set, row]
      by_cases heq : i = k
      · subst heq
        simp [List.getD_eq_getElem?_getD, hmemory]
      · have hne : references[i] ≠ references[k] :=
          fun h' => heq (List.Nodup.getElem_inj_iff h.distinct |>.mp h')
        rw [if_neg heq, List.getD_eq_getElem?_getD, List.getElem?_set_ne hne,
          ← List.getD_eq_getElem?_getD]
        exact h.row_getElem hk₁ hk₂

/-- Leaving a row out. -/
theorem Holds.remove (h : Holds base memory references table) (i : ℕ) :
    Holds base memory (references.eraseIdx i) (table.eraseIdx i) := by
  refine ⟨h.kept, ?_, h.distinct.sublist (List.eraseIdx_sublist _ _), ?_⟩
  · intro reference hmem
    exact h.fresh reference ((List.eraseIdx_sublist _ _).subset hmem)
  · rw [← h.rows, List.eraseIdx_map]

/-- A new row at the end. -/
theorem Holds.push (h : Holds base memory references table) (cells : List α) :
    Holds base (memory ++ [cells]) (references ++ [memory.length]) (table ++ [cells]) := by
  refine ⟨h.kept.trans (List.prefix_append _ _), ?_, ?_, ?_⟩
  · intro reference hmem
    rw [List.length_append, List.length_singleton]
    rcases List.mem_append.mp hmem with hold | hnew
    · have := h.fresh reference hold
      omega
    · have hlength := h.kept.length_le
      rw [List.mem_singleton] at hnew
      omega
  · refine List.nodup_append.mpr ⟨h.distinct, List.nodup_singleton _, ?_⟩
    intro reference hold other hnew
    rw [List.mem_singleton] at hnew
    have := h.fresh reference hold
    omega
  · rw [List.map_append, List.map_singleton]
    congr 1
    · rw [← h.rows]
      apply List.map_congr_left
      intro reference hmem
      exact row_append (h.fresh reference hmem).2
    · simp [row]

end TableEdits
