import Mathlib.Data.List.Basic
import Mathlib.Data.List.Induction
import Mathlib.Order.Bounds.Basic

/-!
# Longest common subsequences

The length of a longest common subsequence of two lists, by recursion on their first items,
and the table of these lengths for all pairs of suffixes, which is filled from its end.
-/

namespace CommonSubsequence

variable {α : Type}

/-- `n` is the length of a longest common subsequence. -/
def IsLongest (left right : List α) (n : ℕ) : Prop :=
  IsGreatest {k | ∃ common : List α, common.Sublist left ∧ common.Sublist right ∧
    common.length = k} n

variable [DecidableEq α]

/-- The length of a longest common subsequence. -/
def longest : List α → List α → ℕ
  | [], _ => 0
  | _ :: _, [] => 0
  | l :: left, r :: right =>
    if l = r then longest left right + 1
    else max (longest left (r :: right)) (longest (l :: left) right)
termination_by left right => left.length + right.length

/-- Nothing is common with an empty left list. -/
@[simp] theorem longest_nil_left (right : List α) : longest [] right = 0 := by
  rw [longest]

/-- Nothing is common with an empty right list. -/
@[simp] theorem longest_nil_right (left : List α) : longest left [] = 0 := by
  cases left <;> rw [longest]

/-- Equal heads are part of the longest common subsequence. -/
theorem longest_cons_self (l : α) (left right : List α) :
    longest (l :: left) (l :: right) = longest left right + 1 := by
  rw [longest, if_pos rfl]

/-- Of two different heads one is left out. -/
theorem longest_cons_of_ne {l r : α} (h : l ≠ r) (left right : List α) :
    longest (l :: left) (r :: right) =
      max (longest left (r :: right)) (longest (l :: left) right) := by
  rw [longest, if_neg h]

/-- Some common subsequence is that long. -/
theorem exists_common (left right : List α) : ∃ common : List α, common.Sublist left ∧
    common.Sublist right ∧ common.length = longest left right := by
  fun_induction longest left right with
  | case1 right => exact ⟨[], List.nil_sublist _, List.nil_sublist _, by simp⟩
  | case2 l left => exact ⟨[], List.nil_sublist _, List.nil_sublist _, by simp⟩
  | case3 left l right ih =>
    obtain ⟨common, hleft, hright, hlength⟩ := ih
    refine ⟨l :: common, hleft.cons_cons l, hright.cons_cons l, ?_⟩
    rw [List.length_cons, hlength]
  | case4 l left r right hne ihleft ihright =>
    rcases le_total (longest left (r :: right)) (longest (l :: left) right) with hle | hle
    · obtain ⟨common, hleft, hright, hlength⟩ := ihright
      exact ⟨common, hleft, hright.cons r, by omega⟩
    · obtain ⟨common, hleft, hright, hlength⟩ := ihleft
      exact ⟨common, hleft.cons l, hright, by omega⟩

/-- No common subsequence is longer. -/
theorem length_le_longest (left right : List α) {common : List α} (hleft : common.Sublist left)
    (hright : common.Sublist right) : common.length ≤ longest left right := by
  fun_induction longest left right generalizing common with
  | case1 right =>
    rw [List.sublist_nil.mp hleft]
    exact Nat.le_refl 0
  | case2 l left =>
    rw [List.sublist_nil.mp hright]
    exact Nat.le_refl 0
  | case3 left l right ih =>
    cases common with
    | nil => exact Nat.zero_le _
    | cons c common =>
      have htail := ih (List.Sublist.tail hleft) (List.Sublist.tail hright)
      rw [List.tail_cons] at htail
      rw [List.length_cons]
      omega
  | case4 l left r right hne ihleft ihright =>
    -- The first items differ, so that the subsequence leaves out one of them.
    rcases List.sublist_cons_iff.mp hleft with hleft' | ⟨rest, rfl, -⟩
    · have hle := ihleft hleft' hright
      omega
    · rcases List.sublist_cons_iff.mp hright with hright' | ⟨other, heq, -⟩
      · have hle := ihright hleft hright'
        omega
      · exact absurd (List.cons.inj heq).1 hne

/-- The recursion computes the length of a longest common subsequence. -/
theorem isLongest_longest (left right : List α) : IsLongest left right (longest left right) := by
  refine ⟨exists_common left right, ?_⟩
  rintro k ⟨common, hleft, hright, rfl⟩
  exact length_le_longest left right hleft hright

/-! ## The table -/

/-- A table of the lengths for suffixes, row by row, is right from an entry on and in its last
column. -/
structure Filled (left right : List α) (i j : ℕ) (lengths : Array ℕ) : Prop where
  size : lengths.size = (left.length + 1) * (right.length + 1)
  entry : ∀ row col, row ≤ left.length → col ≤ right.length →
    i < row ∨ i = row ∧ j ≤ col ∨ col = right.length →
    lengths.getD (row * (right.length + 1) + col) 0 = longest (left.drop row) (right.drop col)

/-- An empty table is right in its last row and column. -/
theorem filled_replicate (left right : List α) : Filled left right left.length 0
    (Array.replicate ((left.length + 1) * (right.length + 1)) 0) where
  size := by rw [Array.size_replicate]
  entry row col hrow hcol hplace := by
    have hzero : (Array.replicate ((left.length + 1) * (right.length + 1)) 0).getD
        (row * (right.length + 1) + col) 0 = 0 := by
      simp [Array.getD]
    rw [hzero]
    rcases hplace with hlt | ⟨rfl, -⟩ | rfl
    · omega
    · rw [List.drop_length, longest_nil_left]
    · rw [List.drop_length, longest_nil_right]

/-- A row begins where the one after it is complete. -/
theorem Filled.row {left right : List α} {i : ℕ} {lengths : Array ℕ}
    (h : Filled left right (i + 1) 0 lengths) : Filled left right i right.length lengths where
  size := h.size
  entry row col hrow hcol hplace := h.entry row col hrow hcol (by omega)

/-- Places of a table differ when their rows or their columns do. -/
theorem place_inj {width row col i j : ℕ} (hcol : col < width) (hj : j < width)
    (h : row * width + col = i * width + j) : row = i ∧ col = j := by
  have hdiv := congrArg (· / width) h
  have hmod := congrArg (· % width) h
  simp only [Nat.mul_add_mod', Nat.mod_eq_of_lt hcol, Nat.mod_eq_of_lt hj] at hmod
  have hpos : 0 < width := by omega
  rw [Nat.add_comm, Nat.add_comm (i * width)] at hdiv
  simp only [Nat.add_mul_div_right _ _ hpos, Nat.div_eq_of_lt hcol, Nat.div_eq_of_lt hj,
    Nat.zero_add] at hdiv
  exact ⟨hdiv, hmod⟩

/-- A cell of a table has its place inside it. -/
theorem place_lt {width height row col : ℕ} (hrow : row < height) (hcol : col < width) :
    row * width + col < height * width := by
  have hle : (row + 1) * width ≤ height * width := Nat.mul_le_mul_right width hrow
  rw [Nat.add_mul] at hle
  omega

/-- One more entry. -/
theorem Filled.set {left right : List α} {i j entry : ℕ} {lengths : Array ℕ}
    (h : Filled left right i (j + 1) lengths) (hi : i < left.length) (hj : j < right.length)
    (hentry : entry = longest (left.drop i) (right.drop j)) :
    Filled left right i j (lengths.set! (i * (right.length + 1) + j) entry) where
  size := by rw [Array.set!_eq_setIfInBounds, Array.size_setIfInBounds, h.size]
  entry row col hrow hcol hplace := by
    have hbound : i * (right.length + 1) + j < lengths.size := by
      rw [h.size]
      exact place_lt (by omega) (by omega)
    rw [Array.set!_eq_setIfInBounds, Array.getD_eq_getD_getElem?, Array.getElem?_setIfInBounds]
    by_cases hsame : i * (right.length + 1) + j = row * (right.length + 1) + col
    · obtain ⟨rfl, rfl⟩ := place_inj (by omega) (by omega) hsame
      rw [if_pos rfl, if_pos hbound, Option.getD_some, hentry]
    · rw [if_neg hsame, ← Array.getD_eq_getD_getElem?]
      refine h.entry row col hrow hcol ?_
      have hdiff : ¬(i = row ∧ j = col) := by
        rintro ⟨rfl, rfl⟩
        exact hsame rfl
      omega

/-- What the entries behind a place say about it. -/
theorem Filled.next {left right : List α} {i j : ℕ} {lengths : Array ℕ} {l r : α}
    (h : Filled left right i (j + 1) lengths) (hl : left[i]? = some l) (hr : right[j]? = some r) :
    longest (left.drop i) (right.drop j) =
      if l = r then lengths.getD ((i + 1) * (right.length + 1) + j + 1) 0 + 1
      else max (lengths.getD ((i + 1) * (right.length + 1) + j) 0)
        (lengths.getD (i * (right.length + 1) + j + 1) 0) := by
  obtain ⟨hi, rfl⟩ := List.getElem?_eq_some_iff.mp hl
  obtain ⟨hj, rfl⟩ := List.getElem?_eq_some_iff.mp hr
  have hboth := h.entry (i + 1) (j + 1) (by omega) (by omega) (by omega)
  have hbelow := h.entry (i + 1) j (by omega) (by omega) (by omega)
  have hbeside := h.entry i (j + 1) (by omega) (by omega) (by omega)
  rw [Nat.add_assoc ((i + 1) * _), Nat.add_assoc (i * _), hboth, hbelow, hbeside,
    List.drop_eq_getElem_cons hi, List.drop_eq_getElem_cons hj]
  by_cases heq : left[i] = right[j]
  · rw [if_pos heq, heq, longest_cons_self]
  · rw [if_neg heq, longest_cons_of_ne heq]

/-- A loop that counts down from `n` leads from what holds at `n` to what holds at `0`. -/
theorem foldl_countdown {β : Type} {P : ℕ → β → Prop} {body : β → ℕ → β} {start : β} {n : ℕ}
    (hstart : P n start) (hstep : ∀ i state, i < n → P (i + 1) state → P i (body state i)) :
    P 0 ((List.range n).reverse.foldl body start) := by
  induction n generalizing start with
  | zero => exact hstart
  | succ n ih =>
    rw [List.range_succ, List.reverse_append, List.reverse_singleton, List.singleton_append,
      List.foldl_cons]
    exact ih (hstep n start (by omega) hstart) fun i state hi => hstep i state (by omega)

end CommonSubsequence
