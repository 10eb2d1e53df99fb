import Moonfort.MoonBit.Text
import Mathlib.Data.List.Destutter
import Mathlib.Data.List.Sort

/-!
# The order of strings

`String::compare` orders strings linearly, so a sorted list without duplicates is
determined by its members, and `sort` and `dedup` make it. `lexical_compare` orders them by
their code units.
-/

namespace Moonfort.MoonBit

/-- The order of texts is transitive. -/
theorem stringLe_trans (a b c : String) (hab : stringLe a b = true) (hbc : stringLe b c = true) :
    stringLe a c = true := by
  simp only [stringLe, Bool.or_eq_true, Bool.and_eq_true, decide_eq_true_eq, beq_iff_eq]
    at hab hbc ⊢
  obtain hab | ⟨hab, hunits⟩ := hab <;> obtain hbc | ⟨hbc, hunits'⟩ := hbc
  · exact .inl (by omega)
  · exact .inl (by omega)
  · exact .inl (by omega)
  · exact .inr ⟨by omega, le_trans hunits hunits'⟩

/-- The order of texts is total. -/
theorem stringLe_total (a b : String) : (stringLe a b || stringLe b a) = true := by
  simp only [stringLe, Bool.or_eq_true, Bool.and_eq_true, decide_eq_true_eq, beq_iff_eq]
  obtain hlt | heq | hgt := Nat.lt_trichotomy (utf16Length a) (utf16Length b)
  · exact .inl (.inl hlt)
  · obtain hle | hge := le_total (utf16Units a) (utf16Units b)
    · exact .inl (.inr ⟨heq, hle⟩)
    · exact .inr (.inr ⟨heq.symm, hge⟩)
  · exact .inr (.inl hgt)

/-- The order of texts is antisymmetric. -/
theorem stringLe_antisymm {a b : String} (hab : stringLe a b = true) (hba : stringLe b a = true) :
    a = b := by
  simp only [stringLe, Bool.or_eq_true, Bool.and_eq_true, decide_eq_true_eq, beq_iff_eq]
    at hab hba
  obtain hab | ⟨hab, hunits⟩ := hab <;> obtain hba | ⟨hba, hunits'⟩ := hba
  · omega
  · omega
  · omega
  · exact utf16Units_inj (le_antisymm hunits hunits')

/-- The strings in order. -/
def InOrder (values : List String) : Prop := values.Pairwise fun a b => stringLe a b = true

/-- Sorting puts the strings in order. -/
theorem inOrder_sortStrings (values : List String) : InOrder (sortStrings values) :=
  List.pairwise_mergeSort stringLe_trans stringLe_total values

/-- Sorting by insertion gives the same list, as the order tells different strings apart. -/
theorem sortStrings_eq_insertionSort (values : List String) :
    sortStrings values = values.insertionSort fun a b => stringLe a b = true := by
  have htotal : Std.Total fun a b => stringLe a b = true :=
    ⟨fun a b => by simpa only [Bool.or_eq_true] using stringLe_total a b⟩
  have htrans : IsTrans String fun a b => stringLe a b = true := ⟨stringLe_trans⟩
  have hantisymm : Std.Antisymm fun a b => stringLe a b = true :=
    ⟨fun _ _ => stringLe_antisymm⟩
  have hsort := List.mergeSort_eq_insertionSort (fun a b => stringLe a b = true) values
  simp only [Bool.decide_eq_true] at hsort
  exact hsort

/-- `values.sort()` and `values.dedup()`, which removes equal neighbours. -/
def sortedDistinct (values : List String) : List String := (sortStrings values).destutter (· ≠ ·)

/-- The duplicate-free list in order of the members of another. -/
structure IsSortedSet (list values : List String) : Prop where
  inOrder : InOrder list
  nodup : list.Nodup
  mem_iff : ∀ value, value ∈ list ↔ value ∈ values

/-- Sorted distinct values are a sorted set of the values. -/
theorem isSortedSet_sortedDistinct (values : List String) :
    IsSortedSet (sortedDistinct values) values := by
  have hanti : Std.Antisymm fun a b : String => stringLe a b = true :=
    ⟨fun _ _ => stringLe_antisymm⟩
  have hsorted := inOrder_sortStrings values
  have hdedup : sortedDistinct values = (sortStrings values).dedup :=
    List.Pairwise.destutter_eq_dedup hsorted
  refine ⟨?_, ?_, ?_⟩
  · exact hsorted.sublist (List.destutter_sublist _ _)
  · rw [hdedup]
    exact List.nodup_dedup _
  · intro value
    rw [hdedup, List.mem_dedup, (sortStrings_perm values).mem_iff]

/-- The members determine the list. -/
theorem IsSortedSet.unique {a b values : List String} (ha : IsSortedSet a values)
    (hb : IsSortedSet b values) : a = b := by
  have hperm : a.Perm b := by
    rw [List.perm_ext_iff_of_nodup ha.nodup hb.nodup]
    intro value
    rw [ha.mem_iff, hb.mem_iff]
  exact hperm.eq_of_pairwise (fun _ _ _ _ => stringLe_antisymm) ha.inOrder hb.inOrder

/-- Only `sortedDistinct` makes the list. -/
theorem isSortedSet_iff {list values : List String} :
    IsSortedSet list values ↔ list = sortedDistinct values := by
  constructor
  · intro h
    exact h.unique (isSortedSet_sortedDistinct values)
  · rintro rfl
    exact isSortedSet_sortedDistinct values

/-! ## Lexical comparison -/

/-- `a[:].lexical_compare(b[:])`. -/
def lexicalCompare (a b : String) : ℤ :=
  if utf16Units a < utf16Units b then -1 else if utf16Units b < utf16Units a then 1 else 0

/-- Only equal texts compare as equal. -/
theorem lexicalCompare_eq_zero_iff {a b : String} : lexicalCompare a b = 0 ↔ a = b := by
  rw [lexicalCompare]
  rcases lt_trichotomy (utf16Units a) (utf16Units b) with hlt | heq | hgt
  · rw [if_pos hlt]
    exact iff_of_false (by decide) fun h => hlt.ne (congrArg utf16Units h)
  · rw [if_neg heq.not_lt, if_neg heq.not_gt]
    exact iff_of_true rfl (utf16Units_inj heq)
  · rw [if_neg hgt.asymm, if_pos hgt]
    exact iff_of_false (by decide) fun h => hgt.ne (congrArg utf16Units h.symm)

/-- Different texts compare as their UTF-16 units do. -/
theorem lexicalCompare_le_zero_iff {a b : String} (h : lexicalCompare a b ≠ 0) :
    lexicalCompare a b ≤ 0 ↔ utf16Units a < utf16Units b := by
  rw [lexicalCompare] at h ⊢
  by_cases hlt : utf16Units a < utf16Units b
  · rw [if_pos hlt]
    exact iff_of_true (by decide) hlt
  · rw [if_neg hlt] at h ⊢
    by_cases hgt : utf16Units b < utf16Units a
    · rw [if_pos hgt]
      exact iff_of_false (by decide) hlt
    · exact absurd (if_neg hgt) h

end Moonfort.MoonBit
