import Mathlib
import Moonfort.LinkedMap

/-!
# Tallies

How often each key comes in a list, counted one by one in a map that keeps the order in which the
keys first come.
-/

namespace Tally

variable {κ : Type} [DecidableEq κ]

/-- Count a key once more. -/
def count (counts : List (κ × ℕ)) (key : κ) : List (κ × ℕ) :=
  LinkedMap.set key ((LinkedMap.get key counts).getD 0 + 1) counts

/-- The counts of the keys of a list. -/
def tally (ks : List κ) : List (κ × ℕ) := ks.foldl count []

/-- Counting keys adds to each count the number of its occurrences. -/
theorem getD_foldl_count (ks : List κ) (counts : List (κ × ℕ)) (key : κ) :
    (LinkedMap.get key (ks.foldl count counts)).getD 0 =
      (LinkedMap.get key counts).getD 0 + ks.count key := by
  induction ks generalizing counts with
  | nil => rfl
  | cons first rest ih =>
    rw [List.foldl_cons, ih, List.count_cons]
    by_cases hkey : first = key
    · subst hkey
      rw [count, LinkedMap.get_set_self, Option.getD_some, beq_self_eq_true, if_pos rfl]
      omega
    · have hbeq : (first == key) = false := beq_false_of_ne hkey
      rw [count, LinkedMap.get_set_of_ne (Ne.symm hkey), hbeq, if_neg Bool.false_ne_true,
        Nat.add_zero]

/-- A key is counted as often as it comes. -/
theorem getD_tally (ks : List κ) (key : κ) :
    (LinkedMap.get key (tally ks)).getD 0 = ks.count key := by
  rw [tally, getD_foldl_count, LinkedMap.get_nil, Option.getD_none, Nat.zero_add]

/-- Counting one key adds one to the sum of the counts. -/
theorem sum_count (counts : List (κ × ℕ)) (key : κ) :
    ((count counts key).map Prod.snd).sum = (counts.map Prod.snd).sum + 1 := by
  unfold count
  induction counts with
  | nil => rfl
  | cons entry rest ih =>
    obtain ⟨k, n⟩ := entry
    rw [LinkedMap.get, LinkedMap.set]
    by_cases hkey : k = key
    · rw [if_pos hkey, if_pos hkey, Option.getD_some, List.map_cons, List.map_cons, List.sum_cons,
        List.sum_cons]
      omega
    · rw [if_neg hkey, if_neg hkey, List.map_cons, List.sum_cons, ih, List.map_cons, List.sum_cons]
      omega

/-- Counting keys adds their number to the sum of the counts. -/
theorem sum_foldl_count (ks : List κ) (counts : List (κ × ℕ)) :
    ((ks.foldl count counts).map Prod.snd).sum = (counts.map Prod.snd).sum + ks.length := by
  induction ks generalizing counts with
  | nil => rfl
  | cons key rest ih =>
    rw [List.foldl_cons, ih, sum_count, List.length_cons]
    omega

/-- The counts add up to the length of the list. -/
theorem sum_tally (ks : List κ) : ((tally ks).map Prod.snd).sum = ks.length := by
  rw [tally, sum_foldl_count, List.map_nil, List.sum_nil, Nat.zero_add]

section Map

variable {μ : Type} [DecidableEq μ] {f : κ → μ}

/-- Renaming all keys injectively keeps their counts. -/
theorem get_map (hf : Function.Injective f) (counts : List (κ × ℕ)) (key : κ) :
    LinkedMap.get (f key) (counts.map fun entry => (f entry.1, entry.2)) =
      LinkedMap.get key counts := by
  induction counts with
  | nil => rfl
  | cons entry rest ih =>
    rw [List.map_cons, LinkedMap.get, LinkedMap.get, ih]
    simp only [hf.eq_iff]

/-- A count can be set before or after an injective renaming. -/
theorem set_map (hf : Function.Injective f) (counts : List (κ × ℕ)) (key : κ) (n : ℕ) :
    LinkedMap.set (f key) n (counts.map fun entry => (f entry.1, entry.2)) =
      (LinkedMap.set key n counts).map fun entry => (f entry.1, entry.2) := by
  induction counts with
  | nil => rfl
  | cons entry rest ih =>
    rw [List.map_cons, LinkedMap.set, LinkedMap.set, ih]
    simp only [hf.eq_iff]
    split <;> rfl

/-- Renamed keys have the counts of the keys. -/
theorem tally_map (hf : Function.Injective f) (ks : List κ) :
    tally (ks.map f) = (tally ks).map fun entry => (f entry.1, entry.2) := by
  have hfold (counts : List (κ × ℕ)) :
      (ks.map f).foldl count (counts.map fun entry => (f entry.1, entry.2)) =
        (ks.foldl count counts).map fun entry => (f entry.1, entry.2) := by
    induction ks generalizing counts with
    | nil => rfl
    | cons key rest ih =>
      rw [List.map_cons, List.foldl_cons, List.foldl_cons, count, get_map hf, set_map hf, ih, count]
  exact hfold []

end Map

end Tally
