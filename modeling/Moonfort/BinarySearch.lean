import Mathlib.Data.List.Basic
import Mathlib.Tactic.Common

/-!
# Binary search

The search of a sorted list that halves a window of positions. Where the key stands to an element
is a comparison; the elements after the key are behind all others, and those before it in front.
-/

namespace BinarySearch

variable {α : Type} (place : α → Ordering)

/-- The search of the window from `low` up to `high`, of at most so many rounds. The key is before,
at or behind the element in the middle. -/
def searchLoop (xs : List α) : ℕ → ℕ → ℕ → Option α
  | 0, _, _ => none
  | rounds + 1, low, high =>
    if low < high then
      let middle := (low + high) / 2
      match xs[middle]? with
      | none => none
      | some x =>
        match place x with
        | .lt => searchLoop xs rounds low middle
        | .gt => searchLoop xs rounds (middle + 1) high
        | .eq => some x
    else none

/-- The search of a list. Each round shrinks the window, so the rounds suffice. -/
def search (xs : List α) : Option α := searchLoop place xs (xs.length + 1) 0 xs.length

/-- A list in which the elements before the key come first and those behind it last. -/
def Ordered (xs : List α) : Prop :=
  xs.Pairwise fun a b => (place a = .lt → place b = .lt) ∧ (place b = .gt → place a = .gt)

variable {place}

/-- Places of an ordered list compare as their elements do. -/
theorem Ordered.getElem {xs : List α} (h : Ordered place xs) {i j : ℕ} (hij : i < j)
    (hj : j < xs.length) :
    (place xs[i] = .lt → place xs[j] = .lt) ∧ (place xs[j] = .gt → place xs[i] = .gt) :=
  List.pairwise_iff_getElem.mp h i j (Nat.lt_trans hij hj) hj hij

/-- What a search finds is in the list, at the key. -/
theorem searchLoop_sound {xs : List α} {rounds low high : ℕ} {x : α}
    (h : searchLoop place xs rounds low high = some x) : x ∈ xs ∧ place x = .eq := by
  induction rounds generalizing low high with
  | zero => cases h
  | succ rounds ih =>
    rw [searchLoop] at h
    by_cases hlt : low < high
    · rw [if_pos hlt] at h
      dsimp only at h
      rcases hread : xs[(low + high) / 2]? with _ | y
      · rw [hread] at h
        cases h
      · rw [hread] at h
        dsimp only at h
        rcases hplace : place y with _ | _ | _
        · rw [hplace] at h
          exact ih h
        · rw [hplace] at h
          obtain rfl := Option.some.inj h
          exact ⟨List.mem_of_getElem? hread, hplace⟩
        · rw [hplace] at h
          exact ih h
    · rw [if_neg hlt] at h
      cases h

/-- The window keeps every element at the key. -/
theorem searchLoop_complete {xs : List α} (hxs : Ordered place xs) {rounds low high i : ℕ}
    (hrounds : high < low + rounds) (hhigh : high ≤ xs.length) (hlow : low ≤ i) (hi : i < high)
    (heq : place (xs.get ⟨i, Nat.lt_of_lt_of_le hi hhigh⟩) = .eq) :
    (searchLoop place xs rounds low high).isSome = true := by
  rw [List.get_eq_getElem] at heq
  induction rounds generalizing low high with
  | zero => omega
  | succ rounds ih =>
    have hmiddle : (low + high) / 2 < xs.length := by omega
    rw [searchLoop, if_pos (by omega)]
    dsimp only
    rw [List.getElem?_eq_getElem hmiddle]
    dsimp only
    rcases hplace : place xs[(low + high) / 2] with _ | _ | _
    · have hside : i < (low + high) / 2 := by
        rcases Nat.lt_trichotomy i ((low + high) / 2) with hlt | rfl | hgt
        · exact hlt
        · rw [heq] at hplace
          cases hplace
        · have hbehind := (hxs.getElem hgt (by omega)).1 hplace
          rw [heq] at hbehind
          cases hbehind
      exact ih (by omega) (by omega) hlow hside heq
    · rfl
    · have hside : (low + high) / 2 < i := by
        rcases Nat.lt_trichotomy i ((low + high) / 2) with hlt | rfl | hgt
        · have hbefore := (hxs.getElem hlt hmiddle).2 hplace
          rw [heq] at hbefore
          cases hbefore
        · rw [heq] at hplace
          cases hplace
        · exact hgt
      exact ih (by omega) hhigh (by omega) hi heq

/-- Where only one element can be at the key, a search finds it. -/
theorem search_eq_some_iff {xs : List α} (hxs : Ordered place xs)
    (hunique : ∀ x ∈ xs, ∀ y ∈ xs, place x = .eq → place y = .eq → x = y) (x : α) :
    search place xs = some x ↔ x ∈ xs ∧ place x = .eq := by
  constructor
  · exact searchLoop_sound
  · rintro ⟨hx, heq⟩
    obtain ⟨i, hi, rfl⟩ := List.mem_iff_getElem.mp hx
    have hfound : (search place xs).isSome = true :=
      searchLoop_complete hxs (by omega) (Nat.le_refl _) (Nat.zero_le i) hi heq
    obtain ⟨y, hy⟩ := Option.isSome_iff_exists.mp hfound
    obtain ⟨hmem, hplace⟩ := searchLoop_sound hy
    rw [hy, hunique y hmem _ hx hplace heq]

end BinarySearch
