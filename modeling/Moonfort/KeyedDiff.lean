import Mathlib.Data.List.Basic

/-!
# Differences of keyed values

Two partial maps and the changes between them, over a list of keys that holds every
key at which they differ. Patching the one with the changes gives the other.
-/

namespace KeyedDiff

variable {κ ρ : Type}

/-- What a key had before and has after. -/
structure Change (κ ρ : Type) where
  key : κ
  before : Option ρ
  after : Option ρ
  deriving DecidableEq

section Diff

variable [DecidableEq ρ]

/-- The change at a key, where there is one. -/
def changeAt (a b : κ → Option ρ) (key : κ) : Option (Change κ ρ) :=
  if a key = b key then none else some ⟨key, a key, b key⟩

/-- The changes at some keys. -/
def diff (keys : List κ) (a b : κ → Option ρ) : List (Change κ ρ) :=
  keys.filterMap (changeAt a b)

variable [DecidableEq κ]

/-- A map with the changes made. -/
def patch (a : κ → Option ρ) (changes : List (Change κ ρ)) (key : κ) : Option ρ :=
  match changes.find? fun change => change.key = key with
  | some change => change.after
  | none => a key

/-- The change at a key is the one that the differences hold. -/
theorem find_diff {keys : List κ} {a b : κ → Option ρ} {key : κ} :
    (diff keys a b).find? (fun change => change.key = key) =
      if key ∈ keys then changeAt a b key else none := by
  induction keys with
  | nil => rfl
  | cons k rest ih =>
    rw [diff] at ih
    rw [diff, List.filterMap_cons]
    by_cases hk : k = key
    · obtain rfl := hk
      rw [if_pos List.mem_cons_self]
      cases hchange : changeAt a b k with
      | none =>
        dsimp only
        rw [ih, hchange]
        split <;> rfl
      | some change =>
        have hkey : change.key = k := by
          unfold changeAt at hchange
          split at hchange
          · cases hchange
          · obtain rfl := Option.some.inj hchange
            rfl
        dsimp only
        rw [List.find?_cons_of_pos (by simp [hkey])]
    · have hmem : key ∈ k :: rest ↔ key ∈ rest := by
        rw [List.mem_cons]
        simp [Ne.symm hk]
      simp only [hmem]
      cases hchange : changeAt a b k with
      | none => exact ih
      | some change =>
        have hkey : change.key = k := by
          unfold changeAt at hchange
          split at hchange
          · cases hchange
          · obtain rfl := Option.some.inj hchange
            rfl
        dsimp only
        rw [List.find?_cons_of_neg (by simp [hkey, hk])]
        exact ih

/-- Patching with all the changes gives the other map. -/
theorem patch_diff {keys : List κ} {a b : κ → Option ρ} (h : ∀ key, a key ≠ b key → key ∈ keys) :
    patch a (diff keys a b) = b := by
  funext key
  rw [patch, find_diff]
  by_cases heq : a key = b key
  · simp [changeAt, heq]
  · rw [if_pos (h key heq), changeAt, if_neg heq]

end Diff

end KeyedDiff
