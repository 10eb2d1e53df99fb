import Mathlib.Data.Finset.Card
import Mathlib.Data.Nat.Find
import Mathlib.Logic.Function.Iterate

/-!
# Chains of links

Each place has at most one link to another. A chain of links reaches a target, or ends, or runs in
a cycle. A walk of one step more than there are places with links decides which.
-/

namespace LinkChains

variable {α : Type} (next : α → Option α) (target : α)

/-- The chain of links reaches the target. -/
inductive Reaches : α → Prop
  | here : Reaches target
  | step {a b : α} (h : next a = some b) (hb : Reaches b) : Reaches a

/-- A walk along the links that looks at so many places. -/
def walk [DecidableEq α] : ℕ → α → Bool
  | 0, _ => false
  | places + 1, a =>
    if a = target then true
    else
      match next a with
      | none => false
      | some b => walk places b

variable {next target}

/-- A walk that succeeds reaches its target. -/
theorem reaches_of_walk [DecidableEq α] {places : ℕ} {a : α}
    (h : walk next target places a = true) : Reaches next target a := by
  induction places generalizing a with
  | zero => cases h
  | succ places ih =>
    rw [walk] at h
    by_cases ha : a = target
    · subst ha
      exact .here
    · rw [if_neg ha] at h
      rcases hnext : next a with _ | b
      · rw [hnext] at h
        cases h
      · rw [hnext] at h
        exact .step hnext (ih h)

/-- The place behind a link; a place without one is behind itself. -/
def follow (next : α → Option α) (a : α) : α := (next a).getD a

/-- Following a link leads to its end. -/
theorem follow_of_next {a b : α} (h : next a = some b) : follow next a = b := by
  rw [follow, h]
  rfl

/-- What is reached is reached in some steps. -/
theorem iterate_of_reaches {a : α} (h : Reaches next target a) :
    ∃ steps, (follow next)^[steps] a = target := by
  induction h with
  | here => exact ⟨0, rfl⟩
  | step hnext _ ih =>
    obtain ⟨steps, hsteps⟩ := ih
    exact ⟨steps + 1, by rw [Function.iterate_succ_apply, follow_of_next hnext, hsteps]⟩

/-- Without a link a walk stays in place. -/
theorem iterate_of_none {a : α} (h : next a = none) (steps : ℕ) :
    (follow next)^[steps] a = a := by
  have hfixed : follow next a = a := by
    rw [follow, h]
    rfl
  exact Function.iterate_fixed hfixed steps

/-- A walk finds a target that so many links reach. -/
theorem walk_of_iterate [DecidableEq α] {steps places : ℕ} {a : α}
    (h : (follow next)^[steps] a = target) (hplaces : steps < places) :
    walk next target places a = true := by
  induction places generalizing steps a with
  | zero => omega
  | succ places ih =>
    rw [walk]
    by_cases ha : a = target
    · rw [if_pos ha]
    · rw [if_neg ha]
      rcases hnext : next a with _ | b
      · exact absurd ((iterate_of_none hnext steps).symm.trans h) ha
      · rcases steps with _ | steps
        · exact absurd h ha
        · rw [Function.iterate_succ_apply, follow_of_next hnext] at h
          exact ih h (by omega)

/-- The least number of links to a target is at most the number of places with links: before the
target no place comes twice. -/
theorem exists_iterate_le {sources : Finset α} (hsources : ∀ a b, next a = some b → a ∈ sources)
    {a : α} (h : Reaches next target a) :
    ∃ steps ≤ sources.card, (follow next)^[steps] a = target := by
  classical
  have hexists := iterate_of_reaches h
  have hreached := Nat.find_spec hexists
  have hleast {steps : ℕ} (hsteps : steps < Nat.find hexists) :
      (follow next)^[steps] a ≠ target := Nat.find_min hexists hsteps
  generalize Nat.find hexists = least at hreached hleast
  refine ⟨least, ?_, hreached⟩
  have hmem : ∀ steps ∈ Finset.range least, (follow next)^[steps] a ∈ sources := by
    intro steps hsteps
    have hlt := Finset.mem_range.mp hsteps
    rcases hnext : next ((follow next)^[steps] a) with _ | b
    · have hstay := iterate_of_none hnext (least - steps)
      rw [← Function.iterate_add_apply, Nat.sub_add_cancel (Nat.le_of_lt hlt), hreached] at hstay
      exact absurd hstay.symm (hleast hlt)
    · exact hsources _ b hnext
  have hdistinct {i j : ℕ} (hij : i < j) (hj : j < least) :
      (follow next)^[i] a ≠ (follow next)^[j] a := by
    intro heq
    have hshort : (follow next)^[least - j + i] a = target := by
      rw [Function.iterate_add_apply, heq, ← Function.iterate_add_apply,
        Nat.sub_add_cancel (Nat.le_of_lt hj), hreached]
    exact hleast (by omega) hshort
  have hinj : Set.InjOn (fun steps => (follow next)^[steps] a) (Finset.range least) := by
    intro i hi j hj heq
    rw [Finset.mem_coe, Finset.mem_range] at hi hj
    rcases Nat.lt_trichotomy i j with hlt | rfl | hgt
    · exact absurd heq (hdistinct hlt hj)
    · rfl
    · exact absurd heq.symm (hdistinct hgt hi)
  have hcard := Finset.card_le_card_of_injOn _ hmem hinj
  rw [Finset.card_range] at hcard
  exact hcard

/-- A walk of one place more than there are places with links decides whether the target is
reached. -/
theorem walk_iff_reaches [DecidableEq α] {sources : Finset α}
    (hsources : ∀ a b, next a = some b → a ∈ sources) {places : ℕ} (hplaces : sources.card < places)
    (a : α) : walk next target places a = true ↔ Reaches next target a := by
  constructor
  · exact reaches_of_walk
  · intro h
    obtain ⟨steps, hsteps, hreached⟩ := exists_iterate_le hsources h
    exact walk_of_iterate hreached (by omega)

end LinkChains
