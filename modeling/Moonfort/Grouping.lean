import Mathlib.Data.List.Nodup
import Mathlib.Data.List.Perm.Basic

/-!
# Groups of rows

Rows that are gathered by a key, one row after the other. Every group is described by the
rows with its key, and the groups partition the rows.
-/

namespace Grouping

variable {α κ γ : Type} [DecidableEq κ] {key : α → κ} {keyOf : γ → κ}

/-- The rows with a key, in order. -/
def members (key : α → κ) (rows : List α) (k : κ) : List α := rows.filter fun row => key row = k

/-- One more row is a member of its own group. -/
theorem members_concat_self (rows : List α) (row : α) :
    members key (rows ++ [row]) (key row) = members key rows (key row) ++ [row] := by
  rw [members, List.filter_append, List.filter_cons_of_pos (by simp), List.filter_nil]
  rfl

/-- One more row is no member of another group. -/
theorem members_concat_of_ne {row : α} {k : κ} (h : key row ≠ k) (rows : List α) :
    members key (rows ++ [row]) k = members key rows k := by
  rw [members, List.filter_append, List.filter_cons_of_neg (by simp [h]), List.filter_nil,
    List.append_nil]
  rfl

/-- A key that no row has has no members. -/
theorem members_eq_nil {rows : List α} {k : κ} (h : ∀ row ∈ rows, key row ≠ k) :
    members key rows k = [] := by
  rw [members, List.filter_eq_nil_iff]
  exact fun row hrow => by simpa using h row hrow

/-- Groups of some rows: one for each key that occurs, described by its rows. -/
structure Grouped (key : α → κ) (keyOf : γ → κ) (Holds : List α → γ → Prop) (rows : List α)
    (groups : List γ) : Prop where
  nodup : (groups.map keyOf).Nodup
  covers : ∀ row ∈ rows, key row ∈ groups.map keyOf
  holds : ∀ group ∈ groups, Holds (members key rows (keyOf group)) group

variable {Holds : List α → γ → Prop} {rows : List α} {groups before after : List γ}
  {group next : γ} {row : α}

/-- No rows form no groups. -/
theorem Grouped.nil : Grouped key keyOf Holds [] [] := ⟨List.nodup_nil, nofun, nofun⟩

/-- A row joins the group of its key. -/
theorem Grouped.update (h : Grouped key keyOf Holds rows (before ++ group :: after))
    (hkey : keyOf group = key row) (hnext : keyOf next = keyOf group)
    (hholds : Holds (members key rows (key row) ++ [row]) next) :
    Grouped key keyOf Holds (rows ++ [row]) (before ++ next :: after) := by
  have hkeys : (before ++ next :: after).map keyOf = (before ++ group :: after).map keyOf := by
    simp [hnext]
  have hnodup := h.nodup
  rw [List.map_append, List.map_cons, List.nodup_middle, List.nodup_cons,
    ← List.map_append] at hnodup
  constructor
  · rw [hkeys]
    exact h.nodup
  · intro other hother
    rw [hkeys]
    rcases List.mem_append.mp hother with hother | hother
    · exact h.covers other hother
    · rw [List.mem_singleton.mp hother, ← hkey]
      simp
  · intro other hother
    rw [List.mem_append, List.mem_cons] at hother
    have hcases : other = next ∨ other ∈ before ++ after := by
      rw [List.mem_append]
      tauto
    rcases hcases with rfl | hother
    · rw [hnext, hkey, members_concat_self]
      exact hholds
    · have hne : key row ≠ keyOf other := by
        intro heq
        rw [hkey, heq] at hnodup
        exact hnodup.1 (List.mem_map_of_mem hother)
      rw [members_concat_of_ne hne]
      apply h.holds
      rw [List.mem_append] at hother
      simp only [List.mem_append, List.mem_cons]
      tauto

/-- A row with a new key starts a group. -/
theorem Grouped.insert (h : Grouped key keyOf Holds rows groups)
    (hnew : key row ∉ groups.map keyOf) (hkey : keyOf next = key row) (hholds : Holds [row] next) :
    Grouped key keyOf Holds (rows ++ [row]) (groups ++ [next]) := by
  have hnone : members key rows (key row) = [] :=
    members_eq_nil fun other hother heq => hnew (heq ▸ h.covers other hother)
  constructor
  · rw [List.map_append, List.nodup_append]
    refine ⟨h.nodup, List.nodup_singleton _, fun k hk other hother => ?_⟩
    rw [List.map_singleton, List.mem_singleton] at hother
    rintro rfl
    exact hnew (by rwa [← hkey, ← hother])
  · intro other hother
    rw [List.map_append, List.mem_append]
    rcases List.mem_append.mp hother with hother | hother
    · exact .inl (h.covers other hother)
    · rw [List.mem_singleton.mp hother, ← hkey]
      exact .inr List.mem_cons_self
  · intro other hother
    rcases List.mem_append.mp hother with hother | hother
    · have hne : key row ≠ keyOf other := fun heq => hnew (heq ▸ List.mem_map_of_mem hother)
      rw [members_concat_of_ne hne]
      exact h.holds other hother
    · rw [List.mem_singleton.mp hother, hkey, members_concat_self, hnone]
      exact hholds

/-- Different keys that cover the rows partition them. -/
theorem perm_flatMap_members (rows : List α) {keys : List κ} (hnodup : keys.Nodup)
    (hcovers : ∀ row ∈ rows, key row ∈ keys) : (keys.flatMap (members key rows)).Perm rows := by
  induction keys generalizing rows with
  | nil => rw [List.eq_nil_iff_forall_not_mem.mpr fun row hrow => nomatch hcovers row hrow]; rfl
  | cons k keys ih =>
    obtain ⟨hk, hnodup⟩ := List.nodup_cons.mp hnodup
    have hrest := ih (rows.filter fun row => ¬key row = k) hnodup fun row hrow => by
      rw [List.mem_filter, decide_eq_true_eq] at hrow
      exact (List.mem_cons.mp (hcovers row hrow.1)).resolve_left hrow.2
    have hsame : keys.flatMap (members key (rows.filter fun row => ¬key row = k)) =
        keys.flatMap (members key rows) := by
      refine List.flatMap_congr fun other hother => ?_
      rw [members, List.filter_filter]
      refine List.filter_congr fun row _ => ?_
      have hne : other ≠ k := fun heq => hk (heq ▸ hother)
      by_cases hkey : key row = other
      · simp [hkey, hne]
      · simp [hkey]
    rw [hsame] at hrest
    rw [List.flatMap_cons]
    have hsplit := List.filter_append_perm (fun row => decide (key row = k)) rows
    refine (List.Perm.append_left _ hrest).trans ?_
    simpa [members] using hsplit

/-- The groups partition the rows. -/
theorem Grouped.perm (h : Grouped key keyOf Holds rows groups) :
    (groups.flatMap fun group => members key rows (keyOf group)).Perm rows := by
  have hperm := perm_flatMap_members rows h.nodup h.covers
  rwa [List.flatMap_map] at hperm

end Grouping
