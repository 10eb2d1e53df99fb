import Moonfort.LinkedMap

/-!
# Groups behind an index

Groups in the order in which their keys first came, and an index that gives the name of every key
the position of its group. A key is where the index says, or is put behind the others.
-/

namespace GroupIndex

variable {γ κ ι : Type} {name : κ → ι} {keyOf : γ → κ}

/-- The index gives every key its position. -/
def Indexed (name : κ → ι) (keyOf : γ → κ) (groups : List γ) (index : List (ι × ℕ)) : Prop :=
  index = (groups.map keyOf).zipIdx.map fun entry => (name entry.1, entry.2)

/-- No groups are indexed by nothing. -/
theorem Indexed.nil : Indexed name keyOf [] [] := rfl

variable {index : List (ι × ℕ)}

/-- A key that the index has is that of the group at its position. -/
theorem Indexed.found [DecidableEq ι] {groups : List γ}
    (h : Indexed name keyOf groups index) (hname : Function.Injective name) {key : κ}
    {position : ℕ} (hget : LinkedMap.get (name key) index = some position) :
    ∃ before group after, groups = before ++ group :: after ∧ keyOf group = key ∧
      position = before.length := by
  have hmem := LinkedMap.mem_of_get hget
  rw [h, List.mem_map] at hmem
  obtain ⟨⟨other, place⟩, hplace, hentry⟩ := hmem
  obtain ⟨hsame, rfl⟩ := Prod.mk.inj hentry
  obtain rfl := hname hsame
  rw [List.mem_zipIdx_iff_getElem?, List.getElem?_map, Option.map_eq_some_iff] at hplace
  obtain ⟨group, hgroup, hkey⟩ := hplace
  obtain ⟨hlt, hat⟩ := List.getElem?_eq_some_iff.mp hgroup
  refine ⟨groups.take place, group, groups.drop (place + 1), ?_, hkey, ?_⟩
  · rw [← hat, ← List.drop_eq_getElem_cons hlt, List.take_append_drop]
  · rw [List.length_take, Nat.min_eq_left (Nat.le_of_lt hlt)]

/-- A key that the index does not have is new. -/
theorem Indexed.missing [DecidableEq ι] {groups : List γ}
    (h : Indexed name keyOf groups index) {key : κ}
    (hget : LinkedMap.get (name key) index = none) : key ∉ groups.map keyOf := by
  have hnew : name key ∉ LinkedMap.keys index := LinkedMap.get_eq_none_iff.mp hget
  intro hmem
  apply hnew
  rw [LinkedMap.keys, h, List.map_map]
  obtain ⟨position, hlt, rfl⟩ := List.getElem_of_mem hmem
  exact List.mem_map.mpr ⟨((groups.map keyOf)[position], position),
    List.mem_zipIdx_iff_getElem?.mpr (List.getElem?_eq_getElem hlt), rfl⟩

/-- A group with a new key is put behind the others. -/
theorem Indexed.push [DecidableEq ι] {groups : List γ}
    (h : Indexed name keyOf groups index) {group : γ}
    (hget : LinkedMap.get (name (keyOf group)) index = none) :
    Indexed name keyOf (groups ++ [group])
      (LinkedMap.set (name (keyOf group)) groups.length index) := by
  have hindex : index = (groups.map keyOf).zipIdx.map fun entry => (name entry.1, entry.2) := h
  rw [Indexed, LinkedMap.set_of_notMem (LinkedMap.get_eq_none_iff.mp hget), hindex]
  simp [List.zipIdx_append]

/-- A group gives way to one with its key. -/
theorem Indexed.replace {before after : List γ} {group next : γ}
    (h : Indexed name keyOf (before ++ group :: after) index) (hkey : keyOf next = keyOf group) :
    Indexed name keyOf (before ++ next :: after) index := by
  rw [Indexed] at h ⊢
  rw [h]
  simp [hkey]

/-- Changing a list at a place changes the element there. -/
theorem modify_split (f : γ → γ) (before after : List γ) (group : γ) :
    (before ++ group :: after).modify before.length f = before ++ f group :: after := by
  induction before with
  | nil => rfl
  | cons first rest ih =>
    rw [List.cons_append, List.length_cons, List.modify_succ_cons, ih, List.cons_append]

end GroupIndex
