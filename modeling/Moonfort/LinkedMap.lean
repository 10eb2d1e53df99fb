import Mathlib.Data.List.Nodup
import Mathlib.Data.List.Basic

/-!
# Maps that keep the order of insertion

A map as the list of its entries. Setting a key that is there replaces its value in
place, and setting a new one adds it at the end.
-/

namespace LinkedMap

variable {κ ν : Type} [DecidableEq κ]

/-- The value of a key. -/
def get (key : κ) : List (κ × ν) → Option ν
  | [] => none
  | (k, v) :: rest => if k = key then some v else get key rest

/-- Give a key a value. -/
def set (key : κ) (value : ν) : List (κ × ν) → List (κ × ν)
  | [] => [(key, value)]
  | (k, v) :: rest => if k = key then (key, value) :: rest else (k, v) :: set key value rest

/-- Take a key away. -/
def remove (key : κ) (entries : List (κ × ν)) : List (κ × ν) :=
  entries.filter fun entry => entry.1 ≠ key

/-- The keys in order. -/
abbrev keys (entries : List (κ × ν)) : List κ := entries.map Prod.fst

/-- Nothing is found in an empty map. -/
@[simp] theorem get_nil (key : κ) : get key ([] : List (κ × ν)) = none := rfl

/-- The first entry of its key is found. -/
theorem get_cons (key k : κ) (v : ν) (rest : List (κ × ν)) :
    get key ((k, v) :: rest) = if k = key then some v else get key rest := rfl

/-- Setting a key in an empty map is its only entry. -/
theorem set_nil (key : κ) (value : ν) : set key value [] = [(key, value)] := rfl

/-- Setting a key replaces its entry or goes on behind it. -/
theorem set_cons (key : κ) (value : ν) (k : κ) (v : ν) (rest : List (κ × ν)) :
    set key value ((k, v) :: rest) =
      if k = key then (key, value) :: rest else (k, v) :: set key value rest := rfl

variable {entries : List (κ × ν)} {key : κ}

/-- Nothing is found for a key that is not there. -/
theorem get_eq_none_iff :
    get key entries = none ↔ key ∉ keys entries := by
  induction entries with
  | nil => simp
  | cons entry rest ih =>
    obtain ⟨k, v⟩ := entry
    rw [get_cons, keys, List.map_cons, List.mem_cons, not_or]
    by_cases h : k = key
    · simp [h]
    · rw [if_neg h, ih]
      simp [Ne.symm h]

variable {value : ν}

/-- What is found is an entry. -/
theorem mem_of_get (h : get key entries = some value) : (key, value) ∈ entries := by
  induction entries with
  | nil => cases h
  | cons entry rest ih =>
    obtain ⟨k, v⟩ := entry
    rw [get_cons] at h
    split at h
    next heq =>
      obtain rfl := heq
      obtain rfl := Option.some.inj h
      exact List.mem_cons_self
    next => exact List.mem_cons_of_mem _ (ih h)

/-- Among different keys an entry is what its key gives. -/
theorem get_of_mem (hnodup : (keys entries).Nodup)
    (h : (key, value) ∈ entries) : get key entries = some value := by
  induction entries with
  | nil => cases h
  | cons entry rest ih =>
    obtain ⟨k, v⟩ := entry
    rw [keys, List.map_cons, List.nodup_cons] at hnodup
    rw [get_cons]
    rcases List.mem_cons.mp h with heq | hrest
    · obtain ⟨rfl, rfl⟩ := Prod.mk.inj heq
      rw [if_pos rfl]
    · have hne : k ≠ key := by
        rintro rfl
        exact hnodup.1 (List.mem_map.mpr ⟨_, hrest, rfl⟩)
      rw [if_neg hne, ih hnodup.2 hrest]

/-- Among different keys the entries are what their keys give. -/
theorem get_eq_some_iff (hnodup : (keys entries).Nodup) :
    get key entries = some value ↔ (key, value) ∈ entries :=
  ⟨mem_of_get, get_of_mem hnodup⟩

/-- A set key is found. -/
theorem get_set_self (key : κ) (value : ν) (entries : List (κ × ν)) :
    get key (set key value entries) = some value := by
  induction entries with
  | nil => simp [set_nil, get_cons]
  | cons entry rest ih =>
    obtain ⟨k, v⟩ := entry
    rw [set_cons]
    split
    · simp [get_cons]
    next hne => rw [get_cons, if_neg hne, ih]

/-- Setting a key leaves the others. -/
theorem get_set_of_ne {key other : κ} (hne : other ≠ key) (value : ν) (entries : List (κ × ν)) :
    get other (set key value entries) = get other entries := by
  induction entries with
  | nil => simp [set_nil, get_cons, Ne.symm hne]
  | cons entry rest ih =>
    obtain ⟨k, v⟩ := entry
    rw [set_cons]
    split
    next heq => rw [get_cons, get_cons, heq, if_neg (Ne.symm hne), if_neg (Ne.symm hne)]
    next => rw [get_cons, get_cons, ih]

/-- A key that is there stays where it is. -/
theorem keys_set_of_mem (h : key ∈ keys entries) :
    keys (set key value entries) = keys entries := by
  induction entries with
  | nil => cases h
  | cons entry rest ih =>
    obtain ⟨k, v⟩ := entry
    rw [set_cons]
    split
    next heq => simp [keys, heq]
    next hne =>
      have hrest : key ∈ keys rest := by
        rcases List.mem_cons.mp h with heq | hrest
        · exact absurd heq.symm hne
        · exact hrest
      have hkeys := congrArg (k :: ·) (ih hrest)
      simpa [keys] using hkeys

/-- A new key comes last. -/
theorem mem_keys_set {key other : κ} :
    other ∈ keys (set key value entries) ↔ other = key ∨ other ∈ keys entries := by
  induction entries with
  | nil => simp [set_nil]
  | cons entry rest ih =>
    obtain ⟨k, v⟩ := entry
    rw [set_cons]
    by_cases h : k = key
    · simp [h]
    · simp only [if_neg h, keys, List.map_cons, List.mem_cons]
      rw [ih]
      tauto

/-- A new key is put at the end. -/
theorem set_of_notMem (h : key ∉ keys entries) :
    set key value entries = entries ++ [(key, value)] := by
  induction entries with
  | nil => rfl
  | cons entry rest ih =>
    obtain ⟨k, v⟩ := entry
    rw [keys, List.map_cons, List.mem_cons, not_or] at h
    rw [set_cons, if_neg (Ne.symm h.1), ih h.2, List.cons_append]

/-- Setting a key keeps the keys distinct. -/
theorem nodup_keys_set (h : (keys entries).Nodup) : (keys (set key value entries)).Nodup := by
  by_cases hmem : key ∈ keys entries
  · rw [keys_set_of_mem hmem]
    exact h
  · rw [set_of_notMem hmem, keys, List.map_append, List.nodup_append]
    refine ⟨h, by simp, ?_⟩
    rintro a ha b hb rfl
    obtain rfl : a = key := by simpa using hb
    exact hmem ha

/-- Setting a key to the value it has changes nothing. -/
theorem set_of_get (h : get key entries = some value) : set key value entries = entries := by
  induction entries with
  | nil => cases h
  | cons entry rest ih =>
    obtain ⟨k, v⟩ := entry
    rw [get_cons] at h
    rw [set_cons]
    split at h
    next heq =>
      obtain rfl := heq
      obtain rfl := Option.some.inj h
      rw [if_pos rfl]
    next hne => rw [if_neg hne, ih h]

/-- An entry that is found stands behind others with other keys. -/
theorem exists_split_of_get (h : get key entries = some value) :
    ∃ before after, entries = before ++ (key, value) :: after ∧ key ∉ keys before := by
  induction entries with
  | nil => cases h
  | cons entry rest ih =>
    obtain ⟨k, v⟩ := entry
    rw [get_cons] at h
    split at h
    next heq =>
      obtain rfl := heq
      obtain rfl := Option.some.inj h
      exact ⟨[], rest, rfl, List.not_mem_nil⟩
    next hne =>
      obtain ⟨before, after, rfl, hbefore⟩ := ih h
      refine ⟨(k, v) :: before, after, rfl, ?_⟩
      rw [keys, List.map_cons, List.mem_cons, not_or]
      exact ⟨Ne.symm hne, hbefore⟩

/-- A key that is not in front is looked up behind. -/
theorem get_append_of_notMem {before : List (κ × ν)} (h : key ∉ keys before)
    (after : List (κ × ν)) : get key (before ++ after) = get key after := by
  induction before with
  | nil => rfl
  | cons entry rest ih =>
    obtain ⟨k, v⟩ := entry
    rw [keys, List.map_cons, List.mem_cons, not_or] at h
    rw [List.cons_append, get_cons, if_neg (Ne.symm h.1), ih h.2]

/-- A key is found at its place. -/
theorem get_split {before : List (κ × ν)} (h : key ∉ keys before) (value : ν)
    (after : List (κ × ν)) : get key (before ++ (key, value) :: after) = some value := by
  rw [get_append_of_notMem h, get_cons, if_pos rfl]

/-- Another key does not see an entry. -/
theorem get_split_of_ne {key other : κ} (hne : other ≠ key) (before after : List (κ × ν))
    (value : ν) : get other (before ++ (key, value) :: after) = get other (before ++ after) := by
  induction before with
  | nil => rw [List.nil_append, List.nil_append, get_cons, if_neg (Ne.symm hne)]
  | cons entry rest ih =>
    obtain ⟨k, v⟩ := entry
    rw [List.cons_append, List.cons_append, get_cons, get_cons, ih]

/-- A key is set at its place. -/
theorem set_split {before : List (κ × ν)} (h : key ∉ keys before) (value new : ν)
    (after : List (κ × ν)) :
    set key new (before ++ (key, value) :: after) = before ++ (key, new) :: after := by
  induction before with
  | nil => rw [List.nil_append, set_cons, if_pos rfl, List.nil_append]
  | cons entry rest ih =>
    obtain ⟨k, v⟩ := entry
    rw [keys, List.map_cons, List.mem_cons, not_or] at h
    rw [List.cons_append, set_cons, if_neg (Ne.symm h.1), ih h.2, List.cons_append]

/-- Removing a key that is not there changes nothing. -/
theorem remove_of_notMem (h : key ∉ keys entries) :
    remove key entries = entries := by
  rw [remove, List.filter_eq_self]
  intro entry hentry
  have hne : entry.1 ≠ key := by
    rintro rfl
    exact h (List.mem_map_of_mem hentry)
  simp [hne]

/-- Among different keys only the entry itself goes. -/
theorem remove_split {before after : List (κ × ν)} (value : ν)
    (hnodup : (keys (before ++ (key, value) :: after)).Nodup) :
    remove key (before ++ (key, value) :: after) = before ++ after := by
  rw [keys, List.map_append, List.map_cons] at hnodup
  have hcons := List.nodup_append.mp hnodup
  have hbefore : key ∉ keys before := by
    intro hmem
    exact hcons.2.2 key hmem key List.mem_cons_self rfl
  have hafter : key ∉ keys after := (List.nodup_cons.mp hcons.2.1).1
  have hentry : remove key ((key, value) :: after) = remove key after := by
    rw [remove, List.filter_cons_of_neg (by simp)]
    rfl
  have hsplit : remove key (before ++ (key, value) :: after) =
      remove key before ++ remove key ((key, value) :: after) :=
    List.filter_append _ _
  rw [hsplit, hentry, remove_of_notMem hbefore, remove_of_notMem hafter]

end LinkedMap
