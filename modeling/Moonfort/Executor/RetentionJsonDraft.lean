import Moonfort.MoonBit.Crypto
import Moonfort.Executor.RetentionJsonPointer

/-!
# Drafts of edited JSON

Set and remove operations on retained JSON. An accepted edit changes the value at its
pointer and leaves the rest as it is, and the text of the candidate is read back as the
candidate.
-/

namespace Moonfort.Executor

open JsonGrammar MoonBit

/-! ## Edits -/

/-- The operations of an edit. -/
inductive EditOperation where
  | set
  | remove
  deriving DecidableEq

/-- `RetainedJsonEdit`. -/
structure RetainedJsonEdit (ν : Type) where
  operation : EditOperation
  tokens : List String
  value : JsonTree String ν

section Edits

variable {ν : Type}

/-- The items of the copy of an array: some others in place of the one at the index. -/
def copyItems (index : ℕ) (others items : List (JsonTree String ν)) : List (JsonTree String ν) :=
  items.take index ++ others ++ items.drop (index + 1)

/-- `retained_apply_edit`, from some of the tokens on. -/
def retainedApplyEdit (operation : EditOperation) (value : JsonTree String ν) :
    (tokens : List String) → JsonTree String ν → Except String (JsonTree String ν)
  | [], _ => .ok value
  | token :: rest, current =>
    match current with
    | .object fields =>
      if rest = [] ∧ operation = .set then .ok (.object (LinkedMap.set token value fields))
      else
        match LinkedMap.get token fields with
        | none => .error "JSON edit object key is missing"
        | some child =>
          if rest = [] then .ok (.object (LinkedMap.remove token fields))
          else
            match retainedApplyEdit operation value rest child with
            | .ok child => .ok (.object (LinkedMap.set token child fields))
            | .error message => .error message
    | .array items =>
      if token = "-" ∧ rest = [] ∧ operation = .set then .ok (.array (items ++ [value]))
      else
        match retainedEditIndex token items.length with
        | .error message => .error message
        | .ok index =>
          match items[index]? with
          | none => .error "index out of bounds"
          | some child =>
            if rest ≠ [] then
              match retainedApplyEdit operation value rest child with
              | .ok child => .ok (.array (copyItems index [child] items))
              | .error message => .error message
            else
              match operation with
              | .set => .ok (.array (copyItems index [value] items))
              | .remove => .ok (.array (copyItems index [] items))
    | _ => .error "JSON edit traverses a scalar"

/-! ## What an edit is -/

/-- The edit of a value at some tokens: what is at the last of them is set or taken away, and
everything else stays where it is. -/
inductive Edited (operation : EditOperation) (value : JsonTree String ν) :
    List String → JsonTree String ν → JsonTree String ν → Prop
  | here {tree : JsonTree String ν} (hset : operation = .set) :
    Edited operation value [] tree value
  | member {key : String} {rest : List String} {before after : List (String × JsonTree String ν)}
    {child child' : JsonTree String ν} (hbefore : key ∉ LinkedMap.keys before)
    (hchild : Edited operation value rest child child') :
    Edited operation value (key :: rest) (.object (before ++ (key, child) :: after))
      (.object (before ++ (key, child') :: after))
  | newMember {key : String} {fields : List (String × JsonTree String ν)}
    (hset : operation = .set) (hnew : key ∉ LinkedMap.keys fields) :
    Edited operation value [key] (.object fields) (.object (fields ++ [(key, value)]))
  | noMember {key : String} {before after : List (String × JsonTree String ν)}
    {child : JsonTree String ν} (hremove : operation = .remove)
    (hkey : key ∉ LinkedMap.keys (before ++ after)) :
    Edited operation value [key] (.object (before ++ (key, child) :: after))
      (.object (before ++ after))
  | item {token : String} {rest : List String} {before after : List (JsonTree String ν)}
    {child child' : JsonTree String ν} (hindex : indexOf token = some before.length)
    (hchild : Edited operation value rest child child') :
    Edited operation value (token :: rest) (.array (before ++ child :: after))
      (.array (before ++ child' :: after))
  | newItem {items : List (JsonTree String ν)} (hset : operation = .set) :
    Edited operation value ["-"] (.array items) (.array (items ++ [value]))
  | noItem {token : String} {before after : List (JsonTree String ν)} {child : JsonTree String ν}
    (hremove : operation = .remove) (hindex : indexOf token = some before.length) :
    Edited operation value [token] (.array (before ++ child :: after)) (.array (before ++ after))

/-- Copying replaces the child at its place. -/
theorem copyItems_split {before after others : List (JsonTree String ν)}
    {child : JsonTree String ν} :
    copyItems before.length others (before ++ child :: after) = before ++ others ++ after := by
  rw [copyItems, List.take_left, ← List.singleton_append, ← List.append_assoc,
    List.drop_left' (by simp)]

/-- A list splits at each of its places. -/
theorem exists_split_of_getElem? {items : List (JsonTree String ν)} {index : ℕ}
    {child : JsonTree String ν} (h : items[index]? = some child) :
    ∃ before after, items = before ++ child :: after ∧ before.length = index := by
  obtain ⟨hlt, hchild⟩ := List.getElem?_eq_some_iff.mp h
  refine ⟨items.take index, items.drop (index + 1), ?_, by simp; omega⟩
  rw [← hchild, List.getElem_cons_drop, List.take_append_drop]

/-- An edit that goes into an object or ends in it changes it as the laws say, if the edits
below it do. -/
theorem edited_of_apply_object {operation : EditOperation} {value next : JsonTree String ν}
    {fields : List (String × JsonTree String ν)} {token : String} {rest : List String}
    (ih : ∀ {child child'}, child.Distinct → (operation = .remove → rest ≠ []) →
      retainedApplyEdit operation value rest child = .ok child' →
        Edited operation value rest child child')
    (hdistinct : (JsonTree.object fields).Distinct)
    (h : retainedApplyEdit operation value (token :: rest) (.object fields) = .ok next) :
    Edited operation value (token :: rest) (.object fields) next := by
  rw [retainedApplyEdit] at h
  split at h
  next hset =>
    obtain ⟨rfl, hset⟩ := hset
    obtain rfl := Except.ok.inj h
    cases hget : LinkedMap.get token fields with
    | none =>
      have hnew := LinkedMap.get_eq_none_iff.mp hget
      rw [LinkedMap.set_of_notMem hnew]
      exact .newMember hset hnew
    | some child =>
      obtain ⟨before, after, rfl, hbefore⟩ := LinkedMap.exists_split_of_get hget
      rw [LinkedMap.set_split hbefore]
      exact .member hbefore (.here hset)
  next hnset =>
    split at h
    next => cases h
    next child hget =>
      obtain ⟨before, after, rfl, hbefore⟩ := LinkedMap.exists_split_of_get hget
      split at h
      next hrest =>
        obtain rfl := hrest
        obtain rfl := Except.ok.inj h
        have hremove : operation = .remove := by
          cases operation with
          | set => exact absurd ⟨rfl, rfl⟩ hnset
          | remove => rfl
        rw [LinkedMap.remove_split _ hdistinct.1]
        apply Edited.noMember hremove
        have hnodup := hdistinct.1
        rw [List.map_append, List.map_cons, List.nodup_middle, List.nodup_cons] at hnodup
        rw [LinkedMap.keys, List.map_append]
        exact hnodup.1
      next hrest =>
        split at h
        next child' hchild =>
          obtain rfl := Except.ok.inj h
          have hmem : (token, child) ∈ before ++ (token, child) :: after := by simp
          rw [LinkedMap.set_split hbefore]
          exact .member hbefore
            (ih (distinctMembers_iff.mp hdistinct.2 _ hmem) (fun _ => hrest) hchild)
        next => cases h

/-- An edit that goes into a list or ends in it changes it as the laws say, if the edits below
it do. -/
theorem edited_of_apply_array {operation : EditOperation} {value next : JsonTree String ν}
    {items : List (JsonTree String ν)} {token : String} {rest : List String}
    (ih : ∀ {child child'}, child.Distinct → (operation = .remove → rest ≠ []) →
      retainedApplyEdit operation value rest child = .ok child' →
        Edited operation value rest child child')
    (hdistinct : (JsonTree.array items).Distinct)
    (h : retainedApplyEdit operation value (token :: rest) (.array items) = .ok next) :
    Edited operation value (token :: rest) (.array items) next := by
  rw [retainedApplyEdit] at h
  split at h
  next hset =>
    obtain ⟨rfl, rfl, hset⟩ := hset
    obtain rfl := Except.ok.inj h
    exact .newItem hset
  next =>
    split at h
    next => cases h
    next index hindex =>
      obtain ⟨hsome, hlt⟩ := retainedEditIndex_eq_ok_iff.mp hindex
      split at h
      next => cases h
      next child hget =>
        obtain ⟨before, after, rfl, rfl⟩ := exists_split_of_getElem? hget
        split at h
        next hrest =>
          split at h
          next child' hchild =>
            obtain rfl := Except.ok.inj h
            have hmem : child ∈ before ++ child :: after := by simp
            rw [copyItems_split, List.append_assoc, List.singleton_append]
            exact .item hsome
              (ih (distinctItems_iff.mp hdistinct _ hmem) (fun _ => hrest) hchild)
          next => cases h
        next hrest =>
          obtain rfl := not_not.mp hrest
          split at h
          next =>
            obtain rfl := Except.ok.inj h
            rw [copyItems_split, List.append_assoc, List.singleton_append]
            exact .item hsome (.here rfl)
          next =>
            obtain rfl := Except.ok.inj h
            rw [copyItems_split, List.append_nil]
            exact .noItem rfl hsome

/-- An edit that is applied is an edit. -/
theorem edited_of_apply {operation : EditOperation} {value tree next : JsonTree String ν}
    {tokens : List String} (hdistinct : tree.Distinct)
    (hroot : operation = .remove → tokens ≠ [])
    (h : retainedApplyEdit operation value tokens tree = .ok next) :
    Edited operation value tokens tree next := by
  induction tokens generalizing tree next with
  | nil =>
    obtain rfl : value = next := Except.ok.inj h
    apply Edited.here
    cases operation with
    | set => rfl
    | remove => exact absurd rfl (hroot rfl)
  | cons token rest ih =>
    cases tree with
    | object fields => exact edited_of_apply_object ih hdistinct h
    | array items => exact edited_of_apply_array ih hdistinct h
    | _ => cases h

/-! ## What an edit does -/

section Laws

variable {operation : EditOperation} {value tree next : JsonTree String ν} {tokens : List String}

/-- An index addresses the child at its place. -/
theorem childAt_split {token : String} {before after : List (JsonTree String ν)}
    (hindex : indexOf token = some before.length) (child : JsonTree String ν) :
    childAt token (.array (before ++ child :: after)) = some child := by
  rw [childAt, hindex, Option.bind_some]
  simp

/-- A value that is set is found, at the end of the array if it was added there. -/
theorem Edited.found (h : Edited operation value tokens tree next) (hexact : Exact tree)
    (hset : operation = .set) :
    find tokens next = some value ∨
      ∃ parent items, tokens = parent ++ ["-"] ∧ find parent tree = some (.array items) ∧
        find (parent ++ [indexText items.length]) next = some value := by
  induction h with
  | here => exact .inl rfl
  | @member key rest before after child child' hbefore hchild ih =>
    have hold : childAt key (.object (before ++ (key, child) :: after)) = some child :=
      LinkedMap.get_split hbefore _ _
    have hnew : childAt key (.object (before ++ (key, child') :: after)) = some child' :=
      LinkedMap.get_split hbefore _ _
    rcases ih (hexact.childAt hold) with hfind | ⟨parent, items, rfl, hparent, hfind⟩
    · left
      rw [find_cons hnew]
      exact hfind
    · right
      refine ⟨key :: parent, items, rfl, ?_, ?_⟩
      · rw [find_cons hold]
        exact hparent
      · rw [List.cons_append, find_cons hnew]
        exact hfind
  | newMember hset hnew =>
    left
    rw [find, childAt, LinkedMap.get_append_of_notMem hnew, LinkedMap.get, if_pos rfl]
    rfl
  | noMember hremove =>
    rw [hset] at hremove
    cases hremove
  | @item token rest before after child child' hindex hchild ih =>
    have hold : childAt token (.array (before ++ child :: after)) = some child :=
      childAt_split hindex child
    have hnew : childAt token (.array (before ++ child' :: after)) = some child' :=
      childAt_split hindex child'
    rcases ih (hexact.childAt hold) with hfind | ⟨parent, items, rfl, hparent, hfind⟩
    · left
      rw [find_cons hnew]
      exact hfind
    · right
      refine ⟨token :: parent, items, rfl, ?_, ?_⟩
      · rw [find_cons hold]
        exact hparent
      · rw [List.cons_append, find_cons hnew]
        exact hfind
  | @newItem items hset =>
    right
    have hcount := hexact.count_le
    have hlength := length_le_countItems items
    rw [JsonTree.count] at hcount
    have hindex := indexOf_eq_some_iff.mpr ⟨rfl, (by omega : items.length / 10 ≤ 1048576)⟩
    refine ⟨[], items, rfl, rfl, ?_⟩
    rw [List.nil_append, find, childAt_split hindex]
    rfl
  | noItem hremove =>
    rw [hset] at hremove
    cases hremove

/-- A value that is taken away is gone, and the items behind it move up. -/
theorem Edited.gone (h : Edited operation value tokens tree next)
    (hremove : operation = .remove) :
    ∃ parent token, tokens = parent ++ [token] ∧
      ((∃ fields, find parent tree = some (.object fields) ∧ find tokens next = none) ∨
        ∃ items index, find parent tree = some (.array items) ∧ indexOf token = some index ∧
          index < items.length ∧ find parent next = some (.array (items.eraseIdx index))) := by
  induction h with
  | here hset =>
    rw [hremove] at hset
    cases hset
  | @member key rest before after child child' hbefore hchild ih =>
    have hold : childAt key (.object (before ++ (key, child) :: after)) = some child :=
      LinkedMap.get_split hbefore _ _
    have hnew : childAt key (.object (before ++ (key, child') :: after)) = some child' :=
      LinkedMap.get_split hbefore _ _
    obtain ⟨parent, token, rfl, hgone⟩ := ih
    refine ⟨key :: parent, token, rfl, ?_⟩
    simp only [find_cons hold, find_cons hnew]
    exact hgone
  | newMember hset =>
    rw [hremove] at hset
    cases hset
  | @noMember key before after child hremove hkey =>
    refine ⟨[], key, rfl, .inl ⟨_, rfl, ?_⟩⟩
    rw [find, childAt, LinkedMap.get_eq_none_iff.mpr hkey]
    rfl
  | @item token rest before after child child' hindex hchild ih =>
    have hold : childAt token (.array (before ++ child :: after)) = some child :=
      childAt_split hindex child
    have hnew : childAt token (.array (before ++ child' :: after)) = some child' :=
      childAt_split hindex child'
    obtain ⟨parent, last, rfl, hgone⟩ := ih
    refine ⟨token :: parent, last, rfl, ?_⟩
    simp only [find_cons hold, find_cons hnew]
    exact hgone
  | newItem hset =>
    rw [hremove] at hset
    cases hset
  | @noItem token before after child hremove hindex =>
    refine ⟨[], token, rfl, .inr ⟨_, _, rfl, hindex, by simp, ?_⟩⟩
    rw [find, List.eraseIdx_append_of_length_le (Nat.le_refl _), Nat.sub_self]
    rfl

/-- The child under another token does not change with an item or a member. -/
theorem childAt_item_of_ne {token other : String} {before after : List (JsonTree String ν)}
    (hindex : indexOf token = some before.length) (hne : other ≠ token)
    (child child' : JsonTree String ν) :
    childAt other (.array (before ++ child' :: after)) =
      childAt other (.array (before ++ child :: after)) := by
  rw [childAt, childAt]
  cases hother : indexOf other with
  | none => rfl
  | some index =>
    have hlength : before.length ≠ index := by
      rintro rfl
      exact hne ((indexOf_eq_some_iff.mp hother).1.trans (indexOf_eq_some_iff.mp hindex).1.symm)
    rw [Option.bind_some, Option.bind_some]
    by_cases hlt : index < before.length
    · rw [List.getElem?_append_left hlt, List.getElem?_append_left hlt]
    · obtain ⟨k, hk⟩ : ∃ k, index - before.length = k + 1 := ⟨index - before.length - 1, by omega⟩
      rw [List.getElem?_append_right (by omega), List.getElem?_append_right (by omega), hk,
        List.getElem?_cons_succ, List.getElem?_cons_succ]

/-- A pointer that parts from that of the edit leads where it led before, unless it parts
at an array that an item is added to or taken from. -/
theorem Edited.frame (h : Edited operation value tokens tree next)
    {common rest' others : List String} {token other : String}
    (htokens : tokens = common ++ token :: rest') (hne : other ≠ token)
    (harray : rest' = [] → (∃ items, find common tree = some (.array items)) →
      operation = .set ∧ token ≠ "-") :
    find (common ++ other :: others) next = find (common ++ other :: others) tree := by
  induction h generalizing common with
  | here =>
    exact absurd htokens.symm (by simp)
  | @member key rest before after child child' hbefore hchild ih =>
    have hold : childAt key (.object (before ++ (key, child) :: after)) = some child :=
      LinkedMap.get_split hbefore _ _
    have hnew : childAt key (.object (before ++ (key, child') :: after)) = some child' :=
      LinkedMap.get_split hbefore _ _
    cases common with
    | nil =>
      obtain ⟨rfl, -⟩ := List.cons.inj htokens
      rw [List.nil_append, find, find, childAt, childAt, LinkedMap.get_split_of_ne hne,
        LinkedMap.get_split_of_ne hne]
    | cons first common =>
      obtain ⟨rfl, hrest⟩ := List.cons.inj htokens
      rw [List.cons_append, find_cons hnew, find_cons hold]
      apply ih hrest
      intro hnil hitems
      apply harray hnil
      rw [find_cons hold]
      exact hitems
  | @newMember key fields hset hnew =>
    cases common with
    | nil =>
      obtain ⟨rfl, -⟩ := List.cons.inj htokens
      rw [List.nil_append, find, find, childAt, childAt, LinkedMap.get_split_of_ne hne,
        List.append_nil]
    | cons first common => exact absurd (List.cons.inj htokens).2 (by simp)
  | @noMember key before after child hremove hkey =>
    cases common with
    | nil =>
      obtain ⟨rfl, -⟩ := List.cons.inj htokens
      rw [List.nil_append, find, find, childAt, childAt, LinkedMap.get_split_of_ne hne]
    | cons first common => exact absurd (List.cons.inj htokens).2 (by simp)
  | @item key rest before after child child' hindex hchild ih =>
    have hold : childAt key (.array (before ++ child :: after)) = some child :=
      childAt_split hindex child
    have hnew : childAt key (.array (before ++ child' :: after)) = some child' :=
      childAt_split hindex child'
    cases common with
    | nil =>
      obtain ⟨rfl, -⟩ := List.cons.inj htokens
      rw [List.nil_append, find, find, childAt_item_of_ne hindex hne child child']
    | cons first common =>
      obtain ⟨rfl, hrest⟩ := List.cons.inj htokens
      rw [List.cons_append, find_cons hnew, find_cons hold]
      apply ih hrest
      intro hnil hitems
      apply harray hnil
      rw [find_cons hold]
      exact hitems
  | newItem hset =>
    cases common with
    | nil =>
      obtain ⟨rfl, hnil⟩ := List.cons.inj htokens
      exact absurd rfl (harray hnil.symm ⟨_, rfl⟩).2
    | cons first common => exact absurd (List.cons.inj htokens).2 (by simp)
  | noItem hremove =>
    cases common with
    | nil =>
      obtain ⟨rfl, hnil⟩ := List.cons.inj htokens
      have hset := (harray hnil.symm ⟨_, rfl⟩).1
      rw [hremove] at hset
      cases hset
    | cons first common => exact absurd (List.cons.inj htokens).2 (by simp)

end Laws

/-- What is taken away was there. -/
theorem Edited.exists_find {operation : EditOperation} {value tree next : JsonTree String ν}
    {tokens : List String} (h : Edited operation value tokens tree next)
    (hremove : operation = .remove) : ∃ old, find tokens tree = some old := by
  induction h with
  | here hset =>
    rw [hremove] at hset
    cases hset
  | @member key rest before after child child' hbefore hchild ih =>
    have hold : childAt key (.object (before ++ (key, child) :: after)) = some child :=
      LinkedMap.get_split hbefore _ _
    rw [find_cons hold]
    exact ih
  | newMember hset =>
    rw [hremove] at hset
    cases hset
  | @noMember key before after child hremove hkey =>
    have hbefore : key ∉ LinkedMap.keys before := by
      rw [LinkedMap.keys, List.map_append, List.mem_append, not_or] at hkey
      exact hkey.1
    have hold : childAt key (.object (before ++ (key, child) :: after)) = some child :=
      LinkedMap.get_split hbefore _ _
    exact ⟨child, find_cons hold []⟩
  | @item token rest before after child child' hindex hchild ih =>
    rw [find_cons (childAt_split hindex child)]
    exact ih
  | newItem hset =>
    rw [hremove] at hset
    cases hset
  | @noItem token before after child hremove hindex =>
    exact ⟨child, find_cons (childAt_split hindex child) []⟩

/-- What is there can be taken away, but for the root. -/
theorem exists_remove {value tree old : JsonTree String ν} {tokens : List String}
    (hne : tokens ≠ []) (h : find tokens tree = some old) :
    ∃ next, retainedApplyEdit .remove value tokens tree = .ok next := by
  induction tokens generalizing tree with
  | nil => exact absurd rfl hne
  | cons token rest ih =>
    obtain ⟨child, hchild, hrest⟩ := Option.bind_eq_some_iff.mp h
    cases tree with
    | object fields =>
      rw [retainedApplyEdit, if_neg (by simp)]
      rw [childAt] at hchild
      rw [hchild]
      dsimp only
      by_cases hnil : rest = []
      · exact ⟨_, if_pos hnil⟩
      · obtain ⟨next, hnext⟩ := ih hnil hrest
        rw [if_neg hnil, hnext]
        exact ⟨_, rfl⟩
    | array items =>
      obtain ⟨index, hindex, hitem⟩ := Option.bind_eq_some_iff.mp hchild
      obtain ⟨hlt, -⟩ := List.getElem?_eq_some_iff.mp hitem
      rw [retainedApplyEdit, if_neg (by simp), retainedEditIndex_eq_ok_iff.mpr ⟨hindex, hlt⟩]
      dsimp only
      rw [hitem]
      dsimp only
      by_cases hnil : rest = []
      · exact ⟨_, if_neg (not_not.mpr hnil)⟩
      · obtain ⟨next, hnext⟩ := ih hnil hrest
        rw [if_pos hnil, hnext]
        exact ⟨_, rfl⟩
    | _ => cases hchild

/-- Setting the value that is there changes nothing. -/
theorem set_of_find {value tree : JsonTree String ν} {tokens : List String}
    (h : find tokens tree = some value) :
    retainedApplyEdit .set value tokens tree = .ok tree := by
  induction tokens generalizing tree with
  | nil =>
    obtain rfl : tree = value := Option.some.inj h
    rfl
  | cons token rest ih =>
    obtain ⟨child, hchild, hrest⟩ := Option.bind_eq_some_iff.mp h
    cases tree with
    | object fields =>
      rw [childAt] at hchild
      rw [retainedApplyEdit]
      by_cases hnil : rest = []
      · subst hnil
        obtain rfl : child = value := Option.some.inj hrest
        rw [if_pos ⟨rfl, rfl⟩, LinkedMap.set_of_get hchild]
      · rw [if_neg fun h => hnil h.1, hchild]
        dsimp only
        rw [if_neg hnil, ih hrest]
        dsimp only
        rw [LinkedMap.set_of_get hchild]
    | array items =>
      obtain ⟨index, hindex, hitem⟩ := Option.bind_eq_some_iff.mp hchild
      obtain ⟨hlt, -⟩ := List.getElem?_eq_some_iff.mp hitem
      obtain ⟨before, after, rfl, rfl⟩ := exists_split_of_getElem? hitem
      have hdash : token ≠ "-" := by
        rintro rfl
        have hnone : indexOf "-" = none := rfl
        rw [hnone] at hindex
        cases hindex
      rw [retainedApplyEdit, if_neg fun h => hdash h.1,
        retainedEditIndex_eq_ok_iff.mpr ⟨hindex, hlt⟩]
      dsimp only
      rw [hitem]
      dsimp only
      by_cases hnil : rest = []
      · subst hnil
        obtain rfl : child = value := Option.some.inj hrest
        rw [if_neg (not_not.mpr rfl), copyItems_split, List.append_assoc, List.singleton_append]
      · rw [if_pos hnil, ih hrest]
        dsimp only
        rw [copyItems_split, List.append_assoc, List.singleton_append]
    | _ => cases hchild

/-- Setting a value that is not there changes something. -/
theorem find_of_set {value tree : JsonTree String ν} {tokens : List String} (hexact : Exact tree)
    (h : retainedApplyEdit .set value tokens tree = .ok tree) : find tokens tree = some value := by
  have hset (hremove : EditOperation.set = .remove) : tokens ≠ [] := nomatch hremove
  have hedited := edited_of_apply hexact.distinct hset h
  rcases hedited.found hexact rfl with hfind | ⟨parent, items, rfl, hparent, hfind⟩
  · exact hfind
  · rw [find_append, hparent, Option.bind_some, find, childAt] at hfind
    have hitems := (hexact.find hparent).count_le
    have hlength := length_le_countItems items
    rw [JsonTree.count] at hitems
    have hindex := indexOf_eq_some_iff.mpr ⟨rfl, (by omega : items.length / 10 ≤ 1048576)⟩
    rw [hindex, Option.bind_some, List.getElem?_eq_none (Nat.le_refl _)] at hfind
    cases hfind

/-- An edit invents no numbers. -/
theorem Edited.allNumbers {operation : EditOperation} {value tree next : JsonTree String ν}
    {tokens : List String} {P : ν → Prop} (h : Edited operation value tokens tree next)
    (hvalue : value.AllNumbers P) (htree : tree.AllNumbers P) : next.AllNumbers P := by
  induction h with
  | here => exact hvalue
  | member hbefore hchild ih =>
    rw [JsonTree.AllNumbers, allMembers_iff, List.forall_mem_append,
      List.forall_mem_cons] at htree ⊢
    exact ⟨htree.1, ih htree.2.1, htree.2.2⟩
  | newMember =>
    rw [JsonTree.AllNumbers, allMembers_iff] at htree ⊢
    rw [List.forall_mem_append]
    exact ⟨htree, by simpa using hvalue⟩
  | noMember =>
    rw [JsonTree.AllNumbers, allMembers_iff, List.forall_mem_append] at htree ⊢
    exact ⟨htree.1, (List.forall_mem_cons.mp htree.2).2⟩
  | item hindex hchild ih =>
    rw [JsonTree.AllNumbers, allItems_iff, List.forall_mem_append, List.forall_mem_cons] at htree ⊢
    exact ⟨htree.1, ih htree.2.1, htree.2.2⟩
  | newItem =>
    rw [JsonTree.AllNumbers, allItems_iff] at htree ⊢
    rw [List.forall_mem_append]
    exact ⟨htree, by simpa using hvalue⟩
  | noItem =>
    rw [JsonTree.AllNumbers, allItems_iff, List.forall_mem_append] at htree ⊢
    exact ⟨htree.1, (List.forall_mem_cons.mp htree.2).2⟩

end Edits

/-! ## The text of a candidate -/

section Text

variable {ν : Type}

/-- What a number is written as. -/
def StandardJson.spelling (lib : StandardJson String ν) (number : ExactNumber ν) : String :=
  number.repr.getD (lib.spell number.value)

mutual

/-- The characters that `stringify` writes. -/
def stringifyChars (lib : StandardJson String ν) : JsonTree String (ExactNumber ν) → List Char
  | .null => ['n', 'u', 'l', 'l']
  | .bool true => ['t', 'r', 'u', 'e']
  | .bool false => ['f', 'a', 'l', 's', 'e']
  | .number number => (lib.spelling number).toList
  | .string value => quotedChars value
  | .array items => '[' :: (stringifyItems lib items ++ [']'])
  | .object members => '\x7b' :: (stringifyMembers lib members ++ ['\x7d'])

/-- The items of an array with commas between them. -/
def stringifyItems (lib : StandardJson String ν) :
    List (JsonTree String (ExactNumber ν)) → List Char
  | [] => []
  | [item] => stringifyChars lib item
  | item :: next :: rest => stringifyChars lib item ++ ',' :: stringifyItems lib (next :: rest)

/-- The members of an object with commas between them. -/
def stringifyMembers (lib : StandardJson String ν) :
    List (String × JsonTree String (ExactNumber ν)) → List Char
  | [] => []
  | [(key, value)] => quotedChars key ++ ':' :: stringifyChars lib value
  | (key, value) :: next :: rest =>
    quotedChars key ++ ':' ::
      (stringifyChars lib value ++ ',' :: stringifyMembers lib (next :: rest))

end

/-- `stringify()`. -/
def stringifyTree (lib : StandardJson String ν) (tree : JsonTree String (ExactNumber ν)) : String :=
  String.ofList (stringifyChars lib tree)

/-- The number is as it was read from some spelling. -/
def IsRead (lib : StandardJson String ν) (number : ExactNumber ν) : Prop :=
  ∃ spelling : String, NumberToken spelling.toList ∧ number = lib.exact spelling

/-- Escaped characters form a string's body. -/
theorem stringBody_escape (chars : List Char) : StringBody (chars.flatMap escapeChar) := by
  induction chars with
  | nil => exact .nil
  | cons c rest ih =>
    rw [List.flatMap_cons]
    obtain ⟨e, he, -, hmem⟩ | ⟨hlow, he⟩ | ⟨hslash, hquote, he⟩ := escapeChar_cases c
    · rw [he]
      apply StringBody.escape _ ih
      simp only [List.mem_cons, Prod.mk.injEq, List.not_mem_nil, or_false] at hmem ⊢
      rcases hmem with ⟨-, h⟩ | ⟨-, h⟩ | ⟨-, h⟩ | ⟨-, h⟩ | ⟨-, h⟩ | ⟨-, h⟩ | ⟨-, h⟩ <;> simp [h]
    · have hhex : ∀ n < 16, isHexDigit (Nat.digitChar n) = true := by decide
      rw [he]
      apply StringBody.unicode _ ih
      simp only [List.mem_cons, List.not_mem_nil, or_false]
      rintro x (rfl | rfl | rfl | rfl)
      · rfl
      · rfl
      · exact hhex _ (by omega)
      · exact hhex _ (by omega)
    · rw [he]
      apply StringBody.plain hquote hslash _ ih
      by_contra hlow
      have hsmall : c.toNat < 0x20 := by omega
      have hlength : (escapeChar c).length = 1 := by rw [he]; rfl
      unfold escapeChar at hlength
      split_ifs at hlength <;> simp at hlength

/-- The library reads back the strings that `stringify` writes. -/
def StandardJson.ReadsStrings (lib : StandardJson String ν) : Prop :=
  ∀ s : String, lib.unescape (s.toList.flatMap escapeChar) = s

mutual

/-- The text of a value derives the value. -/
theorem derives_stringify {lib : StandardJson String ν} (hlib : lib.ReadsStrings)
    {tree : JsonTree String (ExactNumber ν)} (h : tree.AllNumbers (IsRead lib)) :
    Derives lib.unescape (.value (tree.mapNumbers lib.spelling)) (stringifyChars lib tree) := by
  match tree with
  | .null => exact .nullLiteral
  | .bool true => exact .trueLiteral
  | .bool false => exact .falseLiteral
  | .number number =>
    obtain ⟨spelling, htoken, rfl⟩ := h
    have hderives : Derives lib.unescape (.value (.number (String.ofList spelling.toList)))
        spelling.toList := .number htoken
    rw [String.ofList_toList] at hderives
    exact hderives
  | .string value =>
    have hderives : Derives lib.unescape
        (.value (.string (lib.unescape (value.toList.flatMap escapeChar))))
        ('"' :: (value.toList.flatMap escapeChar ++ ['"'])) := .string (stringBody_escape _)
    rw [hlib] at hderives
    exact hderives
  | .array [] => exact .emptyArray space_nil
  | .array (item :: rest) => exact .array (derives_stringifyItems hlib h (List.cons_ne_nil _ _))
  | .object [] => exact .emptyObject space_nil
  | .object (member :: rest) =>
    exact .object (derives_stringifyMembers hlib h (List.cons_ne_nil _ _))

/-- Written items are derived from the grammar. -/
theorem derives_stringifyItems {lib : StandardJson String ν} (hlib : lib.ReadsStrings)
    {items : List (JsonTree String (ExactNumber ν))} (h : AllItems (IsRead lib) items)
    (hne : items ≠ []) :
    Derives lib.unescape (.items (mapItems lib.spelling items)) (stringifyItems lib items) := by
  match items with
  | [] => exact absurd rfl hne
  | [item] =>
    have hderives := Derives.lastItem space_nil space_nil (derives_stringify hlib h.1)
    rw [List.append_nil, List.nil_append] at hderives
    exact hderives
  | item :: next :: rest =>
    exact Derives.item space_nil space_nil (derives_stringify hlib h.1)
      (derives_stringifyItems hlib h.2 (List.cons_ne_nil _ _))

/-- Written members are derived from the grammar. -/
theorem derives_stringifyMembers {lib : StandardJson String ν} (hlib : lib.ReadsStrings)
    {members : List (String × JsonTree String (ExactNumber ν))}
    (h : AllMembers (IsRead lib) members) (hne : members ≠ []) :
    Derives lib.unescape (.members (mapMembers lib.spelling members))
      (stringifyMembers lib members) := by
  match members with
  | [] => exact absurd rfl hne
  | [(key, value)] =>
    have hderives := Derives.lastMember space_nil (stringBody_escape key.toList) space_nil
      space_nil space_nil (derives_stringify hlib h.1)
    rw [hlib, List.append_nil] at hderives
    rw [stringifyMembers, quotedChars, List.cons_append, List.append_assoc]
    exact hderives
  | (key, value) :: next :: rest =>
    have hderives := Derives.member space_nil (stringBody_escape key.toList) space_nil
      space_nil space_nil (derives_stringify hlib h.1)
      (derives_stringifyMembers hlib h.2 (List.cons_ne_nil _ _))
    rw [hlib] at hderives
    rw [stringifyMembers, quotedChars, List.cons_append, List.append_assoc]
    exact hderives

end

/-- The spellings of numbers that were read give the numbers back. -/
theorem exact_spelling {lib : StandardJson String ν} {tree : JsonTree String (ExactNumber ν)}
    (h : tree.AllNumbers (IsRead lib)) :
    (tree.mapNumbers lib.spelling).mapNumbers lib.exact = tree := by
  rw [JsonTree.mapNumbers_mapNumbers]
  apply JsonTree.mapNumbers_eq_self _ h
  rintro number ⟨spelling, -, rfl⟩
  rfl

/-- A candidate as the reader returns it. -/
structure Written (lib : StandardJson String ν) (tree : JsonTree String (ExactNumber ν)) :
    Prop where
  exact : Exact tree
  numbers : tree.AllNumbers (IsRead lib)

/-- What the reader returns is what a text derives. -/
theorem parseRetainedJson_eq_ok {lib : StandardJson String ν} (hlib : lib.Conforms) {text : String}
    {result : JsonTree String (ExactNumber ν)} (h : parseRetainedJson lib text = .ok result)
    {tree : JsonTree String String} (htree : Document lib.unescape text.toList tree) :
    result = tree.mapNumbers lib.exact ∧ Written lib result := by
  obtain ⟨before, body, after, hbefore, hafter, hbody, htext⟩ := htree
  unfold parseRetainedJson at h
  split at h
  next => cases h
  next =>
    obtain ⟨hgood, hread⟩ | ⟨-, message, -, hread⟩ :=
      readValue_document hlib hbefore hafter hbody htext
    · rw [hread] at h
      obtain rfl := Except.ok.inj h
      refine ⟨rfl, ⟨?_, ?_⟩, ?_⟩
      · rw [JsonTree.count_mapNumbers]
        exact hgood.1
      · rw [JsonTree.distinct_mapNumbers]
        exact hgood.2
      · exact JsonTree.AllNumbers.map (fun spelling htoken => ⟨spelling, htoken, rfl⟩)
          hbody.allNumbers
    · rw [hread] at h
      cases h

/-- A parsed text is valid. -/
theorem validate_of_parse {lib : StandardJson String ν} {text : String}
    {result : JsonTree String (ExactNumber ν)} (h : parseRetainedJson lib text = .ok result) :
    validateRetainedJsonSyntax lib text = .ok () := by
  unfold parseRetainedJson at h
  split at h
  next => cases h
  next hvalid => exact hvalid

/-- Whatever the reader returns is a candidate. -/
theorem written_of_parse {lib : StandardJson String ν} (hlib : lib.Conforms) {text : String}
    {result : JsonTree String (ExactNumber ν)} (h : parseRetainedJson lib text = .ok result) :
    Written lib result := by
  obtain ⟨standard, hstandard⟩ := parse_of_validate (validate_of_parse h)
  obtain ⟨tree, htree, -⟩ := hlib.returns hstandard
  exact (parseRetainedJson_eq_ok hlib h htree).2

/-- A candidate whose text is read is read back. -/
theorem parse_stringify {lib : StandardJson String ν} (hlib : lib.Conforms)
    (hstrings : lib.ReadsStrings) {tree result : JsonTree String (ExactNumber ν)}
    (hnumbers : tree.AllNumbers (IsRead lib))
    (h : parseRetainedJson lib (stringifyTree lib tree) = .ok result) : result = tree := by
  have hderives := derives_stringify hstrings hnumbers
  have hdocument : Document lib.unescape (stringifyTree lib tree).toList
      (tree.mapNumbers lib.spelling) := by
    rw [stringifyTree, String.toList_ofList]
    exact hderives.document
  rw [(parseRetainedJson_eq_ok hlib h hdocument).1, exact_spelling hnumbers]

/-- A line feed changes no depth. -/
theorem scanDepth_lf (s : SyntaxScan) : ∃ s', scanDepth s '\n' = .ok s' := by
  unfold scanDepth
  by_cases hstring : s.inString = true
  · rw [if_pos hstring]
    by_cases hescaped : s.escaped = true
    · exact ⟨_, if_pos hescaped⟩
    · rw [if_neg hescaped, if_neg (by decide), if_neg (by decide)]
      exact ⟨_, rfl⟩
  · rw [if_neg hstring, if_neg (by decide), if_neg (by decide), if_neg (by decide)]
    exact ⟨_, rfl⟩

/-- A written tree is inside the limits, with distinct keys. -/
theorem Written.good {lib : StandardJson String ν} {tree : JsonTree String (ExactNumber ν)}
    (h : Written lib tree) : (tree.mapNumbers lib.spelling).count ≤ 20000 ∧
      (tree.mapNumbers lib.spelling).Distinct := by
  rw [JsonTree.count_mapNumbers, JsonTree.distinct_mapNumbers]
  exact ⟨h.exact.count_le, h.exact.distinct⟩

/-- A candidate whose text does not nest too deeply is read back, and a line feed behind the
text is no matter to the reader. -/
theorem parse_of_written {lib : StandardJson String ν} (hlib : lib.Conforms)
    (hstrings : lib.ReadsStrings) {tree : JsonTree String (ExactNumber ν)}
    (h : Written lib tree)
    (hscan : ∃ s, (stringifyTree lib tree).toList.foldlM scanDepth ⟨0, false, false⟩ = .ok s) :
    parseRetainedJson lib (stringifyTree lib tree) = .ok tree ∧
      parseRetainedJson lib (stringifyTree lib tree ++ "\n") = .ok tree := by
  have hderives := derives_stringify hstrings h.numbers
  have hfeed : "\n".toList = ['\n'] := rfl
  have hspace : Space ['\n'] := by simp [Space, isSpace]
  have hchars : (stringifyTree lib tree).toList = stringifyChars lib tree := String.toList_ofList
  have hscanLf : ∃ s, (stringifyTree lib tree ++ "\n").toList.foldlM scanDepth ⟨0, false, false⟩ =
      .ok s := by
    obtain ⟨s, hscan⟩ := hscan
    obtain ⟨s', hstep⟩ := scanDepth_lf s
    refine ⟨s', ?_⟩
    rw [String.toList_append, List.foldlM_append, hscan, hfeed]
    change List.foldlM scanDepth s ['\n'] = .ok s'
    rw [List.foldlM_cons, hstep]
    rfl
  constructor
  · have htext : (stringifyTree lib tree).toList = [] ++ (stringifyChars lib tree ++ []) := by
      rw [hchars, List.append_nil, List.nil_append]
    rw [parse_of_derives hlib space_nil space_nil hderives htext hscan h.good,
      exact_spelling h.numbers]
  · have htext : (stringifyTree lib tree ++ "\n").toList =
        [] ++ (stringifyChars lib tree ++ ['\n']) := by
      rw [String.toList_append, hchars, hfeed, List.nil_append]
    rw [parse_of_derives hlib space_nil hspace hderives htext hscanLf h.good,
      exact_spelling h.numbers]

/-! ## Pointers -/

/--
A child's pointer leads to the child, under every key of an object and every index of an
array. Resolving a pointer, resolving its tokens as a cell and editing at its tokens agree:
setting a value changes nothing exactly where it is found, and something can be taken away
exactly where there is something.
-/
theorem pointer_addressing_agrees {lib : StandardJson String ν} (hlib : lib.Conforms)
    {source : String} {root : JsonTree String (ExactNumber ν)}
    (hroot : parseRetainedJson lib source = .ok root) :
    (∀ parent fields, retainedJsonAt root parent = .ok (.object fields) →
      ∀ key value, (key, value) ∈ fields →
        utf8Length (retainedJsonChildPointer parent key) ≤ 4096 →
          retainedJsonAt root (retainedJsonChildPointer parent key) = .ok value) ∧
    (∀ parent items, retainedJsonAt root parent = .ok (.array items) →
      ∀ index (hlt : index < items.length),
        utf8Length (retainedJsonChildPointer parent (indexText index)) ≤ 4096 →
          retainedJsonAt root (retainedJsonChildPointer parent (indexText index)) =
            .ok items[index]) ∧
    ∀ pointer,
      (∀ value,
        (retainedJsonAt root pointer = .ok value ↔
          ∃ tokens, retainedEditTokens pointer = .ok tokens ∧
            retainedJsonCellAt root tokens = .ok (some value)) ∧
        (retainedJsonAt root pointer = .ok value ↔
          ∃ tokens, retainedEditTokens pointer = .ok tokens ∧
            retainedApplyEdit .set value tokens root = .ok root)) ∧
      ((∃ tokens next, retainedEditTokens pointer = .ok tokens ∧ tokens ≠ [] ∧
          retainedApplyEdit .remove .null tokens root = .ok next) ↔
        pointer ≠ "" ∧ ∃ value, retainedJsonAt root pointer = .ok value) := by
  have hexact := (written_of_parse hlib hroot).exact
  refine ⟨?_, ?_, fun pointer => ⟨fun value => ⟨?_, ?_⟩, ?_⟩⟩
  · intro parent fields hparent key value hmem hlength
    obtain ⟨tokens, -, hfind⟩ := retainedJsonAt_eq_ok_iff.mp hparent
    exact retainedJsonAt_child hparent (childAt_of_mem (hexact.find hfind) hmem) hlength
  · intro parent items hparent index hlt hlength
    obtain ⟨tokens, -, hfind⟩ := retainedJsonAt_eq_ok_iff.mp hparent
    exact retainedJsonAt_child hparent (childAt_indexText (hexact.find hfind) index hlt) hlength
  · rw [retainedJsonAt_eq_ok_iff]
    exact exists_congr fun tokens => and_congr_right' retainedJsonCellAt_eq_ok_iff.symm
  · rw [retainedJsonAt_eq_ok_iff]
    exact exists_congr fun tokens => and_congr_right' ⟨set_of_find, find_of_set hexact⟩
  · constructor
    · rintro ⟨tokens, next, htokens, hne, hremove⟩
      obtain ⟨old, hold⟩ :=
        (edited_of_apply hexact.distinct (fun _ => hne) hremove).exists_find rfl
      exact ⟨(retainedEditTokens_ne_nil htokens).mp hne, old,
        retainedJsonAt_eq_ok_iff.mpr ⟨_, htokens, hold⟩⟩
    · rintro ⟨hne, value, hvalue⟩
      obtain ⟨tokens, htokens, hfind⟩ := retainedJsonAt_eq_ok_iff.mp hvalue
      have hne' := (retainedEditTokens_ne_nil htokens).mpr hne
      obtain ⟨next, hnext⟩ := exists_remove hne' hfind
      exact ⟨tokens, next, htokens, hne', hnext⟩

/-! ## Recipes and candidates -/

/-- The text of a failure, where the program has one. -/
def JsonFault.text : JsonFault → String
  | .outOfBounds => "index out of bounds"
  | .invalid => "invalid JSON"
  | .failed message => message
  | .exhausted => ""

/-- The operations of a recipe, where it is an object of a version and operations. -/
def recipeOperations (lib : StandardJson String ν) (document : JsonTree String (ExactNumber ν)) :
    Option (List (JsonTree String (ExactNumber ν))) :=
  match document with
  | .object fields =>
    match LinkedMap.get "version" fields, LinkedMap.get "operations" fields with
    | some version, some (.array operations) =>
      if fields.length = 2 ∧ stringifyTree lib version = "1" then some operations else none
    | _, _ => none
  | _ => none

/-- The edit that an operation of a recipe is. -/
def operationEdit (operation : JsonTree String (ExactNumber ν)) :
    Except String (RetainedJsonEdit (ExactNumber ν)) :=
  match operation with
  | .object fields =>
    match LinkedMap.get "op" fields, LinkedMap.get "pointer" fields with
    | some (.string op), some (.string pointer) =>
      if ¬((op = "set" ∧ fields.length = 3 ∧ "value" ∈ LinkedMap.keys fields) ∨
          (op = "remove" ∧ fields.length = 2)) then
        .error "JSON edit operation must be set with value or remove without value"
      else
        match retainedEditTokens pointer with
        | .error message => .error message
        | .ok tokens =>
          if op = "remove" ∧ tokens = [] then .error "cannot remove the JSON document root"
          else
            .ok ⟨if op = "set" then .set else .remove, tokens,
              (LinkedMap.get "value" fields).getD .null⟩
    | _, _ => .error "JSON edit operation requires op and pointer"
  | _ => .error "JSON edit operation requires op and pointer"

/-- `retained_json_edits`. -/
def retainedJsonEdits (lib : StandardJson String ν) (recipe : Bytes) :
    Except String (List (RetainedJsonEdit (ExactNumber ν))) :=
  if ¬recipe.length ≤ 65536 then .error "JSON edit recipe exceeds 64 KiB"
  else
    match utf8Decode recipe with
    | none => .error "invalid UTF-8"
    | some text =>
      match parseRetainedJson lib text with
      | .error fault => .error fault.text
      | .ok document =>
        match recipeOperations lib document with
        | none => .error "JSON edit recipe requires version 1 and operations"
        | some operations =>
          if ¬(1 ≤ operations.length ∧ operations.length ≤ 100) then
            .error "JSON edit recipe requires 1..100 operations"
          else operations.mapM operationEdit

/-- The body of the loop of `retained_apply_edits`. -/
def applyEditOnce (lib : StandardJson String ν) (candidate : JsonTree String (ExactNumber ν))
    (edit : RetainedJsonEdit (ExactNumber ν)) :
    Except String (JsonTree String (ExactNumber ν)) :=
  match retainedApplyEdit edit.operation edit.value edit.tokens candidate with
  | .error message => .error message
  | .ok next =>
    if ¬utf8Length (stringifyTree lib next) + 1 ≤ 1048576 then
      .error "JSON candidate exceeds 1 MiB including final LF"
    else
      match parseRetainedJson lib (stringifyTree lib next) with
      | .ok candidate => .ok candidate
      | .error fault => .error fault.text

/-- The loop of `retained_apply_edits`, from the edit with the given index. -/
def applyEditsFrom (lib : StandardJson String ν) (candidate : JsonTree String (ExactNumber ν)) :
    (index : ℕ) → List (RetainedJsonEdit (ExactNumber ν)) →
      Except String (JsonTree String (ExactNumber ν))
  | _, [] => .ok candidate
  | index, edit :: rest =>
    match applyEditOnce lib candidate edit with
    | .error message =>
      .error ("JSON edit operation " ++ toString (index + 1) ++ " failed: " ++ message)
    | .ok candidate => applyEditsFrom lib candidate (index + 1) rest

/-- `retained_apply_edits`. -/
def retainedApplyEdits (lib : StandardJson String ν) (root : JsonTree String (ExactNumber ν))
    (edits : List (RetainedJsonEdit (ExactNumber ν))) :
    Except String (JsonTree String (ExactNumber ν)) :=
  applyEditsFrom lib root 0 edits

/-! ## What a run of edits does -/

/-- What an edit does to a candidate. -/
structure EditLaws (edit : RetainedJsonEdit ν) (tree next : JsonTree String ν) : Prop where
  edited : Edited edit.operation edit.value edit.tokens tree next
  found : edit.operation = .set →
    find edit.tokens next = some edit.value ∨
      ∃ parent items, edit.tokens = parent ++ ["-"] ∧ find parent tree = some (.array items) ∧
        find (parent ++ [indexText items.length]) next = some edit.value
  gone : edit.operation = .remove →
    ∃ parent token, edit.tokens = parent ++ [token] ∧
      ((∃ fields, find parent tree = some (.object fields) ∧ find edit.tokens next = none) ∨
        ∃ items index, find parent tree = some (.array items) ∧ indexOf token = some index ∧
          index < items.length ∧ find parent next = some (.array (items.eraseIdx index)))
  frame : ∀ common token rest other others, edit.tokens = common ++ token :: rest →
    other ≠ token →
    (rest = [] → (∃ items, find common tree = some (.array items)) →
      edit.operation = .set ∧ token ≠ "-") →
    find (common ++ other :: others) next = find (common ++ other :: others) tree

/-- A run of edits, each of which does what it should. -/
inductive EditRun :
    List (RetainedJsonEdit ν) → JsonTree String ν → JsonTree String ν → Prop
  | nil (tree : JsonTree String ν) : EditRun [] tree tree
  | cons {edit : RetainedJsonEdit ν} {rest : List (RetainedJsonEdit ν)}
    {tree next last : JsonTree String ν} (hlaws : EditLaws edit tree next)
    (hrest : EditRun rest next last) : EditRun (edit :: rest) tree last

/-- An edit as a recipe gives it. -/
structure EditOk (lib : StandardJson String ν) (edit : RetainedJsonEdit (ExactNumber ν)) :
    Prop where
  numbers : edit.value.AllNumbers (IsRead lib)
  root : edit.operation = .remove → edit.tokens ≠ []

/-- A decoded edit carries numbers that were read. -/
theorem editOk_of_operation {lib : StandardJson String ν}
    {operation : JsonTree String (ExactNumber ν)} (hnumbers : operation.AllNumbers (IsRead lib))
    {edit : RetainedJsonEdit (ExactNumber ν)} (h : operationEdit operation = .ok edit) :
    EditOk lib edit := by
  unfold operationEdit at h
  split at h
  next fields =>
    split at h
    next op pointer hop hpointer =>
      split at h
      next => cases h
      next hkind =>
        split at h
        next => cases h
        next tokens htokens =>
          split at h
          next => cases h
          next hroot =>
            obtain rfl := Except.ok.inj h
            constructor
            · dsimp only
              cases hvalue : LinkedMap.get "value" fields with
              | none => trivial
              | some value =>
                have hmem := LinkedMap.mem_of_get hvalue
                exact allMembers_iff.mp hnumbers _ hmem
            · intro hremove htokens
              have hop : op = "remove" := by
                rcases not_not.mp hkind with ⟨hset, -⟩ | ⟨hremove, -⟩
                · dsimp only at hremove
                  rw [if_pos hset] at hremove
                  cases hremove
                · exact hremove
              exact hroot ⟨hop, htokens⟩
    next => cases h
  next => cases h

/-- The edits of a recipe are the operations of a document, and there is one at least. -/
theorem edits_of_recipe {lib : StandardJson String ν} (hlib : lib.Conforms) {recipe : Bytes}
    {edits : List (RetainedJsonEdit (ExactNumber ν))}
    (h : retainedJsonEdits lib recipe = .ok edits) :
    ∃ operations : List (JsonTree String (ExactNumber ν)), 1 ≤ operations.length ∧
      (∀ operation ∈ operations, operation.AllNumbers (IsRead lib)) ∧
        operations.mapM operationEdit = .ok edits := by
  unfold retainedJsonEdits at h
  split at h
  next => cases h
  next =>
    split at h
    next => cases h
    next text htext =>
      split at h
      next => cases h
      next document hdocument =>
        have hnumbers := (written_of_parse hlib hdocument).numbers
        split at h
        next => cases h
        next operations hoperations =>
          split at h
          next => cases h
          next hlength =>
            refine ⟨operations, (not_not.mp hlength).1, ?_, h⟩
            unfold recipeOperations at hoperations
            split at hoperations
            next fields =>
              split at hoperations
              next version items hversion hitems =>
                split at hoperations
                next =>
                  obtain rfl := Option.some.inj hoperations
                  have hmem := LinkedMap.mem_of_get hitems
                  exact allItems_iff.mp (allMembers_iff.mp hnumbers _ hmem)
                next => cases hoperations
              next => cases hoperations
            next => cases hoperations

/-- The edits of a recipe are as they should be. -/
theorem editOk_of_mapM {lib : StandardJson String ν}
    {operations : List (JsonTree String (ExactNumber ν))}
    (hnumbers : ∀ operation ∈ operations, operation.AllNumbers (IsRead lib))
    {edits : List (RetainedJsonEdit (ExactNumber ν))}
    (h : operations.mapM operationEdit = .ok edits) :
    ∀ edit ∈ edits, EditOk lib edit := by
  induction mapM_eq_ok_iff.mp h with
  | nil => exact nofun
  | cons hedit _ ih =>
    rw [List.forall_mem_cons] at hnumbers ⊢
    exact ⟨editOk_of_operation hnumbers.1 hedit, ih hnumbers.2 (mapM_eq_ok_iff.mpr ‹_›)⟩

/-- One edit of the loop. -/
theorem applyEditOnce_eq_ok {lib : StandardJson String ν} (hlib : lib.Conforms)
    (hstrings : lib.ReadsStrings) {candidate next : JsonTree String (ExactNumber ν)}
    (hcandidate : Written lib candidate) {edit : RetainedJsonEdit (ExactNumber ν)}
    (hedit : EditOk lib edit) (h : applyEditOnce lib candidate edit = .ok next) :
    EditLaws edit candidate next ∧ Written lib next ∧
      parseRetainedJson lib (stringifyTree lib next) = .ok next := by
  unfold applyEditOnce at h
  split at h
  next => cases h
  next edited happly =>
    split at h
    next => cases h
    next =>
      split at h
      next result hparse =>
        obtain rfl := Except.ok.inj h
        have hedited := edited_of_apply hcandidate.exact.distinct hedit.root happly
        have hnumbers := hedited.allNumbers hedit.numbers hcandidate.numbers
        obtain rfl := parse_stringify hlib hstrings hnumbers hparse
        refine ⟨⟨hedited, hedited.found hcandidate.exact, hedited.gone, ?_⟩,
          written_of_parse hlib hparse, hparse⟩
        intro common token rest other others htokens hne harray
        exact hedited.frame htokens hne harray
      next => cases h

/-- The loop is a run of edits. -/
theorem applyEditsFrom_eq_ok {lib : StandardJson String ν} (hlib : lib.Conforms)
    (hstrings : lib.ReadsStrings) {candidate last : JsonTree String (ExactNumber ν)}
    (hcandidate : Written lib candidate) {edits : List (RetainedJsonEdit (ExactNumber ν))}
    (hedits : ∀ edit ∈ edits, EditOk lib edit) {index : ℕ}
    (h : applyEditsFrom lib candidate index edits = .ok last) :
    EditRun edits candidate last ∧ Written lib last ∧
      (edits ≠ [] → parseRetainedJson lib (stringifyTree lib last) = .ok last) := by
  induction edits generalizing candidate index with
  | nil =>
    obtain rfl : candidate = last := Except.ok.inj h
    exact ⟨.nil _, hcandidate, fun hne => absurd rfl hne⟩
  | cons edit rest ih =>
    rw [applyEditsFrom] at h
    split at h
    next => cases h
    next next hstep =>
      obtain ⟨hlaws, hwritten, hparse⟩ := applyEditOnce_eq_ok hlib hstrings hcandidate
        (hedits edit List.mem_cons_self) hstep
      obtain ⟨hrun, hlast, hagain⟩ := ih hwritten
        (fun other hother => hedits other (List.mem_cons_of_mem _ hother)) h
      refine ⟨.cons hlaws hrun, hlast, fun _ => ?_⟩
      by_cases hrest : rest = []
      · subst hrest
        obtain rfl : next = last := Except.ok.inj h
        exact hparse
      · exact hagain hrest

/--
The edits of an accepted recipe are a run in which each does what it should, and the text of
the candidate, with its line feed or without, is read back as the candidate.
-/
theorem json_draft_exact {lib : StandardJson String ν} (hlib : lib.Conforms)
    (hstrings : lib.ReadsStrings) {source : String} {recipe : Bytes}
    {root result : JsonTree String (ExactNumber ν)}
    {edits : List (RetainedJsonEdit (ExactNumber ν))}
    (hroot : parseRetainedJson lib source = .ok root)
    (hedits : retainedJsonEdits lib recipe = .ok edits)
    (h : retainedApplyEdits lib root edits = .ok result) :
    EditRun edits root result ∧
      parseRetainedJson lib (stringifyTree lib result) = .ok result ∧
      parseRetainedJson lib (stringifyTree lib result ++ "\n") = .ok result := by
  obtain ⟨operations, hpos, hnumbers, hmap⟩ := edits_of_recipe hlib hedits
  have hlength := (mapM_eq_ok_iff.mp hmap).length_eq.symm
  have hok := editOk_of_mapM hnumbers hmap
  obtain ⟨hrun, hwritten, hparse⟩ := applyEditsFrom_eq_ok hlib hstrings
    (written_of_parse hlib hroot) hok h
  have hread := hparse (List.length_pos_iff.mp (by omega))
  have hscan := (validate_eq_ok_iff.mp (validate_of_parse hread)).1
  exact ⟨hrun, parse_of_written hlib hstrings hwritten hscan⟩

end Text

/-! ## A sample -/

/-- The sample library reads strings as they are written. -/
theorem sampleJson_readsStrings : sampleJson.ReadsStrings := unescapeString_escape

/-- A number of the sample. -/
def sampleNumber (spelling : String) : JsonTree String (ExactNumber ℕ) :=
  .number ⟨digitsReading spelling, some spelling⟩

/-- An object of an array of two numbers. -/
def sampleSource : JsonTree String (ExactNumber ℕ) :=
  .object [("a~/", .array [sampleNumber "10", sampleNumber "2"])]

/-- The object with another item in the array. -/
def sampleEdited : JsonTree String (ExactNumber ℕ) :=
  .object [("a~/", .array [sampleNumber "10", sampleNumber "2", .null])]

/-- The sample trees can be written. -/
theorem sample_written :
    Written sampleJson sampleSource ∧ Written sampleJson sampleEdited := by
  have hten : NumberToken ([] ++ (['1', '0'] ++ ([] ++ []))) :=
    .intro (by simp) (.nonzero rfl (by decide) (by simp)) .absent .absent
  have htwo : NumberToken ([] ++ (['2'] ++ ([] ++ []))) :=
    .intro (by simp) (.nonzero rfl (by decide) (by simp)) .absent .absent
  constructor
  · refine ⟨⟨by decide, ?_⟩, ?_⟩
    · simp [sampleSource, sampleNumber, JsonTree.Distinct, DistinctItems, DistinctMembers]
    · exact ⟨⟨⟨"10", hten, rfl⟩, ⟨"2", htwo, rfl⟩, trivial⟩, trivial⟩
  · refine ⟨⟨by decide, ?_⟩, ?_⟩
    · simp [sampleEdited, sampleNumber, JsonTree.Distinct, DistinctItems, DistinctMembers]
    · exact ⟨⟨⟨"10", hten, rfl⟩, ⟨"2", htwo, rfl⟩, trivial, trivial⟩, trivial⟩

/-- The sample source reads back. -/
theorem sampleSource_parse :
    parseRetainedJson sampleJson (stringifyTree sampleJson sampleSource) = .ok sampleSource :=
  (parse_of_written sampleJson_conforms sampleJson_readsStrings sample_written.1 ⟨_, rfl⟩).1

/-- A pointer with both escapes into the sample source. -/
theorem pointer_addressing_agrees_sample :
    retainedJsonAt sampleSource "/a~0~1/0" = .ok (sampleNumber "10") := by
  have h := pointer_addressing_agrees sampleJson_conforms sampleSource_parse
  have hobject := h.1 "" _ rfl "a~/" _ List.mem_cons_self (by decide)
  exact h.2.1 "/a~0~1" _ hobject 0 (by decide) (by decide)

/-- A recipe that adds an item to the array. -/
def sampleRecipeTree : JsonTree String (ExactNumber ℕ) :=
  .object [("version", .number ⟨1, some "1"⟩), ("operations", .array [
    .object [("op", .string "set"), ("pointer", .string "/a~0~1/-"), ("value", .null)]])]

/-- The text of the recipe. -/
def sampleRecipeText : String :=
  "\x7b\"version\":1,\"operations\":[" ++
    "\x7b\"op\":\"set\",\"pointer\":\"/a~0~1/-\",\"value\":null\x7d]\x7d"

/-- The text of the sample recipe. -/
theorem sampleRecipe_text : stringifyTree sampleJson sampleRecipeTree = sampleRecipeText := by
  rfl

/-- The sample recipe is parsed. -/
theorem sampleRecipe_parse :
    parseRetainedJson sampleJson sampleRecipeText = .ok sampleRecipeTree := by
  have hone : NumberToken ([] ++ (['1'] ++ ([] ++ []))) :=
    .intro (by simp) (.nonzero rfl (by decide) (by simp)) .absent .absent
  have hwritten : Written sampleJson sampleRecipeTree := by
    refine ⟨⟨by decide, ?_⟩, ?_⟩
    · simp [sampleRecipeTree, JsonTree.Distinct, DistinctItems, DistinctMembers]
    · simp [sampleRecipeTree, JsonTree.AllNumbers, AllItems, AllMembers]
      exact ⟨"1", hone, rfl⟩
  rw [← sampleRecipe_text]
  exact (parse_of_written sampleJson_conforms sampleJson_readsStrings hwritten ⟨_, rfl⟩).1

/-- The sample recipe is short. -/
theorem sampleRecipe_length : (utf8Encode sampleRecipeText).length < 2 ^ 31 := by decide

/-- The bytes of the recipe. -/
def sampleRecipe : Bytes := ⟨utf8Encode sampleRecipeText, sampleRecipe_length⟩

/-- The sample recipe is decoded. -/
theorem sampleRecipe_decode : utf8Decode sampleRecipe = some sampleRecipeText := by
  rfl

/-- The edit of the recipe. -/
def sampleEdit : RetainedJsonEdit (ExactNumber ℕ) := ⟨.set, ["a~/", "-"], .null⟩

/-- The edit of the sample recipe. -/
theorem sampleRecipe_edits : retainedJsonEdits sampleJson sampleRecipe = .ok [sampleEdit] := by
  unfold retainedJsonEdits
  rw [if_neg (by decide), sampleRecipe_decode]
  dsimp only
  rw [sampleRecipe_parse]
  rfl

/-- The sample edit is applied. -/
theorem sampleEdit_apply :
    retainedApplyEdits sampleJson sampleSource [sampleEdit] = .ok sampleEdited := by
  have hparse : parseRetainedJson sampleJson (stringifyTree sampleJson sampleEdited) =
      .ok sampleEdited :=
    (parse_of_written sampleJson_conforms sampleJson_readsStrings sample_written.2 ⟨_, rfl⟩).1
  have hedit : retainedApplyEdit sampleEdit.operation sampleEdit.value sampleEdit.tokens
      sampleSource = .ok sampleEdited := rfl
  have hsize : utf8Length (stringifyTree sampleJson sampleEdited) + 1 ≤ 1048576 := by
    have htext : stringifyTree sampleJson sampleEdited = "\x7b\"a~/\":[10,2,null]\x7d" := rfl
    rw [htext]
    decide
  rw [retainedApplyEdits, applyEditsFrom, applyEditOnce, hedit]
  dsimp only
  rw [if_neg (not_not.mpr hsize), hparse]
  rfl

/-- The sample edit of the sample source, whose draft reads back. -/
theorem json_draft_exact_sample :
    EditRun [sampleEdit] sampleSource sampleEdited ∧
      parseRetainedJson sampleJson (stringifyTree sampleJson sampleEdited ++ "\n") =
        .ok sampleEdited := by
  have h := json_draft_exact sampleJson_conforms sampleJson_readsStrings sampleSource_parse
    sampleRecipe_edits sampleEdit_apply
  exact ⟨h.1, h.2.2⟩

/-- A value that is set at the end of an array is not found at its pointer. -/
theorem json_draft_append_sample :
    retainedJsonEdits sampleJson sampleRecipe = .ok [sampleEdit] ∧
      retainedApplyEdits sampleJson sampleSource [sampleEdit] = .ok sampleEdited ∧
        sampleEdit.operation = .set ∧ find sampleEdit.tokens sampleEdited = none :=
  ⟨sampleRecipe_edits, sampleEdit_apply, rfl, rfl⟩

end Moonfort.Executor
