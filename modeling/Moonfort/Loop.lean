import Mathlib.Data.List.Induction

/-!
# Loops that may fail

The loop over a list whose body changes some variables or fails: its last round, what holds
of the variables behind every prefix of the list, and the round that fails.
-/

namespace Loop

variable {α β ε : Type} {body : β → α → Except ε β} {start final : β} {items : List α}

/-- A guard is passed. -/
theorem guard_eq_ok_iff {p : Prop} [Decidable p] {fault : ε} {rest : Except ε β} {result : β} :
    (if p then .error fault else rest) = .ok result ↔ ¬p ∧ rest = .ok result := by
  by_cases h : p
  · rw [if_pos h]
    exact iff_of_false nofun fun hrest => hrest.1 h
  · rw [if_neg h, and_iff_right h]

/-- A computation after one that succeeds. -/
theorem ok_bind {γ : Type} (state : β) (rest : β → Except ε γ) :
    (.ok state >>= rest) = rest state :=
  rfl

/-- A computation after another one. -/
theorem bind_eq_ok_iff {γ : Type} {first : Except ε β} {rest : β → Except ε γ} {result : γ} :
    (first >>= rest) = .ok result ↔ ∃ state, first = .ok state ∧ rest state = .ok result := by
  cases first with
  | error fault => exact ⟨nofun, fun ⟨_, h, _⟩ => nomatch h⟩
  | ok state => exact ⟨fun h => ⟨state, rfl, h⟩, fun ⟨_, h, hrest⟩ => Except.ok.inj h ▸ hrest⟩

/-- A handler that only changes the error. -/
theorem mapError_eq_ok_iff {δ : Type} {handler : ε → δ} {first : Except ε β} {result : β} :
    first.mapError handler = .ok result ↔ first = .ok result := by
  cases first with
  | error fault => exact iff_of_false nofun nofun
  | ok state => exact ⟨fun h => congrArg _ (Except.ok.inj h), fun h => congrArg _ (Except.ok.inj h)⟩

/-- The last round of a loop. -/
theorem foldlM_concat (body : β → α → Except ε β) (start : β) (items : List α) (item : α) :
    (items ++ [item]).foldlM body start =
      (items.foldlM body start).bind fun state => body state item := by
  rw [List.foldlM_append]
  cases items.foldlM body start with
  | error fault => rfl
  | ok state => exact bind_pure (body state item)

/-- The last round of a loop that succeeds. -/
theorem foldlM_concat_eq_ok_iff {item : α} :
    (items ++ [item]).foldlM body start = .ok final ↔
      ∃ state, items.foldlM body start = .ok state ∧ body state item = .ok final := by
  rw [foldlM_concat]
  cases items.foldlM body start with
  | error fault => simp [Except.bind]
  | ok state => simp [Except.bind]

/-- What one round keeps holds behind the loop, of the items so far and the variables. -/
theorem holds_of_foldlM (Holds : List α → β → Prop) (hstart : Holds [] start)
    (hstep : ∀ before item state next, before ++ [item] <+: items → Holds before state →
      body state item = .ok next → Holds (before ++ [item]) next)
    (h : items.foldlM body start = .ok final) : Holds items final := by
  induction items using List.reverseRecOn generalizing final with
  | nil =>
    cases h
    exact hstart
  | append_singleton items item ih =>
    obtain ⟨state, hbefore, hlast⟩ := foldlM_concat_eq_ok_iff.mp h
    refine hstep items item state final (List.prefix_refl _) (ih ?_ hbefore) hlast
    exact fun before item state next hpre => hstep before item state next
      (hpre.trans (List.prefix_append _ _))

/-- A loop accepts what a relation describes, when the last round can be added to the relation
and taken from it. -/
theorem foldlM_eq_ok_iff_of_step {Holds : List α → β → Prop}
    (hnil : ∀ state, Holds [] state ↔ state = start)
    (hconcat : ∀ before item next, Holds (before ++ [item]) next ↔
      ∃ state, Holds before state ∧ body state item = .ok next) :
    items.foldlM body start = .ok final ↔ Holds items final := by
  induction items using List.reverseRecOn generalizing final with
  | nil =>
    rw [hnil, List.foldlM_nil]
    exact ⟨fun h => by cases h; rfl, fun h => by rw [h]; rfl⟩
  | append_singleton items item ih =>
    rw [foldlM_concat_eq_ok_iff, hconcat]
    exact exists_congr fun state => and_congr_left' ih

/-- The items with their positions, and one more. -/
theorem zipIdx_concat (items : List α) (item : α) :
    (items ++ [item]).zipIdx = items.zipIdx ++ [(item, items.length)] := by
  rw [List.zipIdx_append, Nat.zero_add]
  rfl

/-- What holds of every item behind those before it, for one more item. -/
theorem forall_split_concat {P : List α → α → Prop} {last : α} :
    (∀ before item after, items ++ [last] = before ++ item :: after → P before item) ↔
      (∀ before item after, items = before ++ item :: after → P before item) ∧ P items last := by
  constructor
  · intro h
    refine ⟨fun before item after heq => ?_, h items last [] rfl⟩
    exact h before item (after ++ [last]) (by rw [heq]; simp)
  · rintro ⟨hall, hlast⟩ before item after heq
    rcases List.eq_nil_or_concat after with rfl | ⟨rest, final, rfl⟩
    · obtain ⟨rfl, hitem⟩ := List.append_inj' heq rfl
      cases hitem
      exact hlast
    · rw [List.concat_eq_append, ← List.cons_append, ← List.append_assoc] at heq
      exact hall before item rest (List.append_inj' heq rfl).1

/-- A loop whose variables are a function of the items so far accepts the items that are allowed
behind those before them. -/
theorem foldlM_zipIdx_eq_ok_iff {body : β → α × ℕ → Except ε β} {summary : List α → β}
    {Allowed : List α → α → Prop} (hstart : summary [] = start)
    (hstep : ∀ before item next, body (summary before) (item, before.length) = .ok next ↔
      Allowed before item ∧ next = summary (before ++ [item])) :
    items.zipIdx.foldlM body start = .ok final ↔
      (∀ before item after, items = before ++ item :: after → Allowed before item) ∧
        final = summary items := by
  induction items using List.reverseRecOn generalizing final with
  | nil =>
    rw [hstart, and_iff_right fun before item after h => by simp at h]
    exact ⟨fun h => by cases h; rfl, fun h => by rw [h]; rfl⟩
  | append_singleton items item ih =>
    rw [zipIdx_concat, foldlM_concat_eq_ok_iff, forall_split_concat, and_assoc]
    constructor
    · rintro ⟨state, hbefore, hlast⟩
      obtain ⟨hall, rfl⟩ := ih.mp hbefore
      exact ⟨hall, (hstep items item final).mp hlast⟩
    · rintro ⟨hall, hlast⟩
      exact ⟨summary items, ih.mpr ⟨hall, rfl⟩, (hstep items item final).mpr hlast⟩

/-- What one round keeps holds behind the loop over the items with their positions. -/
theorem holds_of_foldlM_zipIdx {body : β → α × ℕ → Except ε β} (Holds : List α → β → Prop)
    (hstart : Holds [] start)
    (hstep : ∀ before item state next, Holds before state →
      body state (item, before.length) = .ok next → Holds (before ++ [item]) next)
    (h : items.zipIdx.foldlM body start = .ok final) : Holds items final := by
  induction items using List.reverseRecOn generalizing final with
  | nil =>
    cases h
    exact hstart
  | append_singleton items item ih =>
    rw [zipIdx_concat] at h
    obtain ⟨state, hbefore, hlast⟩ := foldlM_concat_eq_ok_iff.mp h
    exact hstep items item state final (ih hbefore) hlast

/-- A loop that fails does so in a round in front of which its invariant holds. -/
theorem exists_of_foldlM_zipIdx_error {body : β → α × ℕ → Except ε β}
    (Holds : List α → β → Prop) (hstart : Holds [] start)
    (hstep : ∀ before item state next, Holds before state →
      body state (item, before.length) = .ok next → Holds (before ++ [item]) next)
    {fault : ε} (h : items.zipIdx.foldlM body start = .error fault) :
    ∃ before item state, Holds before state ∧ body state (item, before.length) = .error fault := by
  induction items using List.reverseRecOn with
  | nil => cases h
  | append_singleton items item ih =>
    rw [zipIdx_concat, foldlM_concat] at h
    cases hbefore : items.zipIdx.foldlM body start with
    | error found =>
      rw [hbefore] at h
      cases h
      exact ih hbefore
    | ok state =>
      rw [hbefore] at h
      exact ⟨items, item, state, holds_of_foldlM_zipIdx Holds hstart hstep hbefore, h⟩

/-- Two bodies that agree on the items of the loop. -/
theorem foldlM_congr {other : β → α → Except ε β}
    (h : ∀ item ∈ items, ∀ state, body state item = other state item) :
    items.foldlM body start = items.foldlM other start := by
  induction items generalizing start with
  | nil => rfl
  | cons item items ih =>
    obtain ⟨hitem, hitems⟩ := List.forall_mem_cons.mp h
    rw [List.foldlM_cons, List.foldlM_cons, hitem start]
    exact congrArg _ (funext fun state => ih hitems)

/-- The round in which a loop fails. -/
theorem exists_of_foldlM_error {fault : ε} (h : items.foldlM body start = .error fault) :
    ∃ before item after state, items = before ++ item :: after ∧
      before.foldlM body start = .ok state ∧ body state item = .error fault := by
  induction items generalizing start with
  | nil => cases h
  | cons item items ih =>
    rw [List.foldlM_cons] at h
    cases hround : body start item with
    | error found =>
      rw [hround] at h
      cases h
      exact ⟨[], item, items, start, rfl, rfl, hround⟩
    | ok next =>
      rw [hround] at h
      obtain ⟨before, found, after, state, rfl, hbefore, hfails⟩ := ih h
      refine ⟨item :: before, found, after, state, rfl, ?_, hfails⟩
      rw [List.foldlM_cons, hround]
      exact hbefore

end Loop
