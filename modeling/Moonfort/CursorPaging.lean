import Mathlib
import Moonfort.Loop

/-!
# Following cursors

A reader asks for the items behind a cursor, is answered the first of them that fit a page and
a cursor behind the last one, and asks again. The pages together are all items, each of them
once and in order, when every page is the page of the items behind its cursor.
-/

namespace CursorPaging

variable {α κ ρ ω ε : Type}

/-! ## Items behind a cursor -/

section Behind

variable [LinearOrder ω] {rank : α → ω}

/-- The items whose rank is behind a cursor. -/
def behind (rank : α → ω) (items : List α) (cursor : ω) : List α :=
  items.filter fun item => cursor < rank item

/-- The items behind the last item of a page are those behind the page. -/
theorem behind_last {items front : List α} {last : α} {cursor : ω}
    (hsorted : items.Pairwise fun a b => rank a < rank b)
    (h : front ++ [last] <+: behind rank items cursor) :
    behind rank items (rank last) = (behind rank items cursor).drop (front ++ [last]).length := by
  obtain ⟨rest, hrest⟩ := h
  have hpairs : (front ++ [last] ++ rest).Pairwise fun a b => rank a < rank b :=
    hrest ▸ hsorted.filter _
  have hlast : cursor < rank last := by
    have hmem : last ∈ behind rank items cursor := by
      rw [← hrest]
      simp
    exact of_decide_eq_true (List.mem_filter.mp hmem).2
  obtain ⟨hfront, -, hcross⟩ := List.pairwise_append.mp hpairs
  have hbehind : behind rank items (rank last) =
      (behind rank items cursor).filter fun item => rank last < rank item := by
    rw [behind, behind, List.filter_filter]
    refine List.filter_congr fun item _ => ?_
    rw [← Bool.decide_and, decide_eq_decide]
    exact ⟨fun h => ⟨h, lt_trans hlast h⟩, fun h => h.1⟩
  rw [hbehind, ← hrest, List.drop_left, List.filter_append, List.filter_append]
  have hnone : (front.filter fun item => decide (rank last < rank item)) = [] := by
    rw [List.filter_eq_nil_iff]
    intro item hitem hlt
    have hle := (List.pairwise_append.mp hfront).2.2 item hitem last List.mem_cons_self
    exact absurd (of_decide_eq_true hlt) (lt_asymm hle)
  have hall : (rest.filter fun item => decide (rank last < rank item)) = rest := by
    rw [List.filter_eq_self]
    exact fun item hitem => decide_eq_true (hcross last (by simp) item hitem)
  rw [hnone, hall]
  simp

end Behind

/-! ## Pages -/

/-- The parts of a page: its items, the cursor behind them, and whether there are more. -/
structure PageView (ρ κ α : Type) where
  items : ρ → List α
  next : ρ → κ
  more : ρ → Bool

/-- The page of the items behind a cursor. -/
structure PageView.IsPage (view : PageView ρ κ α) (behind : κ → List α) (cursor : κ) (page : ρ) :
    Prop where
  first : view.items page <+: behind cursor
  next_eq : behind (view.next page) = (behind cursor).drop (view.items page).length
  more_iff : view.more page = true ↔ (view.items page).length < (behind cursor).length
  progress : behind cursor ≠ [] → view.items page ≠ []

/-- Pages that are answered one after another from a first cursor on, up to a cursor. -/
inductive Follows (view : PageView ρ κ α) (answers : κ → ρ → Prop) (origin : κ) :
    κ → List ρ → Prop
  | start : Follows view answers origin origin []
  | page {cursor : κ} {pages : List ρ} {page : ρ} 
      (hpages : Follows view answers origin cursor pages)
      (hanswer : answers cursor page) :
      Follows view answers origin (view.next page) (pages ++ [page])

/-- The pages up to a cursor and the items behind it are all items. Each page but a last one has
items, and behind a last one nothing is left. -/
structure ReadsAll (view : PageView ρ κ α) (behind : κ → List α) (origin cursor : κ)
    (pages : List ρ) : Prop where
  read : pages.flatMap view.items ++ behind cursor = behind origin
  progress : ∀ page ∈ pages, view.more page = true → view.items page ≠ []
  ended : ∀ page ∈ pages, view.more page = false → behind cursor = []
  count : (pages.filter view.more).length ≤ (pages.flatMap view.items).length

variable {view : PageView ρ κ α} {behind : κ → List α} {origin cursor : κ} {pages : List ρ}

/-- Before any page all items are behind the cursor. -/
theorem ReadsAll.start : ReadsAll view behind origin origin [] where
  read := rfl
  progress _ hpage := absurd hpage List.not_mem_nil
  ended _ hpage := absurd hpage List.not_mem_nil
  count := Nat.le_refl _

/-- A page with more items behind it is not empty. -/
theorem PageView.IsPage.items_ne_nil {page : ρ} (h : view.IsPage behind cursor page)
    (hmore : view.more page = true) : view.items page ≠ [] := by
  have hlt := h.more_iff.mp hmore
  exact h.progress (List.ne_nil_of_length_pos (by omega))

/-- One more page. -/
theorem ReadsAll.page (h : ReadsAll view behind origin cursor pages) {page : ρ}
    (hpage : view.IsPage behind cursor page) :
    ReadsAll view behind origin (view.next page) (pages ++ [page]) := by
  obtain ⟨rest, hrest⟩ := hpage.first
  have hnext : behind (view.next page) = rest := by rw [hpage.next_eq, ← hrest, List.drop_left]
  refine ⟨?_, ?_, ?_, ?_⟩
  · rw [List.flatMap_append, List.flatMap_singleton, hnext, List.append_assoc, hrest, h.read]
  · intro other hother hmore
    rw [List.mem_append, List.mem_singleton] at hother
    obtain hearlier | rfl := hother
    · exact h.progress other hearlier hmore
    · exact hpage.items_ne_nil hmore
  · intro other hother hmore
    rw [hnext]
    rw [List.mem_append, List.mem_singleton] at hother
    obtain hearlier | rfl := hother
    · rw [h.ended other hearlier hmore] at hrest
      exact (List.append_eq_nil_iff.mp hrest).2
    · have hlength := congrArg List.length hrest
      have hall := hpage.more_iff.not.mp (by rw [hmore]; exact Bool.false_ne_true)
      rw [List.length_append] at hlength
      exact List.eq_nil_of_length_eq_zero (by omega)
  · have hcount := h.count
    rw [List.filter_append, List.length_append, List.flatMap_append, List.length_append,
      List.flatMap_singleton]
    by_cases hmore : view.more page = true
    · have hpos := List.length_pos_iff.mpr (hpage.items_ne_nil hmore)
      simp only [List.filter_cons, hmore, if_true, List.filter_nil, List.length_singleton]
      omega
    · simp only [List.filter_cons, hmore, Bool.false_eq_true, if_false, List.filter_nil,
        List.length_nil]
      omega

/-- Whoever follows the cursors reads all items. -/
theorem Follows.readsAll {answers : κ → ρ → Prop}
    (hanswers : ∀ cursor page, answers cursor page → view.IsPage behind cursor page)
    (h : Follows view answers origin cursor pages) : ReadsAll view behind origin cursor pages := by
  induction h with
  | start => exact .start
  | page _ hanswer ih => exact ih.page (hanswers _ _ hanswer)

/-- Every page that was read is the answer at some cursor. -/
theorem Follows.answered {answers : κ → ρ → Prop} (h : Follows view answers origin cursor pages) :
    ∀ page ∈ pages, ∃ cursor, answers cursor page := by
  induction h with
  | start => exact fun page hpage => absurd hpage List.not_mem_nil
  | page _ hanswer ih =>
    intro page hpage
    rw [List.mem_append, List.mem_singleton] at hpage
    obtain hearlier | rfl := hpage
    · exact ih page hearlier
    · exact ⟨_, hanswer⟩

/-- Once there are no more items, the pages have been all items. -/
theorem ReadsAll.complete (h : ReadsAll view behind origin cursor pages) {page : ρ}
    (hpage : page ∈ pages) (hmore : view.more page = false) :
    pages.flatMap view.items = behind origin := by
  rw [← h.read, h.ended page hpage hmore, List.append_nil]

/-- At most as many pages as items have more items behind them. -/
theorem ReadsAll.count_le (h : ReadsAll view behind origin cursor pages) :
    (pages.filter view.more).length ≤ (behind origin).length := by
  have hcount := h.count
  rw [← h.read, List.length_append]
  omega

/-! ## The items that fit a page -/

/-- The first items, up to a limit and as long as they fit, at least one if there is one. -/
structure Fitting (limit : ℤ) (fits : List α → Prop) (items kept : List α) : Prop where
  first : kept <+: items
  length_le : (kept.length : ℤ) ≤ limit
  fits : kept ≠ [] → fits kept
  progress : items ≠ [] → kept ≠ []

/-- The variables of a loop that counts all items and keeps those that fit. -/
structure Collected (α : Type) where
  kept : List α
  pending : ℕ
  full : Bool

/-- No item yet. -/
def Collected.empty : Collected α := ⟨[], 0, false⟩

/-- One more item. Once one does not fit, the others are only counted. -/
def Collected.push (limit : ℤ) (fits : ℕ → List α → Bool) (refusal : ε) (s : Collected α)
    (item : α) : Except ε (Collected α) :=
  if s.full = true then .ok ⟨s.kept, s.pending + 1, true⟩
  else if limit < ((s.kept ++ [item]).length : ℤ) ∨
      fits (s.pending + 1) (s.kept ++ [item]) = false then
    if s.kept.isEmpty = true then .error refusal else .ok ⟨s.kept, s.pending + 1, true⟩
  else .ok ⟨s.kept ++ [item], s.pending + 1, false⟩

/-- What holds of the variables behind some items. -/
structure Collected.Behind (limit : ℤ) (fits : ℕ → List α → Bool) (items : List α)
    (s : Collected α) : Prop where
  pending : s.pending = items.length
  open_eq : s.full = false → s.kept = items
  full_ne : s.full = true → s.kept ≠ []
  fitting : Fitting limit (fun kept => fits kept.length kept = true) items s.kept

/-- Before any item nothing is collected. -/
theorem Collected.Behind.empty {limit : ℤ} {fits : ℕ → List α → Bool} (hlimit : 0 < limit) :
    (Collected.empty : Collected α).Behind limit fits [] where
  pending := rfl
  open_eq _ := rfl
  full_ne := nofun
  fitting := ⟨List.prefix_rfl, Int.le_of_lt hlimit, fun hne => absurd rfl hne, fun h => h⟩

/-- Pushing an item keeps what is collected a page of the items so far. -/
theorem Collected.Behind.push {limit : ℤ} {fits : ℕ → List α → Bool} {refusal : ε}
    {items : List α} {s next : Collected α} {item : α} (hs : s.Behind limit fits items)
    (h : s.push limit fits refusal item = .ok next) : next.Behind limit fits (items ++ [item]) := by
  have hpending : s.pending + 1 = (items ++ [item]).length := by
    rw [List.length_append, List.length_singleton, hs.pending]
  have hstays : s.kept ≠ [] → (⟨s.kept, s.pending + 1, true⟩ : Collected α).Behind limit fits
      (items ++ [item]) := fun hne =>
    ⟨hpending, nofun, fun _ => hne, hs.fitting.first.trans (List.prefix_append _ _),
      hs.fitting.length_le, hs.fitting.fits, fun _ => hne⟩
  unfold Collected.push at h
  split at h
  next hfull =>
    rw [← Except.ok.inj h]
    exact hstays (hs.full_ne hfull)
  next hopen =>
    have hkept := hs.open_eq (by simpa using hopen)
    split at h
    next =>
      obtain ⟨hempty, h⟩ := Loop.guard_eq_ok_iff.mp h
      rw [← Except.ok.inj h]
      exact hstays fun heq => hempty (by rw [heq]; rfl)
    next hfits =>
      rw [not_or, not_lt, Bool.not_eq_false, hpending, hkept] at hfits
      rw [← Except.ok.inj h, hkept]
      exact ⟨hpending, fun _ => rfl, nofun, List.prefix_rfl, hfits.1, fun _ => hfits.2,
        fun _ => by simp⟩

/-- What the loop over all items keeps and counts. -/
theorem collected_eq_ok {limit : ℤ} {fits : ℕ → List α → Bool} {refusal : ε} {items : List α}
    {s : Collected α} (hlimit : 0 < limit)
    (h : items.foldlM (Collected.push limit fits refusal) .empty = .ok s) :
    s.pending = items.length ∧
      Fitting limit (fun kept => fits kept.length kept = true) items s.kept := by
  have hbehind := Loop.holds_of_foldlM (fun items (s : Collected α) => s.Behind limit fits items)
    (.empty hlimit) (fun before item s next _ hs hround => hs.push hround) h
  exact ⟨hbehind.pending, hbehind.fitting⟩

/-- The page that fits, of the items behind a cursor. -/
theorem isPage_of_fitting [LinearOrder ω] {rank : α → ω} {items : List α} {rankOf : κ → ω}
    {limit : ℤ} {fits : List α → Prop} {page : ρ}
    (hsorted : items.Pairwise fun a b => rank a < rank b)
    (hfit : Fitting limit fits (CursorPaging.behind rank items (rankOf cursor)) (view.items page))
    (hempty : view.items page = [] → view.next page = cursor)
    (hlast : ∀ front last, view.items page = front ++ [last] →
      rankOf (view.next page) = rank last)
    (hmore : view.more page = true ↔ (view.items page).length <
      (CursorPaging.behind rank items (rankOf cursor)).length) :
    view.IsPage (fun cursor => CursorPaging.behind rank items (rankOf cursor)) cursor page where
  first := hfit.first
  next_eq := by
    rcases List.eq_nil_or_concat (view.items page) with hnil | ⟨front, last, hitems⟩
    · rw [hempty hnil, hnil]
      rfl
    · rw [List.concat_eq_append] at hitems
      have hfirst := hfit.first
      rw [hitems] at hfirst ⊢
      rw [hlast front last hitems]
      exact behind_last hsorted hfirst
  more_iff := hmore
  progress := hfit.progress

end CursorPaging
