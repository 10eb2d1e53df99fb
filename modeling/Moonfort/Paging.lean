import Mathlib.Data.Int.Order.Basic
import Mathlib.Data.List.Basic

/-!
# Reading a content page by page

A reader starts at the offset 0 and asks for the next page where the last one
ended. When every page that it is answered is the slice of one content at its
offset, the pages together are the content.
-/

namespace Moonfort.Paging

variable {α ρ : Type*}

/-- The parts of a page: where it starts and ends, its items, and whether it is the last. -/
structure PageView (ρ α : Type*) where
  offset : ρ → ℤ
  next : ρ → ℤ
  items : ρ → List α
  eof : ρ → Bool

/-- The page of a content at an offset. -/
structure PageView.IsPage (view : PageView ρ α) (content : List α) (offset : ℤ) (page : ρ) :
    Prop where
  offset_eq : view.offset page = offset
  slice : view.items page <+: content.drop offset.toNat
  next_eq : view.next page = offset + (view.items page).length
  eof_iff : view.eof page = true ↔ view.next page = content.length
  progress : offset < content.length → offset < view.next page

/-- The items of a content from an offset on, up to a limit. -/
def slice (content : List α) (offset limit : ℤ) : List α :=
  (content.drop offset.toNat).take (min (content.length - offset) limit).toNat

/-- A slice inside the content has the limit's size or what is left. -/
theorem length_slice {content : List α} {offset limit : ℤ} (hoffset : 0 ≤ offset)
    (hwithin : offset ≤ content.length) (hlimit : 0 < limit) :
    ((slice content offset limit).length : ℤ) = min (content.length - offset) limit := by
  rw [slice, List.length_take, List.length_drop]
  omega

/-- A page that holds a slice, and is the last when the slice ends the content. -/
theorem isPage_of_slice {view : PageView ρ α} {content : List α} {offset limit : ℤ} {page : ρ}
    (hoffset : 0 ≤ offset) (hwithin : offset ≤ content.length) (hlimit : 0 < limit)
    (hstart : view.offset page = offset) (hitems : view.items page = slice content offset limit)
    (hnext : view.next page = offset + min (content.length - offset) limit)
    (heof : view.eof page = (view.next page == content.length)) :
    view.IsPage content offset page := by
  refine
    { offset_eq := hstart
      slice := ?_
      next_eq := ?_
      eof_iff := ?_
      progress := ?_ }
  · rw [hitems]
    exact List.take_prefix _ _
  · rw [hitems, length_slice hoffset hwithin hlimit, hnext]
  · rw [heof]
    exact beq_iff_eq
  · intro hbefore
    rw [hnext]
    omega

/-- Pages that are answered one after another, up to a cursor. -/
inductive ReadThrough (view : PageView ρ α) (answers : ℤ → ρ → Prop) : ℤ → List ρ → Prop
  | start : ReadThrough view answers 0 []
  | page {cursor : ℤ} {pages : List ρ} {page : ρ} (hpages : ReadThrough view answers cursor pages)
      (hanswer : answers cursor page) : ReadThrough view answers (view.next page) (pages ++ [page])

/-- The pages up to a cursor are the content up to there, and each of them
advances unless it is the last one. -/
structure ReadExactly (view : PageView ρ α) (content : List α) (cursor : ℤ) (pages : List ρ) :
    Prop where
  nonneg : 0 ≤ cursor
  within : cursor ≤ content.length
  read : pages.flatMap view.items = content.take cursor.toNat
  eof_iff : ∀ page ∈ pages, view.eof page = true ↔ view.next page = content.length
  advances : ∀ page ∈ pages, view.eof page = false → view.offset page < view.next page
  reached : ∀ page ∈ pages, view.next page ≤ cursor
  count : (pages.filter fun page => !view.eof page).length ≤ cursor

variable {view : PageView ρ α} {content : List α} {cursor : ℤ} {pages : List ρ}

/-- Before any page nothing is read. -/
theorem ReadExactly.start : ReadExactly view content 0 [] where
  nonneg := le_refl _
  within := Int.natCast_nonneg _
  read := rfl
  eof_iff page hpage := by cases hpage
  advances page hpage := by cases hpage
  reached page hpage := by cases hpage
  count := Int.le_refl _

/-- A slice behind the first items prolongs them. -/
theorem take_append_slice {n : ℕ} {items : List α} (hn : n ≤ content.length)
    (h : items <+: content.drop n) :
    content.take n ++ items = content.take (n + items.length) ∧
      n + items.length ≤ content.length := by
  have hitems : items = (content.drop n).take items.length := List.prefix_iff_eq_take.mp h
  have hlength := h.length_le
  rw [List.length_drop] at hlength
  refine ⟨?_, by omega⟩
  rw [List.take_add, ← hitems]

/-- One more page is read exactly. -/
theorem ReadExactly.page (h : ReadExactly view content cursor pages) {page : ρ}
    (hpage : view.IsPage content cursor page) :
    ReadExactly view content (view.next page) (pages ++ [page]) := by
  have hnonneg := h.nonneg
  have hwithin := h.within
  obtain ⟨hread, hlength⟩ := take_append_slice (n := cursor.toNat) (by omega) hpage.slice
  have hnext := hpage.next_eq
  have hadvance : view.eof page = false → cursor < view.next page := by
    intro heof
    apply hpage.progress
    by_contra hend
    have hitems : (view.items page).length = 0 := by omega
    have hlast : view.eof page = true := by
      rw [hpage.eof_iff]
      omega
    rw [heof] at hlast
    cases hlast
  refine
    { nonneg := by omega
      within := by omega
      read := ?_
      eof_iff := ?_
      advances := ?_
      reached := ?_
      count := ?_ }
  · have hcursor : (view.next page).toNat = cursor.toNat + (view.items page).length := by omega
    rw [List.flatMap_append, List.flatMap_singleton, h.read, hread, hcursor]
  · intro other hother
    rw [List.mem_append, List.mem_singleton] at hother
    obtain hearlier | rfl := hother
    · exact h.eof_iff other hearlier
    · exact hpage.eof_iff
  · intro other hother heof
    rw [List.mem_append, List.mem_singleton] at hother
    obtain hearlier | rfl := hother
    · exact h.advances other hearlier heof
    · rw [hpage.offset_eq]
      exact hadvance heof
  · intro other hother
    rw [List.mem_append, List.mem_singleton] at hother
    obtain hearlier | rfl := hother
    · have hreached := h.reached other hearlier
      omega
    · exact Int.le_refl _
  · have hcount := h.count
    rw [List.filter_append, List.length_append, Int.natCast_add]
    cases heof : view.eof page with
    | false =>
      have hnext' := hadvance heof
      simp only [List.filter_cons, heof, Bool.not_false, if_true, List.filter_nil,
        List.length_singleton, Int.natCast_one]
      omega
    | true =>
      simp only [List.filter_cons, heof, Bool.not_true, Bool.false_eq_true, if_false,
        List.filter_nil, List.length_nil, Int.natCast_zero]
      omega

/-- Reading through pages of one content reads it exactly. -/
theorem ReadThrough.exactly {answers : ℤ → ρ → Prop}
    (hanswers : ∀ (offset : ℤ) page, 0 ≤ offset → offset ≤ content.length → answers offset page →
      view.IsPage content offset page)
    (h : ReadThrough view answers cursor pages) : ReadExactly view content cursor pages := by
  induction h with
  | start => exact .start
  | page _ hanswer ih => exact ih.page (hanswers _ _ ih.nonneg ih.within hanswer)

/-- Every page that was read is the answer at some offset. -/
theorem ReadThrough.answered {answers : ℤ → ρ → Prop} (h : ReadThrough view answers cursor pages) :
    ∀ page ∈ pages, ∃ offset, answers offset page := by
  induction h with
  | start =>
    intro page hpage
    cases hpage
  | page _ hanswer ih =>
    intro page hpage
    rw [List.mem_append, List.mem_singleton] at hpage
    obtain hearlier | rfl := hpage
    · exact ih page hearlier
    · exact ⟨_, hanswer⟩

/-- Once a last page has been read, the pages are the whole content. -/
theorem ReadExactly.complete (h : ReadExactly view content cursor pages) {page : ρ}
    (hpage : page ∈ pages) (heof : view.eof page = true) :
    pages.flatMap view.items = content := by
  have hend := (h.eof_iff page hpage).mp heof
  have hreached := h.reached page hpage
  rw [h.read, List.take_of_length_le (by omega)]

end Moonfort.Paging
