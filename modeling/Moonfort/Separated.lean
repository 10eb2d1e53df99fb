import Mathlib.Data.List.Basic

/-!
# Texts with separators

What is written before a separator, in parts that do not contain it, can be read in
one way only.
-/

namespace Moonfort.Separated

variable {α : Type} {sep : α}

/-- The part before the first separator, and what is behind it. -/
theorem append_cons_inj {a b c d : List α} (ha : sep ∉ a) (hc : sep ∉ c)
    (h : a ++ sep :: b = c ++ sep :: d) : a = c ∧ b = d := by
  induction a generalizing c with
  | nil =>
    cases c with
    | nil => exact ⟨rfl, (List.cons.inj h).2⟩
    | cons x c =>
      have hx : sep = x := (List.cons.inj h).1
      exact absurd (hx ▸ List.mem_cons_self) hc
  | cons x a ih =>
    cases c with
    | nil =>
      have hx : x = sep := (List.cons.inj h).1
      exact absurd (hx ▸ List.mem_cons_self) ha
    | cons y c =>
      obtain ⟨hxy, hrest⟩ := List.cons.inj h
      obtain ⟨hac, hbd⟩ := ih (fun hmem => ha (List.mem_cons_of_mem _ hmem))
        (fun hmem => hc (List.mem_cons_of_mem _ hmem)) hrest
      exact ⟨by rw [hxy, hac], hbd⟩

variable {parts parts' : List (List α)}

/-- Parts that each end with a separator. -/
theorem flatMap_terminated_inj (h : ∀ part ∈ parts, sep ∉ part)
    (h' : ∀ part ∈ parts', sep ∉ part)
    (heq : parts.flatMap (· ++ [sep]) = parts'.flatMap (· ++ [sep])) : parts = parts' := by
  induction parts generalizing parts' with
  | nil =>
    cases parts' with
    | nil => rfl
    | cons part rest => simp at heq
  | cons part rest ih =>
    cases parts' with
    | nil => simp at heq
    | cons part' rest' =>
      rw [List.forall_mem_cons] at h h'
      simp only [List.flatMap_cons, List.append_assoc, List.singleton_append] at heq
      obtain ⟨hpart, hrest⟩ := append_cons_inj h.1 h'.1 heq
      rw [hpart, ih h.2 h'.2 hrest]

/-- Terminated parts begin another text of terminated parts when they are its first parts. -/
theorem flatMap_terminated_prefix_iff
    (h : ∀ part ∈ parts, sep ∉ part) (h' : ∀ part ∈ parts', sep ∉ part) :
    parts.flatMap (· ++ [sep]) <+: parts'.flatMap (· ++ [sep]) ↔ parts <+: parts' := by
  constructor
  · rintro ⟨tail, heq⟩
    induction parts generalizing parts' with
    | nil => exact List.nil_prefix
    | cons part rest ih =>
      cases parts' with
      | nil => simp at heq
      | cons part' rest' =>
        rw [List.forall_mem_cons] at h h'
        simp only [List.flatMap_cons, List.append_assoc, List.singleton_append] at heq
        obtain ⟨rfl, hrest⟩ := append_cons_inj h.1 h'.1 heq
        exact List.cons_prefix_cons.mpr ⟨rfl, ih h.2 h'.2 hrest⟩
  · rintro ⟨later, rfl⟩
    rw [List.flatMap_append]
    exact List.prefix_append _ _

/-- Terminated parts have a separator between them and one at the end. -/
theorem flatMap_terminated {parts : List (List α)} (h : parts ≠ []) :
    parts.flatMap (· ++ [sep]) = [sep].intercalate parts ++ [sep] := by
  induction parts with
  | nil => exact absurd rfl h
  | cons part rest ih =>
    cases rest with
    | nil => simp
    | cons next rest =>
      rw [List.flatMap_cons, ih (List.cons_ne_nil _ _), List.intercalate_cons_cons]
      simp

section Split

variable [BEq α] [LawfulBEq α]

/-- The parts of a text do not contain the separator. -/
theorem notMem_of_mem_splitOn {text part : List α} (h : part ∈ text.splitOn sep) : sep ∉ part := by
  induction text generalizing part with
  | nil =>
    rw [List.splitOn_nil, List.mem_singleton] at h
    rw [h]
    exact List.not_mem_nil
  | cons x text ih =>
    rw [List.splitOn_cons_eq_if_modifyHead] at h
    split at h
    next =>
      rcases List.mem_cons.mp h with rfl | h
      · exact List.not_mem_nil
      · exact ih h
    next hx =>
      obtain ⟨first, rest, hsplit⟩ := List.exists_cons_of_ne_nil (List.splitOn_ne_nil sep text)
      rw [hsplit, List.modifyHead_cons, List.mem_cons] at h
      rcases h with rfl | h
      · rw [List.mem_cons, not_or]
        refine ⟨fun heq => hx (beq_iff_eq.mpr heq.symm), ih ?_⟩
        rw [hsplit]
        exact List.mem_cons_self
      · apply ih
        rw [hsplit]
        exact List.mem_cons_of_mem _ h

/-- A text with one more separator is its parts, each with a separator behind it. -/
theorem flatMap_terminated_splitOn (text : List α) :
    (text.splitOn sep).flatMap (· ++ [sep]) = text ++ [sep] := by
  rw [flatMap_terminated (List.splitOn_ne_nil sep text), List.intercalate_splitOn]

end Split

end Moonfort.Separated
