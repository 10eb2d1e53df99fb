import Moonfort.Sandbox.ProfileAcceptance
import Mathlib.Data.List.Infix

/-!
# Canonical paths as prefixes

A canonical path with a closing slash is a prefix of exactly the paths at and
below it. Containment and overlap of roots become statements about prefixes of
character lists, so two directories that do not overlap have no common
descendants.
-/

namespace Moonfort.Sandbox

open MoonBit

/-- A sequence of characters occurs in another when it is an infix of it. -/
theorem occursIn_iff (p cs : List Char) : occursIn p cs = true ↔ p <:+: cs := by
  induction cs with
  | nil => rw [occursIn, List.isEmpty_iff, List.infix_nil]
  | cons c rest ih =>
    rw [occursIn, Bool.or_eq_true, ih, List.isPrefixOf_iff_prefix, List.infix_cons_iff]

/-- A text is searched for NUL character by character. -/
theorem containsText_nul_iff (text : String) :
    containsText text "\x00" = true ↔ '\x00' ∈ text.toList := by
  rw [containsText, occursIn_iff, show "\x00".toList = ['\x00'] from rfl,
    List.singleton_infix_iff]

/-- The characters of a path with exactly one slash after it. -/
def closedPath (path : String) : List Char := if path = "/" then ['/'] else path.toList ++ ['/']

/-- The source's prefix test is that of character lists. -/
theorem hasPrefix_iff (s p : String) : hasPrefix s p = true ↔ p.toList <+: s.toList := by
  rw [hasPrefix, List.isPrefixOf_iff_prefix]

/-- `path_contains` compares the closed root with the path. -/
theorem pathContains_iff (root path : String) :
    pathContains root path = true ↔ closedPath root <+: path.toList := by
  rw [pathContains, closedPath]
  split
  next hroot =>
    rw [if_pos (beq_iff_eq.mp hroot), hasPrefix_iff]
    rfl
  next hroot =>
    rw [if_neg (fun h => hroot (beq_iff_eq.mpr h)), hasPrefix_iff, String.toList_append]
    rfl

/-- A canonical path is not empty. -/
theorem toList_ne_nil_of_canonical {path : String} (h : pathIsCanonicalAbsolute path = true) :
    path.toList ≠ [] := by
  intro hnil
  have hprefix := (hasPrefix_iff _ _).mp (hasPrefix_of_canonical h)
  rw [hnil] at hprefix
  cases List.prefix_nil.mp hprefix

/-- A canonical path lies at or below a root when the closed paths are prefixes. -/
theorem closedPath_prefix_iff {root path : String} (hroot : pathIsCanonicalAbsolute root = true)
    (hpath : pathIsCanonicalAbsolute path = true) :
    closedPath root <+: closedPath path ↔ root = path ∨ pathContains root path = true := by
  rw [pathContains_iff]
  by_cases hslash : path = "/"
  · rw [hslash, show closedPath "/" = ['/'] from rfl, show "/".toList = ['/'] from rfl]
    constructor
    · exact .inr
    · rintro (rfl | h)
      · exact List.prefix_refl _
      · exact h
  · rw [show closedPath path = path.toList ++ ['/'] from if_neg hslash, List.prefix_concat_iff]
    constructor
    · rintro (h | h)
      · left
        by_cases hrootSlash : root = "/"
        · rw [closedPath, if_pos hrootSlash] at h
          have hnil : path.toList = [] := (List.append_left_eq_self).mp h.symm
          exact absurd hnil (toList_ne_nil_of_canonical hpath)
        · rw [closedPath, if_neg hrootSlash] at h
          exact String.toList_inj.mp (List.append_cancel_right h)
      · exact .inr h
    · rintro (rfl | h)
      · left
        rw [closedPath, if_neg hslash]
      · exact .inr h

/-- Canonical roots overlap when one closed path is a prefix of the other. -/
theorem overlaps_iff {left right : String} (hleft : pathIsCanonicalAbsolute left = true)
    (hright : pathIsCanonicalAbsolute right = true) :
    Overlaps left right ↔
      closedPath left <+: closedPath right ∨ closedPath right <+: closedPath left := by
  rw [closedPath_prefix_iff hleft hright, closedPath_prefix_iff hright hleft, Overlaps]
  constructor
  · rintro (h | h | h)
    · exact .inl (.inl h)
    · exact .inl (.inr h)
    · exact .inr (.inr h)
  · rintro ((h | h) | (h | h))
    · exact .inl h
    · exact .inr (.inl h)
    · exact .inl h.symm
    · exact .inr (.inr h)

/-- Overlap of two descendants is overlap of the directories they lie in. -/
theorem Overlaps.of_below {left right outer inner : String}
    (hleft : pathIsCanonicalAbsolute left = true) (hright : pathIsCanonicalAbsolute right = true)
    (houter : pathIsCanonicalAbsolute outer = true) (hinner : pathIsCanonicalAbsolute inner = true)
    (hbelow : closedPath left <+: closedPath outer)
    (hbelow' : closedPath right <+: closedPath inner)
    (h : Overlaps outer inner) : Overlaps left right := by
  rw [overlaps_iff houter hinner] at h
  rw [overlaps_iff hleft hright]
  rcases h with h | h
  · exact List.prefix_or_prefix_of_prefix (hbelow.trans h) hbelow'
  · exact List.prefix_or_prefix_of_prefix hbelow (hbelow'.trans h)

/-- A name of one directory entry. -/
structure IsEntryName (name : String) : Prop where
  nonempty : name.toList ≠ []
  noSlash : '/' ∉ name.toList
  ne_dot : name ≠ "."
  ne_dotdot : name ≠ ".."

/-- Two slashes in a row inside a path and one more component lie inside the path. -/
theorem slashes_infix_of_append {cs name : List Char} (hname : '/' ∉ name)
    (hend : ¬ ['/'] <:+ cs) (h : ['/', '/'] <:+: cs ++ '/' :: name) : ['/', '/'] <:+: cs := by
  obtain ⟨before, after, heq⟩ := h
  rw [List.append_assoc] at heq
  rcases List.append_eq_append_iff.mp heq with ⟨middle, hcs, hrest⟩ | ⟨middle, hbefore, hrest⟩
  · match middle, hcs, hrest with
    | [], _, hrest =>
      simp only [List.cons_append, List.nil_append, List.cons.injEq, true_and] at hrest
      rw [← hrest] at hname
      exact absurd (List.mem_cons_self) hname
    | [c], hcs, hrest =>
      simp only [List.cons_append, List.nil_append, List.cons.injEq] at hrest
      rw [hcs, ← hrest.1] at hend
      exact absurd (List.suffix_append _ _) hend
    | c :: d :: more, hcs, hrest =>
      simp only [List.cons_append, List.nil_append, List.cons.injEq] at hrest
      refine ⟨before, more, ?_⟩
      rw [hcs, ← hrest.1, ← hrest.2.1]
      simp
  · match middle, hrest with
    | [], hrest =>
      simp only [List.cons_append, List.nil_append, List.cons.injEq, true_and] at hrest
      rw [hrest] at hname
      exact absurd (List.mem_cons_self) hname
    | c :: more, hrest =>
      simp only [List.cons_append, List.nil_append, List.cons.injEq] at hrest
      rw [hrest.2] at hname
      exact absurd (List.mem_append_right _ (List.mem_cons_self)) hname

/-- The source's suffix test is that of character lists. -/
theorem hasSuffix_iff (s p : String) : hasSuffix s p = true ↔ p.toList <:+ s.toList := by
  rw [hasSuffix, List.isSuffixOf_iff_suffix]

/-- The entry of a canonical directory other than the root is canonical. -/
theorem canonical_entry {root name : String} (hroot : pathIsCanonicalAbsolute root = true)
    (hslash : root ≠ "/") (hname : IsEntryName name) :
    pathIsCanonicalAbsolute (root ++ "/" ++ name) = true := by
  have hchars : (root ++ "/" ++ name).toList = root.toList ++ '/' :: name.toList := by
    rw [String.toList_append, String.toList_append, List.append_assoc]
    rfl
  have hend := hasSuffix_of_canonical hroot hslash
  simp only [pathIsCanonicalAbsolute, Bool.and_eq_true, Bool.not_eq_true'] at hroot ⊢
  refine ⟨⟨⟨?_, ?_⟩, ?_⟩, ?_⟩
  · have hprefix := (hasPrefix_iff _ _).mp hroot.1.1.1
    rw [hasPrefix_iff, hchars]
    exact hprefix.trans (List.prefix_append _ _)
  · have hinside : ¬ ['/', '/'] <:+: root.toList := by
      rw [← occursIn_iff]
      exact Bool.eq_false_iff.mp hroot.1.1.2
    have hend' : ¬ ['/'] <:+ root.toList := by
      rw [show ['/'] = "/".toList from rfl, ← hasSuffix_iff]
      exact Bool.eq_false_iff.mp hend
    rw [containsText, Bool.eq_false_iff, ne_eq, occursIn_iff, hchars]
    exact fun h => hinside (slashes_infix_of_append hname.noSlash hend' h)
  · have hsplit : splitPath (root ++ "/" ++ name) = splitPath root ++ [name] := by
      rw [splitPath, hchars, List.splitOn_append_cons_self, List.splitOn_eq_singleton hname.noSlash,
        List.map_append, List.map_singleton, String.ofList_toList, splitPath]
    rw [hsplit, List.any_append, hroot.1.2, Bool.false_or, List.any_cons, List.any_nil,
      Bool.or_false, Bool.or_eq_false_iff]
    exact ⟨beq_eq_false_iff_ne.mpr hname.ne_dot, beq_eq_false_iff_ne.mpr hname.ne_dotdot⟩
  · rw [Bool.or_eq_true, Bool.not_eq_true', Bool.eq_false_iff, ne_eq, hasSuffix_iff, hchars]
    right
    intro hsuffix
    have hlast : '/' ∈ name.toList := by
      have hsplit : root.toList ++ '/' :: name.toList = (root.toList ++ ['/']) ++ name.toList := by
        simp
      rw [hsplit] at hsuffix
      obtain ⟨before, heq⟩ := hsuffix
      rw [← List.dropLast_append_getLast hname.nonempty, ← List.append_assoc] at heq
      have hget := (List.append_inj' heq rfl).2
      rw [show "/".toList = ['/'] from rfl, List.cons.injEq] at hget
      rw [hget.1]
      exact List.getLast_mem hname.nonempty
    exact hname.noSlash hlast

/-- The entry of a directory lies below it. -/
theorem closedPath_prefix_entry {root name : String} (hslash : root ≠ "/") (hname : name ≠ "") :
    closedPath root <+: closedPath (root ++ "/" ++ name) := by
  have hne : root ++ "/" ++ name ≠ "/" := by
    intro h
    have hlength := congrArg (fun s => s.toList.length) h
    have hname' : name.toList.length ≠ 0 := by
      rw [ne_eq, List.length_eq_zero_iff, String.toList_eq_nil_iff]
      exact hname
    simp only [String.toList_append, List.length_append,
      show "/".toList.length = 1 from rfl] at hlength
    omega
  rw [closedPath, closedPath, if_neg hslash, if_neg hne, String.toList_append,
    String.toList_append, List.append_assoc]
  exact ⟨name.toList ++ ['/'], by simp⟩

end Moonfort.Sandbox
