import Moonfort.Sandbox.CanonicalPath
import Moonfort.Separated

/-!
# Paths as lists of components

An absolute path read as the list of its components, and what lies inside a root:
the paths that begin with its components. The tests on strings agree with this
reading for canonical paths, so roots that do not overlap have no path in common.
-/

namespace Moonfort.Sandbox

open MoonBit

/-- The components of an absolute path; none for the root of the file system. -/
def pathComponents (path : String) : List String :=
  if path = "/" then [] else (splitPath path).tail

/-- A path, given by its components, is a root or lies below it. -/
def Inside (path : List String) (root : String) : Prop := pathComponents root <+: path

/-- A path begins at the root of the file system, and each component names an entry. -/
structure CanonicalRoot (path : String) : Prop where
  absolute : hasPrefix path "/" = true
  components : ∀ component ∈ pathComponents path,
    component ≠ "" ∧ component ≠ "." ∧ component ≠ ".."

/-- A path that begins with a slash is that slash and its components, separated by slashes. -/
theorem pathComponents_eq {path : String} {rest : List Char} (hslash : path ≠ "/")
    (hpath : path.toList = '/' :: rest) :
    pathComponents path = (rest.splitOn '/').map String.ofList := by
  rw [pathComponents, if_neg hslash, splitPath, hpath, List.splitOn_cons_eq_if_modifyHead,
    if_pos (beq_self_eq_true _)]
  rfl

/-- A closed path is a slash and its components, each with a slash behind it. -/
theorem closedPath_eq {path : String} (h : hasPrefix path "/" = true) :
    closedPath path =
      '/' :: ((pathComponents path).map String.toList).flatMap (· ++ ['/']) := by
  by_cases hslash : path = "/"
  · rw [hslash]
    rfl
  · obtain ⟨rest, hrest⟩ := (hasPrefix_iff _ _).mp h
    have hpath : path.toList = '/' :: rest := hrest.symm
    have hmap : ((rest.splitOn '/').map String.ofList).map String.toList = rest.splitOn '/' := by
      rw [List.map_map]
      exact (List.map_congr_left fun part _ => String.toList_ofList).trans (List.map_id _)
    rw [pathComponents_eq hslash hpath, hmap, Separated.flatMap_terminated_splitOn, closedPath,
      if_neg hslash, hpath]
    rfl

/-- A component has no slash. -/
theorem notMem_of_mem_pathComponents {path component : String}
    (h : component ∈ pathComponents path) : '/' ∉ component.toList := by
  rw [pathComponents] at h
  split at h
  · cases h
  · obtain ⟨part, hpart, rfl⟩ := List.mem_map.mp (List.mem_of_mem_tail h)
    rw [String.toList_ofList]
    exact Separated.notMem_of_mem_splitOn hpart

/-- The prefixes of closed paths are the prefixes of the component lists. -/
theorem closedPath_prefix_iff_components {root path : String} (hroot : hasPrefix root "/" = true)
    (hpath : hasPrefix path "/" = true) :
    closedPath root <+: closedPath path ↔ Inside (pathComponents path) root := by
  have hparts : ∀ path, ∀ part ∈ (pathComponents path).map String.toList, '/' ∉ part := by
    intro path part hpart
    obtain ⟨component, hmem, rfl⟩ := List.mem_map.mp hpart
    exact notMem_of_mem_pathComponents hmem
  rw [closedPath_eq hroot, closedPath_eq hpath, List.cons_prefix_cons,
    Separated.flatMap_terminated_prefix_iff (hparts root) (hparts path),
    List.prefix_map_iff_of_injective fun a b => String.toList_inj.mp, Inside,
    and_iff_right rfl]

/-- Canonical roots overlap exactly when some path lies inside both. -/
theorem overlaps_iff_inside {left right : String} (hleft : pathIsCanonicalAbsolute left = true)
    (hright : pathIsCanonicalAbsolute right = true) :
    Overlaps left right ↔ ∃ path, Inside path left ∧ Inside path right := by
  have hleft' := hasPrefix_of_canonical hleft
  have hright' := hasPrefix_of_canonical hright
  rw [overlaps_iff hleft hright, closedPath_prefix_iff_components hleft' hright',
    closedPath_prefix_iff_components hright' hleft']
  constructor
  · rintro (h | h)
    · exact ⟨_, h, List.prefix_refl _⟩
    · exact ⟨_, List.prefix_refl _, h⟩
  · rintro ⟨path, hinside, hinside'⟩
    exact List.prefix_or_prefix_of_prefix hinside hinside'

/-- A canonical path has no empty component: it would stand between two slashes or at the end. -/
theorem canonicalRoot_of_canonical {path : String} (h : pathIsCanonicalAbsolute path = true) :
    CanonicalRoot path := by
  have habsolute := hasPrefix_of_canonical h
  refine ⟨habsolute, fun component hmem => ?_⟩
  have hclosed := closedPath_eq habsolute
  simp only [pathIsCanonicalAbsolute, Bool.and_eq_true, Bool.not_eq_true'] at h
  by_cases hslash : path = "/"
  · rw [hslash] at hmem
    cases hmem
  · have hsuffix : hasSuffix path "/" = false := by simpa [hslash] using h.2
    constructor
    · rintro rfl
      obtain ⟨before, after, heq⟩ := List.append_of_mem hmem
      rw [closedPath, if_neg hslash, heq, List.map_append, List.map_cons, List.flatMap_append,
        List.flatMap_cons] at hclosed
      have hdouble : ['/', '/'] <:+: path.toList ++ ['/'] := by
        rw [hclosed]
        rcases List.eq_nil_or_concat (before.map String.toList) with hnil | ⟨first, last, hlast⟩
        · rw [hnil]
          exact ⟨[], (after.map String.toList).flatMap (· ++ ['/']), rfl⟩
        · rw [hlast]
          refine ⟨'/' :: (first.flatMap (· ++ ['/']) ++ last),
            (after.map String.toList).flatMap (· ++ ['/']), ?_⟩
          simp
      have hend : ¬ ['/'] <:+ path.toList := by
        rw [show ['/'] = "/".toList from rfl, ← hasSuffix_iff, hsuffix]
        exact Bool.false_ne_true
      have hinside : ['/', '/'] <:+: path.toList :=
        slashes_infix_of_append List.not_mem_nil hend hdouble
      have hcontains : containsText path "//" = true := (occursIn_iff _ _).mpr hinside
      rw [h.1.1.2] at hcontains
      cases hcontains
    · rw [pathComponents, if_neg hslash] at hmem
      have hdots := List.any_eq_false.mp h.1.2 component (List.mem_of_mem_tail hmem)
      simpa using hdots

end Moonfort.Sandbox
