import Mathlib.Data.List.DropRight
import Moonfort.DecimalText
import Moonfort.MoonBit.Text

/-!
# Lines of a report

What the readers of line-oriented reports share: `split` at one character, a physical line
without the carriage returns at its end, and `parse_int` of decimal digits.
-/

namespace Moonfort.MoonBit

/-- `s.split(sep)` for a separator of one character. -/
def splitText (sep : Char) (s : String) : List String :=
  (s.toList.splitOn sep).map String.ofList

/-- A split text has a part at least. -/
theorem splitText_ne_nil (sep : Char) (s : String) : splitText sep s ≠ [] := by
  simp [splitText, List.splitOn_ne_nil]

/-- `s.trim_end(chars="\r")`. -/
def trimReturns (s : String) : String := String.ofList (s.toList.rdropWhile (· == '\r'))

/-- `@string.parse_int` of decimal digits. -/
def parseDigits (value : String) : Except String ℕ :=
  let number := DecimalText.digitsValue value.toList
  if number ≤ 2147483647 then .ok number else .error "value out of range"

/-- `s[n:]`. -/
def dropText (n : ℕ) (s : String) : String := String.ofList (s.toList.drop n)

/-- `s.to_upper()`. -/
def toUpper (s : String) : String := String.ofList (s.toList.map Char.toUpper)

/-- What is in front of the first occurrence of a pattern. -/
def beforePattern (pattern : List Char) : List Char → Option (List Char)
  | [] => if pattern = [] then some [] else none
  | c :: rest =>
    if pattern.isPrefixOf (c :: rest) then some []
    else (beforePattern pattern rest).map (c :: ·)

/-- `s[:s.find(pattern)]`, if there is an occurrence. -/
def textBefore (pattern s : String) : Option String :=
  (beforePattern pattern.toList s.toList).map String.ofList

/-! ## Trimmed texts -/

/-- What `trim` removes stands around the result. -/
theorem exists_trim (s : String) : ∃ front back : List Char,
    s.toList = front ++ ((trim s).toList ++ back) ∧ (∀ c ∈ front, isTrimmed c = true) ∧
      ∀ c ∈ back, isTrimmed c = true := by
  refine ⟨s.toList.takeWhile isTrimmed,
    (s.toList.dropWhile isTrimmed).rtakeWhile isTrimmed, ?_, ?_, ?_⟩
  · rw [trim, String.toList_ofList]
    change _ = _ ++ ((s.toList.dropWhile isTrimmed).rdropWhile isTrimmed ++ _)
    rw [List.rdropWhile_append_rtakeWhile, List.takeWhile_append_dropWhile]
  · exact fun c hc => List.mem_takeWhile_imp hc
  · exact fun c hc => List.mem_rtakeWhile_imp hc

/-- A first character that is not trimmed stays. -/
theorem trim_cons {s : String} {c : Char} {rest : List Char} (h : s.toList = c :: rest)
    (hc : isTrimmed c = false) : ∃ rest', (trim s).toList = c :: rest' := by
  obtain ⟨front, back, hs, hfront, hback⟩ := exists_trim s
  rw [h] at hs
  cases front with
  | cons d front =>
    rw [List.cons_append, List.cons.injEq] at hs
    rw [hs.1, hfront d List.mem_cons_self] at hc
    cases hc
  | nil =>
    cases htrim : (trim s).toList with
    | nil =>
      rw [htrim, List.nil_append, List.nil_append] at hs
      rw [hback c (hs ▸ List.mem_cons_self)] at hc
      cases hc
    | cons d rest' =>
      rw [htrim, List.nil_append, List.cons_append, List.cons.injEq] at hs
      exact ⟨rest', by rw [hs.1]⟩

/-- The first character of a pattern is the first one of a text that starts with it. -/
theorem head?_of_hasPrefix {s p : String} {c : Char} (h : hasPrefix s p = true)
    (hp : p.toList.head? = some c) : s.toList.head? = some c := by
  obtain ⟨rest, hrest⟩ := List.isPrefixOf_iff_prefix.mp h
  rw [← hrest, List.head?_append_of_ne_nil, hp]
  rintro hnil
  rw [hnil] at hp
  cases hp

end Moonfort.MoonBit
