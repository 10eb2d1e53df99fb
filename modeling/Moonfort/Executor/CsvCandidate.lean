import Moonfort.Executor.RetentionCsv
import Moonfort.Loop

/-!
# Derived tables

The closure `write` that the derivations of a retained file share: it writes one record after
the other and refuses when the text exceeds 1 MiB. All records are written exactly when the
text of the whole table stays within that limit.
-/

namespace Moonfort.Executor

open MoonBit

/-- The text that was written and its size. -/
structure CsvCandidate where
  text : String
  size : ℕ

/-- Nothing is written. -/
def CsvCandidate.empty : CsvCandidate := ⟨"", 0⟩

/-- `write`, with the refusal of a text that is too large. -/
def CsvCandidate.write {ε : Type} (tooLarge : ε) (output : CsvCandidate) (cells : List String) :
    Except ε CsvCandidate :=
  let record := enrichedCsvRecord cells
  let size := output.size + utf8Length record
  if size ≤ 1048576 then .ok ⟨output.text ++ record, size⟩ else .error tooLarge

/-- A text with its size. -/
def CsvCandidate.ofText (text : String) : CsvCandidate := ⟨text, utf8Length text⟩

/-- A table without rows is the empty text. -/
theorem csvText_nil : csvText [] = "" := rfl

/-- A table is its first record and then the others. -/
theorem csvText_cons (cells : List String) (table : List (List String)) :
    csvText (cells :: table) = enrichedCsvRecord cells ++ csvText table := by
  rw [csvText, List.map_cons, String.join_cons]
  rfl

/-- Tables are written one after the other. -/
theorem csvText_append (a b : List (List String)) : csvText (a ++ b) = csvText a ++ csvText b := by
  induction a with
  | nil => rw [List.nil_append, csvText_nil, String.empty_append]
  | cons cells a ih => rw [List.cons_append, csvText_cons, csvText_cons, ih, String.append_assoc]

/-- A table of one row is its record. -/
theorem csvText_singleton (cells : List String) : csvText [cells] = enrichedCsvRecord cells := by
  rw [csvText_cons, csvText_nil, String.append_empty]

/-- The size of a text is that of its records. -/
theorem utf8Length_csvText (table : List (List String)) : utf8Length (csvText table) =
    (table.map fun cells => ((recordChars cells).map Char.utf8Size).sum).sum := by
  induction table with
  | nil => rfl
  | cons cells table ih =>
    rw [csvText_cons, utf8Length_append, ih, utf8Length, toList_enrichedCsvRecord, List.map_cons,
      List.sum_cons]

/-- A record is written when the text with it fits. -/
theorem write_ofText {ε : Type} (tooLarge : ε) (text : String) (cells : List String) :
    (CsvCandidate.ofText text).write tooLarge cells =
      if utf8Length (text ++ enrichedCsvRecord cells) ≤ 1048576 then
        .ok (.ofText (text ++ enrichedCsvRecord cells))
      else .error tooLarge := by
  rw [CsvCandidate.write, CsvCandidate.ofText, CsvCandidate.ofText, utf8Length_append]

/-- The records are written exactly when their text fits. -/
theorem foldlM_write {ε : Type} (tooLarge : ε) (table : List (List String)) :
    table.foldlM (CsvCandidate.write tooLarge) .empty =
      if utf8Length (csvText table) ≤ 1048576 then .ok (.ofText (csvText table))
      else .error tooLarge := by
  induction table using List.reverseRecOn with
  | nil => rfl
  | append_singleton table cells ih =>
    rw [Loop.foldlM_concat, ih, csvText_append, csvText_singleton]
    by_cases hbefore : utf8Length (csvText table) ≤ 1048576
    · rw [if_pos hbefore, Except.bind, write_ofText]
    · rw [if_neg hbefore, if_neg (by rw [utf8Length_append]; omega)]
      rfl

/-- What was written is the text of the table. -/
theorem text_of_write {ε : Type} {tooLarge : ε} {table : List (List String)} {output : CsvCandidate}
    (h : table.foldlM (CsvCandidate.write tooLarge) .empty = .ok output) :
    output.text = csvText table := by
  rw [foldlM_write] at h
  split at h
  · rw [← Except.ok.inj h]
    rfl
  · cases h

end Moonfort.Executor
