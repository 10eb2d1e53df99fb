import Moonfort.Tap.Parser

/-!
# The lines of a TAP report

What each line of a report is: a test, the plan, the end of the run, a comment, or a part of a
diagnostic block. The kinds are told apart by the first character that is no blank, and the blocks
are read from the lines alone.
-/

namespace Moonfort.Tap

open MoonBit

/-! ## Kinds of lines -/

/-- A line that reports a test. -/
def TestLine (line : String) : Prop := OkLine line ∨ NotOkLine line

/-- A line that holds the plan. -/
def PlanLine (line : String) : Prop := hasPrefix line "1.." = true

/-- A line that ends the run. -/
def BailLine (line : String) : Prop := hasPrefix line "Bail out!" = true

/-- A line behind which comments belong to no test. -/
def Closing (line : String) : Prop := PlanLine line ∨ BailLine line

/-- A comment. -/
def Comment (line : String) : Prop := hasPrefix (trim line) "#" = true

/-- A line that opens a diagnostic block. -/
def Fence (line : String) : Prop := trim line = "---" ∧ line ≠ "---"

/-- A line in the first column that opens a diagnostic block. -/
def Opens (line : String) : Prop := hasPrefix line "---" = true ∧ line ≠ "---" ∧ trim line = "---"

instance : DecidablePred PlanLine := fun line => by unfold PlanLine; infer_instance

instance : DecidablePred BailLine := fun line => by unfold BailLine; infer_instance

instance : DecidablePred Closing := fun line => by unfold Closing; infer_instance

instance : DecidablePred Comment := fun line => by unfold Comment; infer_instance

instance : DecidablePred Fence := fun line => by unfold Fence; infer_instance

instance : DecidablePred Opens := fun line => by unfold Opens; infer_instance

/-- A block of the first column is a block. -/
theorem Opens.fence {line : String} (h : Opens line) : Fence line := ⟨h.2.2, h.2.1⟩

/-- The first character of a line that is no blank. -/
def leading (line : String) : Option Char := (trim line).toList.head?

/-- A line that starts with a pattern leads with its first character, unless that is a blank. -/
theorem leading_of_hasPrefix {line pattern : String} {c : Char}
    (h : hasPrefix line pattern = true) (hpattern : pattern.toList.head? = some c)
    (hc : isTrimmed c = false) : leading line = some c := by
  have hline := List.eq_cons_of_mem_head? (head?_of_hasPrefix h hpattern)
  obtain ⟨rest, htrim⟩ := trim_cons hline hc
  rw [leading, htrim, List.head?_cons]

/-- A blank line leads with nothing. -/
theorem leading_of_blank {line : String} (h : trim line = "") : leading line = none := by
  rw [leading, h]
  rfl

/-- A test line starts with a letter. -/
theorem TestLine.head? {line : String} (h : TestLine line) :
    line.toList.head? = some 'o' ∨ line.toList.head? = some 'n' := by
  rcases h with (rfl | h | h) | (rfl | h | h)
  · exact .inl rfl
  · exact .inl (head?_of_hasPrefix h rfl)
  · exact .inl (head?_of_hasPrefix h rfl)
  · exact .inr rfl
  · exact .inr (head?_of_hasPrefix h rfl)
  · exact .inr (head?_of_hasPrefix h rfl)

/-- The letter a test line leads with. -/
theorem TestLine.leading {line : String} (h : TestLine line) :
    leading line = some 'o' ∨ leading line = some 'n' := by
  have htrim : ∀ {c}, line.toList.head? = some c → isTrimmed c = false →
      Tap.leading line = some c := fun hhead hc => by
    obtain ⟨rest, hrest⟩ := trim_cons (List.eq_cons_of_mem_head? hhead) hc
    rw [Tap.leading, hrest, List.head?_cons]
  exact h.head?.imp (fun ho => htrim ho rfl) fun hn => htrim hn rfl

/-- The digit a plan leads with. -/
theorem PlanLine.leading {line : String} (h : PlanLine line) : leading line = some '1' :=
  leading_of_hasPrefix h rfl rfl

/-- The letter the end of the run leads with. -/
theorem BailLine.leading {line : String} (h : BailLine line) : leading line = some 'B' :=
  leading_of_hasPrefix h rfl rfl

/-- The sign a comment leads with. -/
theorem Comment.leading {line : String} (h : Comment line) : leading line = some '#' :=
  head?_of_hasPrefix h rfl

/-- The dash a block leads with. -/
theorem Fence.leading {line : String} (h : Fence line) : leading line = some '-' := by
  rw [Tap.leading, h.1]
  rfl

/-- What leads with another character than a letter is no test. -/
theorem not_testLine {line : String} {c : Option Char} (h : leading line = c)
    (ho : c ≠ some 'o') (hn : c ≠ some 'n') : ¬TestLine line := fun htest =>
  htest.leading.elim (fun hlead => ho (h ▸ hlead)) fun hlead => hn (h ▸ hlead)

/-- What leads with another character than a plan and the end of the run is neither. -/
theorem not_closing {line : String} {c : Option Char} (h : leading line = c)
    (hplan : c ≠ some '1') (hbail : c ≠ some 'B') : ¬Closing line := fun hclosing =>
  hclosing.elim (fun h' => hplan (h ▸ h'.leading)) fun h' => hbail (h ▸ h'.leading)

/-- What leads with another character than a dash opens no block. -/
theorem not_fence {line : String} {c : Option Char} (h : leading line = c) (hc : c ≠ some '-') :
    ¬Fence line := fun hfence => hc (h ▸ hfence.leading)

/-- What leads with another character than a `#` is no comment. -/
theorem not_comment {line : String} {c : Option Char} (h : leading line = c) (hc : c ≠ some '#') :
    ¬Comment line := fun hcomment => hc (h ▸ hcomment.leading)

/-! ## Diagnostic blocks -/

/-- The blanks in front of the block that is open behind one more line. -/
def blockAfter (indent : Option String) (line : String) : Option String :=
  match indent with
  | some indent => if line = indent ++ "..." then none else some indent
  | none => if Fence line then textBefore "---" line else none

/-- The blanks in front of the block that is open behind some lines. -/
def blockIndent (lines : List String) : Option String := lines.foldl blockAfter none

/-- The block behind one more line. -/
theorem blockIndent_concat (lines : List String) (line : String) :
    blockIndent (lines ++ [line]) = blockAfter (blockIndent lines) line := by
  rw [blockIndent, List.foldl_append]
  rfl

/-- A line stands in a diagnostic block. -/
def InBlock (lines : List String) (j : ℕ) : Prop := (blockIndent (lines.take j)).isSome = true

/-- A line of some kind stands outside of the diagnostic blocks. -/
def Stands (kind : String → Prop) (lines : List String) (j : ℕ) : Prop :=
  ¬InBlock lines j ∧ ∃ line ∈ lines[j]?, kind line

instance (lines : List String) : DecidablePred (InBlock lines) := fun j => by
  unfold InBlock
  infer_instance

instance (kind : String → Prop) [DecidablePred kind] (lines : List String) :
    DecidablePred (Stands kind lines) := fun j => by
  unfold Stands
  infer_instance

variable {kind : String → Prop} {lines : List String} {line : String} {j : ℕ}

/-- What stands in the lines has its number among them. -/
theorem Stands.lt (h : Stands kind lines j) : j < lines.length := by
  obtain ⟨-, found, hfound, -⟩ := h
  exact (List.getElem?_eq_some_iff.mp hfound).1

/-- A line of a narrower kind. -/
theorem Stands.imp {other : String → Prop} (h : Stands kind lines j)
    (himp : ∀ line, kind line → other line) : Stands other lines j := by
  obtain ⟨hvisible, found, hfound, hkind⟩ := h
  exact ⟨hvisible, found, hfound, himp found hkind⟩

/-- A block does not depend on the lines behind it. -/
theorem inBlock_append (hj : j ≤ lines.length) (line : String) :
    InBlock (lines ++ [line]) j ↔ InBlock lines j := by
  rw [InBlock, InBlock, List.take_append_of_le_length hj]

/-- The line behind some lines stands in the block that is open there. -/
theorem inBlock_length (lines : List String) (line : String) :
    InBlock (lines ++ [line]) lines.length ↔ (blockIndent lines).isSome = true := by
  rw [InBlock, List.take_left]

/-- What stands in the lines does not depend on the lines behind it. -/
theorem stands_append (hj : j < lines.length) (line : String) :
    Stands kind (lines ++ [line]) j ↔ Stands kind lines j := by
  rw [Stands, Stands, inBlock_append hj.le, List.getElem?_append_left hj]

/-- What the line behind some lines is. -/
theorem stands_length (lines : List String) (line : String) :
    Stands kind (lines ++ [line]) lines.length ↔ blockIndent lines = none ∧ kind line := by
  rw [Stands, inBlock_length, List.getElem?_concat_length, Bool.not_eq_true,
    Option.isSome_eq_false_iff, Option.isNone_iff_eq_none]
  simp

/-- A line of another kind adds nothing of this kind. -/
theorem stands_concat (h : ¬Stands kind (lines ++ [line]) lines.length) :
    Stands kind (lines ++ [line]) j ↔ Stands kind lines j := by
  constructor
  · intro hstands
    have hlt := hstands.lt
    rw [List.length_append, List.length_singleton] at hlt
    have hne : j ≠ lines.length := by
      rintro rfl
      exact h hstands
    exact (stands_append (by omega) line).mp hstands
  · exact fun hstands => (stands_append hstands.lt line).mpr hstands

/-! ## The lines of a test -/

/-- A line that belongs to the test in front of the line `start`: it stands in a block or opens
one, or it is a comment in front of the plan and of the end of the run. -/
def Diagnostic (lines : List String) (start j : ℕ) : Prop :=
  start ≤ j ∧ (InBlock lines j ∨ Stands Fence lines j ∨
    Stands Comment lines j ∧ ∀ i, start ≤ i → i < j → ¬Stands Closing lines i)

instance (lines : List String) (start : ℕ) : DecidablePred (Diagnostic lines start) := fun j => by
  unfold Diagnostic
  infer_instance

/-- The lines in front of the line `stop` that belong to the test in front of the line `start`. -/
def diagnosticLines (lines : List String) (start stop : ℕ) : List String :=
  (List.range stop).filterMap fun j => if Diagnostic lines start j then lines[j]? else none

variable {start stop : ℕ}

/-- The test of a line does not depend on the lines behind it. -/
theorem diagnostic_append (hj : j < lines.length) (line : String) :
    Diagnostic (lines ++ [line]) start j ↔ Diagnostic lines start j := by
  have hclosing : (∀ i, start ≤ i → i < j → ¬Stands Closing (lines ++ [line]) i) ↔
      ∀ i, start ≤ i → i < j → ¬Stands Closing lines i := by
    refine forall_congr' fun i => imp_congr_right fun _ => forall_congr' fun hij => ?_
    rw [stands_append (hij.trans hj)]
  rw [Diagnostic, Diagnostic, inBlock_append hj.le, stands_append hj, stands_append hj, hclosing]

/-- The test of the line behind some lines. -/
theorem diagnostic_length (lines : List String) (line : String) :
    Diagnostic (lines ++ [line]) start lines.length ↔ start ≤ lines.length ∧
      ((blockIndent lines).isSome = true ∨ blockIndent lines = none ∧ (Fence line ∨
        Comment line ∧ ∀ i, start ≤ i → i < lines.length → ¬Stands Closing lines i)) := by
  have hclosing : (∀ i, start ≤ i → i < lines.length → ¬Stands Closing (lines ++ [line]) i) ↔
      ∀ i, start ≤ i → i < lines.length → ¬Stands Closing lines i := by
    refine forall_congr' fun i => imp_congr_right fun _ => forall_congr' fun hi => ?_
    rw [stands_append hi]
  rw [Diagnostic, inBlock_length, stands_length, stands_length, hclosing, and_assoc,
    ← and_or_left]

/-- No line belongs to a test that stands directly behind it. -/
theorem diagnosticLines_self (lines : List String) (start : ℕ) :
    diagnosticLines lines start start = [] := by
  refine List.filterMap_eq_nil_iff.mpr fun j hj => if_neg fun hdiagnostic => ?_
  exact absurd hdiagnostic.1 (Nat.not_le.mpr (List.mem_range.mp hj))

/-- The lines of a test do not depend on the lines behind the next one. -/
theorem diagnosticLines_append (hstop : stop ≤ lines.length) (line : String) :
    diagnosticLines (lines ++ [line]) start stop = diagnosticLines lines start stop := by
  refine List.filterMap_congr fun j hj => ?_
  have hlt : j < lines.length := (List.mem_range.mp hj).trans_le hstop
  rw [List.getElem?_append_left hlt]
  exact if_congr (diagnostic_append hlt line) rfl rfl

/-- The lines of a test with one more line behind it. -/
theorem diagnosticLines_concat (lines : List String) (line : String) :
    diagnosticLines (lines ++ [line]) start (lines.length + 1) =
      diagnosticLines lines start lines.length ++
        if Diagnostic (lines ++ [line]) start lines.length then [line] else [] := by
  rw [← diagnosticLines_append le_rfl line, diagnosticLines, diagnosticLines, List.range_succ,
    List.filterMap_append]
  congr 1
  rw [List.filterMap_cons, List.getElem?_concat_length]
  by_cases hlast : Diagnostic (lines ++ [line]) start lines.length
  · rw [if_pos hlast, if_pos hlast]
    rfl
  · rw [if_neg hlast, if_neg hlast]
    rfl

/-! ## Blocks in the first column -/

/-- A block that opened in the first column has not ended in front of a line. -/
def Hidden (lines : List String) (j : ℕ) : Prop :=
  ∃ i opener, i < j ∧ lines[i]? = some opener ∧ Opens opener ∧
    ∀ k, i < k → k < j → lines[k]? ≠ some "..."

/-- Whether a line is hidden does not depend on the lines behind it. -/
theorem hidden_append {lines : List String} {j : ℕ} (hj : j ≤ lines.length) (line : String) :
    Hidden (lines ++ [line]) j ↔ Hidden lines j := by
  have hget : ∀ {k}, k < j → (lines ++ [line])[k]? = lines[k]? := fun hk =>
    List.getElem?_append_left (by omega)
  constructor
  · rintro ⟨i, opener, hij, hi, hopens, hend⟩
    rw [hget hij] at hi
    exact ⟨i, opener, hij, hi, hopens, fun k hik hkj => hget hkj ▸ hend k hik hkj⟩
  · rintro ⟨i, opener, hij, hi, hopens, hend⟩
    rw [← hget hij] at hi
    exact ⟨i, opener, hij, hi, hopens, fun k hik hkj => (hget hkj).symm ▸ hend k hik hkj⟩

/-- Lines are hidden behind a block that stays open or opens in the first column. -/
theorem hidden_concat {lines : List String} {line : String} :
    Hidden (lines ++ [line]) (lines ++ [line]).length ↔
      (Hidden lines lines.length ∧ line ≠ "...") ∨ Opens line := by
  have hlast : (lines ++ [line])[lines.length]? = some line := List.getElem?_concat_length
  have hget : ∀ {k}, k < lines.length → (lines ++ [line])[k]? = lines[k]? := fun hk =>
    List.getElem?_append_left hk
  rw [List.length_append, List.length_singleton]
  constructor
  · rintro ⟨i, opener, hij, hi, hopens, hend⟩
    by_cases heq : i = lines.length
    · subst heq
      rw [hlast, Option.some.injEq] at hi
      exact .inr (hi ▸ hopens)
    · have hlt : i < lines.length := by omega
      rw [hget hlt] at hi
      refine .inl ⟨⟨i, opener, hlt, hi, hopens, fun k hik hkj => ?_⟩, ?_⟩
      · exact hget hkj ▸ hend k hik (by omega)
      · rintro rfl
        exact hend lines.length hlt (by omega) hlast
  · rintro (⟨⟨i, opener, hij, hi, hopens, hend⟩, hline⟩ | hopens)
    · rw [← hget hij] at hi
      refine ⟨i, opener, by omega, hi, hopens, fun k hik hkj => ?_⟩
      by_cases heq : k = lines.length
      · subst heq
        rw [hlast]
        exact fun h => hline (Option.some.inj h)
      · rw [hget (by omega)]
        exact hend k hik (by omega)
    · exact ⟨lines.length, line, by omega, hlast, hopens, fun k hik hkj => by omega⟩

end Moonfort.Tap
