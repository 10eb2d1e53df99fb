import Moonfort.MoonBit.JsonSize
import Moonfort.MoonBit.Utf8Cuts
import Moonfort.UnifiedDiff.Correctness
import Moonfort.Executor.RetentionJsonDraft

/-!
# Drafts of edited text

Replacements of ranges of lines in retained text. The ranges are those of the original, so
the order of the operations does not matter: the candidate is the text with one stretch after
the other replaced from its end on.
-/

namespace Moonfort.Executor

open JsonGrammar MoonBit UnifiedDiff

/-! ## The recipe -/

/-- `RetainedTextEdit`. -/
structure RetainedTextEdit where
  startLine : ℕ
  endLine : ℕ
  expected : String
  replacement : String
  deriving DecidableEq

section Recipe

variable {ν : Type}

/-- The body of the loop of `text_edit_position`. -/
def positionDigit (key : String) (position : ℕ) (ch : Char) : Except String ℕ :=
  if '0' ≤ ch ∧ ch ≤ '9' ∧ position ≤ 2001 then .ok (position * 10 + ch.toNat - '0'.toNat)
  else .error ("text edit requires a canonical positive integer " ++ key)

/-- `text_edit_position`. -/
def textEditPosition (lib : StandardJson String ν)
    (fields : List (String × JsonTree String (ExactNumber ν))) (key : String) :
    Except String ℕ :=
  match LinkedMap.get key fields with
  | some (.number number) =>
    match (lib.spelling number).toList.foldlM (positionDigit key) 0 with
    | .error message => .error message
    | .ok position =>
      if 1 ≤ position ∧ position ≤ 2001 then .ok position
      else .error "text edit line boundary is outside 1..2001"
  | _ => .error ("text edit requires a canonical positive integer " ++ key)

/-- The edit that an operation of a recipe is. -/
def textOperation (lib : StandardJson String ν) (operation : JsonTree String (ExactNumber ν)) :
    Except String RetainedTextEdit :=
  match operation with
  | .object fields =>
    match LinkedMap.get "expected" fields, LinkedMap.get "replacement" fields with
    | some (.string expected), some (.string replacement) =>
      if fields.length ≠ 4 then
        .error "text edit requires exactly start_line, end_line, expected and replacement"
      else
        match textEditPosition lib fields "start_line" with
        | .error message => .error message
        | .ok startLine =>
          match textEditPosition lib fields "end_line" with
          | .error message => .error message
          | .ok endLine =>
            if startLine ≤ endLine then .ok ⟨startLine, endLine, expected, replacement⟩
            else .error "text edit range is reversed"
    | _, _ => .error "text edit requires exactly start_line, end_line, expected and replacement"
  | _ => .error "text edit requires exactly start_line, end_line, expected and replacement"

/-- The fingerprint and the operations of a recipe. -/
def textRecipeParts (lib : StandardJson String ν) (document : JsonTree String (ExactNumber ν)) :
    Option (String × List (JsonTree String (ExactNumber ν))) :=
  match document with
  | .object fields =>
    match LinkedMap.get "version" fields, LinkedMap.get "source_fingerprint" fields,
      LinkedMap.get "operations" fields with
    | some version, some (.string fingerprint), some (.array operations) =>
      if fields.length = 3 ∧ stringifyTree lib version = "1" then some (fingerprint, operations)
      else none
    | _, _, _ => none
  | _ => none

/-- A character of a lowercase fingerprint. -/
def fingerprintChar (c : Char) : Bool := ('0' ≤ c && c ≤ '9') || ('a' ≤ c && c ≤ 'f')

/-- `retained_text_edits` as far as the operations. -/
def textRecipe (lib : StandardJson String ν) (recipe : Bytes) :
    Except String (String × List (JsonTree String (ExactNumber ν))) :=
  if ¬recipe.length ≤ 65536 then .error "text edit recipe exceeds 64 KiB"
  else
    match utf8Decode recipe with
    | none => .error "invalid UTF-8"
    | some text =>
      match parseRetainedJson lib text with
      | .error fault => .error fault.text
      | .ok document =>
        match textRecipeParts lib document with
        | none => .error
          "text edit recipe requires version 1, source_fingerprint and operations"
        | some (fingerprint, operations) =>
          if ¬(utf16Length fingerprint = 64 ∧ allChars fingerprint fingerprintChar = true) then
            .error "source_fingerprint requires lowercase SHA-256"
          else if ¬(1 ≤ operations.length ∧ operations.length ≤ 100) then
            .error "text edit recipe requires 1..100 operations"
          else .ok (fingerprint, operations)

/-- A recipe is read from its text, its fingerprint and its operations. -/
theorem textRecipe_eq_ok {lib : StandardJson String ν} {recipe : Bytes} {text fingerprint : String}
    {document : JsonTree String (ExactNumber ν)}
    {operations : List (JsonTree String (ExactNumber ν))}
    (hlength : recipe.length ≤ 65536) (hdecode : utf8Decode recipe = some text)
    (hparse : parseRetainedJson lib text = .ok document)
    (hparts : textRecipeParts lib document = some (fingerprint, operations))
    (hfingerprint : utf16Length fingerprint = 64 ∧ allChars fingerprint fingerprintChar = true)
    (hcount : 1 ≤ operations.length ∧ operations.length ≤ 100) :
    textRecipe lib recipe = .ok (fingerprint, operations) := by
  rw [textRecipe, if_neg (not_not.mpr hlength), hdecode]
  dsimp only
  rw [hparse]
  dsimp only
  rw [hparts]
  dsimp only
  rw [if_neg (not_not.mpr hfingerprint), if_neg (not_not.mpr hcount)]

/-- Every edit but the first starts behind the one before and not where that one does. -/
def separated : List RetainedTextEdit → Bool
  | a :: b :: rest =>
    a.endLine ≤ b.startLine && a.startLine != b.startLine && separated (b :: rest)
  | _ => true

/-- The end of `retained_text_edits`: the edits are sorted and looked at in pairs. -/
def orderTextEdits (edits : List RetainedTextEdit) : Except String (List RetainedTextEdit) :=
  let edits := edits.mergeSort fun a b => a.startLine ≤ b.startLine
  if separated edits = true then .ok edits
  else .error "text edit ranges overlap or share an ambiguous insertion boundary"

/-- `retained_text_edits`. -/
def retainedTextEdits (lib : StandardJson String ν) (recipe : Bytes) :
    Except String (String × List RetainedTextEdit) :=
  match textRecipe lib recipe with
  | .error message => .error message
  | .ok (fingerprint, operations) =>
    match operations.mapM (textOperation lib) with
    | .error message => .error message
    | .ok edits =>
      match orderTextEdits edits with
      | .error message => .error message
      | .ok edits => .ok (fingerprint, edits)

end Recipe

/-! ## The candidate -/

/-- `text_draft_lines`: the byte order mark and the lines. -/
def textDraftLines (text : String) : Except String (List Char × List Line) :=
  if ¬utf8Length text ≤ 262144 then .error "text editing supports at most 256 KiB per file"
  else if allChars text textChar = false then
    .error "text editing refuses binary control characters"
  else
    let bom := if hasPrefix text "\uFEFF" then ['\uFEFF'] else []
    let lines := partLines ((text.toList.drop bom.length).splitOn '\n')
    if ¬lines.length ≤ 2000 then .error "text editing supports at most 2000 lines per file"
    else .ok (bom, lines)

/-- The lines from one number up to another, counted from zero. -/
def lineRange (lines : List Line) (first last : ℕ) : List Char :=
  ((lines.take last).drop first).flatten

/-- The text of an edit's range. -/
def rangeText (lines : List Line) (edit : RetainedTextEdit) : List Char :=
  lineRange lines (edit.startLine - 1) (edit.endLine - 1)

/-- The loop that validates every range. -/
def checkTextEdits (lines : List Line) : List RetainedTextEdit → Except String Unit
  | [] => .ok ()
  | edit :: rest =>
    if ¬(edit.startLine ≤ edit.endLine ∧ edit.endLine ≤ lines.length + 1) then
      .error "text edit range is outside the original file"
    else if rangeText lines edit ≠ edit.expected.toList then
      .error "text edit expected text does not match original range"
    else checkTextEdits lines rest

/-- The state of the loop that writes the candidate. -/
structure TextOutput where
  output : List Char
  cursor : ℕ
  size : ℕ

/-- The body of the loop that writes the candidate. -/
def writeTextEdit (lines : List Line) (o : TextOutput) (edit : RetainedTextEdit) :
    Except String TextOutput :=
  let kept := lineRange lines o.cursor (edit.startLine - 1)
  let size := o.size + charsSize kept + utf8Length edit.replacement
  if ¬size ≤ 262144 then .error "text candidate exceeds 256 KiB"
  else .ok ⟨o.output ++ kept ++ edit.replacement.toList, edit.endLine - 1, size⟩

/-- `apply_retained_text_edits`. -/
def applyRetainedTextEdits (source : String) (edits : List RetainedTextEdit) :
    Except String (String × ℕ × ℕ) :=
  match textDraftLines source with
  | .error message => .error message
  | .ok (bom, lines) =>
    match checkTextEdits lines edits with
    | .error message => .error message
    | .ok () =>
      match edits.foldlM (writeTextEdit lines) ⟨bom, 0, charsSize bom⟩ with
      | .error message => .error message
      | .ok o =>
        let candidate := String.ofList (o.output ++ lineRange lines o.cursor lines.length)
        match textDraftLines candidate with
        | .error message => .error message
        | .ok (_, candidateLines) => .ok (candidate, lines.length, candidateLines.length)

/-- The part of `draft_retained_text` that makes the candidate. -/
def draftText {ν : Type} (lib : StandardJson String ν) (source : String) (recipe : Bytes) :
    Except String (String × ℕ × ℕ) :=
  match retainedTextEdits lib recipe with
  | .error message => .error message
  | .ok (_, edits) => applyRetainedTextEdits source edits

/-! ## The order of the edits -/

/-- The ranges of two edits do not overlap, and do not start at one boundary. -/
structure Apart (a b : RetainedTextEdit) : Prop where
  start_ne : a.startLine ≠ b.startLine
  disjoint : ¬(a.startLine < b.endLine ∧ b.startLine < a.endLine)

/-- Being apart is symmetric. -/
theorem Apart.symm {a b : RetainedTextEdit} (h : Apart a b) : Apart b a :=
  ⟨h.start_ne.symm, fun hlt => h.disjoint hlt.symm⟩

/-- One edit starts behind the end of another. -/
def Behind (a b : RetainedTextEdit) : Prop := a.endLine ≤ b.startLine ∧ a.startLine < b.startLine

/-- Edits one behind the other are apart. -/
theorem Behind.apart {a b : RetainedTextEdit} (h : Behind a b) : Apart a b := by
  obtain ⟨hend, hstart⟩ := h
  exact ⟨by omega, by omega⟩

/-- What the look at pairs finds out about sorted edits. -/
theorem separated_iff {edits : List RetainedTextEdit}
    (hle : ∀ edit ∈ edits, edit.startLine ≤ edit.endLine)
    (hsorted : edits.Pairwise fun a b => a.startLine ≤ b.startLine) :
    separated edits = true ↔ edits.Pairwise Behind := by
  induction edits with
  | nil => simp [separated]
  | cons a rest ih =>
    rw [List.pairwise_cons] at hsorted
    have hrest := ih (fun edit hedit => hle edit (List.mem_cons_of_mem _ hedit)) hsorted.2
    cases rest with
    | nil => simp [separated]
    | cons b rest =>
      rw [separated, Bool.and_eq_true, Bool.and_eq_true, decide_eq_true_eq, bne_iff_ne, hrest]
      have hfirst := hsorted.1 b List.mem_cons_self
      constructor
      · rintro ⟨⟨hend, hne⟩, hpairs⟩
        refine List.pairwise_cons.mpr ⟨?_, hpairs⟩
        intro c hc
        rcases List.mem_cons.mp hc with rfl | hc
        · exact ⟨hend, by omega⟩
        · have hbc := (List.pairwise_cons.mp hpairs).1 c hc
          have hb := hle b (by simp)
          exact ⟨by have := hbc.1; omega, by have := hbc.2; omega⟩
      · intro h
        obtain ⟨hall, hpairs⟩ := List.pairwise_cons.mp h
        have hb := hall b List.mem_cons_self
        exact ⟨⟨hb.1, by have := hb.2; omega⟩, hpairs⟩

/-- Sorted edits ascend by their first lines. -/
theorem pairwise_mergeSort_startLine (edits : List RetainedTextEdit) :
    (edits.mergeSort fun a b => a.startLine ≤ b.startLine).Pairwise
      fun a b => a.startLine ≤ b.startLine := by
  have htrans : ∀ a b c : RetainedTextEdit, decide (a.startLine ≤ b.startLine) = true →
      decide (b.startLine ≤ c.startLine) = true → decide (a.startLine ≤ c.startLine) = true := by
    intro a b c hab hbc
    rw [decide_eq_true_eq] at hab hbc ⊢
    omega
  have htotal : ∀ a b : RetainedTextEdit,
      (decide (a.startLine ≤ b.startLine) || decide (b.startLine ≤ a.startLine)) = true := by
    intro a b
    rw [Bool.or_eq_true, decide_eq_true_eq, decide_eq_true_eq]
    omega
  exact (List.pairwise_mergeSort htrans htotal edits).imp of_decide_eq_true

/-- Sorted edits that are apart lie one behind the other. -/
theorem pairwise_behind_iff {edits : List RetainedTextEdit}
    (hle : ∀ edit ∈ edits, edit.startLine ≤ edit.endLine)
    (hsorted : edits.Pairwise fun a b => a.startLine ≤ b.startLine) :
    edits.Pairwise Behind ↔ edits.Pairwise Apart := by
  constructor
  · intro h
    exact h.imp Behind.apart
  · intro h
    refine List.Pairwise.imp_of_mem ?_ (hsorted.and h)
    rintro a b ha hb ⟨hstart, hapart⟩
    have hne := hapart.start_ne
    have hdisjoint := hapart.disjoint
    have hb' := hle b hb
    exact ⟨by omega, by omega⟩

/-- The edits are accepted exactly when any two of them are apart. -/
theorem orderTextEdits_eq_ok_iff {edits sorted : List RetainedTextEdit}
    (hle : ∀ edit ∈ edits, edit.startLine ≤ edit.endLine) :
    orderTextEdits edits = .ok sorted ↔
      edits.Pairwise Apart ∧ sorted.Perm edits ∧ sorted.Pairwise Behind := by
  set result := edits.mergeSort fun a b => a.startLine ≤ b.startLine with hresult
  have hperm : result.Perm edits := List.mergeSort_perm _ _
  have hpairs := pairwise_mergeSort_startLine edits
  rw [← hresult] at hpairs
  have hle' : ∀ edit ∈ result, edit.startLine ≤ edit.endLine := fun edit hedit =>
    hle edit (hperm.mem_iff.mp hedit)
  have happart : result.Pairwise Apart ↔ edits.Pairwise Apart :=
    hperm.pairwise_iff fun h => h.symm
  have hunfold : orderTextEdits edits =
      if separated result = true then .ok result
      else .error "text edit ranges overlap or share an ambiguous insertion boundary" := rfl
  rw [hunfold]
  constructor
  · intro h
    split at h
    next hseparated =>
      obtain rfl := Except.ok.inj h
      have hbehind := (separated_iff hle' hpairs).mp hseparated
      exact ⟨happart.mp ((pairwise_behind_iff hle' hpairs).mp hbehind), hperm, hbehind⟩
    next => cases h
  · rintro ⟨hedits, hsorted, hbehind⟩
    have hbehind' := (pairwise_behind_iff hle' hpairs).mpr (happart.mpr hedits)
    have heq : sorted = result := by
      refine (hsorted.trans hperm.symm).eq_of_pairwise ?_ hbehind hbehind'
      rintro a b - - ⟨-, hab⟩ ⟨-, hba⟩
      omega
    rw [if_pos ((separated_iff hle' hpairs).mpr hbehind'), heq]

/-! ## The text between the ranges -/

/-- The lines from one to another, and from there to a third. -/
theorem lineRange_append (lines : List Line) {first middle last : ℕ} (h : first ≤ middle)
    (h' : middle ≤ last) :
    lineRange lines first middle ++ lineRange lines middle last = lineRange lines first last := by
  unfold lineRange
  rw [← List.flatten_append]
  congr 1
  have htake : lines.take middle = (lines.take last).take middle := by
    rw [List.take_take, Nat.min_eq_left h']
  calc (lines.take middle).drop first ++ (lines.take last).drop middle
      = ((lines.take last).drop first).take (middle - first) ++
          ((lines.take last).drop first).drop (middle - first) := by
        rw [htake, List.drop_take, List.drop_drop, Nat.add_sub_cancel' h]
    _ = (lines.take last).drop first := List.take_append_drop _ _

/-- The lines with a part of each edit in the place of its range. -/
def weave (lines : List Line) (part : RetainedTextEdit → List Char) :
    (cursor : ℕ) → List RetainedTextEdit → List Char
  | cursor, [] => lineRange lines cursor lines.length
  | cursor, edit :: rest =>
    lineRange lines cursor (edit.startLine - 1) ++
      (part edit ++ weave lines part (edit.endLine - 1) rest)

/-- The loop and the lines behind it write the lines with the replacements. -/
theorem foldlM_writeTextEdit {lines : List Line} {edits : List RetainedTextEdit}
    {o o' : TextOutput} (h : edits.foldlM (writeTextEdit lines) o = .ok o') :
    o'.output ++ lineRange lines o'.cursor lines.length =
      o.output ++ weave lines (fun edit => edit.replacement.toList) o.cursor edits := by
  induction edits generalizing o with
  | nil =>
    obtain rfl := Except.ok.inj h
    rfl
  | cons edit rest ih =>
    rw [List.foldlM_cons] at h
    cases hwrite : writeTextEdit lines o edit with
    | error message =>
      rw [hwrite] at h
      cases h
    | ok next =>
      rw [hwrite] at h
      have hnext := ih h
      unfold writeTextEdit at hwrite
      dsimp only at hwrite
      split at hwrite
      · cases hwrite
      · obtain rfl := Except.ok.inj hwrite
        rw [hnext, weave, List.append_assoc, List.append_assoc]

/-- Edits that lie one behind the other from a line on. -/
structure Chain (lines : List Line) (cursor : ℕ) (edits : List RetainedTextEdit) : Prop where
  start : ∀ edit ∈ edits, cursor ≤ edit.startLine - 1 ∧ 1 ≤ edit.startLine ∧
    edit.startLine ≤ edit.endLine ∧ edit.endLine ≤ lines.length + 1
  behind : edits.Pairwise Behind

/-- The rest of a chain is one from the end of its first edit. -/
theorem Chain.tail {lines : List Line} {cursor : ℕ} {edit : RetainedTextEdit}
    {rest : List RetainedTextEdit} (h : Chain lines cursor (edit :: rest)) :
    Chain lines (edit.endLine - 1) rest := by
  obtain ⟨hfirst, hrest⟩ := List.pairwise_cons.mp h.behind
  refine ⟨?_, hrest⟩
  intro next hnext
  have hbehind := hfirst next hnext
  have hnext' := h.start next (List.mem_cons_of_mem _ hnext)
  have hend := hbehind.1
  exact ⟨by omega, hnext'.2⟩

/-- With the text of each range in its place the lines are the original ones. -/
theorem weave_range {lines : List Line} {cursor : ℕ} {edits : List RetainedTextEdit}
    (h : Chain lines cursor edits) :
    weave lines (rangeText lines) cursor edits = lineRange lines cursor lines.length := by
  induction edits generalizing cursor with
  | nil => rfl
  | cons edit rest ih =>
    obtain ⟨hcursor, hstart, hle, hend⟩ := h.start edit List.mem_cons_self
    rw [weave, ih h.tail, rangeText, lineRange_append lines (by omega) (by omega),
      lineRange_append lines (by omega) (by omega)]

/-- Pieces of a text with others between them. -/
def interleave {α : Type} : List (List α) → List (List α) → List α
  | gaps, [] => gaps.flatten
  | [], parts => parts.flatten
  | gap :: gaps, part :: parts => gap ++ (part ++ interleave gaps parts)

/-- What is put in front of the first gap is put in front of everything. -/
theorem interleave_append {α : Type} (start gap : List α) (gaps parts : List (List α)) :
    interleave ((start ++ gap) :: gaps) parts = start ++ interleave (gap :: gaps) parts := by
  cases parts with
  | nil => simp [interleave]
  | cons part rest => simp [interleave]

/-- The lines outside the ranges of the edits. -/
def gapsFrom (lines : List Line) : (cursor : ℕ) → List RetainedTextEdit → List (List Char)
  | cursor, [] => [lineRange lines cursor lines.length]
  | cursor, edit :: rest =>
    lineRange lines cursor (edit.startLine - 1) :: gapsFrom lines (edit.endLine - 1) rest

/-- There is one gap more than edits. -/
theorem length_gapsFrom (lines : List Line) (cursor : ℕ) (edits : List RetainedTextEdit) :
    (gapsFrom lines cursor edits).length = edits.length + 1 := by
  induction edits generalizing cursor with
  | nil => rfl
  | cons edit rest ih => rw [gapsFrom, List.length_cons, ih, List.length_cons]

/-- The lines that stay are the same whatever stands in the place of the ranges. -/
theorem weave_eq_interleave (lines : List Line) (part : RetainedTextEdit → List Char)
    (cursor : ℕ) (edits : List RetainedTextEdit) :
    weave lines part cursor edits = interleave (gapsFrom lines cursor edits) (edits.map part) := by
  induction edits generalizing cursor with
  | nil => simp [weave, gapsFrom, interleave]
  | cons edit rest ih => rw [weave, ih, gapsFrom, List.map_cons, interleave]

/-! ## Ranges of characters -/

/-- The byte order mark of a text. -/
def textBom (source : List Char) : List Char :=
  if source.head? = some '\uFEFF' then ['\uFEFF'] else []

/-- The lines behind the byte order mark of a text. -/
def textLines (source : List Char) : List Line := splitLines (source.drop (textBom source).length)

/-- Where a line of a text starts. -/
def lineOffset (source : List Char) (line : ℕ) : ℕ :=
  (textBom source).length + ((textLines source).take line).flatten.length

/-- The characters of a text in the range of an edit. -/
def rangeOf (source : List Char) (edit : RetainedTextEdit) : List Char :=
  (source.take (lineOffset source (edit.endLine - 1))).drop
    (lineOffset source (edit.startLine - 1))

/-- A text with the replacement of an edit from the start of its range in the source to its
end there. -/
def splice (source : List Char) (edit : RetainedTextEdit) (text : List Char) : List Char :=
  text.take (lineOffset source (edit.startLine - 1)) ++
    (edit.replacement.toList ++ text.drop (lineOffset source (edit.endLine - 1)))

/-- A text is its byte order mark and its lines. -/
theorem textBom_append (source : List Char) :
    textBom source ++ (textLines source).flatten = source := by
  rw [textLines, splitLines_flatten, textBom]
  cases source with
  | nil => rfl
  | cons c rest =>
    by_cases hc : c = '\uFEFF'
    · subst hc
      rfl
    · rw [if_neg (by simpa using hc)]
      rfl

/-- The text in front of a line. -/
def textBefore (source : List Char) (line : ℕ) : List Char :=
  textBom source ++ lineRange (textLines source) 0 line

/-- The text before a line is as long as its offset. -/
theorem length_textBefore (source : List Char) (line : ℕ) :
    (textBefore source line).length = lineOffset source line := by
  rw [textBefore, lineOffset, List.length_append, lineRange, List.drop_zero]

/-- The text in front of a line, and the lines from there to another one. -/
theorem textBefore_append (source : List Char) {line next : ℕ} (h : line ≤ next) :
    textBefore source line ++ lineRange (textLines source) line next = textBefore source next := by
  rw [textBefore, List.append_assoc, lineRange_append _ (Nat.zero_le line) h, textBefore]

/-- Before the end there is the whole text. -/
theorem textBefore_length (source : List Char) :
    textBefore source (textLines source).length = source := by
  rw [textBefore, lineRange, List.take_length, List.drop_zero, textBom_append]

/-- The range of an edit consists of the lines from its first to its last one. -/
theorem rangeOf_eq {source : List Char} {edit : RetainedTextEdit}
    (hle : edit.startLine ≤ edit.endLine) (hend : edit.endLine ≤ (textLines source).length + 1) :
    rangeOf source edit = rangeText (textLines source) edit := by
  have hsource : source = textBefore source (edit.endLine - 1) ++
      lineRange (textLines source) (edit.endLine - 1) (textLines source).length := by
    rw [textBefore_append source (by omega), textBefore_length]
  have htake : source.take (lineOffset source (edit.endLine - 1)) =
      textBefore source (edit.endLine - 1) := by
    have htaken := congrArg (List.take (lineOffset source (edit.endLine - 1))) hsource
    rw [htaken, List.take_left' (length_textBefore source _)]
  have hlines : edit.startLine - 1 ≤ edit.endLine - 1 := by omega
  rw [rangeOf, htake, ← textBefore_append source hlines,
    List.drop_left' (length_textBefore source _), rangeText]

/-- From the bottom up: the edits behind a line leave the text in front of it. -/
theorem foldr_splice {source : List Char} {cursor : ℕ} {edits : List RetainedTextEdit}
    (h : Chain (textLines source) cursor edits) (hcursor : cursor ≤ (textLines source).length) :
    edits.foldr (splice source) source = textBefore source cursor ++
      weave (textLines source) (fun edit => edit.replacement.toList) cursor edits := by
  induction edits generalizing cursor with
  | nil => rw [weave, textBefore_append source hcursor, textBefore_length, List.foldr_nil]
  | cons edit rest ih =>
    obtain ⟨hstart, hpos, hle, hend⟩ := h.start edit List.mem_cons_self
    have hbefore : textBefore source (edit.endLine - 1) = textBefore source (edit.startLine - 1) ++
        lineRange (textLines source) (edit.startLine - 1) (edit.endLine - 1) :=
      (textBefore_append source (by omega)).symm
    rw [List.foldr_cons, ih h.tail (by omega), splice,
      List.drop_left' (length_textBefore source _), hbefore, List.append_assoc,
      List.take_left' (length_textBefore source _), weave, ← textBefore_append source hstart,
      List.append_assoc]

/-! ## What is accepted -/

/-- An edit lies in a text and expects what stands there. -/
structure Fits (source : List Char) (edit : RetainedTextEdit) : Prop where
  inFile : edit.endLine ≤ (textLines source).length + 1
  exact : rangeOf source edit = edit.expected.toList

/-- The index of lines is that of the text behind its byte order mark. -/
theorem textDraftLines_eq_ok {text : String} {bom : List Char} {lines : List Line}
    (h : textDraftLines text = .ok (bom, lines)) :
    bom = textBom text.toList ∧ lines = textLines text.toList := by
  have hbom : (if hasPrefix text "\uFEFF" then ['\uFEFF'] else []) = textBom text.toList := by
    rw [textBom, hasPrefix]
    cases text.toList with
    | nil => rfl
    | cons c rest =>
      by_cases hc : c = '\uFEFF'
      · subst hc
        rfl
      · have hstarts : "\uFEFF".toList.isPrefixOf (c :: rest) = false := by
          have htoList : "\uFEFF".toList = ['\uFEFF'] := rfl
          rw [htoList, List.isPrefixOf_cons_cons, Bool.and_eq_false_iff]
          exact Or.inl (beq_false_of_ne (Ne.symm hc))
        have hhead : (c :: rest).head? ≠ some '\uFEFF' := fun heq => hc (Option.some.inj heq)
        rw [hstarts, if_neg hhead, if_neg (by decide)]
  unfold textDraftLines at h
  rw [hbom] at h
  split at h
  · cases h
  split at h
  · cases h
  dsimp only at h
  split at h
  · cases h
  obtain ⟨rfl, rfl⟩ := Prod.mk.inj (Except.ok.inj h)
  exact ⟨rfl, partLines_splitOn _⟩

/-- The ranges are validated one by one. -/
theorem checkTextEdits_eq_ok_iff {source : List Char} {edits : List RetainedTextEdit}
    (hle : ∀ edit ∈ edits, edit.startLine ≤ edit.endLine) :
    checkTextEdits (textLines source) edits = .ok () ↔ ∀ edit ∈ edits, Fits source edit := by
  induction edits with
  | nil => simp [checkTextEdits]
  | cons edit rest ih =>
    have hedit := hle edit List.mem_cons_self
    have hrest := ih fun next hnext => hle next (List.mem_cons_of_mem _ hnext)
    rw [checkTextEdits, List.forall_mem_cons]
    constructor
    · intro h
      split at h
      · cases h
      next hrange =>
        split at h
        · cases h
        next htext =>
          have hend := (not_not.mp hrange).2
          refine ⟨⟨hend, ?_⟩, hrest.mp h⟩
          rw [rangeOf_eq hedit hend, not_not.mp htext]
    · rintro ⟨hfits, hall⟩
      rw [if_neg (not_not.mpr ⟨hedit, hfits.inFile⟩), if_neg, hrest.mpr hall]
      rw [not_not, ← rangeOf_eq hedit hfits.inFile, hfits.exact]

section Candidate

variable {ν : Type} {lib : StandardJson String ν}

/-- The lines of an edit are in order. -/
theorem textOperation_bounds {operation : JsonTree String (ExactNumber ν)}
    {edit : RetainedTextEdit} (h : textOperation lib operation = .ok edit) :
    1 ≤ edit.startLine ∧ edit.startLine ≤ edit.endLine := by
  unfold textOperation at h
  split at h
  · split at h
    · split at h
      · cases h
      split at h
      · cases h
      next start hstart =>
        split at h
        · cases h
        split at h
        next hle =>
          obtain rfl := Except.ok.inj h
          refine ⟨?_, hle⟩
          unfold textEditPosition at hstart
          split at hstart
          · split at hstart
            · cases hstart
            split at hstart
            next hbounds =>
              obtain rfl := Except.ok.inj hstart
              exact hbounds.1
            · cases hstart
          · cases hstart
        · cases h
    · cases h
  · cases h

/-- Decoded edits have ranges of lines. -/
theorem textEdits_bounds {operations : List (JsonTree String (ExactNumber ν))}
    {edits : List RetainedTextEdit} (h : operations.mapM (textOperation lib) = .ok edits) :
    ∀ edit ∈ edits, 1 ≤ edit.startLine ∧ edit.startLine ≤ edit.endLine := by
  induction mapM_eq_ok_iff.mp h with
  | nil => exact nofun
  | cons hedit _ ih =>
    exact List.forall_mem_cons.mpr ⟨textOperation_bounds hedit, ih (mapM_eq_ok_iff.mpr ‹_›)⟩

/-- What a candidate tells about the recipe. -/
theorem draftText_eq_ok {source : String} {recipe : Bytes} {result : String × ℕ × ℕ}
    {fingerprint : String} {operations : List (JsonTree String (ExactNumber ν))}
    (hrecipe : textRecipe lib recipe = .ok (fingerprint, operations)) :
    draftText lib source recipe = .ok result ↔
      ∃ edits sorted, operations.mapM (textOperation lib) = .ok edits ∧
        orderTextEdits edits = .ok sorted ∧ applyRetainedTextEdits source sorted = .ok result := by
  rw [draftText, retainedTextEdits, hrecipe]
  dsimp only
  cases hmap : operations.mapM (textOperation lib) with
  | error message => simp
  | ok edits =>
    dsimp only
    cases horder : orderTextEdits edits with
    | error message => simp [horder]
    | ok sorted => simp [horder]

/-- What a candidate tells about the edits, and what it is. -/
theorem applyRetainedTextEdits_eq_ok {source candidate : String} {before after : ℕ}
    {edits : List RetainedTextEdit}
    (hbounds : ∀ edit ∈ edits, 1 ≤ edit.startLine ∧ edit.startLine ≤ edit.endLine)
    (h : applyRetainedTextEdits source edits = .ok (candidate, before, after)) :
    (∀ edit ∈ edits, Fits source.toList edit) ∧ candidate.toList = textBom source.toList ++
      weave (textLines source.toList) (fun edit => edit.replacement.toList) 0 edits := by
  unfold applyRetainedTextEdits at h
  split at h
  · cases h
  next bom lines hlines =>
    obtain ⟨rfl, rfl⟩ := textDraftLines_eq_ok hlines
    split at h
    · cases h
    next hcheck =>
      split at h
      · cases h
      next o hwrite =>
        dsimp only at h
        split at h
        · cases h
        obtain ⟨rfl, -⟩ := Prod.mk.inj (Except.ok.inj h)
        refine ⟨(checkTextEdits_eq_ok_iff fun edit hedit => (hbounds edit hedit).2).mp hcheck, ?_⟩
        rw [String.toList_ofList, foldlM_writeTextEdit hwrite]

/-- Accepted edits lie one behind the other from the first line on. -/
theorem chain_of_ordered {source : List Char} {edits sorted : List RetainedTextEdit}
    (hbounds : ∀ edit ∈ edits, 1 ≤ edit.startLine ∧ edit.startLine ≤ edit.endLine)
    (hperm : sorted.Perm edits) (hbehind : sorted.Pairwise Behind)
    (hfits : ∀ edit ∈ sorted, Fits source edit) : Chain (textLines source) 0 sorted := by
  refine ⟨?_, hbehind⟩
  intro edit hedit
  obtain ⟨hpos, hle⟩ := hbounds edit (hperm.mem_iff.mp hedit)
  exact ⟨Nat.zero_le _, hpos, hle, (hfits edit hedit).inFile⟩

/-- The texts of the ranges stand between the lines that stay. -/
theorem interleave_rangeOf {source : List Char} {edits : List RetainedTextEdit}
    (h : Chain (textLines source) 0 edits) :
    interleave (gapsFrom (textLines source) 0 edits) (edits.map (rangeOf source)) =
      (textLines source).flatten := by
  have hmap : edits.map (rangeOf source) = edits.map (rangeText (textLines source)) := by
    apply List.map_congr_left
    intro edit hedit
    obtain ⟨-, -, hle, hend⟩ := h.start edit hedit
    exact rangeOf_eq hle hend
  rw [hmap, ← weave_eq_interleave, weave_range h, lineRange, List.take_length, List.drop_zero]

/-- The order in which operations are listed does not matter. -/
theorem draftText_perm {source : String} {recipe recipe' : Bytes} {result : String × ℕ × ℕ}
    {fingerprint fingerprint' : String}
    {operations operations' : List (JsonTree String (ExactNumber ν))}
    (hrecipe : textRecipe lib recipe = .ok (fingerprint, operations))
    (hrecipe' : textRecipe lib recipe' = .ok (fingerprint', operations'))
    (hperm : operations'.Perm operations) (h : draftText lib source recipe = .ok result) :
    draftText lib source recipe' = .ok result := by
  obtain ⟨edits, sorted, hmap, horder, happly⟩ := (draftText_eq_ok hrecipe).mp h
  obtain ⟨edits', hmap', hedits⟩ := List.perm_comp_forall₂ hperm (mapM_eq_ok_iff.mp hmap)
  have hmapM := mapM_eq_ok_iff.mpr hmap'
  have hle : ∀ edit ∈ edits, edit.startLine ≤ edit.endLine := fun edit hedit =>
    (textEdits_bounds hmap edit hedit).2
  have hle' : ∀ edit ∈ edits', edit.startLine ≤ edit.endLine := fun edit hedit =>
    (textEdits_bounds hmapM edit hedit).2
  obtain ⟨hapart, hsorted, hbehind⟩ := (orderTextEdits_eq_ok_iff hle).mp horder
  have hapart' := (hedits.pairwise_iff fun h => h.symm).mpr hapart
  have horder' := (orderTextEdits_eq_ok_iff hle').mpr
    ⟨hapart', hsorted.trans hedits.symm, hbehind⟩
  exact (draftText_eq_ok hrecipe').mpr ⟨edits', sorted, hmapM, horder', happly⟩

/-- A candidate is the text with the range of every edit replaced. The bytes outside the
ranges stay, which is what the replacements from the bottom of the text up leave as well, and
the order of the operations does not matter. Nothing is made where an edit does not fit the
text or two of them are not apart. -/
theorem text_draft_exact (source : String) {recipe : Bytes} {fingerprint : String}
    {operations : List (JsonTree String (ExactNumber ν))}
    (hrecipe : textRecipe lib recipe = .ok (fingerprint, operations)) :
    (∀ candidate before after, draftText lib source recipe = .ok (candidate, before, after) →
      ∃ edits sorted : List RetainedTextEdit, operations.mapM (textOperation lib) = .ok edits ∧
        sorted.Perm edits ∧ sorted.Pairwise Behind ∧ (∀ edit ∈ edits, Fits source.toList edit) ∧
        candidate.toList = sorted.foldr (splice source.toList) source.toList ∧
        ∃ first gaps, gaps.length = sorted.length ∧
          source.toList = interleave ((textBom source.toList ++ first) :: gaps)
            (sorted.map (rangeOf source.toList)) ∧
          candidate.toList = interleave ((textBom source.toList ++ first) :: gaps)
            (sorted.map fun edit => edit.replacement.toList)) ∧
    (∀ recipe' fingerprint' operations',
      textRecipe lib recipe' = .ok (fingerprint', operations') → operations.Perm operations' →
        (draftText lib source recipe').toOption = (draftText lib source recipe).toOption) ∧
    (∀ operation ∈ operations, ∀ edit, textOperation lib operation = .ok edit →
      ¬Fits source.toList edit → ∃ message, draftText lib source recipe = .error message) ∧
    ∀ edits, operations.mapM (textOperation lib) = .ok edits → ¬edits.Pairwise Apart →
      ∃ message, draftText lib source recipe = .error message := by
  have hreads : ∀ result, draftText lib source recipe = .ok result →
      ∃ edits sorted : List RetainedTextEdit,
        operations.mapM (textOperation lib) = .ok edits ∧ edits.Pairwise Apart ∧
        sorted.Perm edits ∧ sorted.Pairwise Behind ∧
        (∀ edit ∈ edits, Fits source.toList edit) ∧
        Chain (textLines source.toList) 0 sorted ∧ result.1.toList = textBom source.toList ++
          weave (textLines source.toList) (fun edit => edit.replacement.toList) 0 sorted := by
    rintro ⟨candidate, before, after⟩ h
    obtain ⟨edits, sorted, hmap, horder, happly⟩ := (draftText_eq_ok hrecipe).mp h
    have hbounds := textEdits_bounds hmap
    obtain ⟨hapart, hperm, hbehind⟩ :=
      (orderTextEdits_eq_ok_iff fun edit hedit => (hbounds edit hedit).2).mp horder
    obtain ⟨hfits, hcandidate⟩ := applyRetainedTextEdits_eq_ok
      (fun edit hedit => hbounds edit (hperm.mem_iff.mp hedit)) happly
    exact ⟨edits, sorted, hmap, hapart, hperm, hbehind,
      fun edit hedit => hfits edit (hperm.mem_iff.mpr hedit),
      chain_of_ordered hbounds hperm hbehind hfits, hcandidate⟩
  refine ⟨?_, ?_, ?_, ?_⟩
  · intro candidate before after h
    obtain ⟨edits, sorted, hmap, -, hperm, hbehind, hfits, hchain, hcandidate⟩ := hreads _ h
    have hbottom := foldr_splice hchain (Nat.zero_le _)
    refine ⟨edits, sorted, hmap, hperm, hbehind, hfits, ?_, ?_⟩
    · rw [hbottom, hcandidate, textBefore, lineRange, List.take_zero, List.drop_zero,
        List.flatten_nil, List.append_nil]
    · obtain ⟨first, gaps, hgaps⟩ := List.exists_cons_of_length_eq_add_one
        (length_gapsFrom (textLines source.toList) 0 sorted)
      have hlength := length_gapsFrom (textLines source.toList) 0 sorted
      have hranges := interleave_rangeOf hchain
      rw [weave_eq_interleave] at hcandidate
      rw [hgaps] at hlength hranges hcandidate
      refine ⟨first, gaps, Nat.succ.inj hlength, ?_, ?_⟩
      · rw [interleave_append, hranges, textBom_append]
      · rw [interleave_append, hcandidate]
  · intro recipe' fingerprint' operations' hrecipe' hperm
    cases h : draftText lib source recipe with
    | ok result => rw [draftText_perm hrecipe hrecipe' hperm.symm h]
    | error message =>
      cases h' : draftText lib source recipe' with
      | error message' => rfl
      | ok result =>
        rw [draftText_perm hrecipe' hrecipe hperm h'] at h
        cases h
  · intro operation hmem edit hedit hfits
    cases h : draftText lib source recipe with
    | error message => exact ⟨message, rfl⟩
    | ok result =>
      obtain ⟨edits, -, hmap, -, -, -, hall, -⟩ := hreads _ h
      obtain ⟨edit', hmem', hedit'⟩ := exists_of_mapM hmap hmem
      rw [hedit] at hedit'
      obtain rfl := Except.ok.inj hedit'
      exact absurd (hall edit hmem') hfits
  · intro edits hmap hapart
    cases h : draftText lib source recipe with
    | error message => exact ⟨message, rfl⟩
    | ok result =>
      obtain ⟨edits', -, hmap', hapart', -⟩ := hreads _ h
      rw [hmap] at hmap'
      obtain rfl := Except.ok.inj hmap'
      exact absurd hapart' hapart

end Candidate

/-! ## A sample -/

/-- The fingerprint of the sample. -/
def sampleTextFingerprint : String :=
  "0000000000000000000000000000000000000000000000000000000000000000"

/-- The operation that replaces the third line. -/
def sampleTextOperation : JsonTree String (ExactNumber ℕ) :=
  .object [("start_line", sampleNumber "3"), ("end_line", sampleNumber "4"),
    ("expected", .string "c"), ("replacement", .string "d")]

/-- The operation that inserts a text in front of the second line. -/
def sampleTextInsertion : JsonTree String (ExactNumber ℕ) :=
  .object [("start_line", sampleNumber "2"), ("end_line", sampleNumber "2"),
    ("expected", .string ""), ("replacement", .string "x")]

/-- A recipe that lists the later edit first. -/
def sampleTextTree : JsonTree String (ExactNumber ℕ) :=
  .object [("version", sampleNumber "1"), ("source_fingerprint", .string sampleTextFingerprint),
    ("operations", .array [sampleTextOperation, sampleTextInsertion])]

/-- The text of the recipe. -/
def sampleTextRecipeText : String :=
  "\x7b\"version\":1,\"source_fingerprint\":\"" ++ sampleTextFingerprint ++
    "\",\"operations\":[\x7b\"start_line\":3,\"end_line\":4,\"expected\":\"c\"," ++
      "\"replacement\":\"d\"\x7d,\x7b\"start_line\":2,\"end_line\":2," ++
        "\"expected\":\"\",\"replacement\":\"x\"\x7d]\x7d"

/-- The characters of the fingerprint. -/
theorem sampleTextFingerprint_toList :
    sampleTextFingerprint.toList = List.replicate 64 '0' := String.toList_ofList

/-- The fingerprint in a JSON text. -/
theorem sampleTextFingerprint_quoted :
    quotedChars sampleTextFingerprint = '"' :: (List.replicate 64 '0' ++ ['"']) := by
  rw [quotedChars, sampleTextFingerprint_toList]
  rfl

set_option maxRecDepth 20000 in
/-- The text of the recipe is that of its tree, and what its readers count in it. -/
theorem sampleTextRecipe_toList :
    sampleTextRecipeText.toList = stringifyChars sampleJson sampleTextTree ∧
      sampleTextRecipeText.toList.foldlM scanDepth ⟨0, false, false⟩ = .ok ⟨0, false, false⟩ ∧
      utf8Length sampleTextRecipeText = 241 := by
  have hopen : "\x7b\"version\":1,\"source_fingerprint\":\"".toList = _ := String.toList_ofList
  have hrange :
      "\",\"operations\":[\x7b\"start_line\":3,\"end_line\":4,\"expected\":\"c\",".toList = _ :=
    String.toList_ofList
  have hnext : "\"replacement\":\"d\"\x7d,\x7b\"start_line\":2,\"end_line\":2,".toList = _ :=
    String.toList_ofList
  have hclose : "\"expected\":\"\",\"replacement\":\"x\"\x7d]\x7d".toList = _ :=
    String.toList_ofList
  have hpieces : sampleTextRecipeText.toList =
      "\x7b\"version\":1,\"source_fingerprint\":\"".toList ++ sampleTextFingerprint.toList ++
        ("\",\"operations\":[\x7b\"start_line\":3,\"end_line\":4,\"expected\":\"c\",".toList ++
          ("\"replacement\":\"d\"\x7d,\x7b\"start_line\":2,\"end_line\":2,".toList ++
            "\"expected\":\"\",\"replacement\":\"x\"\x7d]\x7d".toList)) := by
    rw [← String.toList_append, ← String.toList_append, ← String.toList_append,
      ← String.toList_append]
    rfl
  have htree : stringifyChars sampleJson sampleTextTree =
      '\x7b' :: ((quotedChars "version" ++ ':' :: (['1'] ++ ',' ::
        (quotedChars "source_fingerprint" ++ ':' :: (quotedChars sampleTextFingerprint ++ ',' ::
          (quotedChars "operations" ++ ':' :: stringifyChars sampleJson
            (.array [sampleTextOperation, sampleTextInsertion])))))) ++ ['\x7d']) := rfl
  rw [utf8Length, hpieces, hopen, hrange, hnext, hclose, sampleTextFingerprint_toList, htree,
    sampleTextFingerprint_quoted]
  exact ⟨rfl, rfl, rfl⟩

/-- The text of the recipe is written by the program's own writer. -/
theorem sampleTextRecipe_text : stringifyTree sampleJson sampleTextTree = sampleTextRecipeText := by
  rw [stringifyTree, ← sampleTextRecipe_toList.1, String.ofList_toList]

/-- The recipe is read as its tree. -/
theorem sampleTextRecipe_parse :
    parseRetainedJson sampleJson sampleTextRecipeText = .ok sampleTextTree := by
  have hone : NumberToken ([] ++ (['1'] ++ ([] ++ []))) :=
    .intro (by simp) (.nonzero rfl (by decide) (by simp)) .absent .absent
  have htwo : NumberToken ([] ++ (['2'] ++ ([] ++ []))) :=
    .intro (by simp) (.nonzero rfl (by decide) (by simp)) .absent .absent
  have hthree : NumberToken ([] ++ (['3'] ++ ([] ++ []))) :=
    .intro (by simp) (.nonzero rfl (by decide) (by simp)) .absent .absent
  have hfour : NumberToken ([] ++ (['4'] ++ ([] ++ []))) :=
    .intro (by simp) (.nonzero rfl (by decide) (by simp)) .absent .absent
  have hwritten : Written sampleJson sampleTextTree := by
    refine ⟨⟨by decide, ?_⟩, ?_⟩
    · simp [sampleTextTree, sampleTextOperation, sampleTextInsertion, sampleNumber,
        JsonTree.Distinct, DistinctItems, DistinctMembers]
    · exact ⟨⟨"1", hone, rfl⟩, trivial, ⟨⟨⟨"3", hthree, rfl⟩, ⟨"4", hfour, rfl⟩, trivial, trivial,
        trivial⟩, ⟨⟨"2", htwo, rfl⟩, ⟨"2", htwo, rfl⟩, trivial, trivial, trivial⟩, trivial⟩,
        trivial⟩
  have hscan := sampleTextRecipe_toList.2.1
  rw [← sampleTextRecipe_text] at hscan ⊢
  exact (parse_of_written sampleJson_conforms sampleJson_readsStrings hwritten ⟨_, hscan⟩).1

/-- The length of the recipe is an `Int`. -/
theorem sampleTextRecipe_length : (utf8Encode sampleTextRecipeText).length < 2 ^ 31 := by
  rw [length_utf8Encode, sampleTextRecipe_toList.2.2]
  omega

/-- The bytes of the recipe. -/
def sampleTextRecipe : Bytes := ⟨utf8Encode sampleTextRecipeText, sampleTextRecipe_length⟩

/-- The edits of the recipe in the order of their lines. -/
def sampleTextEdits : List RetainedTextEdit := [⟨2, 2, "", "x"⟩, ⟨3, 4, "c", "d"⟩]

set_option maxRecDepth 20000 in
/-- What the recipe says. -/
theorem sampleTextRecipe_read : textRecipe sampleJson sampleTextRecipe =
    .ok (sampleTextFingerprint, [sampleTextOperation, sampleTextInsertion]) := by
  have hlength : sampleTextRecipe.length ≤ 65536 := by
    delta sampleTextRecipe
    rw [Int32.le_iff_toInt_le, Bytes.toInt_length, length_utf8Encode, sampleTextRecipe_toList.2.2]
    decide
  have hdecode : utf8Decode sampleTextRecipe = some sampleTextRecipeText :=
    utf8Decode_utf8Encode _ _
  have hparts : textRecipeParts sampleJson sampleTextTree =
      some (sampleTextFingerprint, [sampleTextOperation, sampleTextInsertion]) := by
    have hversion : stringifyTree sampleJson (sampleNumber "1") = "1" := rfl
    simp [textRecipeParts, sampleTextTree, LinkedMap.get, hversion]
  have hfingerprint : utf16Length sampleTextFingerprint = 64 ∧
      allChars sampleTextFingerprint fingerprintChar = true := by
    rw [utf16Length, allChars, sampleTextFingerprint_toList]
    decide
  exact textRecipe_eq_ok hlength hdecode sampleTextRecipe_parse hparts hfingerprint (by decide)

/-- The operations are the edits, the later one first. -/
theorem sampleTextOperations_read :
    [sampleTextOperation, sampleTextInsertion].mapM (textOperation sampleJson) =
      .ok sampleTextEdits.reverse := rfl

/-- The edits are apart and in order. -/
theorem sampleTextEdits_behind : sampleTextEdits.Pairwise Behind :=
  List.pairwise_pair.mpr ⟨by decide, by decide⟩

/-- Of two edits, listed the later one first, the candidate is the text with both made from the
bottom up. -/
theorem text_draft_exact_sample :
    draftText sampleJson "a\r\nb\nc" sampleTextRecipe = .ok ("a\r\nxb\nd", 3, 3) ∧
      "a\r\nxb\nd".toList =
        sampleTextEdits.foldr (splice "a\r\nb\nc".toList) "a\r\nb\nc".toList := by
  have hdraft : draftText sampleJson "a\r\nb\nc" sampleTextRecipe = .ok ("a\r\nxb\nd", 3, 3) := by
    have horder : orderTextEdits sampleTextEdits.reverse = .ok sampleTextEdits := by
      refine (orderTextEdits_eq_ok_iff (by decide)).mpr
        ⟨?_, sampleTextEdits.reverse_perm.symm, sampleTextEdits_behind⟩
      exact List.pairwise_reverse.mpr (sampleTextEdits_behind.imp fun h => h.apart.symm)
    exact (draftText_eq_ok sampleTextRecipe_read).mpr
      ⟨_, _, sampleTextOperations_read, horder, by decide⟩
  obtain ⟨edits, sorted, hmap, hperm, hbehind, -, hbottom, -⟩ :=
    (text_draft_exact "a\r\nb\nc" sampleTextRecipe_read).1 _ _ _ hdraft
  rw [sampleTextOperations_read] at hmap
  obtain rfl := Except.ok.inj hmap
  have hantisymm : ∀ a b, Behind a b → Behind b a → a = b :=
    fun a b hab hba => absurd (hab.2.trans hba.2) (Nat.lt_irrefl _)
  obtain rfl := (hperm.trans sampleTextEdits.reverse_perm).eq_of_pairwise
    (fun a b _ _ => hantisymm a b) hbehind sampleTextEdits_behind
  exact ⟨hdraft, hbottom⟩

end Moonfort.Executor
