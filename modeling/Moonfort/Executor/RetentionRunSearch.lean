import Moonfort.CursorPaging
import Moonfort.Executor.RetainedState
import Moonfort.MoonBit.Lines
import Moonfort.MoonBit.StringOrder
import Mathlib.Data.Prod.Lex

/-!
# Searching a retained run

`search_retained_run` searches all selected files of a retention, in the order of path and line,
and answers them page by page. Whoever follows the cursors finds every matching line of every
searchable file once.
-/

namespace Moonfort.Executor

open CursorPaging MoonBit Sandbox

variable {τ : Type}

/-! ## Matching lines -/

/-- The place of the first occurrence of code units. -/
def findUnits (pattern : List ℕ) : List ℕ → Option ℕ
  | [] => if pattern = [] then some 0 else none
  | unit :: rest =>
    if pattern.isPrefixOf (unit :: rest) = true then some 0
    else (findUnits pattern rest).map (· + 1)

/-- `s.find(pattern)`. -/
def findText (pattern s : String) : Option ℕ := findUnits (utf16Units pattern) (utf16Units s)

/-- `s.to_lower()`. -/
def toLower (s : String) : String := String.ofList (s.toList.map Char.toLower)

/-- `s.strip_suffix("\r").unwrap_or(s)`. -/
def stripReturn (s : String) : String :=
  if hasSuffix s "\r" = true then String.ofList s.toList.dropLast else s

/-- `RetentionTextMatch`. -/
structure RetentionTextMatch where
  line : ℕ
  excerpt : String
  omittedBefore : Bool
  omittedAfter : Bool
  deriving DecidableEq

/-- The characters between two places of a line, from a place on. -/
def excerptChars (first last : ℤ) : ℤ → List Char → List Char
  | _, [] => []
  | place, c :: rest =>
    let next := place + if 65535 < c.toNat then 2 else 1
    if first < next ∧ place < last then c :: excerptChars first last next rest
    else excerptChars first last next rest

/-- `retained_search_excerpt`. -/
def retainedSearchExcerpt (line : String) (position width number : ℕ) : RetentionTextMatch :=
  let first : ℤ := max (position - 40) 0
  let last : ℤ := min (position + width + 80) (utf16Length line)
  { line := number
    excerpt := String.ofList (excerptChars first last 0 line.toList)
    omittedBefore := decide (0 < first)
    omittedAfter := decide (last < utf16Length line) }

/-- `retained_run_total_lines`. -/
def retainedRunTotalLines (text : String) (lines : List String) : ℕ :=
  if text = "" then 0
  else if hasSuffix text "\n" = true then lines.length - 1
  else lines.length

/-- The physical lines of a text. -/
def runLines (text : String) : List String :=
  (splitText '\n' text).take (retainedRunTotalLines text (splitText '\n' text))

/-- What is searched and where. -/
structure RunSearchQuery where
  binding : RetentionArtifactBinding
  query : String
  ignoreAsciiCase : Bool
  pathPrefix : String
  contains : String

namespace RunSearchQuery

/-- `needle`. -/
def needle (q : RunSearchQuery) : String := if q.ignoreAsciiCase then toLower q.query else q.query

/-- `searchable`, of a line with its line end. -/
def searchable (q : RunSearchQuery) (line : String) : String :=
  if q.ignoreAsciiCase then toLower (stripReturn line) else stripReturn line

/-- `searchable.find(needle)`. -/
def find (q : RunSearchQuery) (line : String) : Option ℕ := findText q.needle (q.searchable line)

/-- The selected paths. -/
def selects (q : RunSearchQuery) (file : ScratchEntry) : Bool :=
  hasPrefix file.relativePath q.pathPrefix && containsText file.relativePath q.contains

end RunSearchQuery

/-! ## The search -/

/-- `RetentionRunMatch`. -/
structure RetentionRunMatch where
  file : ScratchEntry
  hit : RetentionTextMatch
  deriving DecidableEq

/-- `RetentionSearchOmission`. -/
structure RetentionSearchOmission where
  file : ScratchEntry
  reason : String
  bytesVerified : Bool
  deriving DecidableEq

/-- `RetentionRunSearch`. -/
structure RetentionRunSearch where
  search : RunSearchQuery
  selectedFiles : ℕ
  searchedFiles : ℕ
  searchedBytes : ℤ
  matchingFiles : ℕ
  matchingLines : ℕ
  skippedFiles : List RetentionSearchOmission
  hits : List RetentionRunMatch
  nextAfterPath : String
  nextAfterLine : ℤ
  hasMore : Bool

/-- `RetentionTextMatch::to_json`. -/
def RetentionTextMatch.toJson (hit : RetentionTextMatch) : Json :=
  .object [("line", .number hit.line), ("excerpt", .string hit.excerpt),
    ("omitted_before", .bool hit.omittedBefore), ("omitted_after", .bool hit.omittedAfter)]

/-- `RetentionRunMatch::to_json`. -/
def RetentionRunMatch.toJson (found : RetentionRunMatch) : Json :=
  .object [("file", scratchEntryJson found.file), ("hit", found.hit.toJson)]

/-- `RetentionSearchOmission::to_json`. -/
def RetentionSearchOmission.toJson (omission : RetentionSearchOmission) : Json :=
  .object [("file", scratchEntryJson omission.file), ("reason", .string omission.reason),
    ("bytes_verified", .bool omission.bytesVerified)]

/-- `RetentionRunSearch::to_json`. -/
def RetentionRunSearch.toJson (page : RetentionRunSearch) : Json :=
  .object [("binding", page.search.binding.toJson), ("query", .string page.search.query),
    ("ignore_ascii_case", .bool page.search.ignoreAsciiCase),
    ("prefix", .string page.search.pathPrefix), ("contains", .string page.search.contains),
    ("selected_files", .number page.selectedFiles), ("searched_files", .number page.searchedFiles),
    ("searched_bytes", .string (intText page.searchedBytes)),
    ("matching_files", .number page.matchingFiles), ("matching_lines", .number page.matchingLines),
    ("skipped_files", .array (page.skippedFiles.map RetentionSearchOmission.toJson)),
    ("matches", .array (page.hits.map RetentionRunMatch.toJson)),
    ("next_after_path", .string page.nextAfterPath),
    ("next_after_line", .number page.nextAfterLine), ("has_more", .bool page.hasMore)]

/-- The variables of the loop that reads the files. -/
structure RunScan where
  texts : List (ScratchEntry × String)
  skippedFiles : List RetentionSearchOmission
  matchingFiles : ℕ
  matchingLines : ℕ
  searchedBytes : ℤ
  cursorValid : Bool

/-- The body of the loop that reads the files. -/
def RunScan.step (q : RunSearchQuery) (exported : String → Option (List UInt8))
    (afterPath : String) (afterLine : ℤ) (s : RunScan) (file : ScratchEntry) :
    Except RetentionFault RunScan :=
  if 1048576 < file.sizeBytes then
    .ok { s with skippedFiles := s.skippedFiles ++ [⟨file, "over_1_mib", false⟩] }
  else
    match exported file.relativePath with
    | none => .error .store
    | some bytes =>
      match decodeText bytes with
      | none => .ok { s with skippedFiles := s.skippedFiles ++ [⟨file, "invalid_utf8", true⟩] }
      | some text =>
        if containsText text "\x00" = true then
          .ok { s with skippedFiles := s.skippedFiles ++ [⟨file, "contains_nul", true⟩] }
        else
          let inFile := (runLines text).countP fun line => (q.find line).isSome
          .ok { s with
            cursorValid :=
              if file.relativePath = afterPath then decide (afterLine ≤ (runLines text).length)
              else s.cursorValid
            matchingLines := s.matchingLines + inFile
            matchingFiles := s.matchingFiles + if 0 < inFile then 1 else 0
            searchedBytes := s.searchedBytes + file.sizeBytes
            texts := s.texts ++ [(file, text)] }

/-- The match in a line of a file. -/
def runHit (q : RunSearchQuery) (file : ScratchEntry) (line : String × ℕ) :
    Option RetentionRunMatch :=
  (q.find line.1).map fun position =>
    ⟨file, retainedSearchExcerpt (stripReturn line.1) position (utf16Length q.query) (line.2 + 1)⟩

/-- `response()`. -/
def runResponse (q : RunSearchQuery) (selected : ℕ) (scan : RunScan) (afterPath : String)
    (afterLine : ℤ) (pending : ℕ) (hits : List RetentionRunMatch) : RetentionRunSearch where
  search := q
  selectedFiles := selected
  searchedFiles := scan.texts.length
  searchedBytes := scan.searchedBytes
  matchingFiles := scan.matchingFiles
  matchingLines := scan.matchingLines
  skippedFiles := scan.skippedFiles
  hits := hits
  nextAfterPath := (hits.getLast?.map fun found => found.file.relativePath).getD afterPath
  nextAfterLine := (hits.getLast?.map fun found => (found.hit.line : ℤ)).getD afterLine
  hasMore := decide (hits.length < pending)

/-- The refusal of a match that does not fit alone. -/
def runHitTooLarge : RetentionFault :=
  .failed "run search match exceeds response budget; narrow filters"

/-- The body of the loop over the lines of a file. -/
def searchLine (q : RunSearchQuery) (order afterLine limit : ℤ)
    (fits : ℕ → List RetentionRunMatch → Bool) (file : ScratchEntry)
    (s : Collected RetentionRunMatch) (line : String × ℕ) :
    Except RetentionFault (Collected RetentionRunMatch) :=
  if order = 0 ∧ (line.2 + 1 : ℤ) ≤ afterLine then .ok s
  else
    match runHit q file line with
    | none => .ok s
    | some hit => s.push limit fits runHitTooLarge hit

/-- The body of the loop over the files that were read. -/
def searchFile (q : RunSearchQuery) (afterPath : String) (afterLine limit : ℤ)
    (fits : ℕ → List RetentionRunMatch → Bool) (s : Collected RetentionRunMatch)
    (source : ScratchEntry × String) : Except RetentionFault (Collected RetentionRunMatch) :=
  let order := lexicalCompare source.1.relativePath afterPath
  if order < 0 then .ok s
  else (runLines source.2).zipIdx.foldlM (searchLine q order afterLine limit fits source.1) s

/-- The request is valid. -/
def runSearchValid (q : RunSearchQuery) (afterPath : String) (afterLine limit : ℤ) : Bool :=
  q.query != "" && utf8Length q.query ≤ 128 && !containsText q.query "\n" &&
    !containsText q.query "\r" && !containsText q.query "\x00" &&
    utf16Length q.pathPrefix ≤ 4096 && utf16Length q.contains ≤ 4096 &&
    utf16Length afterPath ≤ 4096 && 0 ≤ afterLine && (afterPath != "" || afterLine == 0) &&
    1 ≤ limit && limit ≤ 100

/-- `search_retained_run`. -/
def searchRetainedRun (crypto : Crypto) (lib : RetentionLibrary τ) (host : BundleReading)
    (q : RunSearchQuery) (config : Deployment) (afterPath : String) (afterLine limit : ℤ) :
    Except RetentionFault RetentionRunSearch :=
  if runSearchValid q afterPath afterLine limit = false then
    .error (.failed "invalid run search query, filters or page")
  else
    match boundArtifactRecord lib host.first q.binding config with
    | none => .error .store
    | some record =>
      let files := sortByPath (record.reviewableFiles.filter q.selects)
      if 128 < files.length then
        .error (.failed "run search selects more than 128 files; narrow --prefix or --contains")
      else if 8388608 < (files.map fun file =>
          if file.sizeBytes ≤ 1048576 then file.sizeBytes else 0).sum then
        .error (.failed
          "run search selects more than 8 MiB of searchable files; narrow filters")
      else do
        let scan ← files.foldlM
          (RunScan.step q (exportRetainedArtifact crypto lib host q.binding config) afterPath
            afterLine)
          ⟨[], [], 0, 0, 0, decide (afterPath = "")⟩
        let response := runResponse q files.length scan afterPath afterLine
        if scan.cursorValid = false then
          .error (.failed "run search cursor must name a searched file and a valid line")
        else if withinBudget config 64 (response 0 []).toJson = false then
          .error (.failed "run search metadata exceeds response budget; narrow filters")
        else do
          let s ← scan.texts.foldlM (searchFile q afterPath afterLine limit fun pending hits =>
            withinBudget config 64 (response pending hits).toJson) .empty
          if boundArtifactRecord lib host.last q.binding config ≠ some record then
            .error (.failed "retention changed during run search")
          else if withinBudget config 1 (response s.pending s.kept).toJson = false then
            .error (.failed "run search metadata exceeds response budget")
          else .ok (response s.pending s.kept)

/-! ## What is searched -/

/-- The matches in a file that was read. -/
def fileHits (q : RunSearchQuery) (source : ScratchEntry × String) : List RetentionRunMatch :=
  (runLines source.2).zipIdx.filterMap (runHit q source.1)

namespace RetainedState

variable (state : RetainedState) (q : RunSearchQuery)

/-- The text of a file, if it is searched. -/
def searchText (file : ScratchEntry) : Option (ScratchEntry × String) :=
  if 1048576 < file.sizeBytes then none
  else
    match decodeText (state.content file.relativePath) with
    | none => none
    | some text => if containsText text "\x00" = true then none else some (file, text)

/-- Why a file is not searched. -/
def omission (file : ScratchEntry) : Option RetentionSearchOmission :=
  if 1048576 < file.sizeBytes then some ⟨file, "over_1_mib", false⟩
  else
    match decodeText (state.content file.relativePath) with
    | none => some ⟨file, "invalid_utf8", true⟩
    | some text =>
      if containsText text "\x00" = true then some ⟨file, "contains_nul", true⟩ else none

/-- The selected files in the order of their paths. -/
def selected : List ScratchEntry := sortByPath (state.record.reviewableFiles.filter q.selects)

/-- The texts of the files that are searched. -/
def texts : List (ScratchEntry × String) := (state.selected q).filterMap state.searchText

/-- All matches, in the order of path and line. -/
def hits : List RetentionRunMatch := (state.texts q).flatMap (fileHits q)

end RetainedState

/-- The rank of a match: its path and its line. -/
def RetentionRunMatch.rank (found : RetentionRunMatch) : List ℕ ×ₗ ℤ :=
  toLex (utf16Units found.file.relativePath, (found.hit.line : ℤ))

/-- The rank of a cursor. -/
def searchRank (cursor : String × ℤ) : List ℕ ×ₗ ℤ := toLex (utf16Units cursor.1, cursor.2)

/-- The parts of a page of matches. -/
def runSearchView : PageView RetentionRunSearch (String × ℤ) RetentionRunMatch where
  items := RetentionRunSearch.hits
  next page := (page.nextAfterPath, page.nextAfterLine)
  more := RetentionRunSearch.hasMore

/-- Code units are found where they occur. -/
theorem findUnits_isSome_iff {pattern units : List ℕ} :
    (findUnits pattern units).isSome = true ↔ pattern <:+: units := by
  induction units with
  | nil =>
    rw [findUnits, List.infix_nil]
    by_cases h : pattern = []
    · rw [if_pos h]
      exact iff_of_true rfl h
    · rw [if_neg h]
      exact iff_of_false nofun h
  | cons unit rest ih =>
    rw [findUnits, List.infix_cons_iff]
    by_cases h : pattern.isPrefixOf (unit :: rest) = true
    · rw [if_pos h]
      exact iff_of_true rfl (.inl (List.isPrefixOf_iff_prefix.mp h))
    · rw [if_neg h, Option.isSome_map, ih]
      exact (or_iff_right fun hstarts => h (List.isPrefixOf_iff_prefix.mpr hstarts)).symm

variable {source : ScratchEntry × String} {found : RetentionRunMatch}

/-- The hits of a file are those of its lines. -/
theorem mem_fileHits_iff {q : RunSearchQuery} : found ∈ fileHits q source ↔
      ∃ line i, (runLines source.2)[i]? = some line ∧ runHit q source.1 (line, i) = some found := by
  rw [fileHits, List.mem_filterMap]
  constructor
  · rintro ⟨⟨line, i⟩, hmem, hhit⟩
    exact ⟨line, i, List.mem_zipIdx_iff_getElem?.mp hmem, hhit⟩
  · rintro ⟨line, i, hline, hhit⟩
    exact ⟨(line, i), List.mem_zipIdx_iff_getElem?.mpr hline, hhit⟩

variable {file : ScratchEntry}

/-- A hit says its file and its line. -/
theorem runHit_eq_some {q : RunSearchQuery} {line : String × ℕ}
    (h : runHit q file line = some found) :
    found.file = file ∧ found.hit.line = line.2 + 1 := by
  obtain ⟨position, -, rfl⟩ := Option.map_eq_some_iff.mp h
  exact ⟨rfl, rfl⟩

/-- The hits of a file say its path. -/
theorem file_of_mem_fileHits {q : RunSearchQuery} (h : found ∈ fileHits q source) :
    found.file = source.1 := by
  obtain ⟨line, i, -, hhit⟩ := mem_fileHits_iff.mp h
  exact (runHit_eq_some hhit).1

/-- A file has as many hits as lines that match. -/
theorem length_fileHits (q : RunSearchQuery) (source : ScratchEntry × String) :
    (fileHits q source).length = (runLines source.2).countP fun line => (q.find line).isSome := by
  rw [fileHits, List.length_filterMap_eq_countP]
  simp only [runHit, Option.isSome_map]
  have hcount := List.countP_map (f := Prod.fst) (p := fun line => (q.find line).isSome)
    (l := (runLines source.2).zipIdx)
  rw [List.zipIdx_map_fst] at hcount
  exact hcount.symm

/-- The matches in a file are in the order of its lines. -/
theorem pairwise_fileHits (q : RunSearchQuery) (source : ScratchEntry × String) :
    (fileHits q source).Pairwise fun a b => a.rank < b.rank := by
  have hlines : (runLines source.2).zipIdx.Pairwise fun a b => a.2 < b.2 := by
    rw [← List.pairwise_map, List.zipIdx_map_snd]
    exact List.pairwise_lt_range' _
  refine hlines.filterMap _ fun a b hlt found hfound other hother => ?_
  obtain ⟨hfile, hline⟩ := runHit_eq_some hfound
  obtain ⟨hfile', hline'⟩ := runHit_eq_some hother
  rw [RetentionRunMatch.rank, RetentionRunMatch.rank, Prod.Lex.toLex_lt_toLex]
  refine .inr ⟨by rw [hfile, hfile'], ?_⟩
  dsimp only
  omega

/-- A searched text belongs to its file. -/
theorem searchText_eq_some {state : RetainedState} (h : state.searchText file = some source) :
    source.1 = file := by
  rw [RetainedState.searchText] at h
  split at h
  next => cases h
  next =>
    split at h
    next => cases h
    next text htext =>
      split at h
      next => cases h
      next =>
        cases h
        rfl

/-- The texts are in the order of their paths. -/
theorem pairwise_texts {state : RetainedState} (hpaths : DistinctPaths state.record.reviewableFiles)
    (q : RunSearchQuery) : (state.texts q).Pairwise fun a b =>
      utf16Units a.1.relativePath < utf16Units b.1.relativePath := by
  refine (pairwise_sortByPath (hpaths.filter q.selects).nodup).filterMap _ ?_
  intro a b hlt source hsource other hother
  rwa [searchText_eq_some hsource, searchText_eq_some hother]

/-- All matches are in the order of path and line. -/
theorem pairwise_hits {state : RetainedState} (hpaths : DistinctPaths state.record.reviewableFiles)
    (q : RunSearchQuery) : (state.hits q).Pairwise fun a b => a.rank < b.rank := by
  rw [RetainedState.hits, List.pairwise_flatMap]
  refine ⟨fun source _ => pairwise_fileHits q source, (pairwise_texts hpaths q).imp ?_⟩
  intro source other hlt found hfound last hlast
  rw [RetentionRunMatch.rank, RetentionRunMatch.rank, Prod.Lex.toLex_lt_toLex,
    file_of_mem_fileHits hfound, file_of_mem_fileHits hlast]
  exact .inl hlt

/-! ## The loops -/

/-- The variables behind the files that were read. -/
structure RunScan.Of (state : RetainedState) (q : RunSearchQuery) (files : List ScratchEntry)
    (s : RunScan) : Prop where
  texts : s.texts = files.filterMap state.searchText
  skippedFiles : s.skippedFiles = files.filterMap state.omission
  matchingFiles : s.matchingFiles = s.texts.countP fun source => !(fileHits q source).isEmpty
  matchingLines : s.matchingLines = (s.texts.flatMap (fileHits q)).length
  searchedBytes : s.searchedBytes = (s.texts.map fun source => source.1.sizeBytes).sum

variable {afterPath : String}

/-- One more file keeps what the scan has found. -/
theorem RunScan.Of.step {state : RetainedState} {q : RunSearchQuery} {files : List ScratchEntry}
    {s next : RunScan} {exported : String → Option (List UInt8)}
    {afterLine : ℤ}
    (hexported : ∀ path bytes, exported path = some bytes → bytes = state.content path)
    (hs : s.Of state q files) (h : s.step q exported afterPath afterLine file = .ok next) :
    next.Of state q (files ++ [file]) := by
  have hfiles : ∀ {β : Type} (f : ScratchEntry → Option β),
      (files ++ [file]).filterMap f = files.filterMap f ++ (f file).toList := by
    intro β f
    rw [List.filterMap_append]
    congr 1
  have homitted : ∀ omission, state.searchText file = none → state.omission file = some omission →
      RunScan.Of state q (files ++ [file])
        { s with skippedFiles := s.skippedFiles ++ [omission] } := by
    intro omission htext homission
    refine ⟨?_, ?_, hs.matchingFiles, hs.matchingLines, hs.searchedBytes⟩
    · rw [hfiles, htext, Option.toList_none, List.append_nil]
      exact hs.texts
    · rw [hfiles, homission, ← hs.skippedFiles]
      rfl
  unfold RunScan.step at h
  split at h
  next hlarge =>
    rw [← Except.ok.inj h]
    exact homitted _ (if_pos hlarge) (if_pos hlarge)
  next hlarge =>
    split at h
    next => cases h
    next bytes hbytes =>
      rw [hexported _ _ hbytes] at h
      split at h
      next hdecode =>
        rw [← Except.ok.inj h]
        refine homitted _ ?_ ?_
        · rw [RetainedState.searchText, if_neg hlarge, hdecode]
        · rw [RetainedState.omission, if_neg hlarge, hdecode]
      next text hdecode =>
        split at h
        next hnul =>
          rw [← Except.ok.inj h]
          refine homitted _ ?_ ?_
          · rw [RetainedState.searchText, if_neg hlarge, hdecode]
            exact if_pos hnul
          · rw [RetainedState.omission, if_neg hlarge, hdecode]
            exact if_pos hnul
        next hnul =>
          have htext : state.searchText file = some (file, text) := by
            rw [RetainedState.searchText, if_neg hlarge, hdecode]
            exact if_neg hnul
          have homission : state.omission file = none := by
            rw [RetainedState.omission, if_neg hlarge, hdecode]
            exact if_neg hnul
          have hlines := length_fileHits q (file, text)
          rw [← Except.ok.inj h]
          refine ⟨?_, ?_, ?_, ?_, ?_⟩
          · rw [hfiles, htext, ← hs.texts]
            rfl
          · rw [hfiles, homission, Option.toList_none, List.append_nil]
            exact hs.skippedFiles
          · dsimp only
            rw [List.countP_append, ← hs.matchingFiles, ← hlines, List.countP_singleton]
            cases fileHits q (file, text) <;> simp
          · dsimp only
            rw [List.flatMap_append, List.length_append, ← hs.matchingLines, ← hlines,
              List.flatMap_singleton]
          · dsimp only
            rw [List.map_append, List.sum_append, ← hs.searchedBytes, List.map_singleton,
              List.sum_singleton]

/-- A match is behind the cursor when the loops do not skip its file and its line. -/
theorem searchRank_lt_iff {afterLine : ℤ} :
    searchRank (afterPath, afterLine) < found.rank ↔
      ¬lexicalCompare found.file.relativePath afterPath < 0 ∧
        ¬(lexicalCompare found.file.relativePath afterPath = 0 ∧
          (found.hit.line : ℤ) ≤ afterLine) := by
  rw [searchRank, RetentionRunMatch.rank, Prod.Lex.toLex_lt_toLex]
  dsimp only
  rcases lt_trichotomy (utf16Units found.file.relativePath) (utf16Units afterPath) with
    hlt | heq | hgt
  · have hcompare : lexicalCompare found.file.relativePath afterPath = -1 := if_pos hlt
    rw [hcompare]
    exact iff_of_false (fun h => h.elim (lt_asymm hlt) fun h => hlt.ne' h.1)
      fun h => h.1 (by decide)
  · have hcompare := lexicalCompare_eq_zero_iff.mpr (utf16Units_inj heq)
    rw [hcompare, heq, or_iff_right (lt_irrefl _), and_iff_right rfl, and_iff_right (by decide),
      and_iff_right rfl, not_le]
  · have hcompare : lexicalCompare found.file.relativePath afterPath = 1 := by
      rw [lexicalCompare, if_neg (lt_asymm hgt), if_pos hgt]
    rw [hcompare]
    exact iff_of_true (.inl hgt) ⟨by decide, fun h => absurd h.1 (by decide)⟩

/-- The loop over the lines of a file adds its matches behind the cursor. -/
theorem searchFile_eq {q : RunSearchQuery} {afterLine limit : ℤ}
    {fits : ℕ → List RetentionRunMatch → Bool} {s : Collected RetentionRunMatch} :
    searchFile q afterPath afterLine limit fits s source =
      ((fileHits q source).filter fun found =>
        searchRank (afterPath, afterLine) < found.rank).foldlM
        (Collected.push limit fits runHitTooLarge) s := by
  rw [searchFile]
  by_cases horder : lexicalCompare source.1.relativePath afterPath < 0
  · have hnone : ((fileHits q source).filter fun found =>
        decide (searchRank (afterPath, afterLine) < found.rank)) = [] := by
      rw [List.filter_eq_nil_iff]
      intro found hfound hlt
      rw [← file_of_mem_fileHits hfound] at horder
      exact (searchRank_lt_iff.mp (of_decide_eq_true hlt)).1 horder
    rw [hnone]
    exact if_pos horder
  · rw [if_neg horder, fileHits, List.filter_filterMap, List.foldlM_filterMap]
    refine Loop.foldlM_congr fun line _ s => ?_
    rw [searchLine]
    cases hhit : runHit q source.1 line with
    | none =>
      rw [ite_self]
      rfl
    | some found =>
      obtain ⟨hfile, hline⟩ := runHit_eq_some hhit
      have hrank : searchRank (afterPath, afterLine) < found.rank ↔
          ¬lexicalCompare found.file.relativePath afterPath < 0 ∧
            ¬(lexicalCompare found.file.relativePath afterPath = 0 ∧
              (found.hit.line : ℤ) ≤ afterLine) := searchRank_lt_iff
      rw [hfile, hline, and_iff_right horder] at hrank
      by_cases hskip : lexicalCompare source.1.relativePath afterPath = 0 ∧
          (line.2 + 1 : ℤ) ≤ afterLine
      · have hnot : ¬searchRank (afterPath, afterLine) < found.rank := by
          rw [hrank]
          exact_mod_cast not_not.mpr hskip
        rw [if_pos hskip, Option.filter_some, if_neg (by simpa using hnot)]
        rfl
      · have hlt : searchRank (afterPath, afterLine) < found.rank := by
          rw [hrank]
          exact_mod_cast hskip
        rw [if_neg hskip, Option.filter_some, if_pos (by simpa using hlt)]

/-- The loops over files and lines add all matches behind the cursor. -/
theorem searchFiles_eq {q : RunSearchQuery} {afterLine limit : ℤ}
    {fits : ℕ → List RetentionRunMatch → Bool} {texts : List (ScratchEntry × String)}
    {s : Collected RetentionRunMatch} :
    texts.foldlM (searchFile q afterPath afterLine limit fits) s =
      (behind RetentionRunMatch.rank (texts.flatMap (fileHits q))
        (searchRank (afterPath, afterLine))).foldlM
        (Collected.push limit fits runHitTooLarge) s := by
  rw [behind, List.filter_flatMap]
  induction texts generalizing s with
  | nil => rfl
  | cons source texts ih =>
    rw [List.foldlM_cons, List.flatMap_cons, List.foldlM_append, searchFile_eq]
    exact congrArg _ (funext fun next => ih)

/-! ## The pages -/

/-- An answer to a call at a cursor, while the host holds a state. -/
def RunSearchAnswer (crypto : Crypto) (lib : RetentionLibrary τ) (config : Deployment)
    (state : RetainedState) (q : RunSearchQuery) (cursor : String × ℤ)
    (page : RetentionRunSearch) : Prop :=
  ∃ host limit, state.Agrees host ∧
    searchRetainedRun crypto lib host q config cursor.1 cursor.2 limit = .ok page

/-- The totals of a page are those of the whole state. -/
structure SearchTotals (state : RetainedState) (q : RunSearchQuery) (page : RetentionRunSearch) :
    Prop where
  selectedFiles : page.selectedFiles = (state.selected q).length
  searchedFiles : page.searchedFiles = (state.texts q).length
  searchedBytes : page.searchedBytes = ((state.texts q).map fun source => source.1.sizeBytes).sum
  matchingFiles :
    page.matchingFiles = (state.texts q).countP fun source => !(fileHits q source).isEmpty
  matchingLines : page.matchingLines = (state.hits q).length
  skippedFiles : page.skippedFiles = (state.selected q).filterMap state.omission

/-- The items behind a cursor of the search. -/
def RetainedState.hitsBehind (state : RetainedState) (q : RunSearchQuery) (cursor : String × ℤ) :
    List RetentionRunMatch :=
  behind RetentionRunMatch.rank (state.hits q) (searchRank cursor)

/-- The scan has found what the files hold. -/
theorem runScan_of {crypto : Crypto} {lib : RetentionLibrary τ} {host : BundleReading}
    {state : RetainedState} {q : RunSearchQuery} {config : Deployment} {files : List ScratchEntry}
    {afterLine : ℤ} {valid : Bool} {s : RunScan} (hhost : state.Agrees host)
    (h : files.foldlM (RunScan.step q (exportRetainedArtifact crypto lib host q.binding config)
      afterPath afterLine) ⟨[], [], 0, 0, 0, valid⟩ = .ok s) : s.Of state q files :=
  Loop.holds_of_foldlM (fun files (s : RunScan) => s.Of state q files)
    ⟨rfl, rfl, rfl, rfl, rfl⟩ (fun _ _ _ _ _ hs hround => hs.step
      (fun _ _ hexport => exportRetainedArtifact_eq_some hhost hexport) hround) h

/-- What an answer is: the page behind its cursor, with the totals of the state. -/
theorem searchRetainedRun_eq_ok {crypto : Crypto} {lib : RetentionLibrary τ} {host : BundleReading}
    {state : RetainedState} {q : RunSearchQuery} {config : Deployment}
    {afterLine limit : ℤ} {page : RetentionRunSearch} (hhost : state.Agrees host)
    (h : searchRetainedRun crypto lib host q config afterPath afterLine limit = .ok page) :
    DistinctPaths state.record.reviewableFiles ∧ SearchTotals state q page ∧
      runSearchView.IsPage (state.hitsBehind q) (afterPath, afterLine) page ∧
      (page.hits.length : ℤ) ≤ limit ∧
      (utf8Length page.toJson.stringify : ℤ) + 1 ≤ config.limits.maxProtocolBytes := by
  rw [searchRetainedRun, Loop.guard_eq_ok_iff] at h
  obtain ⟨hvalid, h⟩ := h
  split at h
  next => cases h
  next record hrecord =>
    obtain ⟨hmanifest, hpaths⟩ := boundArtifactRecord_manifest hrecord
    obtain rfl := hhost.record record hmanifest
    obtain ⟨-, h⟩ := Loop.guard_eq_ok_iff.mp h
    obtain ⟨-, h⟩ := Loop.guard_eq_ok_iff.mp h
    obtain ⟨scan, hscan, h⟩ := Loop.bind_eq_ok_iff.mp h
    obtain ⟨-, h⟩ := Loop.guard_eq_ok_iff.mp h
    obtain ⟨-, h⟩ := Loop.guard_eq_ok_iff.mp h
    obtain ⟨s, hloop, h⟩ := Loop.bind_eq_ok_iff.mp h
    obtain ⟨-, h⟩ := Loop.guard_eq_ok_iff.mp h
    obtain ⟨hsize, h⟩ := Loop.guard_eq_ok_iff.mp h
    have hof := runScan_of hhost hscan
    have htexts : scan.texts = state.texts q := hof.texts
    have hlimit : 0 < limit := by
      simp only [runSearchValid, Bool.not_eq_false, Bool.and_eq_true, decide_eq_true_eq] at hvalid
      omega
    rw [searchFiles_eq, htexts] at hloop
    obtain ⟨hpending, hfit⟩ := collected_eq_ok hlimit hloop
    rw [← Except.ok.inj h]
    refine ⟨hpaths, ⟨rfl, ?_, ?_, ?_, ?_, hof.skippedFiles⟩, ?_, hfit.length_le, ?_⟩
    · exact congrArg List.length htexts
    · exact hof.searchedBytes.trans (by rw [htexts])
    · exact hof.matchingFiles.trans (by rw [htexts])
    · exact hof.matchingLines.trans (by rw [htexts]; rfl)
    · refine isPage_of_fitting (pairwise_hits hpaths q) hfit (fun hnil => ?_) ?_ ?_
      · change s.kept = [] at hnil
        simp only [runSearchView, runResponse, hnil]
        rfl
      · intro front last hitems
        change s.kept = front ++ [last] at hitems
        simp only [runSearchView, runResponse, hitems, List.getLast?_concat]
        rfl
      · exact decide_eq_true_iff.trans (by rw [hpending]; rfl)
    · rw [Bool.not_eq_false, withinBudget] at hsize
      exact of_decide_eq_true hsize

/-- The cursor at the start is in front of all matches. -/
theorem hitsBehind_start {state : RetainedState}
    (hpaths : DistinctPaths state.record.reviewableFiles) (q : RunSearchQuery) :
    state.hitsBehind q ("", 0) = state.hits q := by
  rw [RetainedState.hitsBehind, behind, List.filter_eq_self]
  intro found hfound
  obtain ⟨source, hsource, hmem⟩ := List.mem_flatMap.mp hfound
  obtain ⟨file, hfile, htext⟩ := List.mem_filterMap.mp hsource
  have hselected := (sortByPath_perm _).mem_iff.mp hfile
  have hpath : found.file.relativePath ≠ "" := by
    rw [file_of_mem_fileHits hmem, searchText_eq_some htext]
    exact (hpaths.filter q.selects).nonempty file hselected
  have hunits : utf16Units found.file.relativePath ≠ [] :=
    fun hnil => hpath (utf16Units_inj (hnil.trans rfl))
  rw [decide_eq_true_eq, searchRank, RetentionRunMatch.rank, Prod.Lex.toLex_lt_toLex]
  refine .inl ?_
  obtain ⟨unit, rest, hcons⟩ := List.exists_cons_of_ne_nil hunits
  dsimp only
  rw [hcons]
  exact List.nil_lt_cons unit rest

/-- The lines that match: the number of a line of a searched file in which the query occurs. -/
def RetainedState.Matches (state : RetainedState) (q : RunSearchQuery) (file : ScratchEntry)
    (number : ℕ) : Prop :=
  ∃ text line, (file ∈ state.record.reviewableFiles ∧ q.selects file = true ∧
      file.sizeBytes ≤ 1048576 ∧ decodeText (state.content file.relativePath) = some text ∧
      containsText text "\x00" = false) ∧
    0 < number ∧ (runLines text)[number - 1]? = some line ∧
      utf16Units q.needle <:+: utf16Units (q.searchable line)

/-- The searched texts are those of the selected files that decode. -/
theorem mem_texts_iff {state : RetainedState} {q : RunSearchQuery}
    {text : String} : (file, text) ∈ state.texts q ↔
      file ∈ state.record.reviewableFiles ∧ q.selects file = true ∧ file.sizeBytes ≤ 1048576 ∧
        decodeText (state.content file.relativePath) = some text ∧
        containsText text "\x00" = false := by
  have hsearch : state.searchText file = some (file, text) ↔ file.sizeBytes ≤ 1048576 ∧
      decodeText (state.content file.relativePath) = some text ∧
      containsText text "\x00" = false := by
    rw [RetainedState.searchText]
    by_cases hlarge : 1048576 < file.sizeBytes
    · rw [if_pos hlarge]
      exact iff_of_false nofun fun h => absurd hlarge (not_lt.mpr h.1)
    · rw [if_neg hlarge, and_iff_right (not_lt.mp hlarge)]
      cases hdecode : decodeText (state.content file.relativePath) with
      | none => exact iff_of_false nofun fun h => nomatch h.1
      | some found =>
        dsimp only
        by_cases hnul : containsText found "\x00" = true
        · rw [if_pos hnul]
          refine iff_of_false nofun fun h => ?_
          rw [← Option.some.inj h.1, hnul] at h
          cases h.2
        · rw [if_neg hnul]
          constructor
          · intro h
            cases h
            exact ⟨rfl, by simpa using hnul⟩
          · rintro ⟨h, -⟩
            rw [Option.some.inj h]
  rw [RetainedState.texts, List.mem_filterMap]
  constructor
  · rintro ⟨other, hother, htext⟩
    obtain rfl := searchText_eq_some htext
    obtain ⟨hmem, hselects⟩ := List.mem_filter.mp ((sortByPath_perm _).mem_iff.mp hother)
    exact ⟨hmem, hselects, hsearch.mp htext⟩
  · rintro ⟨hmem, hselects, hrest⟩
    exact ⟨file, (sortByPath_perm _).mem_iff.mpr (List.mem_filter.mpr ⟨hmem, hselects⟩),
      hsearch.mpr hrest⟩

/-- The matches are the lines that match. -/
theorem mem_hits_iff {state : RetainedState} {q : RunSearchQuery}
    {number : ℕ} : (∃ found ∈ state.hits q, found.file = file ∧ found.hit.line = number) ↔
      state.Matches q file number := by
  have hfound : ∀ {line : String}, (q.find line).isSome = true ↔
      utf16Units q.needle <:+: utf16Units (q.searchable line) := findUnits_isSome_iff
  constructor
  · rintro ⟨found, hmem, rfl, rfl⟩
    obtain ⟨⟨file, text⟩, hsource, hhit⟩ := List.mem_flatMap.mp hmem
    obtain ⟨line, i, hline, hrun⟩ := mem_fileHits_iff.mp hhit
    obtain ⟨hfile, hnumber⟩ := runHit_eq_some hrun
    have hsome : (q.find line).isSome = true := by
      rw [← Option.isSome_map (f := fun position => (⟨file, retainedSearchExcerpt
        (stripReturn line) position (utf16Length q.query) (i + 1)⟩ : RetentionRunMatch))]
      exact Option.isSome_of_eq_some hrun
    rw [hfile, hnumber]
    exact ⟨text, line, mem_texts_iff.mp hsource, Nat.succ_pos _, hline, hfound.mp hsome⟩
  · rintro ⟨text, line, hfile, hpos, hline, hmatch⟩
    obtain ⟨position, hposition⟩ := Option.isSome_iff_exists.mp (hfound.mpr hmatch)
    have hrun : runHit q file (line, number - 1) = some ⟨file, retainedSearchExcerpt
        (stripReturn line) position (utf16Length q.query) (number - 1 + 1)⟩ := by
      rw [runHit, hposition, Option.map_some]
    refine ⟨_, List.mem_flatMap.mpr ⟨(file, text), mem_texts_iff.mpr hfile,
      mem_fileHits_iff.mpr ⟨line, number - 1, hline, hrun⟩⟩, rfl, ?_⟩
    exact Nat.sub_add_cancel hpos

/-- The pages of a search that are read one after another, each from the cursor of the last one
on, are the first matches in the order of path and line, and all of them once there are no more.
Every page has the same totals, of the whole state, advances unless it is the last one, and fits
the protocol limit. The matches are the lines of the searchable files in which the query
occurs. -/
theorem run_search_complete (crypto : Crypto) (lib : RetentionLibrary τ) (config : Deployment)
    (state : RetainedState) (q : RunSearchQuery) :
    (∀ cursor pages,
      Follows runSearchView (RunSearchAnswer crypto lib config state q) ("", 0) cursor pages →
      (pages.flatMap RetentionRunSearch.hits <+: state.hits q) ∧
        (pages.filter RetentionRunSearch.hasMore).length ≤ (state.hits q).length ∧
        ∀ page ∈ pages, SearchTotals state q page ∧
          (page.hasMore = true → page.hits ≠ []) ∧
          (utf8Length page.toJson.stringify : ℤ) ≤ config.limits.maxProtocolBytes ∧
          (page.hasMore = false → pages.flatMap RetentionRunSearch.hits = state.hits q ∧
            page.matchingLines = (pages.flatMap RetentionRunSearch.hits).length) ∧
          (state.hits q).Pairwise fun a b => a.rank < b.rank) ∧
    ∀ file number, (∃ found ∈ state.hits q, found.file = file ∧ found.hit.line = number) ↔
      state.Matches q file number := by
  refine ⟨fun cursor pages h => ?_, fun file number => mem_hits_iff⟩
  have hreads : ReadsAll runSearchView (state.hitsBehind q) ("", 0) cursor pages :=
    h.readsAll fun cursor page ⟨host, limit, hhost, hpage⟩ =>
      (searchRetainedRun_eq_ok hhost hpage).2.2.1
  have hanswers : ∀ page ∈ pages, DistinctPaths state.record.reviewableFiles ∧
      SearchTotals state q page ∧
      (utf8Length page.toJson.stringify : ℤ) + 1 ≤ config.limits.maxProtocolBytes := by
    intro page hpage
    obtain ⟨cursor, host, limit, hhost, hanswer⟩ := h.answered page hpage
    obtain ⟨hpaths, htotals, -, -, hsize⟩ := searchRetainedRun_eq_ok hhost hanswer
    exact ⟨hpaths, htotals, hsize⟩
  have hstart : ∀ page ∈ pages, state.hitsBehind q ("", 0) = state.hits q :=
    fun page hpage => hitsBehind_start (hanswers page hpage).1 q
  have hread : pages.flatMap RetentionRunSearch.hits ++ state.hitsBehind q cursor =
      state.hitsBehind q ("", 0) := hreads.read
  refine ⟨?_, ?_, fun page hpage => ?_⟩
  · cases pages with
    | nil => exact List.nil_prefix
    | cons page pages =>
      rw [← hstart page List.mem_cons_self, ← hread]
      exact List.prefix_append _ _
  · exact hreads.count_le.trans (List.length_filter_le _ _)
  · obtain ⟨hpaths, htotals, hsize⟩ := hanswers page hpage
    refine ⟨htotals, hreads.progress page hpage, by omega, fun hmore => ?_, pairwise_hits hpaths q⟩
    have hall : pages.flatMap RetentionRunSearch.hits = state.hits q :=
      (hreads.complete hpage hmore).trans (hstart page hpage)
    exact ⟨hall, by rw [hall, htotals.matchingLines]⟩

/-! ## A sample -/

/-- A search whose parts succeed answers their page. -/
theorem searchRetainedRun_of_parts {crypto : Crypto} {lib : RetentionLibrary τ}
    {host : BundleReading} {q : RunSearchQuery} {config : Deployment} {afterPath : String}
    {afterLine limit : ℤ} {record : RetentionRecord} {files : List ScratchEntry} {scan : RunScan}
    {s : Collected RetentionRunMatch} (hvalid : runSearchValid q afterPath afterLine limit = true)
    (hfirst : boundArtifactRecord lib host.first q.binding config = some record)
    (hfiles : sortByPath (record.reviewableFiles.filter q.selects) = files)
    (hfew : ¬128 < files.length) (hsmall : ¬8388608 < (files.map fun file =>
      if file.sizeBytes ≤ 1048576 then file.sizeBytes else 0).sum)
    (hscan : files.foldlM
      (RunScan.step q (exportRetainedArtifact crypto lib host q.binding config) afterPath afterLine)
      ⟨[], [], 0, 0, 0, decide (afterPath = "")⟩ = .ok scan)
    (hcursor : scan.cursorValid = true)
    (hempty : withinBudget config 64
      (runResponse q files.length scan afterPath afterLine 0 []).toJson = true)
    (hloop : scan.texts.foldlM (searchFile q afterPath afterLine limit fun pending hits =>
      withinBudget config 64
        (runResponse q files.length scan afterPath afterLine pending hits).toJson) .empty = .ok s)
    (hlast : boundArtifactRecord lib host.last q.binding config = some record)
    (hfits : withinBudget config 1
      (runResponse q files.length scan afterPath afterLine s.pending s.kept).toJson = true) :
    searchRetainedRun crypto lib host q config afterPath afterLine limit =
      .ok (runResponse q files.length scan afterPath afterLine s.pending s.kept) := by
  unfold searchRetainedRun
  rw [if_neg (by rw [hvalid]; decide), hfirst]
  dsimp only
  rw [hfiles, if_neg hfew, if_neg hsmall, Loop.bind_eq_ok_iff]
  refine ⟨scan, hscan, ?_⟩
  rw [if_neg (by rw [hcursor]; decide), if_neg (by rw [hempty]; decide), Loop.bind_eq_ok_iff]
  exact ⟨s, hloop, by rw [hlast, if_neg (not_not.mpr rfl), if_neg (by rw [hfits]; decide)]⟩

/-- The bytes of a file of three lines. -/
def sampleRunBytes : List UInt8 := [111, 107, 10, 45, 10, 79, 75, 10]

/-- The file as it is retained. -/
def sampleRunFile : ScratchEntry :=
  ⟨"out.txt", .regularFile, 8, "73e25bc93d3de1e8bb2210adab51b78b34b0f9909c791ad2c103ac4353f699a0"⟩

/-- SHA-256 on the file. -/
def sampleRunCrypto : Crypto where
  sha256 := Crypto.tabled [(sampleRunBytes,
    [115, 226, 91, 201, 61, 61, 225, 232, 187, 34, 16, 173, 171, 81, 183, 139, 52, 176, 249, 144,
      156, 121, 26, 210, 193, 3, 172, 67, 83, 246, 153, 160])]
  hmac _ := Crypto.tabled []

/-- The record of the file. -/
def sampleRunRecord : RetentionRecord :=
  { sampleBundleRecord with reviewableFiles := [sampleRunFile] }

/-- The record as a host answers it. -/
def sampleRunReading : RecordReading :=
  { sampleBundleReading with manifest := some sampleRunRecord }

/-- A host that answers the same throughout the search. -/
def sampleRunHost : BundleReading :=
  ⟨sampleRunReading, fun _ => ⟨sampleRunReading, some sampleRunBytes, sampleRunReading⟩,
    sampleRunReading⟩

/-- The state of the record and its file. -/
def sampleRunState : RetainedState where
  record := sampleRunRecord
  content _ := sampleRunBytes

/-- The sample query. -/
def sampleRunQuery : RunSearchQuery := ⟨sampleBundleBinding, "O", true, "", ""⟩

/-- What is known of the sample file after it is read. -/
def sampleRunScan : RunScan := ⟨[(sampleRunFile, "ok\n-\nOK\n")], [], 1, 2, 8, true⟩

/-- A match in the sample file. -/
def sampleRunHit (number : ℕ) (excerpt : String) : RetentionRunMatch :=
  ⟨sampleRunFile, ⟨number, excerpt, false, false⟩⟩

/-- The page of the match in the first line. -/
def sampleRunFirstPage : RetentionRunSearch :=
  runResponse sampleRunQuery 1 sampleRunScan "" 0 2 [sampleRunHit 1 "ok"]

/-- The page of the match in the third line. -/
def sampleRunLastPage : RetentionRunSearch :=
  runResponse sampleRunQuery 1 sampleRunScan "out.txt" 1 1 [sampleRunHit 3 "OK"]

/-- A short answer is within the budget of the sample deployment. -/
theorem withinBudget_sample {reserve : ℤ} (hreserve : reserve ≤ 64) {json : Json}
    (hsize : json.size ≤ 1000) : withinBudget sampleDeployment reserve json = true := by
  rw [withinBudget, utf8Length_stringify, decide_eq_true_eq]
  have hlimit : sampleDeployment.limits.maxProtocolBytes = 4096 := rfl
  omega

/-- The record is the one that the binding names. -/
theorem sampleRun_record : boundArtifactRecord sampleRetentionLibrary sampleRunReading
    sampleBundleBinding sampleDeployment = some sampleRunRecord :=
  sampleBundle_record_of (by decide)

/-- The file is exported. -/
theorem sampleRun_exported : exportRetainedArtifact sampleRunCrypto sampleRetentionLibrary
    sampleRunHost sampleRunQuery.binding sampleDeployment "out.txt" = some sampleRunBytes := by
  have hdigest : sampleRunCrypto.digest sampleRunBytes = sampleRunFile.fingerprint := by
    decide
  have hread : readScratchArtifact sampleRunCrypto (some sampleRunBytes) sampleRunRecord.scratchPath
      sampleRunFile (retainedArtifactByteLimit sampleDeployment) = some sampleRunBytes :=
    readScratchArtifact_of_digest rfl (by decide) rfl hdigest
  have hverified : verifiedRetainedArtifact sampleRunCrypto sampleRetentionLibrary
      (sampleRunHost.artifact "out.txt") sampleBundleBinding "out.txt" sampleDeployment =
        some (sampleRunRecord, sampleRunFile, sampleRunBytes) :=
    verifiedRetainedArtifact_of_read (by decide) sampleRun_record (by decide) hread
      sampleRun_record
  have hbinding : sampleRunQuery.binding = sampleBundleBinding := rfl
  rw [exportRetainedArtifact, hbinding, hverified]
  rfl

/-- The file is read, wherever the search goes on in it. -/
theorem sampleRun_scan {afterPath : String} {afterLine : ℤ}
    (hcursor : (afterPath = "" ∧ afterLine = 0) ∨ (afterPath = "out.txt" ∧ afterLine = 1)) :
    [sampleRunFile].foldlM (RunScan.step sampleRunQuery (exportRetainedArtifact sampleRunCrypto
      sampleRetentionLibrary sampleRunHost sampleRunQuery.binding sampleDeployment) afterPath
      afterLine) ⟨[], [], 0, 0, 0, decide (afterPath = "")⟩ = .ok sampleRunScan := by
  have hdecode : decodeText sampleRunBytes = some "ok\n-\nOK\n" := by decide
  have hnul : ¬containsText "ok\n-\nOK\n" "\x00" = true := by decide
  have hlines : runLines "ok\n-\nOK\n" = ["ok", "-", "OK"] := by decide
  have hcount : (["ok", "-", "OK"].countP fun line => (sampleRunQuery.find line).isSome) = 2 := by
    decide
  have hpath : sampleRunFile.relativePath = "out.txt" := rfl
  rw [List.foldlM_cons, RunScan.step, if_neg (by decide), hpath, sampleRun_exported]
  dsimp only
  rw [hdecode]
  dsimp only
  rw [if_neg hnul, hlines, hcount]
  rcases hcursor with ⟨rfl, rfl⟩ | ⟨rfl, rfl⟩
  · rfl
  · rfl

/-- The matches in the lines of the file. -/
theorem sampleRun_hits : (runLines "ok\n-\nOK\n").zipIdx = [("ok", 0), ("-", 1), ("OK", 2)] ∧
    runHit sampleRunQuery sampleRunFile ("ok", 0) = some (sampleRunHit 1 "ok") ∧
    runHit sampleRunQuery sampleRunFile ("-", 1) = none ∧
    runHit sampleRunQuery sampleRunFile ("OK", 2) = some (sampleRunHit 3 "OK") := by
  refine ⟨?_, ?_, ?_, ?_⟩ <;> decide

/-- What a search of one match a page needs to answer a page of the sample. -/
theorem sampleRun_answer {afterPath : String} {afterLine : ℤ} {s : Collected RetentionRunMatch}
    (hcursor : (afterPath = "" ∧ afterLine = 0) ∨ (afterPath = "out.txt" ∧ afterLine = 1))
    (hvalid : runSearchValid sampleRunQuery afterPath afterLine 1 = true)
    (hempty : (runResponse sampleRunQuery 1 sampleRunScan afterPath afterLine 0 []).toJson.size ≤
      1000)
    (hloop : sampleRunScan.texts.foldlM (searchFile sampleRunQuery afterPath afterLine 1
      fun pending hits => withinBudget sampleDeployment 64
        (runResponse sampleRunQuery 1 sampleRunScan afterPath afterLine pending hits).toJson)
      .empty = .ok s)
    (hsize : (runResponse sampleRunQuery 1 sampleRunScan afterPath afterLine s.pending
      s.kept).toJson.size ≤ 1000) :
    RunSearchAnswer sampleRunCrypto sampleRetentionLibrary sampleDeployment sampleRunState
      sampleRunQuery (afterPath, afterLine)
      (runResponse sampleRunQuery 1 sampleRunScan afterPath afterLine s.pending s.kept) := by
  have hagrees : sampleRunState.Agrees sampleRunHost :=
    ⟨fun record h => (Option.some.inj h).symm, fun path bytes h => (Option.some.inj h).symm⟩
  have hfiles : sortByPath (sampleRunRecord.reviewableFiles.filter sampleRunQuery.selects) =
      [sampleRunFile] := by decide +kernel
  have hfirst : boundArtifactRecord sampleRetentionLibrary sampleRunHost.first
      sampleRunQuery.binding sampleDeployment = some sampleRunRecord := sampleRun_record
  have hlast : boundArtifactRecord sampleRetentionLibrary sampleRunHost.last
      sampleRunQuery.binding sampleDeployment = some sampleRunRecord := sampleRun_record
  exact ⟨sampleRunHost, 1, hagrees, searchRetainedRun_of_parts hvalid hfirst hfiles (by decide)
    (by decide) (sampleRun_scan hcursor) rfl (withinBudget_sample (by decide) hempty) hloop hlast
    (withinBudget_sample (by decide) hsize)⟩

/-- The first match is kept, and the other one is counted. -/
theorem sampleRun_collectFirst {fits : ℕ → List RetentionRunMatch → Bool}
    (hfits : fits 1 [sampleRunHit 1 "ok"] = true) :
    sampleRunScan.texts.foldlM (searchFile sampleRunQuery "" 0 1 fits) .empty =
      .ok ⟨[sampleRunHit 1 "ok"], 2, true⟩ := by
  obtain ⟨hlines, hfirst, hnone, hlast⟩ := sampleRun_hits
  have horder : lexicalCompare sampleRunFile.relativePath "" = 1 := by decide
  have hkeep : searchLine sampleRunQuery 1 0 1 fits sampleRunFile .empty ("ok", 0) =
      .ok ⟨[sampleRunHit 1 "ok"], 1, false⟩ := by
    unfold searchLine
    rw [if_neg (by decide), hfirst]
    dsimp only [Collected.push, Collected.empty]
    rw [if_neg (by decide), if_neg (by simp [hfits])]
    rfl
  have hskip : searchLine sampleRunQuery 1 0 1 fits sampleRunFile
      ⟨[sampleRunHit 1 "ok"], 1, false⟩ ("-", 1) = .ok ⟨[sampleRunHit 1 "ok"], 1, false⟩ := by
    unfold searchLine
    rw [if_neg (by decide), hnone]
  have hcount : searchLine sampleRunQuery 1 0 1 fits sampleRunFile
      ⟨[sampleRunHit 1 "ok"], 1, false⟩ ("OK", 2) = .ok ⟨[sampleRunHit 1 "ok"], 2, true⟩ := by
    unfold searchLine
    rw [if_neg (by decide), hlast]
    dsimp only [Collected.push]
    rw [if_neg (by decide), if_pos (.inl (by decide))]
    rfl
  have hfile : searchFile sampleRunQuery "" 0 1 fits .empty (sampleRunFile, "ok\n-\nOK\n") =
      .ok ⟨[sampleRunHit 1 "ok"], 2, true⟩ := by
    unfold searchFile
    rw [horder, if_neg (by decide), hlines, List.foldlM_cons, hkeep]
    exact Loop.bind_eq_ok_iff.mpr ⟨_, rfl, Loop.bind_eq_ok_iff.mpr ⟨_, hskip,
      Loop.bind_eq_ok_iff.mpr ⟨_, hcount, rfl⟩⟩⟩
  exact Loop.bind_eq_ok_iff.mpr ⟨_, hfile, rfl⟩

/-- Behind the first match only the other one is found. -/
theorem sampleRun_collectLast {fits : ℕ → List RetentionRunMatch → Bool}
    (hfits : fits 1 [sampleRunHit 3 "OK"] = true) :
    sampleRunScan.texts.foldlM (searchFile sampleRunQuery "out.txt" 1 1 fits) .empty =
      .ok ⟨[sampleRunHit 3 "OK"], 1, false⟩ := by
  obtain ⟨hlines, -, hnone, hlast⟩ := sampleRun_hits
  have horder : lexicalCompare sampleRunFile.relativePath "out.txt" = 0 := by decide
  have hbefore : searchLine sampleRunQuery 0 1 1 fits sampleRunFile .empty ("ok", 0) =
      .ok .empty := if_pos (by decide)
  have hskip : searchLine sampleRunQuery 0 1 1 fits sampleRunFile .empty ("-", 1) =
      .ok .empty := by
    unfold searchLine
    rw [if_neg (by decide), hnone]
  have hkeep : searchLine sampleRunQuery 0 1 1 fits sampleRunFile .empty ("OK", 2) =
      .ok ⟨[sampleRunHit 3 "OK"], 1, false⟩ := by
    unfold searchLine
    rw [if_neg (by decide), hlast]
    dsimp only [Collected.push, Collected.empty]
    rw [if_neg (by decide), if_neg (by simp [hfits])]
    rfl
  have hfile : searchFile sampleRunQuery "out.txt" 1 1 fits .empty
      (sampleRunFile, "ok\n-\nOK\n") = .ok ⟨[sampleRunHit 3 "OK"], 1, false⟩ := by
    unfold searchFile
    rw [horder, if_neg (by decide), hlines, List.foldlM_cons, hbefore]
    exact Loop.bind_eq_ok_iff.mpr ⟨_, rfl, Loop.bind_eq_ok_iff.mpr ⟨_, hskip,
      Loop.bind_eq_ok_iff.mpr ⟨_, hkeep, rfl⟩⟩⟩
  exact Loop.bind_eq_ok_iff.mpr ⟨_, hfile, rfl⟩

/-- The answers of the sample are short. -/
theorem sampleRun_sizes :
    (runResponse sampleRunQuery 1 sampleRunScan "" 0 0 []).toJson.size ≤ 1000 ∧
      (runResponse sampleRunQuery 1 sampleRunScan "" 0 1 [sampleRunHit 1 "ok"]).toJson.size ≤ 1000 ∧
      (runResponse sampleRunQuery 1 sampleRunScan "" 0 2 [sampleRunHit 1 "ok"]).toJson.size ≤ 1000 ∧
      (runResponse sampleRunQuery 1 sampleRunScan "out.txt" 1 0 []).toJson.size ≤ 1000 ∧
      (runResponse sampleRunQuery 1 sampleRunScan "out.txt" 1 1 [sampleRunHit 3 "OK"]).toJson.size ≤
        1000 := by
  refine ⟨?_, ?_, ?_, ?_, ?_⟩
  all_goals
    rw [Json.size, runResponse, RetentionRunSearch.toJson]
    dsimp only [sampleRunQuery, sampleRunScan, sampleBundleBinding, sampleRunHit, sampleRunFile,
      RetentionArtifactBinding.toJson, RetentionRunMatch.toJson, RetentionTextMatch.toJson,
      scratchEntryJson, scratchEntryKindJson, List.map, Json.chars, memberChars, itemChars]
    repeat rw [quotedChars_ofList]
    decide +kernel

/-- The first page is answered from the start on. -/
theorem sampleRun_first : RunSearchAnswer sampleRunCrypto sampleRetentionLibrary sampleDeployment
    sampleRunState sampleRunQuery ("", 0) sampleRunFirstPage := by
  obtain ⟨hempty, hone, htwo, -⟩ := sampleRun_sizes
  have hfits : withinBudget sampleDeployment 64
      (runResponse sampleRunQuery 1 sampleRunScan "" 0 1 [sampleRunHit 1 "ok"]).toJson = true :=
    withinBudget_sample (by decide) hone
  exact sampleRun_answer (.inl ⟨rfl, rfl⟩) (by decide) hempty
    (sampleRun_collectFirst hfits) htwo

/-- The last page is answered from the cursor of the first one on. -/
theorem sampleRun_last : RunSearchAnswer sampleRunCrypto sampleRetentionLibrary sampleDeployment
    sampleRunState sampleRunQuery ("out.txt", 1) sampleRunLastPage := by
  obtain ⟨-, -, -, hempty, hsize⟩ := sampleRun_sizes
  exact sampleRun_answer (.inr ⟨rfl, rfl⟩) (by decide) hempty
    (sampleRun_collectLast (withinBudget_sample (by decide) hsize)) hsize

/-- The two pages, one after the other. -/
theorem sampleRun_pages : Follows runSearchView (RunSearchAnswer sampleRunCrypto
    sampleRetentionLibrary sampleDeployment sampleRunState sampleRunQuery) ("", 0) ("out.txt", 3)
    [sampleRunFirstPage, sampleRunLastPage] := by
  have hfirst : Follows runSearchView (RunSearchAnswer sampleRunCrypto sampleRetentionLibrary
      sampleDeployment sampleRunState sampleRunQuery) ("", 0)
      (runSearchView.next sampleRunFirstPage) [sampleRunFirstPage] := .page .start sampleRun_first
  have hnext : runSearchView.next sampleRunFirstPage = ("out.txt", 1) := rfl
  have hend : runSearchView.next sampleRunLastPage = ("out.txt", 3) := rfl
  rw [hnext] at hfirst
  rw [← hend]
  exact hfirst.page sampleRun_last

/-- Two pages of one match each are all matches of the search. -/
theorem run_search_complete_sample :
    Follows runSearchView (RunSearchAnswer sampleRunCrypto sampleRetentionLibrary sampleDeployment
      sampleRunState sampleRunQuery) ("", 0) ("out.txt", 3)
      [sampleRunFirstPage, sampleRunLastPage] ∧
    [sampleRunFirstPage, sampleRunLastPage].flatMap RetentionRunSearch.hits =
      RetainedState.hits sampleRunState sampleRunQuery := by
  obtain ⟨-, -, hpages⟩ := (run_search_complete sampleRunCrypto sampleRetentionLibrary
    sampleDeployment sampleRunState sampleRunQuery).1 _ _ sampleRun_pages
  obtain ⟨-, -, -, hall, -⟩ := hpages sampleRunLastPage
    (List.mem_cons_of_mem _ List.mem_cons_self)
  exact ⟨sampleRun_pages, (hall rfl).1⟩

end Moonfort.Executor
