import Mathlib
import Moonfort.JsonGrammar
import Moonfort.LinkedMap
import Moonfort.MoonBit.JsonString

/-!
# Reading retained JSON exactly

The reader that goes over a text once more after the standard parser has accepted it, to
keep the spelling of the numbers and to refuse repeated keys. It stays in step with the
grammar: on a text that the grammar derives it reads the derived value and no further.
-/

namespace Moonfort.Executor

open JsonGrammar

/-! ## The standard library -/

/-- The library's JSON: its parser, what it makes of the characters of a string and of the
spelling of a number, and how it writes a number that has no spelling of its own. -/
structure StandardJson (σ ν : Type) where
  parse : List Char → Option (JsonTree σ ν)
  unescape : List Char → σ
  reading : String → ν
  spell : ν → String

/-- The library accepts the JSON texts and no others, and returns the value of a text
without repeated keys. -/
structure StandardJson.Conforms {σ ν : Type} (lib : StandardJson σ ν) : Prop where
  accepts : ∀ {text tree}, Document lib.unescape text tree → (lib.parse text).isSome
  returns : ∀ {text result}, lib.parse text = some result →
    ∃ tree, Document lib.unescape text tree ∧
      (tree.Distinct → result = tree.mapNumbers lib.reading)

/-! ## The reader -/

/-- How reading fails: at an index outside the text, as the library does, or with a message.
The model can also run out of steps. -/
inductive JsonFault where
  | outOfBounds
  | invalid
  | failed (message : String)
  | exhausted
  deriving DecidableEq

/-- `Number(value, repr~)`. -/
structure ExactNumber (ν : Type) where
  value : ν
  repr : Option String
  deriving DecidableEq

/-- `RetainedJsonReader`, with the characters from `position` on. -/
structure RetainedJsonReader where
  chars : List Char
  values : ℕ
  deriving DecidableEq

variable {σ ν : Type}

/-- `RetainedJsonReader::space`. -/
def space (chars : List Char) : List Char := chars.dropWhile isSpace

/-- The loop of `RetainedJsonReader::string`: the token from its second character on, and
what is left. The character after a backslash is taken as it is. -/
def scanString : (taken : Bool) → List Char → Except JsonFault (List Char × List Char)
  | true, [] => .error .outOfBounds
  | false, [] => .ok ([], [])
  | true, c :: rest => (scanString false rest).map fun scanned => (c :: scanned.1, scanned.2)
  | false, c :: rest =>
    if c = '\\' then (scanString true rest).map fun scanned => (c :: scanned.1, scanned.2)
    else if c = '"' then .ok ([c], rest)
    else (scanString false rest).map fun scanned => (c :: scanned.1, scanned.2)

/-- `RetainedJsonReader::string`. -/
def readString (lib : StandardJson σ ν) (chars : List Char) : Except JsonFault (σ × List Char) :=
  match scanString false (chars.drop 1) with
  | .error fault => .error fault
  | .ok (token, rest) =>
    match lib.parse ('"' :: token) with
    | some (.string value) => .ok (value, rest)
    | some _ => .error (.failed "invalid JSON string")
    | none => .error .invalid

/-- The characters that end a number or a name. -/
def isDelimiter (c : Char) : Bool := isSpace c || c == ',' || c == '\x7d' || c == ']'

/-- The last case of `RetainedJsonReader::value`. -/
def readScalar (lib : StandardJson σ ν) (chars : List Char) :
    Except JsonFault (JsonTree σ (ExactNumber ν) × List Char) :=
  let spelling := chars.takeWhile fun c => !isDelimiter c
  let rest := chars.dropWhile fun c => !isDelimiter c
  match lib.parse spelling with
  | some (.number number) => .ok (.number ⟨number, some (String.ofList spelling)⟩, rest)
  | some value => .ok (value.mapNumbers fun number => ⟨number, none⟩, rest)
  | none => .error .invalid

section Reader

variable [DecidableEq σ]

mutual

/-- `RetainedJsonReader::value`. -/
def readValue (lib : StandardJson σ ν) : (fuel : ℕ) → RetainedJsonReader →
    Except JsonFault (JsonTree σ (ExactNumber ν) × RetainedJsonReader)
  | 0, _ => .error .exhausted
  | fuel + 1, r =>
    let values := r.values + 1
    if ¬values ≤ 20000 then .error (.failed "JSON exceeds 20000 values")
    else
      match space r.chars with
      | [] => .error .outOfBounds
      | c :: rest =>
        if c = '\x7b' then
          match space rest with
          | [] => .error .outOfBounds
          | d :: left =>
            if d = '\x7d' then .ok (.object [], ⟨left, values⟩)
            else
              match readMembers lib fuel ⟨d :: left, values⟩ [] with
              | .ok (fields, r) => .ok (.object fields, r)
              | .error fault => .error fault
        else if c = '[' then
          match space rest with
          | [] => .error .outOfBounds
          | d :: left =>
            if d = ']' then .ok (.array [], ⟨left, values⟩)
            else
              match readItems lib fuel ⟨d :: left, values⟩ [] with
              | .ok (items, r) => .ok (.array items, r)
              | .error fault => .error fault
        else if c = '"' then
          match readString lib (c :: rest) with
          | .ok (value, left) => .ok (.string value, ⟨left, values⟩)
          | .error fault => .error fault
        else
          match readScalar lib (c :: rest) with
          | .ok (value, left) => .ok (value, ⟨left, values⟩)
          | .error fault => .error fault

/-- The loop over the members of an object. -/
def readMembers (lib : StandardJson σ ν) : (fuel : ℕ) → RetainedJsonReader →
    List (σ × JsonTree σ (ExactNumber ν)) →
      Except JsonFault (List (σ × JsonTree σ (ExactNumber ν)) × RetainedJsonReader)
  | 0, _, _ => .error .exhausted
  | fuel + 1, r, fields =>
    match readString lib r.chars with
    | .error fault => .error fault
    | .ok (key, rest) =>
      if key ∈ LinkedMap.keys fields then .error (.failed "JSON has duplicate object keys")
      else
        match readValue lib fuel ⟨(space rest).drop 1, r.values⟩ with
        | .error fault => .error fault
        | .ok (value, r) =>
          match space r.chars with
          | [] => .error .outOfBounds
          | c :: rest =>
            if c = '\x7d' then .ok (LinkedMap.set key value fields, ⟨rest, r.values⟩)
            else readMembers lib fuel ⟨space rest, r.values⟩ (LinkedMap.set key value fields)

/-- The loop over the items of an array. -/
def readItems (lib : StandardJson σ ν) : (fuel : ℕ) → RetainedJsonReader →
    List (JsonTree σ (ExactNumber ν)) →
      Except JsonFault (List (JsonTree σ (ExactNumber ν)) × RetainedJsonReader)
  | 0, _, _ => .error .exhausted
  | fuel + 1, r, items =>
    match readValue lib fuel r with
    | .error fault => .error fault
    | .ok (value, r) =>
      match space r.chars with
      | [] => .error .outOfBounds
      | c :: rest =>
        if c = ']' then .ok (items ++ [value], ⟨rest, r.values⟩)
        else readItems lib fuel ⟨rest, r.values⟩ (items ++ [value])

end

end Reader

/-- The state of the loop of `validate_retained_json_syntax`. -/
structure SyntaxScan where
  depth : ℤ
  inString : Bool
  escaped : Bool

/-- The body of the loop. -/
def scanDepth (s : SyntaxScan) (c : Char) : Except JsonFault SyntaxScan :=
  if s.inString then
    if s.escaped then .ok { s with escaped := false }
    else if c = '\\' then .ok { s with escaped := true }
    else if c = '"' then .ok { s with inString := false }
    else .ok s
  else if c = '"' then .ok { s with inString := true }
  else if c = '[' ∨ c = '\x7b' then
    if s.depth + 1 ≤ 64 then .ok { s with depth := s.depth + 1 }
    else .error (.failed "JSON nesting exceeds 64")
  else if c = ']' ∨ c = '\x7d' then .ok { s with depth := s.depth - 1 }
  else .ok s

/-- `validate_retained_json_syntax`. -/
def validateRetainedJsonSyntax (lib : StandardJson σ ν) (text : String) : Except JsonFault Unit :=
  match text.toList.foldlM scanDepth ⟨0, false, false⟩ with
  | .error fault => .error fault
  | .ok _ => if (lib.parse text.toList).isSome then .ok () else .error .invalid

/-- The reader at the start of a text. -/
def RetainedJsonReader.start (text : String) : RetainedJsonReader := ⟨text.toList, 0⟩

/-- Steps enough to read a text. -/
def readerFuel (text : String) : ℕ := 2 * text.toList.length + 1

/-- `parse_retained_json`. -/
def parseRetainedJson [DecidableEq σ] (lib : StandardJson σ ν) (text : String) :
    Except JsonFault (JsonTree σ (ExactNumber ν)) :=
  match validateRetainedJsonSyntax lib text with
  | .error fault => .error fault
  | .ok () =>
    match readValue lib (readerFuel text) (.start text) with
    | .ok (value, _) => .ok value
    | .error fault => .error fault

/-! ## White space and delimiters -/

/-- Space in front is skipped. -/
theorem space_append {before : List Char} (h : Space before) (rest : List Char) :
    space (before ++ rest) = space rest := by
  rw [space, space, List.dropWhile_append_of_pos h]

/-- A character that is no space is not skipped. -/
theorem space_cons {c : Char} (h : isSpace c = false) (rest : List Char) :
    space (c :: rest) = c :: rest := by
  rw [space, List.dropWhile_cons_of_neg (by rw [h]; exact Bool.noConfusion)]

/-- Skipping space once is enough. -/
theorem space_space (chars : List Char) : space (space chars) = space chars :=
  List.dropWhile_idempotent isSpace chars

/-- What follows is nothing, or starts with a delimiter. -/
def Ends (rest : List Char) : Prop := ∀ c ∈ rest.head?, isDelimiter c = true

/-- A delimiter ends a token. -/
theorem ends_cons {c : Char} {rest : List Char} (h : isDelimiter c = true) : Ends (c :: rest) := by
  intro d hd
  rw [List.head?_cons, Option.mem_some_iff] at hd
  exact hd ▸ h

/-- Space before the end of a token is one too. -/
theorem ends_of_space {after : List Char} (h : Space after) {rest : List Char} (hrest : Ends rest) :
    Ends (after ++ rest) := by
  cases after with
  | nil => exact hrest
  | cons c after =>
    apply ends_cons
    rw [isDelimiter, h c List.mem_cons_self]
    rfl

/-! ## Tokens -/

/-- The scan of a string stops at the quotation mark that ends it. -/
theorem scanString_body {body : List Char} (h : StringBody body) (rest : List Char) :
    scanString false (body ++ '"' :: rest) = .ok (body ++ ['"'], rest) := by
  induction h with
  | nil => rfl
  | plain hquote hslash hcontrol hrest ih =>
    rw [List.cons_append, scanString, if_neg hslash, if_neg hquote, ih]
    rfl
  | escape hc hrest ih =>
    rw [List.cons_append, scanString, if_pos rfl, List.cons_append, scanString, ih]
    rfl
  | unicode hdigits hrest ih =>
    rename_i a b c d rest'
    have hstep (x : Char) (hx : x ∈ [a, b, c, d]) (l : List Char) :
        scanString false (x :: l) =
          (scanString false l).map fun scanned => (x :: scanned.1, scanned.2) := by
      have hhex := hdigits x hx
      rw [scanString, if_neg, if_neg]
      · rintro rfl
        exact absurd hhex (by decide)
      · rintro rfl
        exact absurd hhex (by decide)
    rw [List.cons_append, scanString, if_pos rfl, List.cons_append, scanString]
    simp only [List.cons_append]
    rw [hstep a (by simp), hstep b (by simp), hstep c (by simp), hstep d (by simp), ih]
    rfl

variable {lib : StandardJson σ ν}

/-- The library reads a string token as its string. -/
theorem parse_string (hlib : lib.Conforms) {body : List Char}
    (h : StringBody body) :
    lib.parse ('"' :: (body ++ ['"'])) = some (.string (lib.unescape body)) := by
  have hstring : Derives lib.unescape (.value (.string (lib.unescape body)))
      ('"' :: (body ++ ['"'])) := .string h
  obtain ⟨result, hresult⟩ := Option.isSome_iff_exists.mp (hlib.accepts hstring.document)
  obtain ⟨tree, htree, hreturns⟩ := hlib.returns hresult
  obtain ⟨text, after, hafter, hderives, heq⟩ := htree.head (by decide)
  obtain ⟨c, rest, htext, -⟩ := hderives.head
  rw [htext, List.cons_append] at heq
  obtain ⟨rfl, hrest⟩ := List.cons.inj heq
  rw [htext] at hderives
  obtain ⟨body', hbody', rfl, rfl⟩ := hderives.string_of_quote
  have hscan := scanString_body hbody' after
  have hsame : body' ++ '"' :: after = body ++ ['"'] := by
    rw [hrest]
    exact (List.append_assoc body' ['"'] after).symm
  rw [hsame, scanString_body h []] at hscan
  obtain ⟨hbodies, -⟩ := Prod.mk.inj (Except.ok.inj hscan)
  obtain rfl : body = body' := List.append_cancel_right hbodies
  rw [hresult, hreturns trivial]
  rfl

/-- A scalar has no delimiter in it. -/
theorem plain_of_scalar {unescape : List Char → σ} {c : Char} {text : List Char}
    {tree : JsonTree σ String} (h : Derives unescape (.value tree) (c :: text))
    (hc : isOpening c = false) : ∀ d ∈ c :: text, isDelimiter d = false := by
  cases h with
  | nullLiteral => simp [isDelimiter, isSpace]
  | trueLiteral => simp [isDelimiter, isSpace]
  | falseLiteral => simp [isDelimiter, isSpace]
  | number htoken =>
    intro d hd
    cases hdelimiter : isDelimiter d with
    | false => rfl
    | true =>
      have hchar := htoken.chars.2 d hd
      simp only [isDelimiter, isSpace, Bool.or_eq_true, beq_iff_eq] at hdelimiter
      rcases hdelimiter with (((((rfl | rfl) | rfl) | rfl) | rfl) | rfl) | rfl <;>
        exact absurd hchar (by decide)
  | _ => exact absurd hc (by decide)

/-- The number that the reader keeps for a spelling. -/
def StandardJson.exact (lib : StandardJson σ ν) (spelling : String) : ExactNumber ν :=
  ⟨lib.reading spelling, some spelling⟩

/-- The library reads a scalar token as its value. -/
theorem parse_scalar (hlib : lib.Conforms) {c : Char} {text : List Char}
    {tree : JsonTree σ String} (h : Derives lib.unescape (.value tree) (c :: text))
    (hc : isOpening c = false) :
    lib.parse (c :: text) = some (tree.mapNumbers lib.reading) := by
  obtain ⟨result, hresult⟩ := Option.isSome_iff_exists.mp (hlib.accepts h.document)
  obtain ⟨tree', htree, hreturns⟩ := hlib.returns hresult
  have hplain := plain_of_scalar h hc
  have hspace (d : Char) (hd : d ∈ c :: text) : isSpace d = false := by
    have hdelimiter := hplain d hd
    unfold isDelimiter at hdelimiter
    cases hd : isSpace d with
    | false => rfl
    | true => simp [hd] at hdelimiter
  obtain ⟨body, after, hafter, hderives, heq⟩ := htree.head (hspace c List.mem_cons_self)
  have hnil : after = [] := by
    apply List.eq_nil_iff_forall_not_mem.mpr
    intro d hd
    have hmem : d ∈ c :: text := heq ▸ List.mem_append_right _ hd
    exact absurd (hafter d hd) (by rw [hspace d hmem]; exact Bool.noConfusion)
  rw [hnil, List.append_nil] at heq
  rw [← heq] at hderives
  obtain rfl := h.eq_of_scalar hderives hc
  have hdistinct : tree.Distinct := by
    cases h with
    | nullLiteral => trivial
    | trueLiteral => trivial
    | falseLiteral => trivial
    | number => trivial
    | _ => exact absurd hc (by decide)
  rw [hresult, hreturns hdistinct]

/-- The last case of the reader reads a scalar and stops behind it. -/
theorem readScalar_eq (hlib : lib.Conforms) {c : Char} {text : List Char}
    {tree : JsonTree σ String} (h : Derives lib.unescape (.value tree) (c :: text))
    (hc : isOpening c = false) {rest : List Char} (hrest : Ends rest) :
    readScalar lib (c :: text ++ rest) = .ok (tree.mapNumbers lib.exact, rest) := by
  have hplain := plain_of_scalar h hc
  have htake : (c :: text ++ rest).takeWhile (fun d => !isDelimiter d) = c :: text := by
    rw [List.takeWhile_append_of_pos fun d hd => by rw [hplain d hd]; rfl]
    cases rest with
    | nil => simp
    | cons d rest =>
      have hd := hrest d rfl
      rw [List.takeWhile_cons_of_neg (by simp [hd]), List.append_nil]
  have hdrop : (c :: text ++ rest).dropWhile (fun d => !isDelimiter d) = rest := by
    rw [List.dropWhile_append_of_pos fun d hd => by rw [hplain d hd]; rfl]
    cases rest with
    | nil => rfl
    | cons d rest =>
      have hd := hrest d rfl
      rw [List.dropWhile_cons_of_neg (by simp [hd])]
  unfold readScalar
  dsimp only
  rw [htake, hdrop, parse_scalar hlib h hc]
  cases h with
  | nullLiteral => rfl
  | trueLiteral => rfl
  | falseLiteral => rfl
  | number => rfl
  | _ => exact absurd hc (by decide)

/-- What the validation accepts. -/
theorem validate_eq_ok_iff {text : String} :
    validateRetainedJsonSyntax lib text = .ok () ↔
      (∃ s, text.toList.foldlM scanDepth ⟨0, false, false⟩ = .ok s) ∧
        (lib.parse text.toList).isSome := by
  unfold validateRetainedJsonSyntax
  cases hscan : text.toList.foldlM scanDepth ⟨0, false, false⟩ with
  | error fault => simp
  | ok s =>
    dsimp only
    split
    next hparse => simp [hparse]
    next hparse => simp [hparse]

/-- A valid text is read by the standard library. -/
theorem parse_of_validate {text : String}
    (h : validateRetainedJsonSyntax lib text = .ok ()) :
    ∃ standard, lib.parse text.toList = some standard :=
  Option.isSome_iff_exists.mp (validate_eq_ok_iff.mp h).2

/-! ## The reader on what the grammar derives -/

/-- What the reader refuses with. -/
def readerRefusals : List String :=
  ["JSON exceeds 20000 values", "JSON has duplicate object keys"]

/-- A step that gives the value and the reader where it may, and fails with a message where
it may not. -/
def Outcome {α : Type} (step : Except JsonFault (α × RetainedJsonReader)) (good : Prop) (value : α)
    (r : RetainedJsonReader) : Prop :=
  (good ∧ step = .ok (value, r)) ∨
    ¬good ∧ ∃ message ∈ readerRefusals, step = .error (.failed message)

/-- Items start, behind white space, as their first value does. -/
theorem space_items {unescape : List Char → σ} {text : List Char}
    {trees : List (JsonTree σ String)} (h : Derives unescape (.items trees) text)
    (rest : List Char) : ∃ c left, space (text ++ rest) = c :: left ∧ isStart c = true := by
  cases h with
  | lastItem hbefore hafter htext =>
    obtain ⟨c, text, rfl, hc⟩ := htext.head
    rw [List.append_assoc, space_append hbefore]
    exact ⟨c, _, space_cons (isSpace_of_isStart hc) _, hc⟩
  | item hbefore hafter htext hrest =>
    obtain ⟨c, text, rfl, hc⟩ := htext.head
    rw [List.append_assoc, space_append hbefore]
    exact ⟨c, _, space_cons (isSpace_of_isStart hc) _, hc⟩

/-- Members start, behind white space, with a quotation mark. -/
theorem space_members {unescape : List Char → σ} {text : List Char}
    {members : List (σ × JsonTree σ String)} (h : Derives unescape (.members members) text)
    (rest : List Char) : ∃ left, space (text ++ rest) = '"' :: left := by
  cases h with
  | lastMember hbefore =>
    rw [List.append_assoc, space_append hbefore]
    exact ⟨_, space_cons (by decide) _⟩
  | member hbefore =>
    rw [List.append_assoc, space_append hbefore]
    exact ⟨_, space_cons (by decide) _⟩

/-- The reader reads a string and stops behind it. -/
theorem readString_eq (hlib : lib.Conforms) {body : List Char}
    (h : StringBody body) (rest : List Char) :
    readString lib ('"' :: (body ++ '"' :: rest)) = .ok (lib.unescape body, rest) := by
  unfold readString
  rw [List.drop_one, List.tail_cons, scanString_body h]
  dsimp only
  rw [parse_string hlib h]

section Reader

variable [DecidableEq σ]

/-- What the reader makes of a stretch of text that is derived as a phrase. -/
def Reads (lib : StandardJson σ ν) (text : List Char) : Phrase σ → Prop
  | .value tree =>
    ∀ fuel values rest, 2 * text.length + 1 ≤ fuel → Ends rest →
      Outcome (readValue lib fuel ⟨text ++ rest, values⟩)
        (values + tree.count ≤ 20000 ∧ tree.Distinct)
        (tree.mapNumbers lib.exact) ⟨rest, values + tree.count⟩
  | .items trees =>
    ∀ fuel values rest items, 2 * text.length + 2 ≤ fuel →
      Outcome (readItems lib fuel ⟨text ++ ']' :: rest, values⟩ items)
        (values + countItems trees ≤ 20000 ∧ DistinctItems trees)
        (items ++ mapItems lib.exact trees) ⟨rest, values + countItems trees⟩
  | .members members =>
    ∀ fuel values rest fields, 2 * text.length + 2 ≤ fuel → (LinkedMap.keys fields).Nodup →
      Outcome (readMembers lib fuel ⟨space (text ++ '\x7d' :: rest), values⟩ fields)
        (values + countMembers members ≤ 20000 ∧ DistinctMembers members ∧
          (LinkedMap.keys fields ++ members.map Prod.fst).Nodup)
        (fields ++ mapMembers lib.exact members) ⟨rest, values + countMembers members⟩

/-- Space in front of a value is skipped. -/
theorem readValue_space (lib : StandardJson σ ν) (fuel values : ℕ) {before : List Char}
    (h : Space before) (rest : List Char) :
    readValue lib fuel ⟨before ++ rest, values⟩ = readValue lib fuel ⟨rest, values⟩ := by
  cases fuel with
  | zero => rfl
  | succ fuel => rw [readValue, readValue, space_append h]

/-- Space in front of items is skipped. -/
theorem readItems_space (lib : StandardJson σ ν) (fuel values : ℕ) (chars : List Char)
    (items : List (JsonTree σ (ExactNumber ν))) :
    readItems lib fuel ⟨space chars, values⟩ items = readItems lib fuel ⟨chars, values⟩ items := by
  cases fuel with
  | zero => rfl
  | succ fuel =>
    have hvalue :
        readValue lib fuel ⟨space chars, values⟩ = readValue lib fuel ⟨chars, values⟩ := by
      cases fuel with
      | zero => rfl
      | succ fuel => rw [readValue, readValue, space_space]
    rw [readItems, readItems, hvalue]

/-- The value of a scalar. -/
theorem reads_scalar (hlib : lib.Conforms) {text : List Char}
    {tree : JsonTree σ String} (h : Derives lib.unescape (.value tree) text)
    (hopening : ∀ c ∈ text.head?, isOpening c = false) (hcount : tree.count = 1)
    (hdistinct : tree.Distinct) : Reads lib text (.value tree) := by
  intro fuel values rest hfuel hrest
  obtain ⟨c, text, rfl, hstart⟩ := h.head
  have hc := hopening c rfl
  obtain ⟨fuel, rfl⟩ : ∃ k, fuel = k + 1 := ⟨fuel - 1, by omega⟩
  rw [hcount, readValue]
  dsimp only
  by_cases hvalues : values + 1 ≤ 20000
  · left
    refine ⟨⟨hvalues, hdistinct⟩, ?_⟩
    have hne : c ≠ '\x7b' ∧ c ≠ '[' ∧ c ≠ '"' := by
      refine ⟨?_, ?_, ?_⟩ <;> (rintro rfl; exact absurd hc (by decide))
    rw [if_neg (not_not.mpr hvalues), List.cons_append, space_cons (isSpace_of_isStart hstart)]
    dsimp only
    rw [if_neg hne.1, if_neg hne.2.1, if_neg hne.2.2, ← List.cons_append,
      readScalar_eq hlib h hc hrest]
  · right
    refine ⟨fun hgood => hvalues hgood.1, ?_⟩
    rw [if_pos hvalues]
    exact ⟨"JSON exceeds 20000 values", by decide, rfl⟩

/-- Without room for another value there is only a failure. -/
theorem outcome_of_room {fuel values : ℕ} {chars : List Char} {good : Prop}
    {value : JsonTree σ (ExactNumber ν)} {r : RetainedJsonReader} (hfuel : 0 < fuel)
    (hgood : good → values + 1 ≤ 20000)
    (h : values + 1 ≤ 20000 →
      Outcome (readValue lib fuel ⟨chars, values⟩) good value r) :
    Outcome (readValue lib fuel ⟨chars, values⟩) good value r := by
  by_cases hvalues : values + 1 ≤ 20000
  · exact h hvalues
  · right
    refine ⟨mt hgood hvalues, "JSON exceeds 20000 values", by decide, ?_⟩
    obtain ⟨fuel, rfl⟩ : ∃ k, fuel = k + 1 := ⟨fuel - 1, by omega⟩
    rw [readValue]
    dsimp only
    rw [if_pos hvalues]

/-- The first round of the loop over items. -/
theorem readItems_step {text : List Char} {tree : JsonTree σ String}
    (h : Reads lib text (.value tree)) {before after : List Char} (hbefore : Space before)
    (hafter : Space after) {c : Char} (hc : isDelimiter c = true) (hspace : isSpace c = false)
    {fuel : ℕ} (hfuel : 2 * text.length + 1 ≤ fuel) (values : ℕ) (rest : List Char)
    (items : List (JsonTree σ (ExactNumber ν))) :
    (values + tree.count ≤ 20000 ∧ tree.Distinct ∧
      readItems lib (fuel + 1) ⟨before ++ (text ++ (after ++ c :: rest)), values⟩ items =
        if c = ']' then
          .ok (items ++ [tree.mapNumbers lib.exact], ⟨rest, values + tree.count⟩)
        else readItems lib fuel ⟨rest, values + tree.count⟩
          (items ++ [tree.mapNumbers lib.exact])) ∨
      ¬(values + tree.count ≤ 20000 ∧ tree.Distinct) ∧
        ∃ message ∈ readerRefusals,
          readItems lib (fuel + 1) ⟨before ++ (text ++ (after ++ c :: rest)), values⟩ items =
            .error (.failed message) := by
  have hvalue := h fuel values (after ++ c :: rest) hfuel (ends_of_space hafter (ends_cons hc))
  rw [← readValue_space lib fuel values hbefore] at hvalue
  rw [readItems]
  obtain ⟨hgood, hstep⟩ | ⟨hbad, message, hmessage, hstep⟩ := hvalue
  · left
    refine ⟨hgood.1, hgood.2, ?_⟩
    rw [hstep]
    dsimp only
    rw [space_append hafter, space_cons hspace]
  · right
    refine ⟨hbad, message, hmessage, ?_⟩
    rw [hstep]

/-- The first round of the loop over members. -/
theorem readMembers_step (hlib : lib.Conforms) {text body : List Char}
    {tree : JsonTree σ String} (h : Reads lib text (.value tree))
    {before between between' after : List Char} (hbefore : Space before) (hbody : StringBody body)
    (hbetween : Space between) (hbetween' : Space between') (hafter : Space after) {c : Char}
    (hc : isDelimiter c = true) (hspace : isSpace c = false) {fuel : ℕ}
    (hfuel : 2 * text.length + 1 ≤ fuel) (values : ℕ) (rest : List Char)
    (fields : List (σ × JsonTree σ (ExactNumber ν))) :
    let chars := before ++ '"' :: (body ++ '"' :: (between ++ ':' ::
      (between' ++ (text ++ (after ++ c :: rest)))))
    let fields' := fields ++ [(lib.unescape body, tree.mapNumbers lib.exact)]
    let good := lib.unescape body ∉ LinkedMap.keys fields ∧ values + tree.count ≤ 20000 ∧
      tree.Distinct
    (good ∧
      readMembers lib (fuel + 1) ⟨space chars, values⟩ fields =
        if c = '\x7d' then .ok (fields', ⟨rest, values + tree.count⟩)
        else readMembers lib fuel ⟨space rest, values + tree.count⟩ fields') ∨
      ¬good ∧ ∃ message ∈ readerRefusals, readMembers lib (fuel + 1) ⟨space chars, values⟩ fields =
        .error (.failed message) := by
  intro chars fields' good
  have hvalue := h fuel values (after ++ c :: rest) hfuel (ends_of_space hafter (ends_cons hc))
  rw [← readValue_space lib fuel values hbetween'] at hvalue
  rw [readMembers]
  dsimp only
  rw [space_append hbefore, space_cons (by decide), readString_eq hlib hbody]
  dsimp only
  rw [space_append hbetween, space_cons (by decide), List.drop_one, List.tail_cons]
  by_cases hkey : lib.unescape body ∈ LinkedMap.keys fields
  · right
    refine ⟨fun hgood => hgood.1 hkey, "JSON has duplicate object keys", by decide, ?_⟩
    rw [if_pos hkey]
  · rw [if_neg hkey]
    obtain ⟨hgood, hstep⟩ | ⟨hbad, message, hmessage, hstep⟩ := hvalue
    · left
      refine ⟨⟨hkey, hgood⟩, ?_⟩
      rw [hstep]
      dsimp only
      rw [space_append hafter, space_cons hspace, LinkedMap.set_of_notMem hkey]
    · right
      refine ⟨fun hgood => hbad hgood.2, message, hmessage, ?_⟩
      rw [hstep]

/-- A number opens neither a string nor a list nor an object, so it is read as a scalar. -/
theorem reads_number (hlib : lib.Conforms) {token : List Char} (htoken : NumberToken token) :
    Reads lib token (.value (.number (String.ofList token))) := by
  refine reads_scalar hlib (.number htoken) ?_ rfl trivial
  obtain ⟨c, rest, rfl, hc⟩ := htoken.chars.1
  intro d hd
  rw [List.head?_cons, Option.mem_some_iff] at hd
  subst hd
  rcases hc with rfl | hc
  · rfl
  · cases hopening : isOpening c with
    | false => rfl
    | true =>
      simp only [isOpening, Bool.or_eq_true, beq_iff_eq] at hopening
      rcases hopening with (rfl | rfl) | rfl <;> exact absurd hc (by decide)

/-- A string is read to its closing quotation mark. -/
theorem reads_string (hlib : lib.Conforms) {body : List Char} (hbody : StringBody body) :
    Reads lib ('"' :: (body ++ ['"'])) (.value (.string (lib.unescape body))) := by
  intro fuel values rest hfuel hrest
  apply outcome_of_room (by omega) And.left
  intro hvalues
  obtain ⟨fuel, rfl⟩ : ∃ k, fuel = k + 1 := ⟨fuel - 1, by omega⟩
  left
  refine ⟨⟨hvalues, trivial⟩, ?_⟩
  rw [readValue]
  dsimp only
  rw [if_neg (not_not.mpr hvalues), List.cons_append, space_cons (by decide)]
  dsimp only
  rw [if_neg (by decide), if_neg (by decide), if_pos rfl, List.append_assoc,
    List.singleton_append, readString_eq hlib hbody]
  rfl

/-- A list with nothing but white space in it is empty. -/
theorem reads_emptyArray {blank : List Char} (hspace : Space blank) :
    Reads lib ('[' :: (blank ++ [']'])) (.value (.array [])) := by
  intro fuel values rest hfuel hrest
  apply outcome_of_room (by omega) And.left
  intro hvalues
  obtain ⟨fuel, rfl⟩ : ∃ k, fuel = k + 1 := ⟨fuel - 1, by omega⟩
  left
  refine ⟨⟨hvalues, trivial⟩, ?_⟩
  rw [readValue]
  dsimp only
  rw [if_neg (not_not.mpr hvalues), List.cons_append, space_cons (by decide)]
  dsimp only
  rw [if_neg (by decide), if_pos rfl, List.append_assoc, space_append hspace,
    List.singleton_append, space_cons (by decide)]
  dsimp only
  rw [if_pos rfl]
  rfl

/-- A list is read when its items are. -/
theorem reads_array {text : List Char} {trees : List (JsonTree σ String)}
    (htext : Derives lib.unescape (.items trees) text) (ih : Reads lib text (.items trees)) :
    Reads lib ('[' :: (text ++ [']'])) (.value (.array trees)) := by
  intro fuel values rest hfuel hrest
  rw [List.length_cons, List.length_append, List.length_singleton] at hfuel
  rw [JsonTree.count]
  apply outcome_of_room (by omega) fun hgood => by omega
  intro hvalues
  obtain ⟨fuel, rfl⟩ : ∃ k, fuel = k + 1 := ⟨fuel - 1, by omega⟩
  obtain ⟨c, left, hhead, hc⟩ := space_items htext (']' :: rest)
  have hne : c ≠ ']' := by
    rintro rfl
    exact absurd hc (by decide)
  have hitems := ih fuel (values + 1) rest [] (by omega)
  rw [← readItems_space, hhead] at hitems
  rw [readValue]
  dsimp only
  rw [if_neg (not_not.mpr hvalues), List.cons_append, space_cons (by decide)]
  dsimp only
  rw [if_neg (by decide), if_pos rfl, List.append_assoc, List.singleton_append, hhead]
  dsimp only
  rw [if_neg hne]
  obtain ⟨hgood, hstep⟩ | ⟨hbad, message, hmessage, hstep⟩ := hitems
  · left
    refine ⟨⟨by omega, hgood.2⟩, ?_⟩
    rw [hstep, Nat.add_right_comm]
    rfl
  · right
    refine ⟨fun hgood => hbad ⟨by omega, hgood.2⟩, message, hmessage, ?_⟩
    rw [hstep]

/-- An object with nothing but white space in it is empty. -/
theorem reads_emptyObject {blank : List Char} (hspace : Space blank) :
    Reads lib ('\x7b' :: (blank ++ ['\x7d'])) (.value (.object [])) := by
  intro fuel values rest hfuel hrest
  apply outcome_of_room (by omega) And.left
  intro hvalues
  obtain ⟨fuel, rfl⟩ : ∃ k, fuel = k + 1 := ⟨fuel - 1, by omega⟩
  left
  refine ⟨⟨hvalues, List.nodup_nil, trivial⟩, ?_⟩
  rw [readValue]
  dsimp only
  rw [if_neg (not_not.mpr hvalues), List.cons_append, space_cons (by decide)]
  dsimp only
  rw [if_pos rfl, List.append_assoc, space_append hspace, List.singleton_append,
    space_cons (by decide)]
  dsimp only
  rw [if_pos rfl]
  rfl

/-- An object is read when its members are. -/
theorem reads_object {text : List Char} {members : List (σ × JsonTree σ String)}
    (htext : Derives lib.unescape (.members members) text)
    (ih : Reads lib text (.members members)) :
    Reads lib ('\x7b' :: (text ++ ['\x7d'])) (.value (.object members)) := by
  intro fuel values rest hfuel hrest
  rw [List.length_cons, List.length_append, List.length_singleton] at hfuel
  rw [JsonTree.count]
  apply outcome_of_room (by omega) fun hgood => by omega
  intro hvalues
  obtain ⟨fuel, rfl⟩ : ∃ k, fuel = k + 1 := ⟨fuel - 1, by omega⟩
  obtain ⟨left, hhead⟩ := space_members htext ('\x7d' :: rest)
  have hmembers := ih fuel (values + 1) rest [] (by omega) List.nodup_nil
  rw [hhead] at hmembers
  rw [readValue]
  dsimp only
  rw [if_neg (not_not.mpr hvalues), List.cons_append, space_cons (by decide)]
  dsimp only
  rw [if_pos rfl, List.append_assoc, List.singleton_append, hhead]
  dsimp only
  rw [if_neg (by decide)]
  obtain ⟨hgood, hstep⟩ | ⟨hbad, message, hmessage, hstep⟩ := hmembers
  · left
    refine ⟨⟨by omega, hgood.2.2, hgood.2.1⟩, ?_⟩
    rw [hstep, Nat.add_right_comm]
    rfl
  · right
    refine ⟨fun hgood => hbad ⟨by omega, hgood.2.2, hgood.2.1⟩, message, hmessage, ?_⟩
    rw [hstep]

/-- The last item ends the loop over the items. -/
theorem reads_lastItem {before text after : List Char} {tree : JsonTree σ String}
    (hbefore : Space before) (hafter : Space after) (ih : Reads lib text (.value tree)) :
    Reads lib (before ++ (text ++ after)) (.items [tree]) := by
  intro fuel values rest items hfuel
  simp only [List.length_append] at hfuel
  obtain ⟨fuel, rfl⟩ : ∃ k, fuel = k + 1 := ⟨fuel - 1, by omega⟩
  rw [List.append_assoc, List.append_assoc]
  rw [countItems, countItems, DistinctItems, DistinctItems, mapItems, mapItems]
  obtain ⟨hcount, hdistinct, hstep⟩ | ⟨hbad, message, hmessage, hstep⟩ :=
    readItems_step ih hbefore hafter (by decide : isDelimiter ']' = true) (by decide)
      (by omega : 2 * text.length + 1 ≤ fuel) values rest items
  · left
    refine ⟨⟨by omega, hdistinct, trivial⟩, ?_⟩
    rw [hstep, if_pos rfl]
    rfl
  · right
    exact ⟨fun hgood => hbad ⟨by omega, hgood.2.1⟩, message, hmessage, hstep⟩

/-- An item with a comma behind it is one round of the loop over the items. -/
theorem reads_item {before text after rest : List Char} {tree : JsonTree σ String}
    {trees : List (JsonTree σ String)} (hbefore : Space before) (hafter : Space after)
    (ih : Reads lib text (.value tree)) (ihrest : Reads lib rest (.items trees)) :
    Reads lib (before ++ (text ++ (after ++ ',' :: rest))) (.items (tree :: trees)) := by
  intro fuel values tail items hfuel
  simp only [List.length_append, List.length_cons] at hfuel
  obtain ⟨fuel, rfl⟩ : ∃ k, fuel = k + 1 := ⟨fuel - 1, by omega⟩
  rw [List.append_assoc, List.append_assoc, List.append_assoc, List.cons_append]
  rw [countItems, DistinctItems, mapItems]
  obtain ⟨hcount, hdistinct, hstep⟩ | ⟨hbad, message, hmessage, hstep⟩ :=
    readItems_step ih hbefore hafter (by decide : isDelimiter ',' = true) (by decide)
      (by omega : 2 * text.length + 1 ≤ fuel) values (rest ++ ']' :: tail) items
  · rw [hstep, if_neg (by decide)]
    have hitems := ihrest fuel (values + tree.count) tail
      (items ++ [tree.mapNumbers lib.exact]) (by omega)
    rw [Nat.add_assoc, List.append_assoc, List.singleton_append] at hitems
    obtain ⟨hgood, hstep⟩ | ⟨hbad, message, hmessage, hstep⟩ := hitems
    · left
      exact ⟨⟨hgood.1, hdistinct, hgood.2⟩, hstep⟩
    · right
      exact ⟨fun hgood => hbad ⟨hgood.1, hgood.2.2⟩, message, hmessage, hstep⟩
  · right
    exact ⟨fun hgood => hbad ⟨by omega, hgood.2.1⟩, message, hmessage, hstep⟩

/-- The last member ends the loop over the members. -/
theorem reads_lastMember (hlib : lib.Conforms) {before body between between' text after : List Char}
    {tree : JsonTree σ String} (hbefore : Space before) (hbody : StringBody body)
    (hbetween : Space between) (hbetween' : Space between') (hafter : Space after)
    (ih : Reads lib text (.value tree)) :
    Reads lib (before ++ '"' :: (body ++ '"' :: (between ++ ':' :: (between' ++ (text ++ after)))))
      (.members [(lib.unescape body, tree)]) := by
  intro fuel values rest fields hfuel hfields
  simp only [List.length_append, List.length_cons] at hfuel
  obtain ⟨fuel, rfl⟩ : ∃ k, fuel = k + 1 := ⟨fuel - 1, by omega⟩
  rw [countMembers, countMembers, DistinctMembers, DistinctMembers, mapMembers, mapMembers]
  have hround := readMembers_step hlib ih hbefore hbody hbetween hbetween' hafter
    (by decide : isDelimiter '\x7d' = true) (by decide) (by omega : 2 * text.length + 1 ≤ fuel)
    values rest fields
  simp only [List.append_assoc, List.cons_append] at hround ⊢
  have hnodup : (LinkedMap.keys fields ++ [lib.unescape body]).Nodup ↔
      lib.unescape body ∉ LinkedMap.keys fields := by
    rw [List.nodup_append_comm, List.singleton_append, List.nodup_cons, and_iff_left hfields]
  obtain ⟨⟨hkey, hcount, hdistinct⟩, hstep⟩ | ⟨hbad, message, hmessage, hstep⟩ := hround
  · left
    refine ⟨⟨by omega, ⟨hdistinct, trivial⟩, hnodup.mpr hkey⟩, ?_⟩
    rw [hstep, if_pos trivial]
    rfl
  · right
    exact ⟨fun hgood => hbad ⟨hnodup.mp hgood.2.2, by omega, hgood.2.1.1⟩, message, hmessage,
      hstep⟩

/-- A member with a comma behind it is one round of the loop over the members. -/
theorem reads_member (hlib : lib.Conforms)
    {before body between between' text after rest : List Char} {tree : JsonTree σ String}
    {members : List (σ × JsonTree σ String)} (hbefore : Space before) (hbody : StringBody body)
    (hbetween : Space between) (hbetween' : Space between') (hafter : Space after)
    (ih : Reads lib text (.value tree)) (ihrest : Reads lib rest (.members members)) :
    Reads lib (before ++ '"' :: (body ++ '"' :: (between ++ ':' ::
      (between' ++ (text ++ (after ++ ',' :: rest))))))
      (.members ((lib.unescape body, tree) :: members)) := by
  intro fuel values tail fields hfuel hfields
  simp only [List.length_append, List.length_cons] at hfuel
  obtain ⟨fuel, rfl⟩ : ∃ k, fuel = k + 1 := ⟨fuel - 1, by omega⟩
  rw [countMembers, DistinctMembers, mapMembers]
  have hround := readMembers_step hlib ih hbefore hbody hbetween hbetween' hafter
    (by decide : isDelimiter ',' = true) (by decide) (by omega : 2 * text.length + 1 ≤ fuel)
    values (rest ++ '\x7d' :: tail) fields
  simp only [List.append_assoc, List.cons_append] at hround ⊢
  have hkeys : LinkedMap.keys (fields ++ [(lib.unescape body, tree.mapNumbers lib.exact)]) ++
      members.map Prod.fst =
        LinkedMap.keys fields ++ lib.unescape body :: members.map Prod.fst := by
    simp [LinkedMap.keys]
  have hnotMem (hnodup : (LinkedMap.keys fields ++
      lib.unescape body :: members.map Prod.fst).Nodup) :
      lib.unescape body ∉ LinkedMap.keys fields := by
    intro hmem
    exact (List.disjoint_of_nodup_append hnodup) hmem List.mem_cons_self
  obtain ⟨⟨hkey, hcount, hdistinct⟩, hstep⟩ | ⟨hbad, message, hmessage, hstep⟩ := hround
  · rw [hstep, if_neg (by decide)]
    have hfields' : (LinkedMap.keys
        (fields ++ [(lib.unescape body, tree.mapNumbers lib.exact)])).Nodup := by
      rw [LinkedMap.keys, List.map_append, List.nodup_append_comm]
      exact List.nodup_cons.mpr ⟨hkey, hfields⟩
    have hmembers := ihrest fuel (values + tree.count) tail
      (fields ++ [(lib.unescape body, tree.mapNumbers lib.exact)]) (by omega) hfields'
    rw [hkeys, Nat.add_assoc, List.append_assoc, List.singleton_append] at hmembers
    obtain ⟨hgood, hstep⟩ | ⟨hbad, message, hmessage, hstep⟩ := hmembers
    · left
      exact ⟨⟨hgood.1, ⟨hdistinct, hgood.2.1⟩, hgood.2.2⟩, hstep⟩
    · right
      exact ⟨fun hgood => hbad ⟨hgood.1, hgood.2.1.2, hgood.2.2⟩, message, hmessage, hstep⟩
  · right
    exact ⟨fun hgood => hbad ⟨hnotMem hgood.2.2, by omega, hgood.2.1.1⟩, message, hmessage, hstep⟩

/-- The reader stays in step with the grammar. -/
theorem reads_of_derives (hlib : lib.Conforms) {phrase : Phrase σ}
    {text : List Char} (h : Derives lib.unescape phrase text) : Reads lib text phrase := by
  induction h with
  | nullLiteral => exact reads_scalar hlib .nullLiteral (by simp [isOpening]) rfl trivial
  | trueLiteral => exact reads_scalar hlib .trueLiteral (by simp [isOpening]) rfl trivial
  | falseLiteral => exact reads_scalar hlib .falseLiteral (by simp [isOpening]) rfl trivial
  | number htoken => exact reads_number hlib htoken
  | string hbody => exact reads_string hlib hbody
  | emptyArray hspace => exact reads_emptyArray hspace
  | array htext ih => exact reads_array htext ih
  | emptyObject hspace => exact reads_emptyObject hspace
  | object htext ih => exact reads_object htext ih
  | lastItem hbefore hafter htext ih => exact reads_lastItem hbefore hafter ih
  | item hbefore hafter htext hrest ih ihrest => exact reads_item hbefore hafter ih ihrest
  | lastMember hbefore hbody hbetween hbetween' hafter htext ih =>
    exact reads_lastMember hlib hbefore hbody hbetween hbetween' hafter ih
  | member hbefore hbody hbetween hbetween' hafter htext hrest ih ihrest =>
    exact reads_member hlib hbefore hbody hbetween hbetween' hafter ih ihrest

/-- The reader has steps enough, and stops behind the value of a text, whatever it has read
before. -/
theorem readValue_document_from (hlib : lib.Conforms) {text : String}
    {before body after : List Char} {tree : JsonTree σ String} (hbefore : Space before)
    (hafter : Space after) (hbody : Derives lib.unescape (.value tree) body)
    (htext : text.toList = before ++ (body ++ after)) (values : ℕ) :
    Outcome (readValue lib (readerFuel text) ⟨text.toList, values⟩)
      (values + tree.count ≤ 20000 ∧ tree.Distinct) (tree.mapNumbers lib.exact)
      ⟨after, values + tree.count⟩ := by
  have hends : Ends after := by
    have h := ends_of_space hafter (fun _ hc => nomatch hc : Ends [])
    rwa [List.append_nil] at h
  have hfuel : 2 * body.length + 1 ≤ readerFuel text := by
    rw [readerFuel, htext]
    simp only [List.length_append]
    omega
  have houtcome := reads_of_derives hlib hbody (readerFuel text) values after hfuel hends
  rw [← readValue_space lib _ _ hbefore, ← htext] at houtcome
  exact houtcome

/-- The reader has steps enough, and stops behind the value of a text. -/
theorem readValue_document (hlib : lib.Conforms) {text : String}
    {before body after : List Char} {tree : JsonTree σ String} (hbefore : Space before)
    (hafter : Space after) (hbody : Derives lib.unescape (.value tree) body)
    (htext : text.toList = before ++ (body ++ after)) :
    Outcome (readValue lib (readerFuel text) (.start text))
      (tree.count ≤ 20000 ∧ tree.Distinct) (tree.mapNumbers lib.exact) ⟨after, tree.count⟩ := by
  have houtcome := readValue_document_from hlib hbefore hafter hbody htext 0
  rwa [Nat.zero_add] at houtcome

/-- A text within the limits is read as its value. -/
theorem parse_of_derives (hlib : lib.Conforms) {text : String}
    {before body after : List Char} {tree : JsonTree σ String} (hbefore : Space before)
    (hafter : Space after) (hbody : Derives lib.unescape (.value tree) body)
    (htext : text.toList = before ++ (body ++ after))
    (hscan : ∃ s, text.toList.foldlM scanDepth ⟨0, false, false⟩ = .ok s)
    (hgood : tree.count ≤ 20000 ∧ tree.Distinct) :
    parseRetainedJson lib text = .ok (tree.mapNumbers lib.exact) := by
  have hdocument : Document lib.unescape text.toList tree :=
    ⟨before, body, after, hbefore, hafter, hbody, htext⟩
  have hvalid := validate_eq_ok_iff.mpr ⟨hscan, hlib.accepts hdocument⟩
  obtain ⟨-, hread⟩ | ⟨hbad, -⟩ := readValue_document hlib hbefore hafter hbody htext
  · rw [parseRetainedJson, hvalid]
    dsimp only
    rw [hread]
  · exact absurd hgood hbad

/--
On a text that the validation accepts, the reader refuses exactly when a key is repeated or
there are too many values. Otherwise it returns the parser's value, with every number as it is
spelled, and leaves nothing of the text but white space.
-/
theorem exact_reader_correct {lib : StandardJson σ ν} (hlib : lib.Conforms) {text : String}
    (hvalid : validateRetainedJsonSyntax lib text = .ok ()) :
    ∃ tree standard, Document lib.unescape text.toList tree ∧
      lib.parse text.toList = some standard ∧
      ((tree.count ≤ 20000 ∧ tree.Distinct ∧
        ∃ result rest, readValue lib (readerFuel text) (.start text) =
            .ok (result, ⟨rest, tree.count⟩) ∧ Space rest ∧
          parseRetainedJson lib text = .ok result ∧
          result.mapNumbers ExactNumber.value = standard ∧
          result.mapNumbers ExactNumber.repr = tree.mapNumbers some) ∨
      (¬(tree.count ≤ 20000 ∧ tree.Distinct) ∧
        ∃ message ∈ readerRefusals,
          readValue lib (readerFuel text) (.start text) = .error (.failed message) ∧
          parseRetainedJson lib text = .error (.failed message))) := by
  obtain ⟨standard, hstandard⟩ := parse_of_validate hvalid
  obtain ⟨tree, htree, hreturns⟩ := hlib.returns hstandard
  have hdocument := htree
  obtain ⟨before, body, after, hbefore, hafter, hbody, htext⟩ := htree
  obtain ⟨hgood, hread⟩ | ⟨hbad, message, hmessage, hread⟩ :=
    readValue_document hlib hbefore hafter hbody htext
  · refine ⟨tree, standard, hdocument, hstandard,
      .inl ⟨hgood.1, hgood.2, _, after, hread, hafter, ?_⟩⟩
    refine ⟨?_, ?_, ?_⟩
    · rw [parseRetainedJson, hvalid]
      dsimp only
      rw [hread]
    · rw [JsonTree.mapNumbers_mapNumbers, hreturns hgood.2]
      rfl
    · rw [JsonTree.mapNumbers_mapNumbers]
      rfl
  · refine ⟨tree, standard, hdocument, hstandard, .inr ⟨hbad, message, hmessage, hread, ?_⟩⟩
    rw [parseRetainedJson, hvalid]
    dsimp only
    rw [hread]

end Reader

/-! ## A library that conforms -/

open Classical in
/-- A parser that goes by the grammar. -/
noncomputable def StandardJson.reference (unescape : List Char → σ) (reading : String → ν)
    (spell : ν → String) : StandardJson σ ν where
  parse text :=
    if h : ∃ tree, Document unescape text tree then some (h.choose.mapNumbers reading) else none
  unescape := unescape
  reading := reading
  spell := spell

/-- The reference library conforms to the grammar. -/
theorem StandardJson.reference_conforms (unescape : List Char → σ) (reading : String → ν)
    (spell : ν → String) : (StandardJson.reference unescape reading spell).Conforms where
  accepts := by
    intro text tree h
    have hexists : ∃ tree, Document unescape text tree := ⟨tree, h⟩
    rw [StandardJson.reference]
    dsimp only
    rw [dif_pos hexists]
    rfl
  returns := by
    intro text result h
    rw [StandardJson.reference] at h
    dsimp only at h
    split at h
    next hexists => exact ⟨_, hexists.choose_spec, fun _ => (Option.some.inj h).symm⟩
    next => cases h

/-- The number that some digits spell. -/
def digitsReading (spelling : String) : ℕ :=
  spelling.toList.foldl (fun n c => 10 * n + (c.toNat - 48)) 0

/-- The library for texts whose numbers are digits. -/
noncomputable def sampleJson : StandardJson String ℕ :=
  StandardJson.reference MoonBit.unescapeString digitsReading toString

/-- The sample library conforms to the grammar. -/
theorem sampleJson_conforms : sampleJson.Conforms := StandardJson.reference_conforms _ _ _

/-- A text of an array, with a blank at its end. -/
def sampleJsonText : String := "[10] "

/-- The sample text is derived from the grammar. -/
theorem sampleJsonText_derives :
    Derives sampleJson.unescape (.value (.array [.number "10"])) ['[', '1', '0', ']'] := by
  have htoken : NumberToken ([] ++ (['1', '0'] ++ ([] ++ []))) :=
    .intro (by simp) (.nonzero rfl (by decide) (by simp)) .absent .absent
  have hitems : Derives sampleJson.unescape (.items [.number "10"]) ([] ++ (['1', '0'] ++ [])) :=
    .lastItem nofun nofun (.number htoken)
  exact .array hitems

/-- The sample text is valid. -/
theorem sampleJsonText_valid : validateRetainedJsonSyntax sampleJson sampleJsonText = .ok () := by
  have hdocument : Document sampleJson.unescape sampleJsonText.toList (.array [.number "10"]) :=
    ⟨[], ['[', '1', '0', ']'], [' '], nofun, by simp [Space, isSpace], sampleJsonText_derives, rfl⟩
  have hparse := sampleJson_conforms.accepts hdocument
  unfold validateRetainedJsonSyntax
  split
  next hscan => cases hscan
  next => rw [if_pos hparse]

/-- The reader leaves white space behind the value unread. -/
theorem exact_reader_leaves_space_sample :
    ¬∀ (text : String) (result : JsonTree String (ExactNumber ℕ)) (r : RetainedJsonReader),
      validateRetainedJsonSyntax sampleJson text = .ok () →
      readValue sampleJson (readerFuel text) (.start text) = .ok (result, r) → r.chars = [] := by
  intro h
  have hspace : Space [' '] := by simp [Space, isSpace]
  have hnil : Space [] := space_nil
  have htext : sampleJsonText.toList = [] ++ (['[', '1', '0', ']'] ++ [' ']) := rfl
  obtain ⟨-, hread⟩ | ⟨hbad, -⟩ :=
    readValue_document sampleJson_conforms hnil hspace sampleJsonText_derives htext
  · have hnil := h sampleJsonText _ _ sampleJsonText_valid hread
    cases hnil
  · apply hbad
    simp [JsonTree.count, countItems, JsonTree.Distinct, DistinctItems]

/-- The sample text is read as the value of the parser, with the number as it is spelled. -/
theorem exact_reader_correct_sample :
    ∃ result standard, sampleJson.parse sampleJsonText.toList = some standard ∧
      parseRetainedJson sampleJson sampleJsonText = .ok result ∧
      result.mapNumbers ExactNumber.value = standard ∧
      result.mapNumbers ExactNumber.repr = .array [.number (some "10")] := by
  have hspace : Space [' '] := by simp [Space, isSpace]
  have hparse := parse_of_derives sampleJson_conforms space_nil hspace sampleJsonText_derives rfl
    (validate_eq_ok_iff.mp sampleJsonText_valid).1
    (by simp [JsonTree.count, countItems, JsonTree.Distinct, DistinctItems])
  obtain ⟨tree, standard, -, hstandard, hread | hrefused⟩ :=
    exact_reader_correct sampleJson_conforms sampleJsonText_valid
  · obtain ⟨-, -, result, rest, -, -, hresult, hvalue, -⟩ := hread
    refine ⟨result, standard, hstandard, hresult, hvalue, ?_⟩
    rw [hresult] at hparse
    rw [Except.ok.inj hparse, JsonTree.mapNumbers_mapNumbers]
    simp [JsonTree.mapNumbers, mapItems, StandardJson.exact]
  · obtain ⟨-, message, -, -, herror⟩ := hrefused
    rw [herror] at hparse
    cases hparse

end Moonfort.Executor
