import Mathlib.Data.List.Forall2
import Moonfort.DecimalText
import Moonfort.Executor.RetentionJson

/-!
# JSON Pointers into retained JSON

The resolvers of JSON Pointers and the pointers to the children of a container. Every
resolver goes the way of one walk over the decoded tokens, in which an array index is the
decimal text of a number that is not too large.
-/

namespace Moonfort.Executor

open JsonGrammar MoonBit

/-! ## The resolvers -/

/-- `retained_pointer_token`, where a tilde takes the next character with it. -/
def pointerTokenChars : (tilde : Bool) → List Char → Except String (List Char)
  | false, [] => .ok []
  | true, [] => .error "invalid JSON Pointer escape"
  | false, c :: rest =>
    if c = '~' then pointerTokenChars true rest else (pointerTokenChars false rest).map (c :: ·)
  | true, c :: rest =>
    if c = '0' then (pointerTokenChars false rest).map ('~' :: ·)
    else if c = '1' then (pointerTokenChars false rest).map ('/' :: ·)
    else .error "invalid JSON Pointer escape"

/-- `retained_pointer_token`. -/
def retainedPointerToken (token : String) : Except String String :=
  (pointerTokenChars false token.toList).map String.ofList

/-- The body of the loop over the digits of an array index. -/
def indexDigit (what : String) (index : ℕ) (ch : Char) : Except String ℕ :=
  if '0' ≤ ch ∧ ch ≤ '9' ∧ index ≤ 1048576 then .ok (index * 10 + ch.toNat - '0'.toNat)
  else .error ("invalid " ++ what ++ " array index")

/-- The array index that a token is. -/
def arrayIndex (what token : String) : Except String ℕ :=
  if ¬(token ≠ "" ∧ (token = "0" ∨ hasPrefix token "0" = false)) then
    .error (what ++ " array index must be canonical decimal")
  else token.toList.foldlM (indexDigit what) 0

section Resolvers

variable {ν : Type}

/-- The step of `retained_json_at` to the child under a decoded token. -/
def pointerStep (current : JsonTree String ν) (token : String) :
    Except String (JsonTree String ν) :=
  match current with
  | .object fields =>
    match LinkedMap.get token fields with
    | some value => .ok value
    | none => .error "JSON Pointer object key is missing"
  | .array values =>
    match arrayIndex "JSON Pointer" token with
    | .error message => .error message
    | .ok index =>
      match values[index]? with
      | some value => .ok value
      | none => .error "JSON Pointer array index is out of range"
  | _ => .error "JSON Pointer traverses a scalar"

/-- The body of the loop of `retained_json_at`. -/
def pointerRound (current : JsonTree String ν) (raw : String) :
    Except String (JsonTree String ν) :=
  match retainedPointerToken raw with
  | .error message => .error message
  | .ok token => pointerStep current token

/-- The tokens of a pointer that does not select the root, as they are spelled. -/
def rawTokens (pointer : String) : List String :=
  ((pointer.toList.drop 1).splitOn '/').map String.ofList

/-- `retained_json_at`. -/
def retainedJsonAt (root : JsonTree String ν) (pointer : String) :
    Except String (JsonTree String ν) :=
  if ¬utf8Length pointer ≤ 4096 then .error "JSON Pointer exceeds 4096 bytes"
  else if pointer = "" then .ok root
  else if hasPrefix pointer "/" = false then .error "JSON Pointer must start with /"
  else (rawTokens pointer).foldlM pointerRound root

/-- `retained_edit_tokens`. -/
def retainedEditTokens (pointer : String) : Except String (List String) :=
  if ¬utf8Length pointer ≤ 4096 then .error "JSON Pointer exceeds 4096 bytes"
  else if pointer = "" then .ok []
  else if hasPrefix pointer "/" = false then .error "JSON Pointer must start with /"
  else (rawTokens pointer).mapM retainedPointerToken

/-- `retained_edit_index`. -/
def retainedEditIndex (token : String) (length : ℕ) : Except String ℕ :=
  match arrayIndex "JSON edit" token with
  | .error message => .error message
  | .ok index =>
    if index < length then .ok index else .error "JSON edit array index is out of range"

/-- `retained_json_cell_at`. -/
def retainedJsonCellAt (current : JsonTree String ν) :
    List String → Except String (Option (JsonTree String ν))
  | [] => .ok (some current)
  | token :: rest =>
    match current with
    | .object fields =>
      match LinkedMap.get token fields with
      | some value => retainedJsonCellAt value rest
      | none => .ok none
    | .array values =>
      match retainedEditIndex token values.length with
      | .error message => .error message
      | .ok index =>
        match values[index]? with
        | some value => retainedJsonCellAt value rest
        | none => .error "index out of bounds"
    | _ => .error "JSON table column traverses a scalar"

/-- `replace_all` with one character for the old text. -/
def replaceAll (old : Char) (new : List Char) (chars : List Char) : List Char :=
  chars.flatMap fun c => if c = old then new else [c]

/-- `retained_json_child_pointer`. -/
def retainedJsonChildPointer (parent key : String) : String :=
  parent ++ "/" ++
    String.ofList (replaceAll '/' ['~', '1'] (replaceAll '~' ['~', '0'] key.toList))

/-! ## The walk over tokens -/

/-- The array index that a token is, if it is one. -/
def indexOf (token : String) : Option ℕ := (arrayIndex "" token).toOption

/-- The child of a value under a token. -/
def childAt (token : String) : JsonTree String ν → Option (JsonTree String ν)
  | .object fields => LinkedMap.get token fields
  | .array items => (indexOf token).bind fun index => items[index]?
  | _ => none

/-- The value that some tokens lead to. -/
def find : List String → JsonTree String ν → Option (JsonTree String ν)
  | [], tree => some tree
  | token :: rest, tree => (childAt token tree).bind (find rest)

/-- The first token leads to a child, and the others lead on from it. -/
theorem find_cons {token : String} {tree child : JsonTree String ν}
    (h : childAt token tree = some child) (rest : List String) :
    find (token :: rest) tree = find rest child := by
  rw [find, h, Option.bind_some]

/-- Tokens lead on from where those before them lead. -/
theorem find_append (tokens rest : List String) (tree : JsonTree String ν) :
    find (tokens ++ rest) tree = (find tokens tree).bind (find rest) := by
  induction tokens generalizing tree with
  | nil => rfl
  | cons token tokens ih =>
    rw [List.cons_append, find, find]
    cases childAt token tree with
    | none => rfl
    | some child => exact ih child

end Resolvers

/-! ## Array indices -/

/-- The text of an array index. -/
def indexText (index : ℕ) : String := String.ofList (Nat.toDigits 10 index)

/-- A digit is added to the index. -/
theorem indexDigit_digitChar (what : String) {index digit : ℕ} (hindex : index ≤ 1048576)
    (hdigit : digit < 10) :
    indexDigit what index (Nat.digitChar digit) = .ok (10 * index + digit) := by
  have hvalue := Nat.toNat_digitChar_of_lt_ten hdigit
  have hzero : '0'.toNat = 48 := rfl
  have hrange : ∀ d < 10, '0' ≤ Nat.digitChar d ∧ Nat.digitChar d ≤ '9' := by decide
  obtain ⟨hlow, hhigh⟩ := hrange digit hdigit
  rw [indexDigit, if_pos ⟨hlow, hhigh, hindex⟩, hvalue, hzero]
  congr 1
  omega

/-- The digits of a number that is not too large are read as the number. -/
theorem foldlM_toDigits (what : String) {index : ℕ} (h : index / 10 ≤ 1048576) :
    (Nat.toDigits 10 index).foldlM (indexDigit what) 0 = .ok index := by
  induction index using Nat.strongRecOn with
  | ind index ih =>
    by_cases hsmall : index < 10
    · rw [Nat.toDigits_of_lt_base hsmall, List.foldlM_cons,
        indexDigit_digitChar what (by omega) hsmall]
      change Except.ok _ = _
      rw [Nat.mul_zero, Nat.zero_add]
    · have hdigits := Nat.toDigits_append_toDigits (b := 10) (n := index / 10) (d := index % 10)
        (by omega) (by omega) (by omega)
      have hsum : 10 * (index / 10) + index % 10 = index := by omega
      rw [hsum, Nat.toDigits_of_lt_base (by omega : index % 10 < 10)] at hdigits
      rw [← hdigits, List.foldlM_append, ih (index / 10) (by omega) (by omega)]
      change List.foldlM _ _ _ = _
      rw [List.foldlM_cons, indexDigit_digitChar what h (by omega), hsum]
      rfl

/-- A digit that is read is the last digit of the number that is read. -/
theorem indexDigit_eq_ok {what : String} {index next : ℕ} {ch : Char}
    (h : indexDigit what index ch = .ok next) :
    index ≤ 1048576 ∧ ∃ digit < 10, ch = Nat.digitChar digit ∧ next = 10 * index + digit := by
  unfold indexDigit at h
  split at h
  next hch =>
    obtain ⟨hlow, hhigh, hindex⟩ := hch
    have hlow' : 48 ≤ ch.toNat := hlow
    have hhigh' : ch.toNat ≤ 57 := hhigh
    have hzero : '0'.toNat = 48 := rfl
    refine ⟨hindex, ch.toNat - 48, by omega, ?_, ?_⟩
    · apply Char.toNat_inj.mp
      rw [Nat.toNat_digitChar_of_lt_ten (by omega)]
      omega
    · have hnext := Except.ok.inj h
      omega
  next => cases h

/-- What is read behind a number continues its digits. -/
theorem toDigits_foldlM {what : String} {index next : ℕ} {chars : List Char} (hpos : 0 < index)
    (h : chars.foldlM (indexDigit what) index = .ok next) :
    Nat.toDigits 10 next = Nat.toDigits 10 index ++ chars ∧
      (index / 10 ≤ 1048576 → next / 10 ≤ 1048576) := by
  induction chars generalizing index with
  | nil =>
    obtain rfl : index = next := Except.ok.inj h
    exact ⟨(List.append_nil _).symm, id⟩
  | cons ch rest ih =>
    rw [List.foldlM_cons] at h
    cases hstep : indexDigit what index ch with
    | error message =>
      rw [hstep] at h
      cases h
    | ok middle =>
      rw [hstep] at h
      obtain ⟨hindex, digit, hdigit, rfl, rfl⟩ := indexDigit_eq_ok hstep
      obtain ⟨hdigits, hbound⟩ := ih (by omega) h
      have hmiddle := Nat.toDigits_append_toDigits (b := 10) (by omega) hpos hdigit
      rw [Nat.toDigits_of_lt_base hdigit] at hmiddle
      rw [hdigits, ← hmiddle, List.append_assoc, List.singleton_append]
      exact ⟨rfl, fun _ => hbound (by omega)⟩

/-- The array indices are the decimal texts of the numbers that are not too large. -/
theorem arrayIndex_eq_ok_iff {what token : String} {index : ℕ} :
    arrayIndex what token = .ok index ↔ token = indexText index ∧ index / 10 ≤ 1048576 := by
  unfold arrayIndex
  constructor
  · intro h
    split at h
    next => cases h
    next hcanonical =>
      obtain ⟨hne, hzero⟩ := not_not.mp hcanonical
      cases hchars : token.toList with
      | nil => exact absurd (String.toList_inj.mp (hchars.trans String.toList_empty.symm)) hne
      | cons ch rest =>
        rw [hchars, List.foldlM_cons] at h
        cases hstep : indexDigit what 0 ch with
        | error message =>
          rw [hstep] at h
          cases h
        | ok first =>
          rw [hstep] at h
          obtain ⟨-, digit, hdigit, rfl, rfl⟩ := indexDigit_eq_ok hstep
          rw [Nat.mul_zero, Nat.zero_add] at h
          by_cases hpos : 0 < digit
          · obtain ⟨hdigits, hbound⟩ := toDigits_foldlM hpos h
            rw [Nat.toDigits_of_lt_base hdigit, List.singleton_append, ← hchars] at hdigits
            refine ⟨?_, hbound (by omega)⟩
            rw [indexText, hdigits, String.ofList_toList]
          · obtain rfl : digit = 0 := by omega
            rcases hzero with rfl | hzero
            · have hrest : rest = [] := by
                have htext : "0".toList = ['0'] := rfl
                rw [htext] at hchars
                exact (List.cons.inj hchars).2.symm
              rw [hrest] at h
              obtain rfl : 0 = index := Except.ok.inj h
              exact ⟨rfl, by omega⟩
            · rw [hasPrefix, hchars] at hzero
              exact absurd hzero (by simp [List.isPrefixOf])
  · rintro ⟨rfl, hbound⟩
    have hread := foldlM_toDigits what hbound
    have hchars : (indexText index).toList = Nat.toDigits 10 index := String.toList_ofList
    rw [if_neg, hchars, hread]
    rw [not_not]
    constructor
    · intro hempty
      rw [hempty] at hchars
      exact Nat.toDigits_ne_nil hchars.symm
    · by_cases hzero : index = 0
      · left
        rw [hzero]
        rfl
      · right
        cases hprefix : hasPrefix (indexText index) "0" with
        | false => rfl
        | true =>
          rw [hasPrefix, hchars] at hprefix
          obtain ⟨rest, hrest⟩ := List.isPrefixOf_iff_prefix.mp hprefix
          exact absurd hrest.symm (DecimalText.toDigits_ne_zero_cons (by omega) rest)

/-- The source's index is the decimal one. -/
theorem arrayIndex_eq_ok_iff_indexOf {what token : String} {index : ℕ} :
    arrayIndex what token = .ok index ↔ indexOf token = some index := by
  rw [arrayIndex_eq_ok_iff, indexOf]
  cases h : arrayIndex "" token with
  | error message =>
    constructor
    · intro hindex
      rw [← @arrayIndex_eq_ok_iff "", h] at hindex
      cases hindex
    · intro hnone
      cases hnone
  | ok other =>
    rw [Except.toOption, Option.some.injEq]
    obtain ⟨rfl, hbound⟩ := arrayIndex_eq_ok_iff.mp h
    constructor
    · rintro ⟨heq, -⟩
      exact (toDigits_inj (String.ofList_injective heq))
    · rintro rfl
      exact ⟨rfl, hbound⟩

/-- What the array indices are. -/
theorem indexOf_eq_some_iff {token : String} {index : ℕ} :
    indexOf token = some index ↔ token = indexText index ∧ index / 10 ≤ 1048576 := by
  rw [← @arrayIndex_eq_ok_iff_indexOf "", arrayIndex_eq_ok_iff]

/-! ## Tokens -/

/-- A key with its tildes and slashes escaped. -/
def escapeKey (chars : List Char) : List Char :=
  replaceAll '/' ['~', '1'] (replaceAll '~' ['~', '0'] chars)

/-- A key is escaped character by character. -/
theorem escapeKey_cons (c : Char) (rest : List Char) :
    escapeKey (c :: rest) =
      (if c = '~' then ['~', '0'] else if c = '/' then ['~', '1'] else [c]) ++ escapeKey rest := by
  unfold escapeKey replaceAll
  rw [List.flatMap_cons, List.flatMap_append]
  congr 1
  split
  · rfl
  · simp

/-- An escaped key is decoded to the key. -/
theorem pointerTokenChars_escapeKey (chars : List Char) :
    pointerTokenChars false (escapeKey chars) = .ok chars := by
  induction chars with
  | nil => rfl
  | cons c rest ih =>
    rw [escapeKey_cons]
    split
    next htilde =>
      rw [List.cons_append, List.singleton_append, pointerTokenChars, if_pos rfl,
        pointerTokenChars, if_pos rfl, ih, htilde]
      rfl
    next htilde =>
      split
      next hslash =>
        rw [List.cons_append, List.singleton_append, pointerTokenChars, if_pos rfl,
          pointerTokenChars, if_neg (by decide), if_pos rfl, ih, hslash]
        rfl
      next =>
        rw [List.singleton_append, pointerTokenChars, if_neg htilde, ih]
        rfl

/-- An escaped key has no slash. -/
theorem slash_notMem_escapeKey (chars : List Char) : '/' ∉ escapeKey chars := by
  induction chars with
  | nil => exact List.not_mem_nil
  | cons c rest ih =>
    rw [escapeKey_cons, List.mem_append, not_or]
    refine ⟨?_, ih⟩
    split
    · decide
    · split
      · decide
      next hslash =>
        rw [List.mem_singleton]
        exact Ne.symm hslash

/-- The raw tokens of a pointer: none for the root. -/
def pointerTokens (pointer : String) : List String :=
  if pointer = "" then [] else rawTokens pointer

/-- The pointer is empty or starts with a slash, and is not too long. -/
structure WellFormedPointer (pointer : String) : Prop where
  length_le : utf8Length pointer ≤ 4096
  slash : pointer = "" ∨ hasPrefix pointer "/" = true

/-- A pointer that starts with a slash has characters behind it. -/
theorem exists_of_hasPrefix {pointer : String} (h : hasPrefix pointer "/" = true) :
    ∃ rest, pointer.toList = '/' :: rest := by
  obtain ⟨rest, hrest⟩ := List.isPrefixOf_iff_prefix.mp h
  exact ⟨rest, hrest.symm⟩

/-- The tokens of a child's pointer are those of the parent's and the escaped key. -/
theorem pointerTokens_child {parent : String} (h : parent = "" ∨ hasPrefix parent "/" = true)
    (key : String) :
    pointerTokens (retainedJsonChildPointer parent key) =
      pointerTokens parent ++ [String.ofList (escapeKey key.toList)] := by
  have hslash : "/".toList = ['/'] := rfl
  have hchars : (retainedJsonChildPointer parent key).toList =
      parent.toList ++ '/' :: escapeKey key.toList := by
    rw [retainedJsonChildPointer, String.toList_append, String.toList_append, hslash,
      String.toList_ofList, List.append_assoc, List.singleton_append]
    rfl
  have hne : retainedJsonChildPointer parent key ≠ "" := by
    intro heq
    rw [heq, String.toList_empty] at hchars
    exact List.append_ne_nil_of_right_ne_nil _ (List.cons_ne_nil _ _) hchars.symm
  have hsingle := List.splitOn_eq_singleton (slash_notMem_escapeKey key.toList)
  rw [pointerTokens, if_neg hne, rawTokens, hchars]
  rcases h with rfl | hslashes
  · rw [String.toList_empty, List.nil_append, List.drop_one, List.tail_cons, hsingle]
    rfl
  · obtain ⟨rest, hrest⟩ := exists_of_hasPrefix hslashes
    have hparent : parent ≠ "" := by
      rintro rfl
      cases hrest
    rw [pointerTokens, if_neg hparent, rawTokens, hrest, List.cons_append, List.drop_one,
      List.tail_cons, List.drop_one, List.tail_cons, List.splitOn_append_cons_self, hsingle,
      List.map_append]
    rfl

/-! ## The resolvers agree -/

/-- The tokens of a pointer that is well formed. -/
theorem retainedEditTokens_eq_ok_iff {pointer : String} {tokens : List String} :
    retainedEditTokens pointer = .ok tokens ↔
      WellFormedPointer pointer ∧
        (pointerTokens pointer).mapM retainedPointerToken = .ok tokens := by
  unfold retainedEditTokens pointerTokens
  by_cases hlength : utf8Length pointer ≤ 4096
  · rw [if_neg (not_not.mpr hlength)]
    by_cases hempty : pointer = ""
    · rw [if_pos hempty, if_pos hempty]
      exact ⟨fun h => ⟨⟨hlength, .inl hempty⟩, h⟩, fun h => h.2⟩
    · rw [if_neg hempty, if_neg hempty]
      by_cases hslash : hasPrefix pointer "/" = true
      · rw [if_neg (by rw [hslash]; exact Bool.noConfusion)]
        exact ⟨fun h => ⟨⟨hlength, .inr hslash⟩, h⟩, fun h => h.2⟩
      · rw [if_pos (Bool.eq_false_of_not_eq_true hslash)]
        constructor
        · intro h
          cases h
        · rintro ⟨hpointer, -⟩
          exact absurd (hpointer.slash.resolve_left hempty) hslash
  · rw [if_pos hlength]
    constructor
    · intro h
      cases h
    · rintro ⟨hpointer, -⟩
      exact absurd hpointer.length_le hlength

/-- A map that may fail yields what each item yields. -/
theorem mapM_eq_ok_iff {α β ε : Type} {f : α → Except ε β} {l : List α} {result : List β} :
    l.mapM f = .ok result ↔ List.Forall₂ (fun a b => f a = .ok b) l result := by
  induction l generalizing result with
  | nil =>
    rw [List.forall₂_nil_left_iff]
    exact ⟨fun h => (Except.ok.inj h).symm, fun h => congrArg Except.ok h.symm⟩
  | cons a rest ih =>
    rw [List.mapM_cons, List.forall₂_cons_left_iff]
    constructor
    · intro h
      cases hfirst : f a with
      | error fault =>
        rw [hfirst] at h
        cases h
      | ok b =>
        cases hrest : rest.mapM f with
        | error fault =>
          rw [hfirst, hrest] at h
          cases h
        | ok others =>
          rw [hfirst, hrest] at h
          exact ⟨b, others, rfl, ih.mp hrest, (Except.ok.inj h).symm⟩
    · rintro ⟨b, others, hfirst, hrest, rfl⟩
      rw [hfirst, ih.mpr hrest]
      rfl

/-- Each item of a map that succeeds has its result there. -/
theorem exists_of_mapM {α β ε : Type} {f : α → Except ε β} {l : List α} {result : List β}
    (h : l.mapM f = .ok result) {a : α} (ha : a ∈ l) : ∃ b ∈ result, f a = .ok b := by
  induction mapM_eq_ok_iff.mp h with
  | nil => cases ha
  | cons hfirst hrest ih =>
    rcases List.mem_cons.mp ha with rfl | ha
    · exact ⟨_, List.mem_cons_self, hfirst⟩
    · obtain ⟨b, hb, heq⟩ := ih (mapM_eq_ok_iff.mpr hrest) ha
      exact ⟨b, List.mem_cons_of_mem _ hb, heq⟩

/-- Only the pointer to the root has no tokens. -/
theorem retainedEditTokens_ne_nil {pointer : String} {tokens : List String}
    (h : retainedEditTokens pointer = .ok tokens) : tokens ≠ [] ↔ pointer ≠ "" := by
  have hlength := (mapM_eq_ok_iff.mp (retainedEditTokens_eq_ok_iff.mp h).2).length_eq.symm
  rw [pointerTokens] at hlength
  by_cases hempty : pointer = ""
  · rw [if_pos hempty] at hlength
    exact iff_of_false (not_not.mpr (List.length_eq_zero_iff.mp hlength)) (not_not.mpr hempty)
  · rw [if_neg hempty, rawTokens, List.length_map] at hlength
    have hpos := List.length_pos_iff.mpr (List.splitOn_ne_nil '/' (pointer.toList.drop 1))
    exact iff_of_true (List.length_pos_iff.mp (by omega)) hempty

section Resolvers

variable {ν : Type}

/-- A step leads to the addressed child. -/
theorem pointerStep_eq_ok_iff {tree value : JsonTree String ν} {token : String} :
    pointerStep tree token = .ok value ↔ childAt token tree = some value := by
  cases tree with
  | object fields =>
    rw [pointerStep, childAt]
    cases LinkedMap.get token fields with
    | none => simp
    | some child => simp
  | array items =>
    rw [pointerStep, childAt]
    cases hindex : arrayIndex "JSON Pointer" token with
    | error message =>
      have hnone : indexOf token = none := by
        cases hsome : indexOf token with
        | none => rfl
        | some index =>
          rw [← @arrayIndex_eq_ok_iff_indexOf "JSON Pointer", hindex] at hsome
          cases hsome
      simp [hnone]
    | ok index =>
      rw [arrayIndex_eq_ok_iff_indexOf.mp hindex, Option.bind_some]
      dsimp only
      cases items[index]? with
      | none => simp
      | some child => simp
  | _ => simp [pointerStep, childAt]

/-- The loop over the raw tokens decodes them and walks. -/
theorem foldlM_pointerRound {raws : List String} {tree value : JsonTree String ν} :
    raws.foldlM pointerRound tree = .ok value ↔
      ∃ tokens, raws.mapM retainedPointerToken = .ok tokens ∧ find tokens tree = some value := by
  induction raws generalizing tree with
  | nil =>
    constructor
    · intro h
      exact ⟨[], rfl, congrArg some (Except.ok.inj h)⟩
    · rintro ⟨tokens, htokens, hfind⟩
      obtain rfl : [] = tokens := Except.ok.inj htokens
      obtain rfl : tree = value := Option.some.inj hfind
      rfl
  | cons raw rest ih =>
    rw [List.foldlM_cons, List.mapM_cons, pointerRound]
    cases hdecoded : retainedPointerToken raw with
    | error message =>
      constructor
      · intro h
        cases h
      · rintro ⟨tokens, htokens, -⟩
        cases htokens
    | ok token =>
      dsimp only
      cases hstep : pointerStep tree token with
      | error message =>
        constructor
        · intro h
          cases h
        · rintro ⟨tokens, htokens, hfind⟩
          cases hrest : rest.mapM retainedPointerToken with
          | error message' =>
            rw [hrest] at htokens
            cases htokens
          | ok others =>
            rw [hrest] at htokens
            obtain rfl : token :: others = tokens := Except.ok.inj htokens
            rw [find] at hfind
            obtain ⟨child, hchild, -⟩ := Option.bind_eq_some_iff.mp hfind
            rw [pointerStep_eq_ok_iff.mpr hchild] at hstep
            cases hstep
      | ok child =>
        have hchild := pointerStep_eq_ok_iff.mp hstep
        change List.foldlM _ child rest = _ ↔ _
        rw [ih]
        constructor
        · rintro ⟨others, hothers, hfind⟩
          refine ⟨token :: others, by rw [hothers]; rfl, ?_⟩
          rw [find, hchild]
          exact hfind
        · rintro ⟨tokens, htokens, hfind⟩
          cases hrest : rest.mapM retainedPointerToken with
          | error message' =>
            rw [hrest] at htokens
            cases htokens
          | ok others =>
            rw [hrest] at htokens
            obtain rfl : token :: others = tokens := Except.ok.inj htokens
            rw [find, hchild] at hfind
            exact ⟨others, rfl, hfind⟩

/-- Resolving a pointer is walking over its tokens. -/
theorem retainedJsonAt_eq_ok_iff {root value : JsonTree String ν} {pointer : String} :
    retainedJsonAt root pointer = .ok value ↔
      ∃ tokens, retainedEditTokens pointer = .ok tokens ∧ find tokens root = some value := by
  have hwell (h : WellFormedPointer pointer) :
      retainedJsonAt root pointer = .ok value ↔
        ∃ tokens, (pointerTokens pointer).mapM retainedPointerToken = .ok tokens ∧
          find tokens root = some value := by
    rw [← foldlM_pointerRound]
    unfold retainedJsonAt pointerTokens
    rw [if_neg (not_not.mpr h.length_le)]
    by_cases hempty : pointer = ""
    · rw [if_pos hempty, if_pos hempty]
      rfl
    · have hslash := h.slash.resolve_left hempty
      rw [if_neg hempty, if_neg hempty, if_neg (by rw [hslash]; exact Bool.noConfusion)]
  constructor
  · intro h
    have hpointer : WellFormedPointer pointer := by
      unfold retainedJsonAt at h
      split at h
      next => cases h
      next hlength =>
        split at h
        next hempty => exact ⟨not_not.mp hlength, .inl hempty⟩
        next =>
          split at h
          next => cases h
          next hslash => exact ⟨not_not.mp hlength, .inr (by simpa using hslash)⟩
    obtain ⟨tokens, htokens, hfind⟩ := (hwell hpointer).mp h
    exact ⟨tokens, retainedEditTokens_eq_ok_iff.mpr ⟨hpointer, htokens⟩, hfind⟩
  · rintro ⟨tokens, htokens, hfind⟩
    obtain ⟨hpointer, htokens⟩ := retainedEditTokens_eq_ok_iff.mp htokens
    exact (hwell hpointer).mpr ⟨tokens, htokens, hfind⟩

/-- The index of an edit is a decimal one inside the array. -/
theorem retainedEditIndex_eq_ok_iff {token : String} {length index : ℕ} :
    retainedEditIndex token length = .ok index ↔ indexOf token = some index ∧ index < length := by
  rw [retainedEditIndex, ← @arrayIndex_eq_ok_iff_indexOf "JSON edit"]
  cases arrayIndex "JSON edit" token with
  | error message => simp
  | ok other =>
    dsimp only
    rw [Except.ok.injEq]
    split
    next hlt =>
      rw [Except.ok.injEq]
      constructor
      · rintro rfl
        exact ⟨rfl, hlt⟩
      · exact And.left
    next hge =>
      constructor
      · intro h
        cases h
      · rintro ⟨rfl, hlt⟩
        exact absurd hlt hge

/-- Resolving the cell of a column is walking over the tokens. -/
theorem retainedJsonCellAt_eq_ok_iff {tokens : List String} {root value : JsonTree String ν} :
    retainedJsonCellAt root tokens = .ok (some value) ↔ find tokens root = some value := by
  induction tokens generalizing root with
  | nil => rw [retainedJsonCellAt, find, Except.ok.injEq]
  | cons token rest ih =>
    cases root with
    | object fields =>
      rw [retainedJsonCellAt, find, childAt]
      cases LinkedMap.get token fields with
      | none => simp
      | some child => exact ih
    | array items =>
      rw [retainedJsonCellAt, find, childAt]
      cases hindex : retainedEditIndex token items.length with
      | error message =>
        have hnone : ((indexOf token).bind fun index => items[index]?) = none := by
          cases hsome : indexOf token with
          | none => rfl
          | some index =>
            rw [Option.bind_some, List.getElem?_eq_none_iff]
            by_contra hlt
            have hok := retainedEditIndex_eq_ok_iff.mpr ⟨hsome, Nat.lt_of_not_le hlt⟩
            rw [hindex] at hok
            cases hok
        rw [hnone]
        simp
      | ok index =>
        obtain ⟨hsome, hlt⟩ := retainedEditIndex_eq_ok_iff.mp hindex
        rw [hsome, Option.bind_some]
        dsimp only
        rw [List.getElem?_eq_getElem hlt]
        exact ih
    | _ => simp [retainedJsonCellAt, find, childAt]

/-- A child's pointer leads to the child. -/
theorem retainedJsonAt_child {root container child : JsonTree String ν} {parent key : String}
    (hparent : retainedJsonAt root parent = .ok container)
    (hchild : childAt key container = some child)
    (hlength : utf8Length (retainedJsonChildPointer parent key) ≤ 4096) :
    retainedJsonAt root (retainedJsonChildPointer parent key) = .ok child := by
  obtain ⟨tokens, htokens, hfind⟩ := retainedJsonAt_eq_ok_iff.mp hparent
  obtain ⟨hpointer, hdecoded⟩ := retainedEditTokens_eq_ok_iff.mp htokens
  have hslash : hasPrefix (retainedJsonChildPointer parent key) "/" = true := by
    have hone : "/".toList = ['/'] := rfl
    rw [retainedJsonChildPointer, hasPrefix, String.toList_append, String.toList_append, hone]
    rcases hpointer.slash with rfl | hparent
    · rfl
    · obtain ⟨rest, hrest⟩ := exists_of_hasPrefix hparent
      rw [hrest]
      rfl
  have hkey : retainedPointerToken (String.ofList (escapeKey key.toList)) = .ok key := by
    rw [retainedPointerToken, String.toList_ofList, pointerTokenChars_escapeKey]
    change Except.ok (String.ofList key.toList) = _
    rw [String.ofList_toList]
  apply retainedJsonAt_eq_ok_iff.mpr
  refine ⟨tokens ++ [key], ?_, ?_⟩
  · apply retainedEditTokens_eq_ok_iff.mpr
    refine ⟨⟨hlength, .inr hslash⟩, ?_⟩
    rw [pointerTokens_child hpointer.slash, List.mapM_append, hdecoded, List.mapM_cons, hkey]
    rfl
  · rw [find_append, hfind, Option.bind_some, find, hchild]
    rfl

/-- A value as the reader returns it. -/
structure Exact (tree : JsonTree String ν) : Prop where
  count_le : tree.count ≤ 20000
  distinct : tree.Distinct

/-- The children of an exact tree are exact. -/
theorem Exact.childAt {tree child : JsonTree String ν} (h : Exact tree) {token : String}
    (hchild : childAt token tree = some child) : Exact child := by
  have hcount := h.count_le
  cases tree with
  | object fields =>
    have hmem := LinkedMap.mem_of_get hchild
    have hle : child.count ≤ countMembers fields := count_le_of_mem_members hmem
    rw [JsonTree.count] at hcount
    exact ⟨by omega, distinctMembers_iff.mp h.distinct.2 _ hmem⟩
  | array items =>
    obtain ⟨index, -, hitem⟩ := Option.bind_eq_some_iff.mp hchild
    have hmem := List.mem_of_getElem? hitem
    have hle := count_le_of_mem hmem
    rw [JsonTree.count] at hcount
    exact ⟨by omega, distinctItems_iff.mp h.distinct _ hmem⟩
  | _ => cases hchild

/-- What is found in an exact tree is exact. -/
theorem Exact.find {tree value : JsonTree String ν} (h : Exact tree) {tokens : List String}
    (hfind : find tokens tree = some value) : Exact value := by
  induction tokens generalizing tree with
  | nil => exact Option.some.inj hfind ▸ h
  | cons token rest ih =>
    obtain ⟨child, hchild, hrest⟩ := Option.bind_eq_some_iff.mp hfind
    exact ih (h.childAt hchild) hrest

/-- What the keys of an object lead to. -/
theorem childAt_of_mem {fields : List (String × JsonTree String ν)}
    (h : Exact (.object fields)) {key : String} {value : JsonTree String ν}
    (hmem : (key, value) ∈ fields) : childAt key (.object fields) = some value :=
  LinkedMap.get_of_mem h.distinct.1 hmem

/-- What the indices of an array lead to. -/
theorem childAt_indexText {items : List (JsonTree String ν)} (h : Exact (.array items)) (index : ℕ)
    (hlt : index < items.length) :
    childAt (indexText index) (.array items) = some items[index] := by
  have hcount := h.count_le
  have hlength := length_le_countItems items
  rw [JsonTree.count] at hcount
  have hindex := indexOf_eq_some_iff.mpr ⟨rfl, (by omega : index / 10 ≤ 1048576)⟩
  rw [Moonfort.Executor.childAt, hindex, Option.bind_some, List.getElem?_eq_getElem hlt]

end Resolvers

end Moonfort.Executor
