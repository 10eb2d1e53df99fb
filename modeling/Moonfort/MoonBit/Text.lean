import Moonfort.MoonBit.Bytes
import Mathlib.Data.List.Lex

/-!
# Strings

MoonBit strings are sequences of UTF-16 code units; a well-formed one is given
here by its characters, and its length counts code units. Decoding reads UTF-8
with one state machine, strictly or with replacement characters.
-/

namespace Moonfort.MoonBit

/-- `s.length()`: the number of UTF-16 code units. -/
def utf16Length (s : String) : ℕ :=
  (s.toList.map fun c => if c.toNat < 0x10000 then 1 else 2).sum

/-- `@utf8.encode(s).length()`. -/
def utf8Length (s : String) : ℕ := (s.toList.map Char.utf8Size).sum

/-- The sizes of two texts add up. -/
theorem utf8Length_append (s t : String) : utf8Length (s ++ t) = utf8Length s + utf8Length t := by
  simp [utf8Length, String.toList_append]

/-- `s.has_prefix(p)`. -/
def hasPrefix (s p : String) : Bool := p.toList.isPrefixOf s.toList

/-- `s.has_suffix(p)`. -/
def hasSuffix (s p : String) : Bool := p.toList.isSuffixOf s.toList

/-- A sequence of characters occurs in another. -/
def occursIn (p : List Char) : List Char → Bool
  | [] => p.isEmpty
  | c :: rest => p.isPrefixOf (c :: rest) || occursIn p rest

/-- `s.contains(p)`. -/
def containsText (s p : String) : Bool := occursIn p.toList s.toList

/-- `s.split("/")`, component by component. -/
def splitPath (s : String) : List String := (s.toList.splitOn '/').map String.ofList

/-- `s.all(test)`. -/
def allChars (s : String) (test : Char → Bool) : Bool := s.toList.all test

/-- A character that `trim` removes. -/
def isTrimmed (c : Char) : Bool := c == ' ' || c == '\t' || c == '\n' || c == '\r'

/-- `s.trim()`. -/
def trim (s : String) : String :=
  String.ofList ((s.toList.dropWhile isTrimmed).reverse.dropWhile isTrimmed).reverse

/-- The UTF-16 code units of a character. -/
def utf16Char (c : Char) : List ℕ :=
  if c.toNat < 0x10000 then [c.toNat]
  else [0xD800 + (c.toNat - 0x10000) / 0x400, 0xDC00 + (c.toNat - 0x10000) % 0x400]

/-- The UTF-16 code units of a string. -/
def utf16Units (s : String) : List ℕ := s.toList.flatMap utf16Char

/-- The code units at the front of a text determine its first character. -/
theorem utf16Char_append_inj {c d : Char} {s t : List ℕ}
    (h : utf16Char c ++ s = utf16Char d ++ t) : c = d ∧ s = t := by
  have hc : c.toNat < 0xD800 ∨ 0xDFFF < c.toNat ∧ c.toNat < 0x110000 := c.valid
  have hd : d.toNat < 0xD800 ∨ 0xDFFF < d.toNat ∧ d.toNat < 0x110000 := d.valid
  have hchar : c.toNat = d.toNat → c = d := Char.toNat_inj.mp
  unfold utf16Char at h
  split at h <;> split at h <;>
    simp only [List.cons_append, List.nil_append, List.cons.injEq] at h
  · exact ⟨hchar h.1, h.2⟩
  · omega
  · omega
  · exact ⟨hchar (by omega), h.2.2⟩

/-- The code units of a string determine it. -/
theorem utf16Units_inj {s t : String} (h : utf16Units s = utf16Units t) : s = t := by
  have hne : ∀ (c : Char) (units : List ℕ), utf16Char c ++ units ≠ [] := by
    intro c units
    unfold utf16Char
    split <;> exact List.cons_ne_nil _ _
  have hchars : ∀ a b : List Char, a.flatMap utf16Char = b.flatMap utf16Char → a = b := by
    intro a
    induction a with
    | nil =>
      intro b hb
      cases b with
      | nil => rfl
      | cons d b =>
        rw [List.flatMap_nil, List.flatMap_cons] at hb
        exact absurd hb.symm (hne _ _)
    | cons c a ih =>
      intro b hb
      cases b with
      | nil =>
        rw [List.flatMap_nil, List.flatMap_cons] at hb
        exact absurd hb (hne _ _)
      | cons d b =>
        rw [List.flatMap_cons, List.flatMap_cons] at hb
        obtain ⟨rfl, hrest⟩ := utf16Char_append_inj hb
        rw [ih b hrest]
  exact String.toList_inj.mp (hchars _ _ h)

/-- `s <= t` as `String::compare` has it: the shorter string first. -/
def stringLe (s t : String) : Bool :=
  decide (utf16Length s < utf16Length t) ||
    (utf16Length s == utf16Length t && decide (utf16Units s ≤ utf16Units t))

/-- `values.sort()` on strings. -/
def sortStrings (values : List String) : List String := values.mergeSort stringLe

/-- Sorting keeps the strings of a list, each as often as it occurs. -/
theorem sortStrings_perm (values : List String) : (sortStrings values).Perm values :=
  List.mergeSort_perm values stringLe

/-- The reader's position inside a multi-byte UTF-8 sequence. -/
structure Utf8State where
  /-- Continuation bytes still expected; zero between characters. -/
  needed : ℕ
  /-- The least byte accepted next. -/
  lower : UInt8
  /-- The greatest byte accepted next. -/
  upper : UInt8
  /-- The scalar value read so far. -/
  value : ℕ
  deriving DecidableEq

/-- The reader between two characters. -/
def Utf8State.idle : Utf8State := ⟨0, 0x80, 0xBF, 0⟩

/-- Read the first byte of a character. An item `none` marks malformed input. -/
def utf8Lead (byte : UInt8) : List (Option Char) × Utf8State :=
  if byte ≤ 0x7F then ([some (Char.ofNat byte.toNat)], .idle)
  else if 0xC2 ≤ byte ∧ byte ≤ 0xDF then ([], ⟨1, 0x80, 0xBF, byte.toNat % 32⟩)
  else if byte = 0xE0 then ([], ⟨2, 0xA0, 0xBF, 0⟩)
  else if byte = 0xED then ([], ⟨2, 0x80, 0x9F, byte.toNat % 16⟩)
  else if 0xE1 ≤ byte ∧ byte ≤ 0xEF then ([], ⟨2, 0x80, 0xBF, byte.toNat % 16⟩)
  else if byte = 0xF0 then ([], ⟨3, 0x90, 0xBF, 0⟩)
  else if 0xF1 ≤ byte ∧ byte ≤ 0xF3 then ([], ⟨3, 0x80, 0xBF, byte.toNat % 8⟩)
  else if byte = 0xF4 then ([], ⟨3, 0x80, 0x8F, byte.toNat % 8⟩)
  else ([none], .idle)

/-- Read one byte. A byte that cannot continue the open sequence ends it as
malformed and is read again as a first byte. -/
def utf8Feed (s : Utf8State) (byte : UInt8) : List (Option Char) × Utf8State :=
  if s.needed = 0 then utf8Lead byte
  else if s.lower ≤ byte ∧ byte ≤ s.upper then
    let value := 64 * s.value + byte.toNat % 64
    if s.needed = 1 then ([some (Char.ofNat value)], .idle)
    else ([], ⟨s.needed - 1, 0x80, 0xBF, value⟩)
  else
    let (items, next) := utf8Lead byte
    (none :: items, next)

/-- The characters and malformed sequences of a byte string, in order. -/
def utf8Items : Utf8State → List UInt8 → List (Option Char)
  | s, [] => if s.needed = 0 then [] else [none]
  | s, byte :: rest =>
    let (items, next) := utf8Feed s byte
    items ++ utf8Items next rest

/-- `@utf8.decode`, which raises on malformed input. -/
def utf8Decode (b : Bytes) : Option String :=
  ((utf8Items .idle b.data).mapM id).map String.ofList

/-- `@utf8.decode_lossy`, which replaces every malformed sequence. -/
def utf8DecodeLossy (b : Bytes) : String :=
  String.ofList ((utf8Items .idle b.data).map (·.getD '\uFFFD'))

end Moonfort.MoonBit
