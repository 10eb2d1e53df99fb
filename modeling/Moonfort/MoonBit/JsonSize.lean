import Moonfort.MoonBit.Base64
import Moonfort.MoonBit.Json
import Mathlib.Algebra.BigOperators.Group.List.Basic

/-!
# The size of a JSON text

How many bytes `stringify` writes, member by member, and the size of the strings
whose characters are written as they are.
-/

namespace Moonfort.MoonBit

/-- The bytes of characters in UTF-8. -/
def charsSize (chars : List Char) : ℕ := (chars.map Char.utf8Size).sum

/-- No characters have no size. -/
@[simp] theorem charsSize_nil : charsSize [] = 0 := rfl

/-- The size of characters is that of the first and of the others. -/
@[simp] theorem charsSize_cons (c : Char) (chars : List Char) :
    charsSize (c :: chars) = c.utf8Size + charsSize chars := by
  rw [charsSize, List.map_cons, List.sum_cons, charsSize]

/-- The sizes of two lists add up. -/
@[simp] theorem charsSize_append (a b : List Char) :
    charsSize (a ++ b) = charsSize a + charsSize b := by
  rw [charsSize, List.map_append, List.sum_append, charsSize, charsSize]

/-- The bytes of a JSON string with its quotation marks. -/
def quotedSize (s : String) : ℕ := charsSize (quotedChars s)

/-- The bytes of a value. -/
def Json.size (json : Json) : ℕ := charsSize json.chars

/-- The size of a JSON text is that of its value. -/
theorem utf8Length_stringify (json : Json) : utf8Length json.stringify = json.size := by
  rw [utf8Length, Json.stringify, String.toList_ofList, Json.size, charsSize]

/-- A text has the size of its quoted form. -/
@[simp] theorem Json.size_string (s : String) : (Json.string s).size = quotedSize s := by
  rw [Json.size, Json.chars, quotedSize]

/-- What the members of an object add to its size: each with a colon and a comma
or the closing brace. -/
def membersSize (members : List (String × Json)) : ℕ :=
  (members.map fun member => quotedSize member.1 + 1 + member.2.size + 1).sum

/-- No members have no size. -/
@[simp] theorem membersSize_nil : membersSize [] = 0 := rfl

/-- A member has the size of its key, of its value and of two separators. -/
@[simp] theorem membersSize_cons (key : String) (value : Json) (rest : List (String × Json)) :
    membersSize ((key, value) :: rest) =
      quotedSize key + 1 + value.size + 1 + membersSize rest := by
  rw [membersSize, List.map_cons, List.sum_cons, membersSize]

/-- Written members end in one brace more. -/
theorem charsSize_memberChars (members : List (String × Json)) :
    charsSize (memberChars members) = 1 + membersSize members := by
  induction members with
  | nil => rfl
  | cons member rest ih =>
    obtain ⟨key, value⟩ := member
    have hcomma : ','.utf8Size = 1 := rfl
    have hcolon : ':'.utf8Size = 1 := rfl
    rw [memberChars, charsSize_cons, charsSize_append, charsSize_cons, charsSize_append, ih,
      membersSize_cons, hcomma, hcolon, quotedSize, Json.size]
    omega

/-- The size of an object with at least one member. -/
theorem Json.size_object (key : String) (value : Json) (rest : List (String × Json)) :
    (Json.object ((key, value) :: rest)).size = 1 + membersSize ((key, value) :: rest) := by
  have hbrace : '\x7b'.utf8Size = 1 := rfl
  have hcolon : ':'.utf8Size = 1 := rfl
  rw [Json.size, Json.chars, charsSize_cons, charsSize_append, charsSize_cons, charsSize_append,
    charsSize_memberChars, membersSize_cons, hbrace, hcolon, quotedSize, Json.size]
  omega

/-- What the items of an array add to its size: each with a comma or a bracket. -/
def itemsSize (items : List Json) : ℕ := (items.map fun item => item.size + 1).sum

/-- Written items end in one bracket more. -/
theorem charsSize_itemChars (items : List Json) :
    charsSize (itemChars items) = 1 + itemsSize items := by
  induction items with
  | nil => rfl
  | cons item rest ih =>
    have hcomma : ','.utf8Size = 1 := rfl
    rw [itemChars, charsSize_cons, charsSize_append, ih, hcomma, itemsSize, itemsSize,
      List.map_cons, List.sum_cons, Json.size]
    omega

/-- An array has at most the size of its items and of its brackets. -/
theorem Json.size_array_le (items : List Json) : (Json.array items).size ≤ 2 + itemsSize items := by
  cases items with
  | nil => decide
  | cons item rest =>
    have hbracket : '['.utf8Size = 1 := rfl
    rw [Json.size, Json.chars, charsSize_cons, charsSize_append, charsSize_itemChars, hbracket,
      itemsSize, itemsSize, List.map_cons, List.sum_cons, Json.size]
    omega

/-- A character is escaped to at most six bytes for each of its own. -/
theorem charsSize_escapeChar_le (c : Char) : charsSize (escapeChar c) ≤ 6 * c.utf8Size := by
  have hpos := c.utf8Size_pos
  have hhex : ∀ n < 16, (Nat.digitChar n).utf8Size = 1 := by decide
  obtain ⟨e, he, -, hmem⟩ | ⟨hlow, he⟩ | ⟨-, -, he⟩ := escapeChar_cases c
  · have hletter : ∀ f ∈ ['"', '\\', 'n', 'r', 'b', 't', 'f'], f.utf8Size = 1 := by
      simp [Char.utf8Size]
    have hsize : e.utf8Size = 1 := by
      apply hletter
      exact List.mem_map_of_mem (f := Prod.snd) hmem
    have hslash : '\\'.utf8Size = 1 := rfl
    rw [he, charsSize_cons, charsSize_cons, charsSize_nil, hsize, hslash]
    omega
  · have hfirst := hhex (c.toNat / 16) (by omega)
    have hsecond := hhex (c.toNat % 16) (by omega)
    have hslash : '\\'.utf8Size = 1 := rfl
    have hletter : 'u'.utf8Size = 1 := rfl
    have hzero : '0'.utf8Size = 1 := rfl
    rw [he]
    simp only [charsSize_cons, charsSize_nil, hfirst, hsecond, hslash, hletter, hzero]
    omega
  · rw [he, charsSize_cons, charsSize_nil]
    omega

/-- Any text takes at most six bytes in a JSON string for each of its own. -/
theorem quotedSize_le (s : String) : quotedSize s ≤ 6 * utf8Length s + 2 := by
  have hsize : ∀ chars : List Char,
      charsSize (chars.flatMap escapeChar) ≤ 6 * (chars.map Char.utf8Size).sum := by
    intro chars
    induction chars with
    | nil => exact Nat.le_refl _
    | cons c chars ih =>
      have hc := charsSize_escapeChar_le c
      rw [List.flatMap_cons, charsSize_append, List.map_cons, List.sum_cons]
      omega
  have hquote : '"'.utf8Size = 1 := rfl
  have hs := hsize s.toList
  rw [quotedSize, quotedChars, charsSize_cons, charsSize_append, charsSize_cons, charsSize_nil,
    hquote, utf8Length]
  omega

/-- A character that is written as itself, in one byte. -/
def IsPlain (c : Char) : Prop := 0x20 ≤ c.toNat ∧ c.toNat < 0x80 ∧ c ≠ '"' ∧ c ≠ '\\'

instance (c : Char) : Decidable (IsPlain c) := inferInstanceAs (Decidable (_ ∧ _))

/-- A plain character has one byte. -/
theorem utf8Size_of_isPlain {c : Char} (h : IsPlain c) : c.utf8Size = 1 := by
  rw [Char.utf8Size, if_pos]
  exact Nat.le_of_lt_succ h.2.1

/-- A plain character is not escaped. -/
theorem escapeChar_of_isPlain {c : Char} (h : IsPlain c) : escapeChar c = [c] := by
  obtain ⟨e, -, -, hmem⟩ | ⟨hcontrol, -⟩ | ⟨-, -, hself⟩ := escapeChar_cases c
  · have hchar : c ∈ ['"', '\\', '\n', '\r', '\x08', '\t', '\x0c'] :=
      List.mem_map_of_mem (f := Prod.fst) hmem
    simp only [List.mem_cons, List.not_mem_nil, or_false] at hchar
    obtain rfl | rfl | rfl | rfl | rfl | rfl | rfl := hchar
    · exact absurd rfl h.2.2.1
    · exact absurd rfl h.2.2.2
    all_goals exact absurd h.1 (by decide)
  · exact absurd h.1 (not_le.mpr hcontrol)
  · exact hself

/-- Plain characters take one byte each. -/
theorem quotedSize_of_plain {s : String} (h : ∀ c ∈ s.toList, IsPlain c) :
    quotedSize s = s.toList.length + 2 := by
  have hsize : ∀ chars : List Char, (∀ c ∈ chars, IsPlain c) →
      charsSize (chars.flatMap escapeChar) = chars.length := by
    intro chars hchars
    induction chars with
    | nil => rfl
    | cons c chars ih =>
      have hc := hchars c List.mem_cons_self
      rw [List.flatMap_cons, escapeChar_of_isPlain hc, charsSize_append, charsSize_cons,
        utf8Size_of_isPlain hc, charsSize_nil, List.length_cons,
        ih fun d hd => hchars d (List.mem_cons_of_mem _ hd)]
      omega
  have hquote : '"'.utf8Size = 1 := rfl
  rw [quotedSize, quotedChars, charsSize_cons, charsSize_append, hsize _ h, charsSize_cons,
    charsSize_nil, hquote]
  omega

/-- A text has at most as many characters as UTF-16 code units. -/
theorem length_le_utf16Length (s : String) : s.toList.length ≤ utf16Length s := by
  rw [utf16Length]
  induction s.toList with
  | nil => exact le_refl _
  | cons c chars ih =>
    rw [List.map_cons, List.sum_cons, List.length_cons]
    split <;> omega

/-- Text of a bounded number of characters that are all written as they are. -/
theorem quotedSize_le_of_allChars {s : String} {test : Char → Bool} {limit : ℕ}
    (htest : ∀ c, test c = true → IsPlain c) (hchars : allChars s test = true)
    (hlength : utf16Length s ≤ limit) : quotedSize s ≤ limit + 2 := by
  have hcount := length_le_utf16Length s
  rw [quotedSize_of_plain fun c hc => htest c (List.all_eq_true.mp hchars c hc)]
  omega

/-- A range of characters without control characters, quotation mark and backslash. -/
theorem isPlain_of_between {low c high : Char} (hlow : low ≤ c) (hhigh : c ≤ high)
    (hrange : 0x20 ≤ low.toNat ∧ high.toNat < 0x80 ∧ ¬(low ≤ '"' ∧ '"' ≤ high) ∧
      ¬(low ≤ '\\' ∧ '\\' ≤ high)) : IsPlain c := by
  obtain ⟨hcontrol, hascii, hquote, hslash⟩ := hrange
  have hlow' : low.toNat ≤ c.toNat := hlow
  have hhigh' : c.toNat ≤ high.toNat := hhigh
  refine ⟨by omega, by omega, ?_, ?_⟩
  · rintro rfl
    exact hquote ⟨hlow, hhigh⟩
  · rintro rfl
    exact hslash ⟨hlow, hhigh⟩

/-- A digit is plain. -/
theorem isPlain_of_isDigit {c : Char} (h : c.isDigit = true) : IsPlain c := by
  simp only [Char.isDigit, Bool.and_eq_true, decide_eq_true_eq] at h
  exact isPlain_of_between (show '0' ≤ c from h.1) (show c ≤ '9' from h.2) (by decide)

/-- A natural number of at most so many digits. -/
theorem quotedSize_intText_le {n : ℤ} {k : ℕ} (hk : 0 < k) (hn : 0 ≤ n) (hlt : n < 10 ^ k) :
    quotedSize (intText n) ≤ k + 2 := by
  have hchars : (intText n).toList = Nat.toDigits 10 n.natAbs := by
    rw [intText, String.toList_ofList, intChars, if_neg (not_lt.mpr hn)]
  rw [quotedSize_of_plain]
  · have hlength : (Nat.toDigits 10 n.natAbs).length ≤ k := by
      rw [Nat.length_toDigits_le_iff (by decide) hk]
      have habs : (n.natAbs : ℤ) = n := Int.natAbs_of_nonneg hn
      rw [← habs] at hlt
      exact_mod_cast hlt
    rw [hchars]
    omega
  · intro c hc
    rw [hchars] at hc
    exact isPlain_of_isDigit (toDigits_isDigit c hc)

/-- An integer of at most so many digits, with its sign. -/
theorem quotedSize_intText_le_of_natAbs {n : ℤ} {k : ℕ} (hk : 0 < k) (hlt : n.natAbs < 10 ^ k) :
    quotedSize (intText n) ≤ k + 3 := by
  have habs : quotedSize (intText n.natAbs) ≤ k + 2 :=
    quotedSize_intText_le hk (Int.natCast_nonneg _) (by exact_mod_cast hlt)
  by_cases hn : n < 0
  · have hsign : (intText n).toList = '-' :: (intText n.natAbs).toList := by
      rw [intText, String.toList_ofList, intChars, if_pos hn, intText, String.toList_ofList,
        intChars, if_neg (not_lt.mpr (Int.natCast_nonneg _)), Int.natAbs_natCast]
    have hescape : escapeChar '-' = ['-'] := by decide
    have hminus : '-'.utf8Size = 1 := rfl
    rw [quotedSize, quotedChars, charsSize_cons, charsSize_append] at habs
    rw [quotedSize, quotedChars, hsign, List.flatMap_cons, hescape, charsSize_cons,
      charsSize_append, charsSize_append, charsSize_cons, charsSize_nil, hminus]
    omega
  · have heq : ((n.natAbs : ℕ) : ℤ) = n := Int.natAbs_of_nonneg (not_lt.mp hn)
    rw [heq] at habs
    omega

/-- No character of a base64 text is escaped. -/
theorem isPlain_of_mem_base64Chars {bytes : List UInt8} :
    ∀ c ∈ base64Chars bytes, IsPlain c := by
  have hdigit : ∀ n < 64, IsPlain (base64Digit n) := base64Digit_plain
  have hpad : IsPlain '=' := by decide
  have hgroup : ∀ a b c : UInt8, groupValue a b c < 16777216 := by
    intro a b c
    have ha := a.toNat_lt
    have hb := b.toNat_lt
    have hc := c.toNat_lt
    rw [groupValue]
    omega
  induction bytes using base64Chars.induct with
  | case1 =>
    intro c hc
    cases hc
  | case2 a =>
    have hn := hgroup a 0 0
    intro c hc
    simp only [base64Chars, List.mem_cons, List.not_mem_nil, or_false] at hc
    obtain rfl | rfl | rfl | rfl := hc
    · exact hdigit _ (by omega)
    · exact hdigit _ (by omega)
    · exact hpad
    · exact hpad
  | case3 a b =>
    have hn := hgroup a b 0
    intro c hc
    simp only [base64Chars, List.mem_cons, List.not_mem_nil, or_false] at hc
    obtain rfl | rfl | rfl | rfl := hc
    · exact hdigit _ (by omega)
    · exact hdigit _ (by omega)
    · exact hdigit _ (by omega)
    · exact hpad
  | case4 x y z rest ih =>
    have hn := hgroup x y z
    intro c hc
    simp only [base64Chars, List.mem_cons] at hc
    obtain rfl | rfl | rfl | rfl | hrest := hc
    · exact hdigit _ (by omega)
    · exact hdigit _ (by omega)
    · exact hdigit _ (by omega)
    · exact hdigit _ (by omega)
    · exact ih c hrest

/-- Three bytes become four characters. -/
theorem quotedSize_base64Encode (bytes : List UInt8) :
    quotedSize (base64Encode bytes) = (bytes.length + 2) / 3 * 4 + 2 := by
  have hchars : (base64Encode bytes).toList = base64Chars bytes := by
    rw [base64Encode, String.toList_ofList]
  rw [quotedSize_of_plain, hchars, length_base64Chars]
  rw [hchars]
  exact isPlain_of_mem_base64Chars

end Moonfort.MoonBit
