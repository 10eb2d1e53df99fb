import Moonfort.MoonBit.Text

/-!
# JSON values and their text

`Json` with the members of an object in the order in which they are inserted,
and `stringify`. The text of a value determines it: reading one value from the
front of a text can end in one way only.
-/

namespace Moonfort.MoonBit

/-- `Json`, with the numbers that the program writes: its `Int`s. -/
inductive Json where
  | null
  | bool (value : Bool)
  | number (value : ℤ)
  | string (value : String)
  | array (items : List Json)
  | object (members : List (String × Json))

/-- The decimal text of an integer. -/
def intChars (n : ℤ) : List Char :=
  if n < 0 then '-' :: Nat.toDigits 10 n.natAbs else Nat.toDigits 10 n.natAbs

/-- `n.to_string()`. -/
def intText (n : ℤ) : String := String.ofList (intChars n)

/-- A character of a JSON string as `stringify` writes it. -/
def escapeChar (c : Char) : List Char :=
  if c = '"' then ['\\', '"']
  else if c = '\\' then ['\\', '\\']
  else if c = '\n' then ['\\', 'n']
  else if c = '\r' then ['\\', 'r']
  else if c = '\x08' then ['\\', 'b']
  else if c = '\t' then ['\\', 't']
  else if c = '\x0c' then ['\\', 'f']
  else if c.toNat < 0x20 then
    ['\\', 'u', '0', '0', Nat.digitChar (c.toNat / 16), Nat.digitChar (c.toNat % 16)]
  else [c]

/-- A JSON string, from its opening to its closing quotation mark. -/
def quotedChars (s : String) : List Char := '"' :: (s.toList.flatMap escapeChar ++ ['"'])

/-- The JSON string of given characters. -/
theorem quotedChars_ofList (chars : List Char) :
    quotedChars (String.ofList chars) = '"' :: (chars.flatMap escapeChar ++ ['"']) := by
  rw [quotedChars, String.toList_ofList]

mutual

/-- The characters of a value. -/
def Json.chars : Json → List Char
  | .null => ['n', 'u', 'l', 'l']
  | .bool true => ['t', 'r', 'u', 'e']
  | .bool false => ['f', 'a', 'l', 's', 'e']
  | .number value => intChars value
  | .string value => quotedChars value
  | .array [] => ['[', ']']
  | .array (item :: rest) => '[' :: (item.chars ++ itemChars rest)
  | .object [] => ['\x7b', '\x7d']
  | .object ((key, value) :: rest) =>
    '\x7b' :: (quotedChars key ++ ':' :: (value.chars ++ memberChars rest))

/-- The further items of an array and its closing bracket. -/
def itemChars : List Json → List Char
  | [] => [']']
  | item :: rest => ',' :: (item.chars ++ itemChars rest)

/-- The further members of an object and its closing brace. -/
def memberChars : List (String × Json) → List Char
  | [] => ['\x7d']
  | (key, value) :: rest =>
    ',' :: (quotedChars key ++ ':' :: (value.chars ++ memberChars rest))

end

/-- `json.stringify()`. -/
def Json.stringify (json : Json) : String := String.ofList json.chars

/-- The text does not go on with a decimal digit. -/
def NoDigitAhead (rest : List Char) : Prop := ∀ c ∈ rest.head?, c.isDigit = false

/-- A character that is no digit is not ahead as one. -/
theorem noDigitAhead_cons {c : Char} {rest : List Char} (hc : c.isDigit = false) :
    NoDigitAhead (c :: rest) := by
  intro d hd
  rw [List.head?_cons, Option.mem_some_iff] at hd
  exact hd ▸ hc

/-- Digits up to the end of a number can be read in one way only. -/
theorem digits_append_inj {a b s t : List Char} (ha : ∀ c ∈ a, c.isDigit = true)
    (hb : ∀ c ∈ b, c.isDigit = true) (hs : NoDigitAhead s) (ht : NoDigitAhead t)
    (h : a ++ s = b ++ t) : a = b ∧ s = t := by
  induction a generalizing b with
  | nil =>
    cases b with
    | nil => exact ⟨rfl, h⟩
    | cons d b =>
      have hd := hs d (by rw [← List.nil_append s, h]; rfl)
      rw [hb d List.mem_cons_self] at hd
      exact absurd hd (by decide)
  | cons c a ih =>
    cases b with
    | nil =>
      have hc := ht c (by rw [← List.nil_append t, ← h]; rfl)
      rw [ha c List.mem_cons_self] at hc
      exact absurd hc (by decide)
    | cons d b =>
      obtain ⟨hcd, hrest⟩ := List.cons.inj h
      obtain ⟨hab, hst⟩ := ih (fun x hx => ha x (List.mem_cons_of_mem _ hx))
        (fun x hx => hb x (List.mem_cons_of_mem _ hx)) hrest
      exact ⟨by rw [hcd, hab], hst⟩

/-- The digits of a number are digits. -/
theorem toDigits_isDigit {n : ℕ} : ∀ c ∈ Nat.toDigits 10 n, c.isDigit = true :=
  fun _ hc => Nat.isDigit_of_mem_toDigits (by decide) (by decide) hc

/-- The digits of a number determine it. -/
theorem toDigits_inj {m n : ℕ} (h : Nat.toDigits 10 m = Nat.toDigits 10 n) : m = n := by
  rw [← Nat.ofDigitChars_ten_toDigits (n := m), h, Nat.ofDigitChars_ten_toDigits]

/-- The text of an integer is a digit or a minus sign first. -/
theorem intChars_head (n : ℤ) :
    ∃ c rest, intChars n = c :: rest ∧ (c = '-' ∨ c.isDigit = true) := by
  obtain ⟨c, rest, hdigits⟩ : ∃ c rest, Nat.toDigits 10 n.natAbs = c :: rest :=
    List.exists_cons_of_ne_nil Nat.toDigits_ne_nil
  have hc : c.isDigit = true := toDigits_isDigit c (hdigits ▸ List.mem_cons_self)
  unfold intChars
  split
  · exact ⟨'-', _, rfl, .inl rfl⟩
  · exact ⟨c, rest, hdigits, .inr hc⟩

variable {s t : List Char}

/-- A number can be read in one way only. -/
theorem intChars_append_inj {m n : ℤ} (hs : NoDigitAhead s)
    (ht : NoDigitAhead t) (h : intChars m ++ s = intChars n ++ t) : m = n ∧ s = t := by
  have hminus : ∀ (k : ℕ) (u v : List Char), Nat.toDigits 10 k ++ u ≠ '-' :: v := by
    intro k u v heq
    obtain ⟨c, rest, hdigits⟩ : ∃ c rest, Nat.toDigits 10 k = c :: rest :=
      List.exists_cons_of_ne_nil Nat.toDigits_ne_nil
    have hc : c.isDigit = true := toDigits_isDigit c (hdigits ▸ List.mem_cons_self)
    rw [hdigits, List.cons_append] at heq
    rw [(List.cons.inj heq).1] at hc
    exact absurd hc (by decide)
  unfold intChars at h
  split at h <;> split at h
  · obtain ⟨hdigits, hst⟩ := digits_append_inj toDigits_isDigit toDigits_isDigit hs ht
      (List.cons.inj h).2
    have habs := toDigits_inj hdigits
    exact ⟨by omega, hst⟩
  · exact absurd h.symm (hminus _ _ _)
  · exact absurd h (hminus _ _ _)
  · obtain ⟨hdigits, hst⟩ := digits_append_inj toDigits_isDigit toDigits_isDigit hs ht h
    have habs := toDigits_inj hdigits
    exact ⟨by omega, hst⟩

/-- The decimal text of an integer determines it. -/
theorem intText_inj {m n : ℤ} (h : intText m = intText n) : m = n := by
  have hchars : intChars m ++ [] = intChars n ++ [] := by
    simpa only [intText, String.ofList_inj, List.append_nil] using h
  exact (intChars_append_inj (by intro c hc; cases hc) (by intro c hc; cases hc) hchars).1

/-- The hexadecimal digits of a control character determine it. -/
theorem digitChar_inj : ∀ m < 16, ∀ n < 16, Nat.digitChar m = Nat.digitChar n → m = n := by
  decide

/-- What a character of a string is written as: an escape or itself. -/
theorem escapeChar_cases (c : Char) :
    (∃ e, escapeChar c = ['\\', e] ∧ e ≠ 'u' ∧
      (c, e) ∈ [('"', '"'), ('\\', '\\'), ('\n', 'n'), ('\r', 'r'), ('\x08', 'b'), ('\t', 't'),
        ('\x0c', 'f')]) ∨
    (c.toNat < 0x20 ∧ escapeChar c =
      ['\\', 'u', '0', '0', Nat.digitChar (c.toNat / 16), Nat.digitChar (c.toNat % 16)]) ∨
    (c ≠ '\\' ∧ c ≠ '"' ∧ escapeChar c = [c]) := by
  unfold escapeChar
  split_ifs with h1 h2 h3 h4 h5 h6 h7 h8
  · exact .inl ⟨'"', rfl, by decide, by simp [h1]⟩
  · exact .inl ⟨'\\', rfl, by decide, by simp [h2]⟩
  · exact .inl ⟨'n', rfl, by decide, by simp [h3]⟩
  · exact .inl ⟨'r', rfl, by decide, by simp [h4]⟩
  · exact .inl ⟨'b', rfl, by decide, by simp [h5]⟩
  · exact .inl ⟨'t', rfl, by decide, by simp [h6]⟩
  · exact .inl ⟨'f', rfl, by decide, by simp [h7]⟩
  · exact .inr (.inl ⟨h8, rfl⟩)
  · exact .inr (.inr ⟨h2, h1, rfl⟩)

/-- No character is written with a quotation mark first, or as nothing. -/
theorem escapeChar_head (c : Char) : ∃ d rest, escapeChar c = d :: rest ∧ d ≠ '"' := by
  obtain ⟨e, he, _, _⟩ | ⟨_, he⟩ | ⟨_, hquote, he⟩ := escapeChar_cases c
  · exact ⟨_, _, he, by decide⟩
  · exact ⟨_, _, he, by decide⟩
  · exact ⟨_, _, he, hquote⟩

/-- One character of a string can be read in one way only. -/
theorem escapeChar_append_inj {c d : Char}
    (h : escapeChar c ++ s = escapeChar d ++ t) : c = d ∧ s = t := by
  obtain ⟨e, he, heu, hmem⟩ | ⟨hlow, he⟩ | ⟨hslash, _, he⟩ := escapeChar_cases c <;>
    obtain ⟨f, hf, hfu, hmem'⟩ | ⟨hlow', hf⟩ | ⟨hslash', _, hf⟩ := escapeChar_cases d <;>
    rw [he, hf] at h <;>
    simp only [List.cons_append, List.nil_append, List.cons.injEq, true_and] at h
  · obtain ⟨rfl, rfl⟩ := h
    refine ⟨?_, rfl⟩
    simp only [List.mem_cons, Prod.mk.injEq, List.not_mem_nil, or_false] at hmem hmem'
    rcases hmem with ⟨rfl, rfl⟩ | ⟨rfl, rfl⟩ | ⟨rfl, rfl⟩ | ⟨rfl, rfl⟩ | ⟨rfl, rfl⟩ |
      ⟨rfl, rfl⟩ | ⟨rfl, rfl⟩ <;> (simp at hmem'; exact hmem'.symm)
  · exact absurd h.1 heu
  · exact absurd h.1.symm hslash'
  · exact absurd h.1.symm hfu
  · obtain ⟨hhigh, hdigit, hst⟩ := h
    have h1 := digitChar_inj _ (by omega) _ (by omega) hhigh
    have h2 := digitChar_inj _ (by omega) _ (by omega) hdigit
    have hnat : c.toNat = d.toNat := by omega
    exact ⟨Char.toNat_inj.mp hnat, hst⟩
  · exact absurd h.1.symm hslash'
  · exact absurd h.1 hslash
  · exact absurd h.1 hslash
  · exact h

/-- The inside of a string can be read in one way only. -/
theorem escaped_append_inj {a b s t : List Char}
    (h : a.flatMap escapeChar ++ '"' :: s = b.flatMap escapeChar ++ '"' :: t) :
    a = b ∧ s = t := by
  induction a generalizing b with
  | nil =>
    cases b with
    | nil => exact ⟨rfl, (List.cons.inj h).2⟩
    | cons d b =>
      obtain ⟨e, rest, he, hne⟩ := escapeChar_head d
      rw [List.flatMap_cons, he] at h
      exact absurd (List.cons.inj h).1.symm hne
  | cons c a ih =>
    cases b with
    | nil =>
      obtain ⟨e, rest, he, hne⟩ := escapeChar_head c
      rw [List.flatMap_cons, he] at h
      exact absurd (List.cons.inj h).1 hne
    | cons d b =>
      rw [List.flatMap_cons, List.flatMap_cons, List.append_assoc, List.append_assoc] at h
      obtain ⟨hcd, hrest⟩ := escapeChar_append_inj h
      obtain ⟨hab, hst⟩ := ih hrest
      exact ⟨by rw [hcd, hab], hst⟩

/-- A string can be read in one way only. -/
theorem quotedChars_append_inj {a b : String}
    (h : quotedChars a ++ s = quotedChars b ++ t) : a = b ∧ s = t := by
  have hinside : a.toList.flatMap escapeChar ++ '"' :: s =
      b.toList.flatMap escapeChar ++ '"' :: t := by
    simpa [quotedChars] using h
  obtain ⟨hab, hst⟩ := escaped_append_inj hinside
  exact ⟨String.toList_inj.mp hab, hst⟩

/-- What the first character of a value tells: a digit or a minus sign begins a number. -/
def leadOf (c : Char) : Char := if c = '-' ∨ c.isDigit = true then '0' else c

/-- The first character of a value, a number's being a zero. -/
def Json.lead : Json → Char
  | .null => 'n'
  | .bool true => 't'
  | .bool false => 'f'
  | .number _ => '0'
  | .string _ => '"'
  | .array _ => '['
  | .object _ => '\x7b'

/-- The first character of a JSON text tells its kind. -/
theorem Json.chars_lead (json : Json) :
    ∃ c rest, json.chars = c :: rest ∧ leadOf c = json.lead := by
  cases json with
  | null => exact ⟨_, _, rfl, by decide⟩
  | bool value => cases value <;> exact ⟨_, _, rfl, by decide⟩
  | number value =>
    obtain ⟨c, rest, hchars, hc⟩ := intChars_head value
    exact ⟨c, rest, hchars, if_pos hc⟩
  | string value => exact ⟨'"', _, rfl, rfl⟩
  | array items => cases items <;> exact ⟨'[', _, rfl, rfl⟩
  | object members => cases members <;> exact ⟨'\x7b', _, rfl, rfl⟩

/-- Two values at the front of one text begin in the same way. -/
theorem Json.lead_eq {a b : Json} (h : a.chars ++ s = b.chars ++ t) :
    a.lead = b.lead := by
  obtain ⟨c, _, ha, hc⟩ := a.chars_lead
  obtain ⟨d, _, hb, hd⟩ := b.chars_lead
  rw [ha, hb] at h
  rw [← hc, ← hd, (List.cons.inj h).1]

/-- Behind a number in an array stands no digit. -/
theorem itemChars_noDigitAhead (items : List Json) (s : List Char) :
    NoDigitAhead (itemChars items ++ s) := by
  cases items <;> exact noDigitAhead_cons (by decide)

/-- Behind a number in an object stands no digit. -/
theorem memberChars_noDigitAhead (members : List (String × Json)) (s : List Char) :
    NoDigitAhead (memberChars members ++ s) := by
  cases members <;> exact noDigitAhead_cons (by decide)

/-- Nothing but the end of an array stands where an empty one ends. -/
theorem Json.chars_ne_close {json : Json} {c : Char}
    (hc : c = ']' ∨ c = '\x7d') : json.chars ++ s ≠ c :: t := by
  intro h
  obtain ⟨d, rest, hchars, hd⟩ := json.chars_lead
  rw [hchars, List.cons_append] at h
  rw [(List.cons.inj h).1] at hd
  have hlead : ∀ json : Json, json.lead ≠ ']' ∧ json.lead ≠ '\x7d' := by
    intro json
    cases json with
    | bool value => cases value <;> exact ⟨by decide, by decide⟩
    | _ => constructor <;> simp [Json.lead]
  rcases hc with rfl | rfl
  · exact (hlead json).1 hd.symm
  · exact (hlead json).2 hd.symm

mutual

/-- A value can be read from the front of a text in one way only. -/
theorem Json.chars_append_inj (a b : Json) {s t : List Char} (hs : NoDigitAhead s)
    (ht : NoDigitAhead t) (h : a.chars ++ s = b.chars ++ t) : a = b ∧ s = t := by
  have hlead := Json.lead_eq h
  match a with
  | .null =>
    cases b with
    | null => exact ⟨rfl, by simpa [Json.chars] using h⟩
    | bool value => cases value <;> simp [Json.lead] at hlead
    | _ => simp [Json.lead] at hlead
  | .bool value =>
    cases b with
    | bool value' =>
      cases value <;> cases value' <;> simp [Json.lead] at hlead <;>
        exact ⟨rfl, by simpa [Json.chars] using h⟩
    | _ => cases value <;> simp [Json.lead] at hlead
  | .number m =>
    cases b with
    | number n =>
      obtain ⟨hmn, hst⟩ := intChars_append_inj hs ht h
      exact ⟨by rw [hmn], hst⟩
    | bool value => cases value <;> simp [Json.lead] at hlead
    | _ => simp [Json.lead] at hlead
  | .string x =>
    cases b with
    | string y =>
      obtain ⟨hxy, hst⟩ := quotedChars_append_inj h
      exact ⟨by rw [hxy], hst⟩
    | bool value => cases value <;> simp [Json.lead] at hlead
    | _ => simp [Json.lead] at hlead
  | .array [] =>
    cases b with
    | array items =>
      cases items with
      | nil => exact ⟨rfl, by simpa [Json.chars] using h⟩
      | cons y ys =>
        simp only [Json.chars, List.cons_append, List.nil_append, List.cons.injEq, true_and,
          List.append_assoc] at h
        exact absurd h.symm (Json.chars_ne_close (.inl rfl))
    | bool value => cases value <;> simp [Json.lead] at hlead
    | _ => simp [Json.lead] at hlead
  | .array (x :: xs) =>
    cases b with
    | array items =>
      cases items with
      | nil =>
        simp only [Json.chars, List.cons_append, List.nil_append, List.cons.injEq, true_and,
          List.append_assoc] at h
        exact absurd h (Json.chars_ne_close (.inl rfl))
      | cons y ys =>
        have hbody : x.chars ++ (itemChars xs ++ s) = y.chars ++ (itemChars ys ++ t) := by
          simpa [Json.chars] using h
        obtain ⟨hxy, hrest⟩ := Json.chars_append_inj x y (itemChars_noDigitAhead xs s)
          (itemChars_noDigitAhead ys t) hbody
        obtain ⟨hxys, hst⟩ := itemChars_append_inj xs ys hrest
        exact ⟨by rw [hxy, hxys], hst⟩
    | bool value => cases value <;> simp [Json.lead] at hlead
    | _ => simp [Json.lead] at hlead
  | .object [] =>
    cases b with
    | object members =>
      cases members with
      | nil => exact ⟨rfl, by simpa [Json.chars] using h⟩
      | cons y ys => simp [Json.chars, quotedChars] at h
    | bool value => cases value <;> simp [Json.lead] at hlead
    | _ => simp [Json.lead] at hlead
  | .object ((k, x) :: xs) =>
    cases b with
    | object members =>
      cases members with
      | nil => simp [Json.chars, quotedChars] at h
      | cons y ys =>
        obtain ⟨l, y⟩ := y
        have hbody : quotedChars k ++ ':' :: (x.chars ++ (memberChars xs ++ s)) =
            quotedChars l ++ ':' :: (y.chars ++ (memberChars ys ++ t)) := by
          simpa [Json.chars] using h
        obtain ⟨hkl, hvalue⟩ := quotedChars_append_inj hbody
        obtain ⟨hxy, hrest⟩ := Json.chars_append_inj x y (memberChars_noDigitAhead xs s)
          (memberChars_noDigitAhead ys t) (List.cons.inj hvalue).2
        obtain ⟨hxys, hst⟩ := memberChars_append_inj xs ys hrest
        exact ⟨by rw [hkl, hxy, hxys], hst⟩
    | bool value => cases value <;> simp [Json.lead] at hlead
    | _ => simp [Json.lead] at hlead

/-- The further items of an array can be read in one way only. -/
theorem itemChars_append_inj (a b : List Json) {s t : List Char}
    (h : itemChars a ++ s = itemChars b ++ t) : a = b ∧ s = t := by
  match a, b with
  | [], [] => exact ⟨rfl, by simpa [itemChars] using h⟩
  | [], y :: ys => simp [itemChars] at h
  | x :: xs, [] => simp [itemChars] at h
  | x :: xs, y :: ys =>
    have hbody : x.chars ++ (itemChars xs ++ s) = y.chars ++ (itemChars ys ++ t) := by
      simpa [itemChars] using h
    obtain ⟨hxy, hrest⟩ := Json.chars_append_inj x y (itemChars_noDigitAhead xs s)
      (itemChars_noDigitAhead ys t) hbody
    obtain ⟨hxys, hst⟩ := itemChars_append_inj xs ys hrest
    exact ⟨by rw [hxy, hxys], hst⟩

/-- The further members of an object can be read in one way only. -/
theorem memberChars_append_inj (a b : List (String × Json)) {s t : List Char}
    (h : memberChars a ++ s = memberChars b ++ t) : a = b ∧ s = t := by
  match a, b with
  | [], [] => exact ⟨rfl, by simpa [memberChars] using h⟩
  | [], (l, y) :: ys => simp [memberChars] at h
  | (k, x) :: xs, [] => simp [memberChars] at h
  | (k, x) :: xs, (l, y) :: ys =>
    have hbody : quotedChars k ++ ':' :: (x.chars ++ (memberChars xs ++ s)) =
        quotedChars l ++ ':' :: (y.chars ++ (memberChars ys ++ t)) := by
      simpa [memberChars] using h
    obtain ⟨hkl, hvalue⟩ := quotedChars_append_inj hbody
    obtain ⟨hxy, hrest⟩ := Json.chars_append_inj x y (memberChars_noDigitAhead xs s)
      (memberChars_noDigitAhead ys t) (List.cons.inj hvalue).2
    obtain ⟨hxys, hst⟩ := memberChars_append_inj xs ys hrest
    exact ⟨by rw [hkl, hxy, hxys], hst⟩

end

/-- The text of a value determines the value. -/
theorem Json.stringify_inj {a b : Json} (h : a.stringify = b.stringify) : a = b := by
  have hchars : a.chars ++ [] = b.chars ++ [] := by
    simpa only [Json.stringify, String.ofList_inj, List.append_nil] using h
  exact (Json.chars_append_inj a b (by intro c hc; cases hc) (by intro c hc; cases hc) hchars).1

end Moonfort.MoonBit
