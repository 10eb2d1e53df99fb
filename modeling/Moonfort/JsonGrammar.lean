import Mathlib.Data.List.Basic
import Mathlib.Data.List.Nodup

/-!
# The grammar of JSON texts

JSON values over any strings and numbers, and the texts that the grammar of RFC 8259
derives for them. A number is its spelling there, and the string between two quotation
marks is what a given reading of its characters makes of them.
-/

namespace JsonGrammar

/-- JSON values. The members of an object are in the order of the text. -/
inductive JsonTree (σ ν : Type) where
  | null
  | bool (value : Bool)
  | number (value : ν)
  | string (value : σ)
  | array (items : List (JsonTree σ ν))
  | object (members : List (σ × JsonTree σ ν))

variable {σ ν μ κ : Type}

/-! ## Values and their parts -/

mutual

/-- A value with other numbers. -/
def JsonTree.mapNumbers (f : ν → μ) : JsonTree σ ν → JsonTree σ μ
  | .null => .null
  | .bool value => .bool value
  | .number value => .number (f value)
  | .string value => .string value
  | .array items => .array (mapItems f items)
  | .object members => .object (mapMembers f members)

/-- Items with other numbers. -/
def mapItems (f : ν → μ) : List (JsonTree σ ν) → List (JsonTree σ μ)
  | [] => []
  | item :: rest => item.mapNumbers f :: mapItems f rest

/-- Members with other numbers. -/
def mapMembers (f : ν → μ) : List (σ × JsonTree σ ν) → List (σ × JsonTree σ μ)
  | [] => []
  | (key, value) :: rest => (key, value.mapNumbers f) :: mapMembers f rest

end

mutual

/-- The number of values in a value, itself among them. -/
def JsonTree.count : JsonTree σ ν → ℕ
  | .array items => countItems items + 1
  | .object members => countMembers members + 1
  | _ => 1

/-- The number of values in some items. -/
def countItems : List (JsonTree σ ν) → ℕ
  | [] => 0
  | item :: rest => item.count + countItems rest

/-- The number of values in some members. -/
def countMembers : List (σ × JsonTree σ ν) → ℕ
  | [] => 0
  | (_, value) :: rest => value.count + countMembers rest

end

mutual

/-- No object has a key twice. -/
def JsonTree.Distinct : JsonTree σ ν → Prop
  | .array items => DistinctItems items
  | .object members => (members.map Prod.fst).Nodup ∧ DistinctMembers members
  | _ => True

/-- No object in some items has a key twice. -/
def DistinctItems : List (JsonTree σ ν) → Prop
  | [] => True
  | item :: rest => item.Distinct ∧ DistinctItems rest

/-- No object in some members has a key twice. -/
def DistinctMembers : List (σ × JsonTree σ ν) → Prop
  | [] => True
  | (_, value) :: rest => value.Distinct ∧ DistinctMembers rest

end

mutual

/-- Changes of the numbers one after the other are one change. -/
theorem JsonTree.mapNumbers_mapNumbers (f : ν → μ) (g : μ → κ) (tree : JsonTree σ ν) :
    (tree.mapNumbers f).mapNumbers g = tree.mapNumbers (g ∘ f) := by
  match tree with
  | .null => rfl
  | .bool value => rfl
  | .number value => rfl
  | .string value => rfl
  | .array items =>
    rw [JsonTree.mapNumbers, JsonTree.mapNumbers, JsonTree.mapNumbers, mapItems_mapItems]
  | .object members =>
    rw [JsonTree.mapNumbers, JsonTree.mapNumbers, JsonTree.mapNumbers, mapMembers_mapMembers]

/-- Two changes of the numbers in items are one. -/
theorem mapItems_mapItems (f : ν → μ) (g : μ → κ) (items : List (JsonTree σ ν)) :
    mapItems g (mapItems f items) = mapItems (g ∘ f) items := by
  match items with
  | [] => rfl
  | item :: rest =>
    rw [mapItems, mapItems, mapItems, JsonTree.mapNumbers_mapNumbers, mapItems_mapItems]

/-- Two changes of the numbers in members are one. -/
theorem mapMembers_mapMembers (f : ν → μ) (g : μ → κ) (members : List (σ × JsonTree σ ν)) :
    mapMembers g (mapMembers f members) = mapMembers (g ∘ f) members := by
  match members with
  | [] => rfl
  | (key, value) :: rest =>
    rw [mapMembers, mapMembers, mapMembers, JsonTree.mapNumbers_mapNumbers, mapMembers_mapMembers]

end

mutual

/-- Other numbers are as many values. -/
@[simp] theorem JsonTree.count_mapNumbers (f : ν → μ) (tree : JsonTree σ ν) :
    (tree.mapNumbers f).count = tree.count := by
  match tree with
  | .null => rfl
  | .bool value => rfl
  | .number value => rfl
  | .string value => rfl
  | .array items => rw [JsonTree.mapNumbers, JsonTree.count, JsonTree.count, countItems_mapItems]
  | .object members =>
    rw [JsonTree.mapNumbers, JsonTree.count, JsonTree.count, countMembers_mapMembers]

/-- Changing numbers keeps the number of values in items. -/
theorem countItems_mapItems (f : ν → μ) (items : List (JsonTree σ ν)) :
    countItems (mapItems f items) = countItems items := by
  match items with
  | [] => rfl
  | item :: rest =>
    rw [mapItems, countItems, countItems, JsonTree.count_mapNumbers, countItems_mapItems]

/-- Changing numbers keeps the number of values in members. -/
theorem countMembers_mapMembers (f : ν → μ) (members : List (σ × JsonTree σ ν)) :
    countMembers (mapMembers f members) = countMembers members := by
  match members with
  | [] => rfl
  | (key, value) :: rest =>
    rw [mapMembers, countMembers, countMembers, JsonTree.count_mapNumbers, countMembers_mapMembers]

end

/-- Changing numbers keeps the keys. -/
theorem keys_mapMembers (f : ν → μ) (members : List (σ × JsonTree σ ν)) :
    (mapMembers f members).map Prod.fst = members.map Prod.fst := by
  induction members with
  | nil => rfl
  | cons member rest ih => rw [mapMembers, List.map_cons, ih, List.map_cons]

mutual

/-- Other numbers repeat no key. -/
@[simp] theorem JsonTree.distinct_mapNumbers (f : ν → μ) (tree : JsonTree σ ν) :
    (tree.mapNumbers f).Distinct ↔ tree.Distinct := by
  match tree with
  | .null => exact Iff.rfl
  | .bool value => exact Iff.rfl
  | .number value => exact Iff.rfl
  | .string value => exact Iff.rfl
  | .array items =>
    rw [JsonTree.mapNumbers, JsonTree.Distinct, JsonTree.Distinct, distinctItems_mapItems]
  | .object members =>
    rw [JsonTree.mapNumbers, JsonTree.Distinct, JsonTree.Distinct, keys_mapMembers,
      distinctMembers_mapMembers]

/-- Changing numbers keeps the keys of items distinct. -/
theorem distinctItems_mapItems (f : ν → μ) (items : List (JsonTree σ ν)) :
    DistinctItems (mapItems f items) ↔ DistinctItems items := by
  match items with
  | [] => exact Iff.rfl
  | item :: rest =>
    rw [mapItems, DistinctItems, DistinctItems, JsonTree.distinct_mapNumbers,
      distinctItems_mapItems]

/-- Changing numbers keeps the keys of members distinct. -/
theorem distinctMembers_mapMembers (f : ν → μ) (members : List (σ × JsonTree σ ν)) :
    DistinctMembers (mapMembers f members) ↔ DistinctMembers members := by
  match members with
  | [] => exact Iff.rfl
  | (key, value) :: rest =>
    rw [mapMembers, DistinctMembers, DistinctMembers, JsonTree.distinct_mapNumbers,
      distinctMembers_mapMembers]

end

/-- An item has no more values than the items. -/
theorem count_le_of_mem {item : JsonTree σ ν} {items : List (JsonTree σ ν)} (h : item ∈ items) :
    item.count ≤ countItems items := by
  induction items with
  | nil => cases h
  | cons other rest ih =>
    rw [countItems]
    rcases List.mem_cons.mp h with rfl | hrest
    · omega
    · have hle := ih hrest
      omega

/-- Items have at least one value each. -/
theorem length_le_countItems (items : List (JsonTree σ ν)) : items.length ≤ countItems items := by
  induction items with
  | nil => exact Nat.le_refl 0
  | cons item rest ih =>
    have hpos : 0 < item.count := by
      cases item <;> simp [JsonTree.count]
    rw [List.length_cons, countItems]
    omega

variable {members : List (σ × JsonTree σ ν)}

/-- A member has at most the values of all. -/
theorem count_le_of_mem_members {member : σ × JsonTree σ ν}
    (h : member ∈ members) : member.2.count ≤ countMembers members := by
  induction members with
  | nil => cases h
  | cons other rest ih =>
    rw [countMembers]
    rcases List.mem_cons.mp h with rfl | hrest
    · omega
    · have hle := ih hrest
      omega

/-- Items have distinct keys when each of them does. -/
theorem distinctItems_iff {items : List (JsonTree σ ν)} :
    DistinctItems items ↔ ∀ item ∈ items, item.Distinct := by
  induction items with
  | nil => simp [DistinctItems]
  | cons item rest ih => rw [DistinctItems, ih, List.forall_mem_cons]

/-- Members have distinct keys below them when each of them does. -/
theorem distinctMembers_iff :
    DistinctMembers members ↔ ∀ member ∈ members, member.2.Distinct := by
  induction members with
  | nil => simp [DistinctMembers]
  | cons member rest ih => rw [DistinctMembers, ih, List.forall_mem_cons]

mutual

/-- Every number has a property. -/
def JsonTree.AllNumbers (P : ν → Prop) : JsonTree σ ν → Prop
  | .number value => P value
  | .array items => AllItems P items
  | .object members => AllMembers P members
  | _ => True

/-- Every number in some items has a property. -/
def AllItems (P : ν → Prop) : List (JsonTree σ ν) → Prop
  | [] => True
  | item :: rest => item.AllNumbers P ∧ AllItems P rest

/-- Every number in some members has a property. -/
def AllMembers (P : ν → Prop) : List (σ × JsonTree σ ν) → Prop
  | [] => True
  | (_, value) :: rest => value.AllNumbers P ∧ AllMembers P rest

end

/-- A property of the numbers of items is one of each item. -/
theorem allItems_iff {P : ν → Prop} {items : List (JsonTree σ ν)} :
    AllItems P items ↔ ∀ item ∈ items, item.AllNumbers P := by
  induction items with
  | nil => simp [AllItems]
  | cons item rest ih => rw [AllItems, ih, List.forall_mem_cons]

/-- A property of the numbers of members is one of each member. -/
theorem allMembers_iff {P : ν → Prop} :
    AllMembers P members ↔ ∀ member ∈ members, member.2.AllNumbers P := by
  induction members with
  | nil => simp [AllMembers]
  | cons member rest ih => rw [AllMembers, ih, List.forall_mem_cons]

mutual

/-- What all numbers turn into. -/
theorem JsonTree.AllNumbers.map {P : ν → Prop} {Q : μ → Prop} {f : ν → μ}
    (hf : ∀ value, P value → Q (f value)) {tree : JsonTree σ ν} (h : tree.AllNumbers P) :
    (tree.mapNumbers f).AllNumbers Q := by
  match tree with
  | .null => trivial
  | .bool value => trivial
  | .number value => exact hf value h
  | .string value => trivial
  | .array items =>
    rw [JsonTree.mapNumbers, JsonTree.AllNumbers]
    exact AllItems.map hf h
  | .object members =>
    rw [JsonTree.mapNumbers, JsonTree.AllNumbers]
    exact AllMembers.map hf h

/-- Changed numbers of items have the changed property. -/
theorem AllItems.map {P : ν → Prop} {Q : μ → Prop} {f : ν → μ}
    (hf : ∀ value, P value → Q (f value)) {items : List (JsonTree σ ν)} (h : AllItems P items) :
    AllItems Q (mapItems f items) := by
  match items with
  | [] => trivial
  | item :: rest => exact ⟨h.1.map hf, AllItems.map hf h.2⟩

/-- Changed numbers of members have the changed property. -/
theorem AllMembers.map {P : ν → Prop} {Q : μ → Prop} {f : ν → μ}
    (hf : ∀ value, P value → Q (f value)) {members : List (σ × JsonTree σ ν)}
    (h : AllMembers P members) : AllMembers Q (mapMembers f members) := by
  match members with
  | [] => trivial
  | (key, value) :: rest => exact ⟨h.1.map hf, AllMembers.map hf h.2⟩

end

mutual

/-- A change that keeps all the numbers there are changes nothing. -/
theorem JsonTree.mapNumbers_eq_self {P : ν → Prop} {f : ν → ν}
    (hf : ∀ value, P value → f value = value) {tree : JsonTree σ ν} (h : tree.AllNumbers P) :
    tree.mapNumbers f = tree := by
  match tree with
  | .null => rfl
  | .bool value => rfl
  | .number value => exact congrArg JsonTree.number (hf value h)
  | .string value => rfl
  | .array items => rw [JsonTree.mapNumbers, mapItems_eq_self hf h]
  | .object members => rw [JsonTree.mapNumbers, mapMembers_eq_self hf h]

/-- A change that keeps the numbers keeps the items. -/
theorem mapItems_eq_self {P : ν → Prop} {f : ν → ν} (hf : ∀ value, P value → f value = value)
    {items : List (JsonTree σ ν)} (h : AllItems P items) : mapItems f items = items := by
  match items with
  | [] => rfl
  | item :: rest => rw [mapItems, JsonTree.mapNumbers_eq_self hf h.1, mapItems_eq_self hf h.2]

/-- A change that keeps the numbers keeps the members. -/
theorem mapMembers_eq_self {P : ν → Prop} {f : ν → ν} (hf : ∀ value, P value → f value = value)
    {members : List (σ × JsonTree σ ν)} (h : AllMembers P members) :
    mapMembers f members = members := by
  match members with
  | [] => rfl
  | (key, value) :: rest =>
    rw [mapMembers, JsonTree.mapNumbers_eq_self hf h.1, mapMembers_eq_self hf h.2]

end

/-! ## The tokens -/

/-- White space. -/
def isSpace (c : Char) : Bool := c == ' ' || c == '\t' || c == '\n' || c == '\r'

/-- Any amount of white space. -/
def Space (text : List Char) : Prop := ∀ c ∈ text, isSpace c = true

/-- No characters are space. -/
theorem space_nil : Space [] := nofun

/-- Some decimal digits. -/
def Digits (text : List Char) : Prop := text ≠ [] ∧ ∀ c ∈ text, c.isDigit = true

/-- The integer part of a number. -/
inductive IntegerPart : List Char → Prop
  | zero : IntegerPart ['0']
  | nonzero {c : Char} {rest : List Char} (hc : c.isDigit = true) (hne : c ≠ '0')
    (hrest : ∀ d ∈ rest, d.isDigit = true) : IntegerPart (c :: rest)

/-- The fraction of a number, if it has one. -/
inductive FractionPart : List Char → Prop
  | absent : FractionPart []
  | present {digits : List Char} (hdigits : Digits digits) : FractionPart ('.' :: digits)

/-- The exponent of a number, if it has one. -/
inductive ExponentPart : List Char → Prop
  | absent : ExponentPart []
  | present {e : Char} {sign digits : List Char} (he : e ∈ ['e', 'E'])
    (hsign : sign ∈ [[], ['+'], ['-']]) (hdigits : Digits digits) :
    ExponentPart (e :: (sign ++ digits))

/-- A number. -/
inductive NumberToken : List Char → Prop
  | intro {minus integer fraction exponent : List Char} (hminus : minus ∈ [[], ['-']])
    (hinteger : IntegerPart integer) (hfraction : FractionPart fraction)
    (hexponent : ExponentPart exponent) :
    NumberToken (minus ++ (integer ++ (fraction ++ exponent)))

/-- The hexadecimal digits. -/
def isHexDigit (c : Char) : Bool :=
  c.isDigit || ('a' ≤ c && c ≤ 'f') || ('A' ≤ c && c ≤ 'F')

/-- The characters of a string between its quotation marks. -/
inductive StringBody : List Char → Prop
  | nil : StringBody []
  | plain {c : Char} {rest : List Char} (hquote : c ≠ '"') (hslash : c ≠ '\\')
    (hcontrol : 0x20 ≤ c.toNat) (hrest : StringBody rest) : StringBody (c :: rest)
  | escape {c : Char} {rest : List Char} (hc : c ∈ ['"', '\\', '/', 'b', 'f', 'n', 'r', 't'])
    (hrest : StringBody rest) : StringBody ('\\' :: c :: rest)
  | unicode {a b c d : Char} {rest : List Char} (hdigits : ∀ x ∈ [a, b, c, d], isHexDigit x = true)
    (hrest : StringBody rest) : StringBody ('\\' :: 'u' :: a :: b :: c :: d :: rest)

/-! ## The grammar -/

/-- What a stretch of text is derived as: a value, the items of an array or the members of an
object. -/
inductive Phrase (σ : Type) where
  | value (tree : JsonTree σ String)
  | items (trees : List (JsonTree σ String))
  | members (members : List (σ × JsonTree σ String))

/-- The texts of values, items and members, where `unescape` reads the strings. -/
inductive Derives (unescape : List Char → σ) : Phrase σ → List Char → Prop
  | nullLiteral : Derives unescape (.value .null) ['n', 'u', 'l', 'l']
  | trueLiteral : Derives unescape (.value (.bool true)) ['t', 'r', 'u', 'e']
  | falseLiteral : Derives unescape (.value (.bool false)) ['f', 'a', 'l', 's', 'e']
  | number {token : List Char} (htoken : NumberToken token) :
    Derives unescape (.value (.number (String.ofList token))) token
  | string {body : List Char} (hbody : StringBody body) :
    Derives unescape (.value (.string (unescape body))) ('"' :: (body ++ ['"']))
  | emptyArray {space : List Char} (hspace : Space space) :
    Derives unescape (.value (.array [])) ('[' :: (space ++ [']']))
  | array {text : List Char} {trees : List (JsonTree σ String)}
    (htext : Derives unescape (.items trees) text) :
    Derives unescape (.value (.array trees)) ('[' :: (text ++ [']']))
  | emptyObject {space : List Char} (hspace : Space space) :
    Derives unescape (.value (.object [])) ('\x7b' :: (space ++ ['\x7d']))
  | object {text : List Char} {members : List (σ × JsonTree σ String)}
    (htext : Derives unescape (.members members) text) :
    Derives unescape (.value (.object members)) ('\x7b' :: (text ++ ['\x7d']))
  | lastItem {before text after : List Char} {tree : JsonTree σ String} (hbefore : Space before)
    (hafter : Space after) (htext : Derives unescape (.value tree) text) :
    Derives unescape (.items [tree]) (before ++ (text ++ after))
  | item {before text after rest : List Char} {tree : JsonTree σ String}
    {trees : List (JsonTree σ String)} (hbefore : Space before) (hafter : Space after)
    (htext : Derives unescape (.value tree) text) (hrest : Derives unescape (.items trees) rest) :
    Derives unescape (.items (tree :: trees)) (before ++ (text ++ (after ++ ',' :: rest)))
  | lastMember {before body between between' text after : List Char} {tree : JsonTree σ String}
    (hbefore : Space before) (hbody : StringBody body) (hbetween : Space between)
    (hbetween' : Space between') (hafter : Space after)
    (htext : Derives unescape (.value tree) text) :
    Derives unescape (.members [(unescape body, tree)])
      (before ++ '"' :: (body ++ '"' :: (between ++ ':' :: (between' ++ (text ++ after)))))
  | member {before body between between' text after rest : List Char} {tree : JsonTree σ String}
    {members : List (σ × JsonTree σ String)} (hbefore : Space before) (hbody : StringBody body)
    (hbetween : Space between) (hbetween' : Space between') (hafter : Space after)
    (htext : Derives unescape (.value tree) text)
    (hrest : Derives unescape (.members members) rest) :
    Derives unescape (.members ((unescape body, tree) :: members))
      (before ++ '"' :: (body ++ '"' :: (between ++ ':' ::
        (between' ++ (text ++ (after ++ ',' :: rest))))))

/-- A JSON text: a value with white space around it. -/
def Document (unescape : List Char → σ) (text : List Char) (tree : JsonTree σ String) : Prop :=
  ∃ before body after, Space before ∧ Space after ∧ Derives unescape (.value tree) body ∧
    text = before ++ (body ++ after)

/-- Every number of what a stretch is derived as has a property. -/
def Phrase.AllNumbers (P : String → Prop) : Phrase σ → Prop
  | .value tree => tree.AllNumbers P
  | .items trees => AllItems P trees
  | .members fields => AllMembers P fields

variable {unescape : List Char → σ} {text : List Char}

/-- The numbers of what is derived are spelled as the grammar has them. -/
theorem Derives.allNumbers {phrase : Phrase σ} (h : Derives unescape phrase text) :
    phrase.AllNumbers fun spelling => NumberToken spelling.toList := by
  induction h with
  | nullLiteral => trivial
  | trueLiteral => trivial
  | falseLiteral => trivial
  | number htoken =>
    rw [Phrase.AllNumbers, JsonTree.AllNumbers, String.toList_ofList]
    exact htoken
  | string => trivial
  | emptyArray => trivial
  | array htext ih => exact ih
  | emptyObject => trivial
  | object htext ih => exact ih
  | lastItem hbefore hafter htext ih => exact ⟨ih, trivial⟩
  | item hbefore hafter htext hrest ih ihrest => exact ⟨ih, ihrest⟩
  | lastMember hbefore hbody hbetween hbetween' hafter htext ih => exact ⟨ih, trivial⟩
  | member hbefore hbody hbetween hbetween' hafter htext hrest ih ihrest => exact ⟨ih, ihrest⟩

/-! ## First characters -/

/-- A number is made of digits, signs, points and exponent marks, and starts with a digit or
a minus sign. -/
theorem NumberToken.chars {token : List Char} (h : NumberToken token) :
    (∃ c rest, token = c :: rest ∧ (c = '-' ∨ c.isDigit = true)) ∧
      ∀ c ∈ token, c.isDigit = true ∨ c ∈ ['-', '+', '.', 'e', 'E'] := by
  obtain ⟨hminus, hinteger, hfraction, hexponent⟩ := h
  rename_i minus integer fraction exponent
  have hint : (∃ c rest, integer = c :: rest ∧ c.isDigit = true) ∧
      ∀ c ∈ integer, c.isDigit = true := by
    cases hinteger with
    | zero => exact ⟨⟨_, _, rfl, rfl⟩, by simp⟩
    | nonzero hc _ hrest => exact ⟨⟨_, _, rfl, hc⟩, List.forall_mem_cons.mpr ⟨hc, hrest⟩⟩
  have hfrac : ∀ c ∈ fraction, c.isDigit = true ∨ c ∈ ['-', '+', '.', 'e', 'E'] := by
    cases hfraction with
    | absent => nofun
    | present hdigits =>
      exact List.forall_mem_cons.mpr ⟨.inr (by simp), fun c hc => .inl (hdigits.2 c hc)⟩
  have hexp : ∀ c ∈ exponent, c.isDigit = true ∨ c ∈ ['-', '+', '.', 'e', 'E'] := by
    cases hexponent with
    | absent => nofun
    | present he hsign hdigits =>
      intro c hc
      rcases List.mem_cons.mp hc with rfl | hc
      · right
        simp only [List.mem_cons, List.not_mem_nil, or_false] at he ⊢
        tauto
      · rcases List.mem_append.mp hc with hc | hc
        · right
          simp only [List.mem_cons, List.not_mem_nil, or_false] at hsign
          rcases hsign with rfl | rfl | rfl
          · cases hc
          · simp_all
          · simp_all
        · exact .inl (hdigits.2 c hc)
  constructor
  · obtain ⟨c, rest, rfl, hc⟩ := hint.1
    simp only [List.mem_cons, List.not_mem_nil, or_false] at hminus
    rcases hminus with rfl | rfl
    · exact ⟨c, _, rfl, .inr hc⟩
    · exact ⟨'-', _, rfl, .inl rfl⟩
  · intro c hc
    simp only [List.mem_append] at hc
    rcases hc with hc | hc | hc | hc
    · right
      simp only [List.mem_cons, List.not_mem_nil, or_false] at hminus
      rcases hminus with rfl | rfl
      · cases hc
      · simp_all
    · exact .inl (hint.2 c hc)
    · exact hfrac c hc
    · exact hexp c hc

/-- The characters that may start a value. -/
def isStart (c : Char) : Bool :=
  c.isDigit || c == '-' || c == '"' || c == '[' || c == '\x7b' || c == 'n' || c == 't' || c == 'f'

variable {tree : JsonTree σ String}

/-- A value starts with a character that may start one. -/
theorem Derives.head
    (h : Derives unescape (.value tree) text) : ∃ c rest, text = c :: rest ∧ isStart c = true := by
  cases h with
  | number htoken =>
    obtain ⟨c, rest, heq, hc⟩ := htoken.chars.1
    refine ⟨c, rest, heq, ?_⟩
    rcases hc with rfl | hc
    · rfl
    · simp [isStart, hc]
  | _ => exact ⟨_, _, rfl, rfl⟩

/-- The start of a value is no space. -/
theorem isSpace_of_isStart {c : Char} (h : isStart c = true) : isSpace c = false := by
  cases hspace : isSpace c with
  | false => rfl
  | true =>
    simp only [isSpace, Bool.or_eq_true, beq_iff_eq] at hspace
    rcases hspace with ((rfl | rfl) | rfl) | rfl <;> exact absurd h (by decide)

/-- A value does not end with white space. -/
theorem Derives.getLast?_not_space (h : Derives unescape (.value tree) text) {c : Char}
    (hc : text.getLast? = some c) : isSpace c = false := by
  have hlast : ∀ {front : List Char} {d e : Char}, (e :: (front ++ [d])).getLast? = some c →
      d = c := by
    intro front d e heq
    rw [← List.cons_append, List.getLast?_concat, Option.some.injEq] at heq
    exact heq
  cases h with
  | nullLiteral => cases hc; rfl
  | trueLiteral => cases hc; rfl
  | falseLiteral => cases hc; rfl
  | number htoken =>
    cases hspace : isSpace c with
    | false => rfl
    | true =>
      have hchar := htoken.chars.2 c (List.mem_of_getLast? hc)
      simp only [isSpace, Bool.or_eq_true, beq_iff_eq] at hspace
      rcases hspace with ((rfl | rfl) | rfl) | rfl <;> exact absurd hchar (by decide)
  | string => rw [← hlast hc]; rfl
  | emptyArray => rw [← hlast hc]; rfl
  | array => rw [← hlast hc]; rfl
  | emptyObject => rw [← hlast hc]; rfl
  | object => rw [← hlast hc]; rfl

/-- White space behind a text does not change its value. -/
theorem document_concat_space {c : Char}
    (hc : isSpace c = true) {tree : JsonTree σ String} :
    Document unescape (text ++ [c]) tree ↔ Document unescape text tree := by
  constructor
  · rintro ⟨before, body, after, hbefore, hafter, hbody, htext⟩
    rcases List.eq_nil_or_concat after with rfl | ⟨rest, d, rfl⟩
    · obtain ⟨e, tail, rfl, -⟩ := hbody.head
      have hlast := congrArg List.getLast? htext
      rw [List.getLast?_concat, List.append_nil,
        List.getLast?_append_of_ne_nil _ (List.cons_ne_nil e tail)] at hlast
      rw [hbody.getLast?_not_space hlast.symm] at hc
      cases hc
    · rw [List.concat_eq_append, ← List.append_assoc, ← List.append_assoc] at htext
      refine ⟨before, body, rest, hbefore, fun e he => hafter e (by simp [he]), hbody, ?_⟩
      rw [(List.append_inj' htext rfl).1, List.append_assoc]
  · rintro ⟨before, body, after, hbefore, hafter, hbody, rfl⟩
    refine ⟨before, body, after ++ [c], hbefore, fun e he => ?_, hbody, by simp⟩
    rcases List.mem_append.mp he with he | he
    · exact hafter e he
    · rwa [List.mem_singleton.mp he]

/-- A value that starts with a quotation mark is a string. -/
theorem Derives.string_of_quote (h : Derives unescape (.value tree) ('"' :: text)) :
    ∃ body, StringBody body ∧ text = body ++ ['"'] ∧ tree = .string (unescape body) := by
  cases h with
  | number htoken =>
    obtain ⟨c, rest, heq, hc⟩ := htoken.chars.1
    obtain ⟨rfl, -⟩ := List.cons.inj heq
    exact absurd hc (by decide)
  | string hbody => exact ⟨_, hbody, rfl, rfl⟩

/-- A document starts with white space or with its value. -/
theorem Document.head {c : Char} (h : Document unescape (c :: text) tree) (hc : isSpace c = false) :
    ∃ body after, Space after ∧ Derives unescape (.value tree) body ∧
      c :: text = body ++ after := by
  obtain ⟨before, body, after, hbefore, hafter, hbody, heq⟩ := h
  cases before with
  | nil => exact ⟨body, after, hafter, hbody, heq⟩
  | cons d before =>
    obtain ⟨rfl, -⟩ := List.cons.inj heq
    rw [hbefore c List.mem_cons_self] at hc
    cases hc

/-- A derived value is a document. -/
theorem Derives.document (h : Derives unescape (.value tree) text) :
    Document unescape text tree :=
  ⟨[], text, [], nofun, nofun, h, by simp⟩

/-- The characters that start a structure or a string. -/
def isOpening (c : Char) : Bool := c == '"' || c == '[' || c == '\x7b'

/-- A number or a name can be read in one way only. -/
theorem Derives.eq_of_scalar {c : Char}
    {tree tree' : JsonTree σ String} (h : Derives unescape (.value tree) (c :: text))
    (h' : Derives unescape (.value tree') (c :: text)) (hc : isOpening c = false) :
    tree = tree' := by
  have hnumber : ∀ {d : Char} {rest : List Char}, NumberToken (d :: rest) →
      d = '-' ∨ d.isDigit = true := by
    intro d rest htoken
    obtain ⟨e, rest', heq, he⟩ := htoken.chars.1
    obtain ⟨rfl, -⟩ := List.cons.inj heq
    exact he
  cases h with
  | nullLiteral =>
    cases h' with
    | nullLiteral => rfl
    | number htoken => exact absurd (hnumber htoken) (by decide)
  | trueLiteral =>
    cases h' with
    | trueLiteral => rfl
    | number htoken => exact absurd (hnumber htoken) (by decide)
  | falseLiteral =>
    cases h' with
    | falseLiteral => rfl
    | number htoken => exact absurd (hnumber htoken) (by decide)
  | number htoken =>
    cases h' with
    | nullLiteral => exact absurd (hnumber htoken) (by decide)
    | trueLiteral => exact absurd (hnumber htoken) (by decide)
    | falseLiteral => exact absurd (hnumber htoken) (by decide)
    | number => rfl
    | _ => exact absurd hc (by decide)
  | _ => exact absurd hc (by decide)

end JsonGrammar
