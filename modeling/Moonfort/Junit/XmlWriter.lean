import Moonfort.Junit.XmlTexts

/-!
# Every element tree has a document

A plain serialisation of the trees within the bounds of the reader: double quotes, no
blanks but one before each attribute, references for what is not a raw character.
-/

namespace Moonfort.Junit

open MoonBit Stateful

/-! ## Element trees -/

mutual

/-- The element with its line forgotten, here and in the elements in it. -/
def XmlElement.unlined : XmlElement → XmlElement
  | ⟨name, attrs, children, text, _⟩ => ⟨name, attrs, unlinedAll children, text, 0⟩

/-- The elements with their lines forgotten. -/
def unlinedAll : List XmlElement → List XmlElement
  | [] => []
  | element :: rest => element.unlined :: unlinedAll rest

end

mutual

/-- The levels of an element. -/
def XmlElement.levels : XmlElement → ℕ
  | ⟨_, _, children, _, _⟩ => 1 + levelsAll children

/-- The levels of these elements. -/
def levelsAll : List XmlElement → ℕ
  | [] => 0
  | element :: rest => max element.levels (levelsAll rest)

end

/-- A name and a value that a start tag can hold. -/
structure IsAttribute (pair : String × String) : Prop where
  name : IsName pair.1.toList
  no_namespace : pair.1 ≠ "xmlns"
  value : ∀ c ∈ pair.2.toList, IsXmlChar c
  units : utf16Length pair.2 ≤ 16384

/-- The name, the attributes and the text of an element. -/
structure IsElement (element : XmlElement) : Prop where
  name : IsName element.name.toList
  attributes : ∀ pair ∈ element.attrs, IsAttribute pair
  count : element.attrs.length ≤ 64
  distinct : (element.attrs.map Prod.fst).Nodup
  text : ∀ c ∈ element.text.toList, IsXmlChar c

/-- An element tree within the bounds of the reader. -/
structure XmlElement.Bounded (tree : XmlElement) : Prop where
  elements : ∀ element ∈ tree.preorder, IsElement element
  levels : tree.levels ≤ 32
  count : tree.preorder.length ≤ 20000

/-! ### Checks of the bounds -/

instance (c : Char) : Decidable (IsXmlChar c) := inferInstanceAs (Decidable (_ ∨ _ ∨ _ ∨ _))

instance (c : Char) : Decidable (IsNameStart c) := inferInstanceAs (Decidable (_ ∨ _))

instance (c : Char) : Decidable (IsNameChar c) := inferInstanceAs (Decidable (_ ∨ _ ∨ _ ∨ _))

instance : DecidablePred IsName
  | [] => isFalse (by rintro ⟨c, rest, ⟨⟩, -⟩)
  | c :: rest =>
    decidable_of_iff (IsNameStart c ∧ rest.all (fun d => decide (IsNameChar d)) = true) <| by
      simp only [List.all_eq_true, decide_eq_true_eq]
      constructor
      · rintro ⟨hc, hrest⟩
        exact ⟨c, rest, rfl, hc, hrest⟩
      · rintro ⟨_, _, ⟨⟩, hc, hrest⟩
        exact ⟨hc, hrest⟩

instance (pair : String × String) : Decidable (IsAttribute pair) :=
  decidable_of_iff (IsName pair.1.toList ∧ pair.1 ≠ "xmlns" ∧
      pair.2.toList.all (fun c => decide (IsXmlChar c)) = true ∧ utf16Length pair.2 ≤ 16384) <| by
    simp only [List.all_eq_true, decide_eq_true_eq]
    exact ⟨fun ⟨hname, hnamespace, hvalue, hunits⟩ => ⟨hname, hnamespace, hvalue, hunits⟩,
      fun h => ⟨h.name, h.no_namespace, h.value, h.units⟩⟩

instance (element : XmlElement) : Decidable (IsElement element) :=
  decidable_of_iff (IsName element.name.toList ∧
      element.attrs.all (fun pair => decide (IsAttribute pair)) = true ∧
      element.attrs.length ≤ 64 ∧ (element.attrs.map Prod.fst).Nodup ∧
      element.text.toList.all (fun c => decide (IsXmlChar c)) = true) <| by
    simp only [List.all_eq_true, decide_eq_true_eq]
    exact ⟨fun ⟨hname, hattributes, hcount, hdistinct, htext⟩ =>
        ⟨hname, hattributes, hcount, hdistinct, htext⟩,
      fun h => ⟨h.name, h.attributes, h.count, h.distinct, h.text⟩⟩

instance (tree : XmlElement) : Decidable tree.Bounded :=
  decidable_of_iff (tree.preorder.all (fun element => decide (IsElement element)) = true ∧
      tree.levels ≤ 32 ∧ tree.preorder.length ≤ 20000) <| by
    simp only [List.all_eq_true, decide_eq_true_eq]
    exact ⟨fun ⟨helements, hlevels, hcount⟩ => ⟨helements, hlevels, hcount⟩,
      fun h => ⟨h.elements, h.levels, h.count⟩⟩

/-! ## Characters -/

/-- A character of a document. -/
def IsPlainChar (c : Char) : Prop := IsXmlChar c ∧ c ≠ '\r'

instance (c : Char) : Decidable (IsPlainChar c) := inferInstanceAs (Decidable (_ ∧ _))

/-- References to the characters that do not stand for themselves everywhere. -/
def markup : List Reference :=
  [⟨"lt".toList, '<', .lt, by decide, by decide⟩,
    ⟨"gt".toList, '>', .gt, by decide, by decide⟩,
    ⟨"amp".toList, '&', .amp, by decide, by decide⟩,
    ⟨"quot".toList, '"', .quot, by decide, by decide⟩,
    ⟨"#9".toList, '\t', .decimal (by decide) (.cons digit_nine .nil), by decide, by decide⟩,
    ⟨"#xa".toList, '\n', .hexadecimal (by decide) (.cons digit_a .nil), by decide, by decide⟩,
    ⟨"#xd".toList, '\r', .hexadecimal (by decide) (.cons digit_d .nil), by decide, by decide⟩,
    ⟨"#x5d".toList, ']', .hexadecimal (by decide) (.cons digit_five (.cons digit_d .nil)),
      by decide, by decide⟩]
where
  digit_five : IsDigit 16 '5' 5 := ⟨by decide, .inl rfl⟩
  digit_nine : IsDigit 10 '9' 9 := ⟨by decide, .inl rfl⟩
  digit_a : IsDigit 16 'a' 10 := ⟨by decide, .inl rfl⟩
  digit_d : IsDigit 16 'd' 13 := ⟨by decide, .inl rfl⟩

/-- The reference to a character, unless it stands for itself. -/
def escape (c : Char) : Option Reference := markup.find? fun r => r.char = c

/-- An escape stands for the character it replaces. -/
theorem char_of_escape {c : Char} {r : Reference} (h : escape c = some r) : r.char = c := by
  have hfound := List.find?_some h
  exact of_decide_eq_true hfound

/-- A character that is not escaped stands for itself. -/
theorem notMem_of_escape {c : Char} (h : escape c = none) : c ∉ markup.map Reference.char := by
  rw [List.mem_map]
  rintro ⟨r, hr, hc⟩
  exact List.find?_eq_none.mp h r hr (decide_eq_true hc)

/-- A checked list of characters is plain. -/
theorem isPlainChar_of_all {chars : List Char}
    (h : chars.all (fun c => decide (IsPlainChar c)) = true) : ∀ c ∈ chars, IsPlainChar c := by
  simpa only [List.all_eq_true, decide_eq_true_eq] using h

/-- The spelling of an entity is plain. -/
theorem isPlainChar_spelling {spelling : List Char} {c : Char} (h : Spells spelling c) :
    ∀ d ∈ spelling, IsPlainChar d := by
  have hdigits {base n m : ℕ} {digits : List Char} (hnumeral : Numeral base n digits m) :
      ∀ d ∈ digits, IsPlainChar d := by
    have hplain : ∀ d ∈ "0123456789abcdefABCDEF".toList, IsPlainChar d :=
      isPlainChar_of_all (by decide)
    induction hnumeral with
    | nil => exact List.forall_mem_nil _
    | cons hdigit hrest ih =>
      exact List.forall_mem_cons.mpr ⟨hplain _ (mem_digits hdigit), ih⟩
  cases h with
  | amp => exact isPlainChar_of_all (by decide)
  | lt => exact isPlainChar_of_all (by decide)
  | gt => exact isPlainChar_of_all (by decide)
  | quot => exact isPlainChar_of_all (by decide)
  | apos => exact isPlainChar_of_all (by decide)
  | decimal hne hnumeral =>
    exact List.forall_mem_cons.mpr ⟨by decide, hdigits hnumeral⟩
  | hexadecimal hne hnumeral =>
    exact List.forall_mem_cons.mpr
      ⟨by decide, List.forall_mem_cons.mpr ⟨by decide, hdigits hnumeral⟩⟩

/-- A reference is written in plain characters. -/
theorem isPlainChar_reference (r : Reference) : ∀ c ∈ r.chars, IsPlainChar c := by
  rw [Reference.chars, List.forall_mem_cons, List.forall_mem_append]
  exact ⟨by decide, isPlainChar_spelling r.spells, isPlainChar_of_all (by decide)⟩

/-- A character between two printable ones is plain. -/
theorem isPlainChar_of_le {c low high : Char} (hrange : ' ' ≤ low ∧ high ≤ 'z') (hlow : low ≤ c)
    (hhigh : c ≤ high) : IsPlainChar c := by
  have hlow := Char.le_trans hrange.1 hlow
  have hhigh := Char.le_trans hhigh hrange.2
  refine ⟨.inr (.inr (.inr ⟨hlow, ?_, ?_⟩)), ?_⟩
  · rintro rfl
    exact absurd hhigh (by decide)
  · rintro rfl
    exact absurd hhigh (by decide)
  · rintro rfl
    exact absurd hlow (by decide)

/-- The reader's name letters are plain. -/
theorem isPlainChar_nameLetter {c : Char} (h : XmlReader.nameLetter c = true) : IsPlainChar c := by
  simp only [XmlReader.nameLetter, Bool.or_eq_true, Bool.and_eq_true, decide_eq_true_eq,
    beq_iff_eq] at h
  rcases h with (⟨hlow, hhigh⟩ | ⟨hlow, hhigh⟩) | rfl
  · exact isPlainChar_of_le (by decide) hlow hhigh
  · exact isPlainChar_of_le (by decide) hlow hhigh
  · decide

/-- The reader's other name characters are plain. -/
theorem isPlainChar_nameTail {c : Char} (h : XmlReader.nameTail c = true) : IsPlainChar c := by
  simp only [XmlReader.nameTail, Bool.or_eq_true, Bool.and_eq_true, decide_eq_true_eq,
    beq_iff_eq] at h
  rcases h with (⟨hlow, hhigh⟩ | rfl) | rfl
  · exact isPlainChar_of_le (by decide) hlow hhigh
  · decide
  · decide

/-- A name is written in plain characters. -/
theorem isPlainChar_name {name : List Char} (h : IsName name) : ∀ c ∈ name, IsPlainChar c := by
  obtain ⟨c, rest, rfl, hc, hrest⟩ := h
  rw [List.forall_mem_cons]
  refine ⟨isPlainChar_nameLetter (XmlReader.nameLetter_of_isNameStart hc), fun d hd => ?_⟩
  rcases XmlReader.nameTail_of_isNameChar (hrest d hd) with hletter | htail
  · exact isPlainChar_nameLetter hletter
  · exact isPlainChar_nameTail htail

/-! ## Start tags -/

/-- A character of a value. -/
def writePiece (c : Char) : ValuePiece :=
  match escape c with
  | some r => .reference r
  | none => .raw c

/-- An attribute, behind a space and between double quotes. -/
def writeAttribute (pair : String × String) : AttributeSyntax where
  before := [' ']
  name := pair.1.toList
  beforeEquals := []
  afterEquals := []
  quote := '"'
  value := pair.2.toList.map writePiece

/-- The start tag of an element. -/
def writeTag (name : String) (attrs : List (String × String)) : StartTag :=
  ⟨name.toList, attrs.map writeAttribute, []⟩

/-- What is written for a character stands for it. -/
theorem char_writePiece (c : Char) : (writePiece c).char = c := by
  unfold writePiece
  split
  next r hr => exact char_of_escape hr
  next => rfl

/-- What is written for a character fits into double quotes. -/
theorem fits_writePiece (c : Char) : (writePiece c).Fits '"' := by
  unfold writePiece
  split
  next r hr => trivial
  next hnone =>
    have hmarkup := notMem_of_escape hnone
    refine ⟨?_, ?_, ?_, ?_, ?_, ?_⟩ <;> rintro rfl <;> exact hmarkup (by decide)

/-- What is written for a character is plain. -/
theorem isPlainChar_writePiece {c : Char} (h : IsXmlChar c) :
    ∀ d ∈ (writePiece c).chars, IsPlainChar d := by
  unfold writePiece
  split
  next r hr => exact isPlainChar_reference r
  next hnone =>
    refine List.forall_mem_singleton.mpr ⟨h, ?_⟩
    rintro rfl
    exact notMem_of_escape hnone (by decide)

section Tags

variable {pair : String × String} {name : String} {attrs : List (String × String)}

/-- A written attribute has the value. -/
theorem text_writeAttribute (pair : String × String) : (writeAttribute pair).text = pair.2 := by
  have hchars : (pair.2.toList.map writePiece).map ValuePiece.char = pair.2.toList := by
    have hchar : ValuePiece.char ∘ writePiece = id := funext char_writePiece
    rw [List.map_map, hchar, List.map_id]
  rw [AttributeSyntax.text, writeAttribute, hchars, String.ofList_toList]

/-- A written attribute has the name and the value. -/
theorem pair_writeAttribute (pair : String × String) : (writeAttribute pair).pair = pair := by
  rw [AttributeSyntax.pair, text_writeAttribute, writeAttribute, String.ofList_toList]

/-- A written attribute is well formed. -/
theorem wellFormed_writeAttribute (h : IsAttribute pair) : (writeAttribute pair).WellFormed where
  before_ne_nil := List.cons_ne_nil _ _
  before := List.forall_mem_singleton.mpr (.inl rfl)
  name := h.name
  beforeEquals := List.forall_mem_nil _
  afterEquals := List.forall_mem_nil _
  quote := .inr rfl
  value := by
    intro piece hpiece
    obtain ⟨c, -, rfl⟩ := List.mem_map.mp hpiece
    exact fits_writePiece c
  units := by
    rw [text_writeAttribute]
    exact h.units

/-- A written attribute is plain. -/
theorem isPlainChar_writeAttribute (h : IsAttribute pair) :
    ∀ c ∈ (writeAttribute pair).chars, IsPlainChar c := by
  have hvalue : ∀ c ∈ (writeAttribute pair).valueChars, IsPlainChar c := by
    intro c hc
    obtain ⟨piece, hpiece, hc⟩ := List.mem_flatMap.mp hc
    obtain ⟨d, hd, rfl⟩ := List.mem_map.mp hpiece
    exact isPlainChar_writePiece (h.value d hd) c hc
  simp only [AttributeSyntax.chars, List.forall_mem_append, List.forall_mem_cons]
  have hspace : IsPlainChar ' ' := by decide
  have hequals : IsPlainChar '=' := by decide
  have hquote : IsPlainChar '"' := by decide
  exact ⟨List.forall_mem_singleton.mpr hspace, isPlainChar_name h.name, List.forall_mem_nil _,
    hequals, List.forall_mem_nil _, hquote, hvalue, hquote, List.forall_mem_nil _⟩

/-- A written tag has the attributes. -/
theorem attrs_writeTag (name : String) (attrs : List (String × String)) :
    (writeTag name attrs).attrs = attrs := by
  have hpair : AttributeSyntax.pair ∘ writeAttribute = id := funext pair_writeAttribute
  rw [StartTag.attrs, writeTag, List.map_map, hpair, List.map_id]

/-- A written tag is well formed. -/
theorem wellFormed_writeTag (hname : IsName name.toList) (hattrs : ∀ pair ∈ attrs, IsAttribute pair)
    (hcount : attrs.length ≤ 64) (hdistinct : (attrs.map Prod.fst).Nodup) :
    (writeTag name attrs).WellFormed where
  name := hname
  attributes := by
    intro a ha
    obtain ⟨pair, hpair, rfl⟩ := List.mem_map.mp ha
    exact wellFormed_writeAttribute (hattrs pair hpair)
  trailing := List.forall_mem_nil _
  count := by
    rw [writeTag, List.length_map]
    exact hcount
  distinct := by
    rw [attrs_writeTag]
    exact hdistinct
  no_namespace := by
    rw [attrs_writeTag]
    exact fun pair hpair => (hattrs pair hpair).no_namespace

/-- A written tag is plain. -/
theorem isPlainChar_writeTag (hname : IsName name.toList)
    (hattrs : ∀ pair ∈ attrs, IsAttribute pair) :
    ∀ c ∈ (writeTag name attrs).chars, IsPlainChar c := by
  have hattributes : ∀ c ∈ (attrs.map writeAttribute).flatMap AttributeSyntax.chars,
      IsPlainChar c := by
    intro c hc
    obtain ⟨a, ha, hc⟩ := List.mem_flatMap.mp hc
    obtain ⟨pair, hpair, rfl⟩ := List.mem_map.mp ha
    exact isPlainChar_writeAttribute (hattrs pair hpair) c hc
  simp only [StartTag.chars, writeTag, List.forall_mem_cons, List.forall_mem_append]
  exact ⟨by decide, isPlainChar_name hname, hattributes, List.forall_mem_nil _⟩

end Tags

/-! ## Contents -/

/-- A text in front of a content. -/
def writeText (text : List Char) (rest : Content) : Content :=
  text.foldr (fun c rest =>
    match escape c with
    | some r => .reference r rest
    | none => .raw c rest) rest

mutual

/-- An element in front of a content. -/
def XmlElement.write : XmlElement → Content → Content
  | ⟨name, attrs, children, text, _⟩, rest =>
    .element (writeTag name attrs) (writeText text.toList (writeAll children .nil)) [] rest

/-- Elements in front of a content. -/
def writeAll : List XmlElement → Content → Content
  | [], rest => rest
  | element :: elements, rest => element.write (writeAll elements rest)

end

section Contents

variable {text : List Char} {rest : Content}

/-- A written text comes before the text of the rest. -/
theorem text_writeText (text : List Char) (rest : Content) :
    (writeText text rest).text = text ++ rest.text := by
  induction text with
  | nil => rfl
  | cons c text ih =>
    rw [writeText, List.foldr_cons]
    split
    next r hr =>
      rw [Content.text, char_of_escape hr]
      exact congrArg (c :: ·) ih
    next => exact congrArg (c :: ·) ih

/-- A written text adds no element. -/
theorem elements_writeText (text : List Char) (rest : Content) :
    (writeText text rest).elements = rest.elements := by
  induction text with
  | nil => rfl
  | cons c text ih =>
    rw [writeText, List.foldr_cons]
    split <;> exact ih

/-- A written text adds no depth. -/
theorem depth_writeText (text : List Char) (rest : Content) :
    (writeText text rest).depth = rest.depth := by
  induction text with
  | nil => rfl
  | cons c text ih =>
    rw [writeText, List.foldr_cons]
    split <;> exact ih

/-- A written text adds no child, and it may move the lines of those behind it. -/
theorem children_writeText (line : ℕ) (text : List Char) (rest : Content) :
    ∃ line', (writeText text rest).children line = rest.children line' := by
  induction text generalizing line with
  | nil => exact ⟨line, rfl⟩
  | cons c text ih =>
    rw [writeText, List.foldr_cons]
    split <;> exact ih _

/-- A written text leaves the rest well formed. -/
theorem wellFormed_writeText (text : List Char) (h : rest.WellFormed) :
    (writeText text rest).WellFormed := by
  induction text with
  | nil => exact h
  | cons c text ih =>
    rw [writeText, List.foldr_cons]
    split
    next r hr => exact ih
    next hnone =>
      have hmarkup := notMem_of_escape hnone
      refine ⟨?_, ?_, XmlReader.not_prefix_of_ne ?_, ih⟩
      · rintro rfl
        exact hmarkup (by decide)
      · rintro rfl
        exact hmarkup (by decide)
      · rintro rfl
        exact hmarkup (by decide)

/-- A written text of XML characters is plain. -/
theorem isPlainChar_writeText (htext : ∀ c ∈ text, IsXmlChar c)
    (h : ∀ c ∈ rest.chars, IsPlainChar c) : ∀ c ∈ (writeText text rest).chars, IsPlainChar c := by
  induction text with
  | nil => exact h
  | cons c text ih =>
    obtain ⟨hc, htext⟩ := List.forall_mem_cons.mp htext
    have hplain := ih htext
    rw [writeText, List.foldr_cons]
    split
    next r hr => exact List.forall_mem_append.mpr ⟨isPlainChar_reference r, hplain⟩
    next hnone =>
      refine List.forall_mem_cons.mpr ⟨⟨hc, ?_⟩, hplain⟩
      rintro rfl
      exact notMem_of_escape hnone (by decide)

end Contents

/-! ## Trees -/

mutual

/-- What holds of an element when it holds of the elements in it. -/
@[elab_as_elim]
theorem forall_tree {P : XmlElement → Prop} {Q : List XmlElement → Prop} (hnil : Q [])
    (hcons : ∀ tree trees, P tree → Q trees → Q (tree :: trees))
    (hnode : ∀ name attrs children text line, Q children → P ⟨name, attrs, children, text, line⟩) :
    ∀ tree, P tree
  | ⟨name, attrs, children, text, line⟩ =>
    hnode name attrs children text line (forall_trees hnil hcons hnode children)

/-- Induction over lists of elements: what holds of the children holds of their element. -/
theorem forall_trees {P : XmlElement → Prop} {Q : List XmlElement → Prop} (hnil : Q [])
    (hcons : ∀ tree trees, P tree → Q trees → Q (tree :: trees))
    (hnode : ∀ name attrs children text line, Q children → P ⟨name, attrs, children, text, line⟩) :
    ∀ trees, Q trees
  | [] => hnil
  | tree :: trees =>
    hcons tree trees (forall_tree hnil hcons hnode tree) (forall_trees hnil hcons hnode trees)

end

section Trees

variable {rest : Content}

/-- Written elements leave the text of the rest. -/
theorem text_writeAll (trees : List XmlElement) (rest : Content) :
    (writeAll trees rest).text = rest.text := by
  induction trees with
  | nil => rfl
  | cons tree trees ih =>
    obtain ⟨name, attrs, children, text, line⟩ := tree
    rw [writeAll, XmlElement.write, Content.text, ih]

/-- What is written for a tree holds its elements. -/
theorem children_write (tree : XmlElement) : ∀ rest line, ∃ line',
    unlinedAll ((tree.write rest).children line) =
      tree.unlined :: unlinedAll (rest.children line') := by
  refine forall_tree (Q := fun trees => ∀ rest line, ∃ line',
    unlinedAll ((writeAll trees rest).children line) =
      unlinedAll trees ++ unlinedAll (rest.children line')) ?hnil ?hcons ?hnode tree
  case hnil => exact fun rest line => ⟨line, rfl⟩
  case hcons =>
    intro tree trees htree htrees rest line
    obtain ⟨middle, htree⟩ := htree (writeAll trees rest) line
    obtain ⟨line', htrees⟩ := htrees rest middle
    refine ⟨line', ?_⟩
    rw [writeAll, htree, htrees, unlinedAll]
    rfl
  case hnode =>
    intro name attrs children text treeLine hchildren rest line
    obtain ⟨middle, htext⟩ := children_writeText (line + lineEnds (openChars (writeTag name attrs)))
      text.toList (writeAll children .nil)
    obtain ⟨last, hchildren⟩ := hchildren .nil middle
    refine ⟨line + lineEnds (openChars (writeTag name attrs) ++
      ((writeText text.toList (writeAll children .nil)).chars ++
        closeChars (writeTag name attrs) [])), ?_⟩
    rw [XmlElement.write, Content.children, unlinedAll, XmlElement.unlined, XmlElement.unlined,
      htext, hchildren, text_writeText, text_writeAll, attrs_writeTag]
    simp only [Content.children, Content.text, unlinedAll, List.append_nil, String.ofList_toList,
      writeTag]

/-- A written element has as many elements as its tree. -/
theorem elements_write (tree : XmlElement) : ∀ rest,
    (tree.write rest).elements = tree.preorder.length + rest.elements := by
  refine forall_tree (Q := fun trees => ∀ rest,
    (writeAll trees rest).elements = (preorderAll trees).length + rest.elements)
    ?hnil ?hcons ?hnode tree
  case hnil => exact fun rest => (Nat.zero_add _).symm
  case hcons =>
    intro tree trees htree htrees rest
    rw [writeAll, htree, htrees, preorderAll, List.length_append, Nat.add_assoc]
  case hnode =>
    intro name attrs children text line hchildren rest
    rw [XmlElement.write, Content.elements, elements_writeText, hchildren, XmlElement.preorder,
      List.length_cons, Content.elements]
    omega

/-- A written element is as deep as its tree. -/
theorem depth_write (tree : XmlElement) : ∀ rest,
    (tree.write rest).depth = max tree.levels rest.depth := by
  refine forall_tree (Q := fun trees => ∀ rest,
    (writeAll trees rest).depth = max (levelsAll trees) rest.depth) ?hnil ?hcons ?hnode tree
  case hnil => exact fun rest => (Nat.zero_max _).symm
  case hcons =>
    intro tree trees htree htrees rest
    rw [writeAll, htree, htrees, levelsAll, max_assoc]
  case hnode =>
    intro name attrs children text line hchildren rest
    rw [XmlElement.write, Content.depth, depth_writeText, hchildren, XmlElement.levels,
      Content.depth, Nat.max_zero]

/-- What is written for a tree is well-formed, and in characters of a document. -/
theorem wellFormed_write (tree : XmlElement) : (∀ element ∈ tree.preorder, IsElement element) →
    ∀ rest : Content, rest.WellFormed → (∀ c ∈ rest.chars, IsPlainChar c) →
      (tree.write rest).WellFormed ∧ ∀ c ∈ (tree.write rest).chars, IsPlainChar c := by
  refine forall_tree (Q := fun trees =>
    (∀ element ∈ preorderAll trees, IsElement element) →
    ∀ rest : Content, rest.WellFormed → (∀ c ∈ rest.chars, IsPlainChar c) →
      (writeAll trees rest).WellFormed ∧ ∀ c ∈ (writeAll trees rest).chars, IsPlainChar c)
    ?hnil ?hcons ?hnode tree
  case hnil => exact fun _ rest hrest hplain => ⟨hrest, hplain⟩
  case hcons =>
    intro tree trees htree htrees helements rest hrest hplain
    rw [preorderAll, List.forall_mem_append] at helements
    obtain ⟨hmiddle, hmiddlePlain⟩ := htrees helements.2 rest hrest hplain
    exact htree helements.1 (writeAll trees rest) hmiddle hmiddlePlain
  case hnode =>
    intro name attrs children text line hchildren helements rest hrest hplain
    rw [XmlElement.preorder, List.forall_mem_cons] at helements
    obtain ⟨helement, helements⟩ := helements
    obtain ⟨hinside, hinsidePlain⟩ := hchildren helements .nil trivial (List.forall_mem_nil _)
    have htag : (writeTag name attrs).WellFormed := wellFormed_writeTag helement.name
      helement.attributes helement.count helement.distinct
    have htagPlain : ∀ c ∈ (writeTag name attrs).chars, IsPlainChar c :=
      isPlainChar_writeTag helement.name helement.attributes
    have hname : ∀ c ∈ (writeTag name attrs).name, IsPlainChar c := isPlainChar_name helement.name
    have htext : ∀ c ∈ text.toList, IsXmlChar c := helement.text
    rw [XmlElement.write]
    refine ⟨⟨htag, wellFormed_writeText _ hinside, List.forall_mem_nil _, hrest⟩, ?_⟩
    simp only [Content.chars, openChars, closeChars, List.forall_mem_append]
    have hends : ∀ c ∈ ">".toList, IsPlainChar c := isPlainChar_of_all (by decide)
    have hcloses : ∀ c ∈ "</".toList, IsPlainChar c := isPlainChar_of_all (by decide)
    exact ⟨⟨htagPlain, hends⟩, isPlainChar_writeText htext hinsidePlain,
      ⟨hcloses, hname, List.forall_mem_nil _, hends⟩, hplain⟩

end Trees

/-! ## Documents -/

/-- The document that is written for a tree. -/
def XmlElement.document (tree : XmlElement) : Document where
  declaration := none
  before := ⟨[], []⟩
  tag := writeTag tree.name tree.attrs
  body := some (writeText tree.text.toList (writeAll tree.children .nil), [])
  after := ⟨[], []⟩

/-- The root of a written document is the written element. -/
theorem root_document (tree : XmlElement) : tree.document.root = tree.write .nil := by
  obtain ⟨name, attrs, children, text, line⟩ := tree
  rfl

/-- A written document is the written element, with nothing around it. -/
theorem chars_document (tree : XmlElement) :
    tree.document.chars = (tree.write .nil).chars := by
  rw [← root_document]
  exact List.append_nil _

/-- Characters without CR in front of a text stay as they are. -/
theorem lineEnds_prepend {chars : List Char} (h : '\r' ∉ chars) {plain text : List Char}
    (hrest : LineEnds plain text) : LineEnds (chars ++ plain) (chars ++ text) := by
  induction chars with
  | nil => exact hrest
  | cons c chars ih =>
    obtain ⟨hc, hchars⟩ := not_or.mp (mt List.mem_cons.mpr h)
    by_cases hlf : c = '\n'
    · rw [hlf]
      exact .lf (ih hchars)
    · exact .char hlf (Ne.symm hc) (ih hchars)

/-- A text without CR is written with LF. -/
theorem lineEnds_self {chars : List Char} (h : '\r' ∉ chars) : LineEnds chars chars := by
  have hchars := lineEnds_prepend h .nil
  rwa [List.append_nil] at hchars

/-- Every element tree within the bounds has a document. -/
theorem XmlElement.Bounded.exists_document {tree : XmlElement} (h : tree.Bounded) :
    tree.document.WellFormed ∧ tree.document.tree.unlined = tree.unlined ∧
      Writes (String.ofList tree.document.chars) tree.document := by
  obtain ⟨hroot, hplain⟩ := wellFormed_write tree h.elements .nil trivial (List.forall_mem_nil _)
  have hlevels := h.levels
  have hcount := h.count
  have hchars : ∀ c ∈ tree.document.chars, IsPlainChar c := by
    rw [chars_document]
    exact hplain
  have hmisc : Misc.WellFormed ⟨[], []⟩ :=
    ⟨List.forall_mem_nil _, List.forall_mem_nil _, List.forall_mem_nil _⟩
  rw [← root_document] at hroot
  refine ⟨⟨?_, hmisc, hroot, hmisc, ?_, ?_, hchars⟩, ?_, tree.document.chars, ?_, ?_⟩
  · rintro declaration ⟨⟩
  · rw [root_document, depth_write, Content.depth, Nat.max_zero]
    exact hlevels
  · rw [root_document, elements_write, Content.elements]
    exact hcount
  · obtain ⟨line', hchildren⟩ := children_write tree .nil 1
    rw [← root_document] at hchildren
    exact (List.cons.inj hchildren).1
  · exact lineEnds_self fun hmem => (hchars _ hmem).2 rfl
  · exact .inl String.toList_ofList

/-- The bounded reader: it ends on every text without a look outside it, every tree within its
bounds has a document, and a text that writes a document is parsed to the tree of the
document, with the physical line of each start tag. -/
theorem parseXml_bounded :
    (∀ text fault, parseXml text = .error fault → fault.IsRefusal) ∧
    (∀ tree : XmlElement, tree.Bounded → ∃ d : Document, d.WellFormed ∧
      d.tree.unlined = tree.unlined ∧ Writes (String.ofList d.chars) d) ∧
    ∀ text (d : Document), d.WellFormed → Writes text d → utf8Length text ≤ 1048576 →
      parseXml text = .ok d.tree ∧
      ∃ places, places.map Prod.snd = d.startTags ∧ List.Forall₂ Marks d.tree.preorder places ∧
        ∀ place ∈ places, StandsIn text.toList place := by
  refine ⟨fun text fault h => parseXml_refuses h, ?_, ?_⟩
  · intro tree htree
    exact ⟨tree.document, htree.exists_document⟩
  · intro text d hd h hsize
    exact ⟨parseXml_writes hd h hsize, exists_places_of_writes h⟩

/-- An element with an attribute, a comment, an element, a CDATA section and a reference, behind
the first line. -/
def nested : Document where
  declaration := none
  before := ⟨[], []⟩
  tag := writeTag "a" [("k", "<x")]
  body := some (.raw '\n' (.comment [' ', 'c'] (.empty (writeTag "b" []) (.cdata ['<', 'd', '>']
    (.reference ⟨"amp".toList, '&', .amp, by decide, by decide⟩ .nil)))), [])
  after := ⟨[], []⟩

/-- The sample document is well-formed. -/
theorem wellFormed_nested : nested.WellFormed := by
  have hmisc : Misc.WellFormed ⟨[], []⟩ :=
    ⟨List.forall_mem_nil _, List.forall_mem_nil _, List.forall_mem_nil _⟩
  have htag : (writeTag "a" [("k", "<x")]).WellFormed :=
    wellFormed_writeTag (by decide) (List.forall_mem_singleton.mpr (by decide)) (by decide)
      (by decide)
  have hinner : (writeTag "b" []).WellFormed :=
    wellFormed_writeTag (by decide) (List.forall_mem_nil _) (by decide) (by decide)
  have hcomment : IsCommentText [' ', 'c'] := by
    unfold IsCommentText
    decide
  have hplain : ∀ c ∈ nested.chars, IsPlainChar c := isPlainChar_of_all (by decide)
  exact ⟨by rintro declaration ⟨⟩, hmisc,
    ⟨htag, ⟨by decide, by decide, by decide, hcomment, hinner, by decide, trivial⟩,
      List.forall_mem_nil _, trivial⟩, hmisc, by decide, by decide, hplain⟩

/-- The text of the sample document, with CRLF. -/
def nestedText : String := "<a k=\"&lt;x\">\r\n<!-- c--><b/><![CDATA[<d>]]>&amp;</a>"

/-- The text writes the document. -/
theorem writes_nestedText : Writes nestedText nested := by
  have hback : LineEnds "<!-- c--><b/><![CDATA[<d>]]>&amp;</a>".toList
      "<!-- c--><b/><![CDATA[<d>]]>&amp;</a>".toList := lineEnds_self (by decide)
  have hfront : '\r' ∉ "<a k=\"&lt;x\">".toList := by decide
  exact ⟨_, lineEnds_prepend hfront (.crlf hback), .inl rfl⟩

/-- A text without markup is refused, a tree has a document, and the text of the sample document
is parsed as its tree. -/
theorem parseXml_bounded_nested :
    XmlFault.IsRefusal (.refused "expected < at XML line 1") ∧
    (∃ d : Document, d.WellFormed ∧
      d.tree.unlined = ⟨"a", [("k", "\t")], [⟨"b", [], [], "", 0⟩], "<", 0⟩ ∧
      Writes (String.ofList d.chars) d) ∧
    parseXml nestedText =
      .ok ⟨"a", [("k", "<x")], [⟨"b", [], [], "", 2⟩], "\n<d>&", 1⟩ := by
  have htree : XmlElement.Bounded ⟨"a", [("k", "\t")], [⟨"b", [], [], "", 0⟩], "<", 0⟩ := by
    decide
  exact ⟨parseXml_bounded.1 "" _ rfl, parseXml_bounded.2.1 _ htree,
    (parseXml_bounded.2.2 _ nested wellFormed_nested writes_nestedText (by decide)).1⟩

end Moonfort.Junit
