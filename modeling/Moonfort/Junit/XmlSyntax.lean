import Mathlib
import Moonfort.Junit.XmlReader

/-!
# XML documents as they are written

The serialisations of an element tree: start tags with their blanks and quotes, references,
CDATA sections, comments, and the physical line ends. A document says which tree it
writes, with the line of every start tag.
-/

namespace Moonfort.Junit

/-- The characters of an XML text. -/
def IsXmlChar (c : Char) : Prop :=
  c = '\t' ∨ c = '\n' ∨ c = '\r' ∨ ' ' ≤ c ∧ c ≠ '\uFFFE' ∧ c ≠ '\uFFFF'

/-- Blanks: spaces, tabs and line ends. -/
def IsBlank (c : Char) : Prop := c = ' ' ∨ c = '\t' ∨ c = '\n'

/-- The first character of a name. -/
def IsNameStart (c : Char) : Prop := c.isAlpha = true ∨ c = '_'

/-- A character of a name. -/
def IsNameChar (c : Char) : Prop := c.isAlphanum = true ∨ c = '_' ∨ c = '-' ∨ c = '.'

/-- An unprefixed ASCII name. -/
def IsName (name : List Char) : Prop :=
  ∃ c rest, name = c :: rest ∧ IsNameStart c ∧ ∀ d ∈ rest, IsNameChar d

/-- The lines that end in some characters. -/
def lineEnds (chars : List Char) : ℕ := chars.count '\n'

/-! ## References -/

/-- A digit and its value. -/
def IsDigit (base : ℕ) (c : Char) (value : ℕ) : Prop :=
  value < base ∧
    ("0123456789abcdef".toList[value]? = some c ∨ "0123456789ABCDEF".toList[value]? = some c)

/-- The number that starts with `n` and goes on with these digits. -/
inductive Numeral (base : ℕ) : ℕ → List Char → ℕ → Prop
  | nil {n : ℕ} : Numeral base n [] n
  | cons {n m value : ℕ} {c : Char} {digits : List Char} (hdigit : IsDigit base c value)
      (hrest : Numeral base (n * base + value) digits m) : Numeral base n (c :: digits) m

/-- How a character is spelled between `&` and `;`. -/
inductive Spells : List Char → Char → Prop
  | amp : Spells "amp".toList '&'
  | lt : Spells "lt".toList '<'
  | gt : Spells "gt".toList '>'
  | quot : Spells "quot".toList '"'
  | apos : Spells "apos".toList '\''
  | decimal {digits : List Char} {c : Char} (hne : digits ≠ [])
      (hnumeral : Numeral 10 0 digits c.toNat) : Spells ('#' :: digits) c
  | hexadecimal {digits : List Char} {c : Char} (hne : digits ≠ [])
      (hnumeral : Numeral 16 0 digits c.toNat) : Spells ('#' :: 'x' :: digits) c

/-- An entity or character reference, of at most twelve characters. -/
structure Reference where
  spelling : List Char
  char : Char
  spells : Spells spelling char
  short : spelling.length ≤ 12
  valid : IsXmlChar char

/-- The characters of a reference. -/
def Reference.chars (r : Reference) : List Char := '&' :: (r.spelling ++ [';'])

/-- Reading a numeral does not make the value smaller. -/
theorem Numeral.le {base n m : ℕ} {digits : List Char} (h : Numeral base n digits m)
    (hbase : 1 ≤ base) : n ≤ m := by
  induction h with
  | nil => exact le_refl _
  | @cons n m value c digits hdigit hrest ih =>
    have hscaled : n * 1 ≤ n * base := Nat.mul_le_mul_left n hbase
    omega

/-- The characters of digits. -/
theorem mem_digits {base value : ℕ} {c : Char} (h : IsDigit base c value) :
    c ∈ "0123456789abcdefABCDEF".toList := by
  rcases h.2 with h | h
  · have hmem := List.mem_of_getElem? h
    have hall : "0123456789abcdef".toList ⊆ "0123456789abcdefABCDEF".toList := by decide
    exact hall hmem
  · have hmem := List.mem_of_getElem? h
    have hall : "0123456789ABCDEF".toList ⊆ "0123456789abcdefABCDEF".toList := by decide
    exact hall hmem

/-- Neither a semicolon nor a line end. -/
theorem spells_mem {spelling : List Char} {c d : Char} (h : Spells spelling c) (hd : d ∈ spelling) :
    d ≠ ';' ∧ d ≠ '\n' := by
  have hnumeral {base n m : ℕ} {digits : List Char} (h : Numeral base n digits m) :
      ∀ d ∈ digits, d ∈ "0123456789abcdefABCDEF".toList := by
    induction h with
    | nil => exact List.forall_mem_nil _
    | cons hdigit hrest ih => exact List.forall_mem_cons.mpr ⟨mem_digits hdigit, ih⟩
  have hall : d ∈ "0123456789abcdefABCDEF#xampltgquos".toList → d ≠ ';' ∧ d ≠ '\n' := by
    intro hmem
    constructor
    · rintro rfl
      exact absurd hmem (by decide)
    · rintro rfl
      exact absurd hmem (by decide)
  have hdigits : "0123456789abcdefABCDEF".toList ⊆ "0123456789abcdefABCDEF#xampltgquos".toList := by
    decide
  apply hall
  cases h with
  | amp => exact (by decide : "amp".toList ⊆ _) hd
  | lt => exact (by decide : "lt".toList ⊆ _) hd
  | gt => exact (by decide : "gt".toList ⊆ _) hd
  | quot => exact (by decide : "quot".toList ⊆ _) hd
  | apos => exact (by decide : "apos".toList ⊆ _) hd
  | decimal hne h =>
    rcases List.mem_cons.mp hd with rfl | hd
    · decide
    · exact hdigits (hnumeral h d hd)
  | hexadecimal hne h =>
    rcases List.mem_cons.mp hd with rfl | hd
    · decide
    · rcases List.mem_cons.mp hd with rfl | hd
      · decide
      · exact hdigits (hnumeral h d hd)

/-- A reference ends no line. -/
theorem Reference.lineEnds_chars (ref : Reference) : lineEnds ref.chars = 0 := by
  rw [lineEnds, List.count_eq_zero, Reference.chars]
  intro hmem
  rcases List.mem_cons.mp hmem with heq | hmem
  · exact absurd heq (by decide)
  · rcases List.mem_append.mp hmem with hmem | hmem
    · exact (spells_mem ref.spells hmem).2 rfl
    · exact absurd hmem (by decide)

/-! ## Start tags -/

/-- A character of an attribute's value. -/
inductive ValuePiece where
  | raw (c : Char)
  | reference (r : Reference)

namespace ValuePiece

/-- The characters of a piece. -/
def chars : ValuePiece → List Char
  | raw c => [c]
  | reference r => r.chars

/-- What a piece stands for. -/
def char : ValuePiece → Char
  | raw c => c
  | reference r => r.char

/-- A character that stands for itself between these quotes. -/
def Fits (quote : Char) : ValuePiece → Prop
  | raw c => c ≠ '<' ∧ c ≠ '&' ∧ c ≠ quote ∧ c ≠ '\t' ∧ c ≠ '\n' ∧ c ≠ '\r'
  | reference _ => True

end ValuePiece

/-- An attribute as it is written. -/
structure AttributeSyntax where
  before : List Char
  name : List Char
  beforeEquals : List Char
  afterEquals : List Char
  quote : Char
  value : List ValuePiece

namespace AttributeSyntax

variable (a : AttributeSyntax)

/-- The characters of the value. -/
def valueChars : List Char := a.value.flatMap ValuePiece.chars

/-- The characters of an attribute. -/
def chars : List Char :=
  a.before ++ (a.name ++ (a.beforeEquals ++ '=' :: (a.afterEquals ++
    a.quote :: (a.valueChars ++ [a.quote]))))

/-- The value. -/
def text : String := String.ofList (a.value.map ValuePiece.char)

/-- The name and the value. -/
def pair : String × String := (String.ofList a.name, a.text)

/-- An attribute that is well-formed and within the bound of its value. -/
structure WellFormed : Prop where
  before_ne_nil : a.before ≠ []
  before : ∀ c ∈ a.before, IsBlank c
  name : IsName a.name
  beforeEquals : ∀ c ∈ a.beforeEquals, IsBlank c
  afterEquals : ∀ c ∈ a.afterEquals, IsBlank c
  quote : a.quote = '\'' ∨ a.quote = '"'
  value : ∀ piece ∈ a.value, piece.Fits a.quote
  units : MoonBit.utf16Length a.text ≤ 16384

end AttributeSyntax

/-- A start tag up to its `>` or `/>`. -/
structure StartTag where
  name : List Char
  attributes : List AttributeSyntax
  trailing : List Char

namespace StartTag

variable (tag : StartTag)

/-- The characters of a start tag. -/
def chars : List Char :=
  '<' :: (tag.name ++ (tag.attributes.flatMap AttributeSyntax.chars ++ tag.trailing))

/-- The attributes. -/
def attrs : List (String × String) := tag.attributes.map AttributeSyntax.pair

/-- A start tag that is well-formed and within the bounds of its attributes. -/
structure WellFormed : Prop where
  name : IsName tag.name
  attributes : ∀ a ∈ tag.attributes, a.WellFormed
  trailing : ∀ c ∈ tag.trailing, IsBlank c
  count : tag.attributes.length ≤ 64
  distinct : (tag.attrs.map Prod.fst).Nodup
  no_namespace : ∀ pair ∈ tag.attrs, pair.1 ≠ "xmlns"

end StartTag

/-! ## Contents -/

/-- What stands between a start tag and its close tag. -/
inductive Content where
  | nil
  | raw (c : Char) (rest : Content)
  | reference (r : Reference) (rest : Content)
  | cdata (chars : List Char) (rest : Content)
  | comment (chars : List Char) (rest : Content)
  /-- A self-closing tag. -/
  | empty (tag : StartTag) (rest : Content)
  /-- An element with its content, and the blanks in its close tag. -/
  | element (tag : StartTag) (inside : Content) (closing : List Char) (rest : Content)

/-- A CDATA section. -/
def cdataChars (chars : List Char) : List Char :=
  "<![CDATA[".toList ++ (chars ++ "]]>".toList)

/-- A comment. -/
def commentChars (chars : List Char) : List Char := "<!--".toList ++ (chars ++ "-->".toList)

/-- A close tag. -/
def closeChars (tag : StartTag) (closing : List Char) : List Char :=
  "</".toList ++ (tag.name ++ (closing ++ ">".toList))

/-- A self-closing tag. -/
def emptyChars (tag : StartTag) : List Char := tag.chars ++ "/>".toList

/-- A start tag that opens an element. -/
def openChars (tag : StartTag) : List Char := tag.chars ++ ">".toList

/-- The text of a comment does not end it. -/
def IsCommentText (chars : List Char) : Prop := ¬ "--".toList <:+: chars ++ ['-']

namespace Content

/-- The characters of a content. -/
def chars : Content → List Char
  | nil => []
  | raw c rest => c :: rest.chars
  | reference r rest => r.chars ++ rest.chars
  | cdata chars rest => cdataChars chars ++ rest.chars
  | comment chars rest => commentChars chars ++ rest.chars
  | empty tag rest => emptyChars tag ++ rest.chars
  | element tag inside closing rest =>
    openChars tag ++ (inside.chars ++ (closeChars tag closing ++ rest.chars))

/-- The text of a content. -/
def text : Content → List Char
  | nil => []
  | raw c rest => c :: rest.text
  | reference r rest => r.char :: rest.text
  | cdata chars rest => chars ++ rest.text
  | comment _ rest => rest.text
  | empty _ rest => rest.text
  | element _ _ _ rest => rest.text

/-- The elements of a content that starts in this line. -/
def children (line : ℕ) : Content → List XmlElement
  | nil => []
  | raw c rest => rest.children (line + lineEnds [c])
  | reference _ rest => rest.children line
  | cdata chars rest => rest.children (line + lineEnds (cdataChars chars))
  | comment chars rest => rest.children (line + lineEnds (commentChars chars))
  | empty tag rest =>
    ⟨String.ofList tag.name, tag.attrs, [], "", line⟩ ::
      rest.children (line + lineEnds (emptyChars tag))
  | element tag inside closing rest =>
    ⟨String.ofList tag.name, tag.attrs, inside.children (line + lineEnds (openChars tag)),
        String.ofList inside.text, line⟩ ::
      rest.children (line + lineEnds (openChars tag ++ (inside.chars ++ closeChars tag closing)))

/-- The number of elements. -/
def elements : Content → ℕ
  | nil => 0
  | raw _ rest | reference _ rest | cdata _ rest | comment _ rest => rest.elements
  | empty _ rest => 1 + rest.elements
  | element _ inside _ rest => 1 + inside.elements + rest.elements

/-- The levels of the elements. -/
def depth : Content → ℕ
  | nil => 0
  | raw _ rest | reference _ rest | cdata _ rest | comment _ rest => rest.depth
  | empty _ rest => max 1 rest.depth
  | element _ inside _ rest => max (1 + inside.depth) rest.depth

/-- A content that is well-formed and within the bounds of its attributes. -/
def WellFormed : Content → Prop
  | nil => True
  | raw c rest => c ≠ '<' ∧ c ≠ '&' ∧ ¬ "]]>".toList <+: c :: rest.chars ∧ rest.WellFormed
  | reference _ rest => rest.WellFormed
  | cdata chars rest => ¬ "]]>".toList <:+: chars ∧ rest.WellFormed
  | comment chars rest => IsCommentText chars ∧ rest.WellFormed
  | empty tag rest => tag.WellFormed ∧ rest.WellFormed
  | element tag inside closing rest =>
    tag.WellFormed ∧ inside.WellFormed ∧ (∀ c ∈ closing, IsBlank c) ∧ rest.WellFormed

end Content

/-! ## Documents -/

/-- Comments and blanks around the root. -/
structure Misc where
  comments : List (List Char × List Char)
  trailing : List Char

namespace Misc

/-- The characters of comments with blanks before each. -/
def commentsChars (comments : List (List Char × List Char)) : List Char :=
  comments.flatMap fun item => item.1 ++ commentChars item.2

variable (m : Misc)

/-- The characters. -/
def chars : List Char := commentsChars m.comments ++ m.trailing

/-- Well-formed comments and blanks. -/
structure WellFormed : Prop where
  blanks : ∀ item ∈ m.comments, ∀ c ∈ item.1, IsBlank c
  comments : ∀ item ∈ m.comments, IsCommentText item.2
  trailing : ∀ c ∈ m.trailing, IsBlank c

end Misc

/-- An XML declaration. -/
structure Declaration where
  version : AttributeSyntax
  encoding : Option AttributeSyntax
  standalone : Option AttributeSyntax
  trailing : List Char

namespace Declaration

variable (d : Declaration)

/-- The attributes in their order. -/
def attributes : List AttributeSyntax := d.version :: (d.encoding.toList ++ d.standalone.toList)

/-- The characters. -/
def chars : List Char :=
  "<?xml".toList ++ (d.attributes.flatMap AttributeSyntax.chars ++ (d.trailing ++ "?>".toList))

/-- A declaration of an XML 1.0 document in UTF-8. -/
structure WellFormed : Prop where
  attributes : ∀ a ∈ d.attributes, a.WellFormed
  version : d.version.pair = ("version", "1.0")
  encoding : ∀ a ∈ d.encoding, a.pair = ("encoding", "UTF-8") ∨ a.pair = ("encoding", "utf-8")
  standalone : ∀ a ∈ d.standalone, a.pair = ("standalone", "yes") ∨ a.pair = ("standalone", "no")
  trailing : ∀ c ∈ d.trailing, IsBlank c

end Declaration

/-- A document. -/
structure Document where
  declaration : Option Declaration
  before : Misc
  tag : StartTag
  /-- The content of the root and the blanks in its close tag, unless it closes itself. -/
  body : Option (Content × List Char)
  after : Misc

namespace Document

variable (d : Document)

/-- The characters in front of the root. -/
def prolog : List Char := d.declaration.elim [] Declaration.chars ++ d.before.chars

/-- The root as a content. -/
def root : Content :=
  match d.body with
  | none => .empty d.tag .nil
  | some (inside, closing) => .element d.tag inside closing .nil

/-- The characters of a document, with one character for each line end. -/
def chars : List Char := d.prolog ++ (d.root.chars ++ d.after.chars)

/-- The element tree of a document, with the lines of its start tags. -/
def tree : XmlElement :=
  let line := 1 + lineEnds d.prolog
  match d.body with
  | none => ⟨String.ofList d.tag.name, d.tag.attrs, [], "", line⟩
  | some (inside, _) =>
    ⟨String.ofList d.tag.name, d.tag.attrs, inside.children (line + lineEnds (openChars d.tag)),
      String.ofList inside.text, line⟩

/-- A document that is well-formed and within the bounds. -/
structure WellFormed : Prop where
  declaration : ∀ declaration ∈ d.declaration, declaration.WellFormed
  before : d.before.WellFormed
  root : d.root.WellFormed
  after : d.after.WellFormed
  depth : d.root.depth ≤ 32
  elements : d.root.elements ≤ 20000
  chars : ∀ c ∈ d.chars, IsXmlChar c ∧ c ≠ '\r'

end Document

/-! ## Texts -/

/-- A text with its line ends as they are in a file: each is LF or CRLF. -/
inductive LineEnds : List Char → List Char → Prop
  | nil : LineEnds [] []
  | char {c : Char} {plain text : List Char} (hlf : c ≠ '\n') (hcr : c ≠ '\r')
      (h : LineEnds plain text) : LineEnds (c :: plain) (c :: text)
  | lf {plain text : List Char} (h : LineEnds plain text) :
      LineEnds ('\n' :: plain) ('\n' :: text)
  | crlf {plain text : List Char} (h : LineEnds plain text) :
      LineEnds ('\n' :: plain) ('\r' :: '\n' :: text)

/-- The text of a file that holds a document, with or without a byte order mark. -/
def Writes (text : String) (d : Document) : Prop :=
  ∃ body, LineEnds d.chars body ∧ (text.toList = body ∨ text.toList = '\uFEFF' :: body)

end Moonfort.Junit
