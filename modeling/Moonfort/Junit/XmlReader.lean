import Moonfort.MoonBit.Json
import Moonfort.MoonBit.Text
import Moonfort.Stateful

/-!
# The XML reader

The bounded XML reader of the JUnit reports. It looks at its text by position. It never
looks outside the text, and each of its loops ends.
-/

namespace Moonfort.Junit

open MoonBit Stateful

/-- How the reader fails. -/
inductive XmlFault where
  /-- `fail(message)`. -/
  | refused (message : String)
  /-- A position outside the text. -/
  | outOfBounds
  /-- A loop that has not ended after its rounds. -/
  | unfinished
  deriving DecidableEq

/-- `XmlElement`. -/
structure XmlElement where
  name : String
  attrs : List (String × String)
  children : List XmlElement
  text : String
  line : ℕ

/-- `XmlReader`. -/
structure XmlReader where
  chars : List Char
  position : ℕ
  line : ℕ
  nodes : ℕ

/-- A program of the reader. -/
abbrev XmlRead : Type → Type := StateT XmlReader (Except XmlFault)

/-- `xml_space`. -/
def xmlSpace (ch : Char) : Bool := ch == ' ' || ch == '\t' || ch == '\n' || ch == '\r'

/-- `xml_character`. -/
def xmlCharacter (code : ℕ) : Bool :=
  code == 9 || code == 10 || code == 13 || (decide (0x20 ≤ code) && decide (code ≤ 0xD7FF)) ||
    (decide (0xE000 ≤ code) && decide (code ≤ 0xFFFD)) ||
    (decide (0x10000 ≤ code) && decide (code ≤ 0x10FFFF))

namespace XmlReader

variable {α : Type}

/-- `fail(message)`. -/
def fail (message : String) : XmlRead α := throw (.refused message)

/-- `fail` of a message that ends in the line. -/
def failAt (message : String) : XmlRead α := do
  let r ← get
  fail (message ++ intText r.line)

/-- The loop of `starts`, which looks at `self.chars[self.position + index]`. -/
def startsFrom : (index : ℕ) → List Char → XmlRead Bool
  | _, [] => pure true
  | index, ch :: wanted => do
    let r ← get
    match r.chars[r.position + index]? with
    | none => throw .outOfBounds
    | some found => if found = ch then startsFrom (index + 1) wanted else pure false

/-- `starts`. -/
def starts (value : String) : XmlRead Bool := do
  let r ← get
  if r.chars.length < r.position + value.toList.length then pure false
  else startsFrom 0 value.toList

/-- The reader behind one more character. -/
def next (r : XmlReader) (ch : Char) : XmlReader :=
  { r with position := r.position + 1, line := if ch = '\n' then r.line + 1 else r.line }

/-- `take`. -/
def take : XmlRead Char := do
  let r ← get
  match r.chars[r.position]? with
  | none => failAt "unexpected end of XML at line "
  | some ch => do
    set (r.next ch)
    pure ch

/-- The loop of `expect`. -/
def takeEach : List Char → XmlRead Unit
  | [] => pure ()
  | _ :: rest => do
    let _ ← take
    takeEach rest

/-- `expect`. -/
def expect (value : String) : XmlRead Unit := do
  if ← starts value then takeEach value.toList
  else failAt ("expected " ++ value ++ " at XML line ")

/-- Rounds enough for a loop that takes a character in each of them. -/
def rounds (r : XmlReader) : ℕ := r.chars.length + 1

/-- The loop of `spaces`. -/
def spacesLoop : (rounds : ℕ) → XmlRead Unit
  | 0 => throw .unfinished
  | rounds + 1 => do
    let r ← get
    match r.chars[r.position]? with
    | none => pure ()
    | some ch =>
      if xmlSpace ch then do
        set (r.next ch)
        spacesLoop rounds
      else pure ()

/-- `spaces`. -/
def spaces : XmlRead Bool := do
  let before ← get
  spacesLoop before.rounds
  let r ← get
  pure (before.position != r.position)

/-- A character that a name may start with. -/
def nameLetter (ch : Char) : Bool :=
  (decide ('a' ≤ ch) && decide (ch ≤ 'z')) || (decide ('A' ≤ ch) && decide (ch ≤ 'Z')) || ch == '_'

/-- The other characters of a name. -/
def nameTail (ch : Char) : Bool :=
  (decide ('0' ≤ ch) && decide (ch ≤ '9')) || ch == '-' || ch == '.'

/-- The loop of `name`. -/
def nameLoop (start : ℕ) : (rounds : ℕ) → List Char → XmlRead (List Char)
  | 0, _ => throw .unfinished
  | rounds + 1, result => do
    let r ← get
    match r.chars[r.position]? with
    | none => pure result
    | some ch =>
      if !nameLetter ch && !(decide (start < r.position) && nameTail ch) then pure result
      else do
        let ch ← take
        nameLoop start rounds (result ++ [ch])

/-- `name`. -/
def name : XmlRead String := do
  let before ← get
  let result ← nameLoop before.position before.rounds []
  let r ← get
  if before.position < r.position then pure (String.ofList result)
  else failAt "expected an unprefixed ASCII XML name at line "

/-- The loop of `entity` up to its semicolon. -/
def entityLoop (start : ℕ) : (rounds : ℕ) → List Char → XmlRead (List Char)
  | 0, _ => throw .unfinished
  | rounds + 1, value => do
    if ← starts ";" then pure value
    else do
      let r ← get
      if 12 ≤ r.position - start then failAt "unsupported XML entity at line "
      else do
        let ch ← take
        entityLoop start rounds (value ++ [ch])

/-- The value of a digit of a character reference. -/
def digitValue (base : ℕ) (ch : Char) : Option ℕ :=
  if '0' ≤ ch ∧ ch ≤ '9' then some (ch.toNat - 48)
  else if base = 16 ∧ 'a' ≤ ch ∧ ch ≤ 'f' then some (ch.toNat - 87)
  else if base = 16 ∧ 'A' ≤ ch ∧ ch ≤ 'F' then some (ch.toNat - 55)
  else none

/-- The loop over the digits of a character reference. -/
def referenceCode (base : ℕ) : (code : ℕ) → List Char → XmlRead ℕ
  | code, [] => pure code
  | code, ch :: digits =>
    match digitValue base ch with
    | none => fail "invalid XML character reference"
    | some digit =>
      if 0x10FFFF < code * base + digit then fail "XML character reference is out of range"
      else referenceCode base (code * base + digit) digits

/-- The character of a numeric reference. -/
def numericReference (base : ℕ) (digits : List Char) : XmlRead Char :=
  if digits = [] then fail "empty XML character reference"
  else do
    let code ← referenceCode base 0 digits
    if xmlCharacter code then pure (Char.ofNat code)
    else fail "invalid XML character reference"

/-- The character of an entity. -/
def entityCharacter (entity : String) : XmlRead Char :=
  if entity = "amp" then pure '&'
  else if entity = "lt" then pure '<'
  else if entity = "gt" then pure '>'
  else if entity = "quot" then pure '"'
  else if entity = "apos" then pure '\''
  else if hasPrefix entity "#x" then numericReference 16 (entity.toList.drop 2)
  else if hasPrefix entity "#" then numericReference 10 (entity.toList.drop 1)
  else failAt "unknown XML entity at line "

/-- `entity`. -/
def entity : XmlRead Char := do
  expect "&"
  let r ← get
  let value ← entityLoop r.position r.rounds []
  expect ";"
  entityCharacter (String.ofList value)

/-- A character of an attribute's value: an entity, or itself with a space for blanks. -/
def attributeCharacter : XmlRead Char := do
  if ← starts "&" then entity
  else do
    let ch ← take
    if ch = '<' then fail "XML attribute contains raw <"
    else pure (if xmlSpace ch then ' ' else ch)

/-- The loop over an attribute's value, and its quote. -/
def valueLoop (quote : Char) : (rounds : ℕ) → List Char → (units : ℕ) → XmlRead (List Char)
  | 0, _, _ => throw .unfinished
  | rounds + 1, value, units => do
    let r ← get
    if r.chars[r.position]? = some quote then do
      let _ ← take
      pure value
    else do
      let ch ← attributeCharacter
      let units := units + if 65535 < ch.toNat then 2 else 1
      if 16384 < units then fail "XML attribute exceeds 16384 UTF-16 units"
      else valueLoop quote rounds (value ++ [ch]) units

/-- An attribute name may stand behind these in an XML declaration. -/
def declarationOrder (attrs : List (String × String)) (name : String) : Bool :=
  (attrs.isEmpty && name == "version") ||
    (!attrs.isEmpty && name == "encoding" && (attrs.lookup "standalone").isNone) ||
    (!attrs.isEmpty && name == "standalone")

/-- The value of an attribute, with its quotes. -/
def attributeValue : XmlRead String := do
  let quote ← take
  if quote = '\'' ∨ quote = '"' then do
    let r ← get
    let value ← valueLoop quote r.rounds [] 0
    pure (String.ofList value)
  else fail "XML attribute requires quotes"

/-- The loop of `attributes`. -/
def attributesLoop (terminator : String) :
    (rounds : ℕ) → List (String × String) → XmlRead (List (String × String))
  | 0, _ => throw .unfinished
  | rounds + 1, attrs => do
    let separated ← spaces
    if ← starts terminator then pure attrs
    else if ← starts "/>" then pure attrs
    else if !(separated && decide (attrs.length < 64)) then
      fail "XML attributes need whitespace and at most 64 entries"
    else do
      let name ← name
      if terminator == "?>" && !declarationOrder attrs name then
        fail "invalid XML declaration attribute order"
      else if name == "xmlns" || (attrs.lookup name).isSome then
        fail "XML namespaces and duplicate attributes are unsupported"
      else do
        let _ ← spaces
        expect "="
        let _ ← spaces
        let value ← attributeValue
        attributesLoop terminator rounds (attrs ++ [(name, value)])

/-- `attributes`. -/
def attributes (terminator : String) : XmlRead (List (String × String)) := do
  let r ← get
  attributesLoop terminator r.rounds []

/-- The loop of `comment`. -/
def commentLoop : (rounds : ℕ) → XmlRead Unit
  | 0 => throw .unfinished
  | rounds + 1 => do
    if ← starts "-->" then pure ()
    else if ← starts "--" then fail "invalid XML comment"
    else do
      let _ ← take
      commentLoop rounds

/-- `comment`. -/
def comment : XmlRead Unit := do
  expect "<!--"
  let r ← get
  commentLoop r.rounds
  expect "-->"

/-- The loop of `misc`. -/
def miscLoop : (rounds : ℕ) → XmlRead Unit
  | 0 => throw .unfinished
  | rounds + 1 => do
    let _ ← spaces
    if ← starts "<!--" then do
      comment
      miscLoop rounds
    else pure ()

/-- `misc`. -/
def misc : XmlRead Unit := do
  let r ← get
  miscLoop r.rounds

/-- The loop over a CDATA section. -/
def cdataLoop : (rounds : ℕ) → List Char → XmlRead (List Char)
  | 0, _ => throw .unfinished
  | rounds + 1, text => do
    if ← starts "]]>" then pure text
    else do
      let ch ← take
      cdataLoop rounds (text ++ [ch])

/-- A CDATA section behind some text. -/
def cdata (text : List Char) : XmlRead (List Char) := do
  expect "<![CDATA["
  let r ← get
  let text ← cdataLoop r.rounds text
  expect "]]>"
  pure text

/-- The rest of a close tag. -/
def closeTag (name : String) : XmlRead Unit := do
  expect "</"
  let closing ← XmlReader.name
  if closing = name then do
    let _ ← spaces
    expect ">"
  else failAt "mismatched XML close tag at line "

/-- A character of the text of an element. -/
def textCharacter : XmlRead Char := do
  if ← starts "]]>" then fail "raw ]]> outside XML CDATA"
  else take

mutual

/-- `element`. -/
def element : (rounds : ℕ) → (depth : ℕ) → XmlRead XmlElement
  | 0, _ => throw .unfinished
  | rounds + 1, depth => do
    let r ← get
    if 32 < depth ∨ 20000 ≤ r.nodes then fail "XML exceeds 32 levels or 20000 elements"
    else do
      set { r with nodes := r.nodes + 1 }
      expect "<"
      let name ← name
      let attrs ← attributes ">"
      if ← starts "/>" then do
        expect "/>"
        pure ⟨name, attrs, [], "", r.line⟩
      else do
        expect ">"
        let (children, text) ← content rounds depth name [] []
        pure ⟨name, attrs, children, String.ofList text, r.line⟩

/-- The loop of `element`. -/
def content : (rounds : ℕ) → (depth : ℕ) → (name : String) → List XmlElement → List Char →
    XmlRead (List XmlElement × List Char)
  | 0, _, _, _, _ => throw .unfinished
  | rounds + 1, depth, name, children, text => do
    if ← starts "</" then do
      closeTag name
      pure (children, text)
    else if ← starts "<!--" then do
      comment
      content rounds depth name children text
    else if ← starts "<![CDATA[" then do
      let text ← cdata text
      content rounds depth name children text
    else if ← starts "<" then do
      let child ← element rounds (depth + 1)
      content rounds depth name (children ++ [child]) text
    else if ← starts "&" then do
      let ch ← entity
      content rounds depth name children (text ++ [ch])
    else do
      let ch ← textCharacter
      content rounds depth name children (text ++ [ch])

end

/-- The attributes that an XML declaration may have. -/
def declarationAccepted (attrs : List (String × String)) : Bool :=
  attrs.lookup "version" == some "1.0" &&
    attrs.all fun pair => pair.1 == "version" ||
      (pair.1 == "encoding" && (pair.2 == "UTF-8" || pair.2 == "utf-8")) ||
      (pair.1 == "standalone" && (pair.2 == "yes" || pair.2 == "no"))

/-- The XML declaration, if there is one. -/
def declaration : XmlRead Unit := do
  if ← starts "<?xml" then do
    expect "<?xml"
    let attrs ← attributes "?>"
    if declarationAccepted attrs then expect "?>"
    else fail "XML declaration requires version 1.0 and optional UTF-8 encoding"
  else pure ()

/-- What `parse_xml` reads. -/
def document : XmlRead XmlElement := do
  declaration
  misc
  let before ← get
  let root ← element (2 * before.rounds) 1
  misc
  let r ← get
  if r.position = r.chars.length then pure root else fail "trailing XML content"

end XmlReader

/-- `replace_all(old="\r\n", new="\n")`. -/
def replaceCrlf : List Char → List Char
  | '\r' :: '\n' :: rest => '\n' :: replaceCrlf rest
  | ch :: rest => ch :: replaceCrlf rest
  | [] => []

/-- `strip_prefix("\u{feff}")`, or the text itself. -/
def stripMark : List Char → List Char
  | ch :: rest => if ch = '\uFEFF' then rest else ch :: rest
  | [] => []

/-- The text that the reader gets. -/
def normalized (text : List Char) : List Char :=
  (replaceCrlf (stripMark text)).map fun ch => if ch = '\r' then '\n' else ch

/-- `parse_xml`. -/
def parseXml (text : String) : Except XmlFault XmlElement :=
  if 1048576 < utf8Length text then .error (.refused "JUnit XML exceeds 1 MiB")
  else if '\r' ∈ replaceCrlf text.toList then
    .error (.refused "JUnit XML requires LF or CRLF lines for source drillback")
  else if (normalized text.toList).all (fun ch => xmlCharacter ch.toNat) then
    XmlReader.document.run' ⟨normalized text.toList, 0, 1, 0⟩
  else .error (.refused "invalid XML character")

end Moonfort.Junit
