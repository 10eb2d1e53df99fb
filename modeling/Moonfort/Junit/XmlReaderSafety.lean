import Moonfort.Junit.XmlReader

/-!
# The reader stays inside its text

Whatever the text, the reader looks at positions inside it only, and every loop ends in its
rounds: the only faults are refusals.
-/

namespace Moonfort.Junit

open MoonBit Stateful

/-- A fault that the reader raises itself. -/
def XmlFault.IsRefusal : XmlFault → Prop
  | .refused _ => True
  | .outOfBounds | .unfinished => False

namespace XmlReader

/-- The characters that are not read yet. -/
def remaining (r : XmlReader) : ℕ := r.chars.length - r.position

/-- The second reader has read at least `n` characters more, and no more than there are. -/
structure After (n : ℕ) (r r' : XmlReader) : Prop where
  chars : r'.chars = r.chars
  position : r.position + n ≤ r'.position
  inside : r'.position ≤ r.chars.length

namespace After

variable {n m : ℕ} {r r' r'' : XmlReader}

/-- Staying in place passes over no character. -/
theorem refl (h : r.position ≤ r.chars.length) : After 0 r r := ⟨rfl, le_refl _, h⟩

/-- Passes made one after the other add up. -/
theorem trans (h : After n r r') (h' : After m r' r'') : After (n + m) r r'' := by
  have hposition := h.position
  have hposition' := h'.position
  have hinside := h'.inside
  rw [h.chars] at hinside
  exact ⟨h'.chars.trans h.chars, by omega, hinside⟩

/-- What passes over `n` characters passes over fewer. -/
theorem mono (h : After n r r') (hle : m ≤ n) : After m r r' :=
  ⟨h.chars, by have := h.position; omega, h.inside⟩

/-- The reader stays inside the text. -/
theorem inside' (h : After n r r') : r'.position ≤ r'.chars.length := by
  rw [h.chars]
  exact h.inside

/-- The characters passed over are gone from what remains. -/
theorem remaining_add_le (h : After n r r') : r'.remaining + n ≤ r.remaining := by
  have hposition := h.position
  have hinside := h.inside
  rw [remaining, remaining, h.chars]
  omega

end After

/-- A program reads at least `n` characters inside the text, or it refuses the text. -/
def Reads {α : Type} (n : ℕ) (x : XmlRead α) (r : XmlReader) : Prop :=
  Meets x r (fun _ r' => After n r r') XmlFault.IsRefusal

section Rules

variable {α β : Type} {n m : ℕ} {r : XmlReader}

/-- A value read without looking at the text leaves the reader where it stands. -/
theorem reads_pure (value : α) (hr : r.position ≤ r.chars.length) :
    Reads 0 (pure value : XmlRead α) r := meets_pure (.refl hr)

/-- A refusal with a message is a safe outcome. -/
theorem reads_fail (message : String) : Reads n (fail message : XmlRead α) r := meets_throw trivial

/-- A refusal that names its line is a safe outcome. -/
theorem reads_failAt (message : String) : Reads n (failAt message : XmlRead α) r :=
  meets_get_bind (reads_fail _)

/-- A read that passes over `n` characters passes over fewer. -/
theorem Reads.mono {x : XmlRead α} (h : Reads n x r) (hle : m ≤ n) : Reads m x r :=
  Meets.mono h fun _ _ hafter => hafter.mono hle

/-- Reads made one after the other add up. -/
theorem Reads.bind {x : XmlRead α} {f : α → XmlRead β} (hx : Reads n x r)
    (hf : ∀ value r', After n r r' → Reads m (f value) r') : Reads (n + m) (x >>= f) r :=
  Meets.bind hx fun value r' hafter =>
    Meets.mono (hf value r' hafter) fun _ _ hnext => hafter.trans hnext

/-- What is behind a program that need not read anything. -/
theorem Reads.andThen {x : XmlRead α} {f : α → XmlRead β} (hx : Reads 0 x r)
    (hf : ∀ value r', After 0 r r' → Reads m (f value) r') : Reads m (x >>= f) r :=
  (hx.bind hf).mono (Nat.zero_add m).ge

/-- Looking at the reader's own state does not move it. -/
theorem reads_get_bind {f : XmlReader → XmlRead β} (h : Reads n (f r) r) :
    Reads n (get >>= f) r := meets_get_bind h

/-- A round of a loop that reads a character at least. -/
theorem Reads.round {x : XmlRead α} {f : α → XmlRead β} {rounds : ℕ} (hx : Reads 1 x r)
    (h : r.remaining < rounds + 1)
    (hf : ∀ value r', r'.position ≤ r'.chars.length → r'.remaining < rounds →
      Reads 0 (f value) r') : Reads 0 (x >>= f) r := by
  have hboth := hx.bind fun value r' hafter => by
    have hless := hafter.remaining_add_le
    exact hf value r' hafter.inside' (by omega)
  exact hboth.mono (Nat.zero_le _)

/-- A choice is safe when both its branches are. -/
theorem reads_ite {p : Prop} [Decidable p] {x y : XmlRead α} (hx : p → Reads n x r)
    (hy : ¬p → Reads n y r) : Reads n (if p then x else y) r := by
  split
  next h => exact hx h
  next h => exact hy h

end Rules

section Steps

variable {r : XmlReader}

/-- Stepping over the next character passes over one. -/
theorem after_next {ch : Char} (h : r.chars[r.position]? = some ch) : After 1 r (r.next ch) := by
  obtain ⟨hlt, -⟩ := List.getElem?_eq_some_iff.mp h
  exact ⟨rfl, le_refl _, hlt⟩

/-- `take` passes over one character, or refuses at the end of the text. -/
theorem reads_take (_ : r.position ≤ r.chars.length) : Reads 1 take r := by
  apply reads_get_bind
  split
  next => exact reads_failAt _
  next ch hch => exact meets_set_bind (meets_pure (after_next hch))

/-- Comparing ahead inside the text does not move the reader. -/
theorem reads_startsFrom {wanted : List Char} {index : ℕ}
    (h : r.position + index + wanted.length ≤ r.chars.length) :
    Reads 0 (startsFrom index wanted) r := by
  induction wanted generalizing index with
  | nil => exact reads_pure true (by rw [List.length_nil] at h; omega)
  | cons ch wanted ih =>
    rw [List.length_cons] at h
    apply reads_get_bind
    have hlt : r.position + index < r.chars.length := by omega
    rw [List.getElem?_eq_getElem hlt]
    apply reads_ite
    · intro _
      exact ih (by omega)
    · intro _
      exact reads_pure false (by omega)

/-- `starts` does not move the reader. -/
theorem reads_starts (value : String) (hr : r.position ≤ r.chars.length) :
    Reads 0 (starts value) r := by
  apply reads_get_bind
  apply reads_ite
  · intro _
    exact reads_pure false hr
  · intro h
    exact reads_startsFrom (by omega)

/-- `takeEach` passes over one character for each it is given. -/
theorem reads_takeEach (value : List Char) (hr : r.position ≤ r.chars.length) :
    Reads value.length (takeEach value) r := by
  induction value generalizing r with
  | nil => exact reads_pure () hr
  | cons ch value ih =>
    have hboth := (reads_take hr).bind fun _ r' hafter => ih hafter.inside'
    exact hboth.mono (by rw [List.length_cons, Nat.add_comm])

/-- `expect` passes over the text it names. -/
theorem reads_expect (value : String) (hr : r.position ≤ r.chars.length) :
    Reads value.toList.length (expect value) r := by
  apply (reads_starts value hr).andThen
  intro starts r' hafter
  apply reads_ite
  · intro _
    exact reads_takeEach _ hafter.inside'
  · intro _
    exact reads_failAt _

/-- A branch on what comes next. -/
theorem reads_branch {α : Type} {n : ℕ} {value : String} {x y : XmlRead α}
    (hr : r.position ≤ r.chars.length) (hx : ∀ r', After 0 r r' → Reads n x r')
    (hy : ∀ r', After 0 r r' → Reads n y r') :
    Reads n (do if ← starts value then x else y) r := by
  apply (reads_starts value hr).andThen
  intro starts r' hafter
  apply reads_ite
  · intro _
    exact hx r' hafter
  · intro _
    exact hy r' hafter

end Steps

/-! ## The loops -/

section Loops

variable {rounds : ℕ} {r : XmlReader}

/-- The rounds of a loop outnumber the characters that remain. -/
theorem remaining_lt_rounds (r : XmlReader) : r.remaining < r.rounds :=
  Nat.lt_succ_of_le (Nat.sub_le _ _)

/-- The loop over blanks ends inside the text; one character is spent in each round. -/
theorem reads_spacesLoop (hr : r.position ≤ r.chars.length) (h : r.remaining < rounds) :
    Reads 0 (spacesLoop rounds) r := by
  induction rounds generalizing r with
  | zero => exact absurd h (Nat.not_lt_zero _)
  | succ rounds ih =>
    apply reads_get_bind
    split
    next => exact reads_pure () hr
    next ch hch =>
      have hafter := after_next hch
      have hless := hafter.remaining_add_le
      apply reads_ite
      · intro _
        have hrest : Reads 0 (spacesLoop rounds) (r.next ch) := ih hafter.inside' (by omega)
        exact meets_set_bind (Meets.mono hrest fun _ _ h' => (hafter.trans h').mono (Nat.zero_le _))
      · intro _
        exact reads_pure () hr

/-- `spaces` ends inside the text. -/
theorem reads_spaces (hr : r.position ≤ r.chars.length) : Reads 0 spaces r := by
  apply reads_get_bind
  apply (reads_spacesLoop hr (remaining_lt_rounds r)).andThen
  intro _ r' hafter
  apply reads_get_bind
  exact reads_pure _ hafter.inside'

/-- The loop over a name's characters ends inside the text. -/
theorem reads_nameLoop {start : ℕ} {result : List Char} (hr : r.position ≤ r.chars.length)
    (h : r.remaining < rounds) : Reads 0 (nameLoop start rounds result) r := by
  induction rounds generalizing r result with
  | zero => exact absurd h (Nat.not_lt_zero _)
  | succ rounds ih =>
    apply reads_get_bind
    split
    next => exact reads_pure _ hr
    next ch hch =>
      apply reads_ite
      · intro _
        exact reads_pure _ hr
      · intro _
        exact (reads_take hr).round h fun _ _ hr' hless => ih hr' hless

/-- `name` ends inside the text. -/
theorem reads_name (hr : r.position ≤ r.chars.length) : Reads 0 name r := by
  apply reads_get_bind
  apply (reads_nameLoop hr (remaining_lt_rounds r)).andThen
  intro result r' hafter
  apply reads_get_bind
  apply reads_ite
  · intro _
    exact reads_pure _ hafter.inside'
  · intro _
    exact reads_failAt _

/-- The loop over an entity's characters ends inside the text. -/
theorem reads_entityLoop {start : ℕ} {value : List Char} (hr : r.position ≤ r.chars.length)
    (h : r.remaining < rounds) : Reads 0 (entityLoop start rounds value) r := by
  induction rounds generalizing r value with
  | zero => exact absurd h (Nat.not_lt_zero _)
  | succ rounds ih =>
    apply reads_branch hr
    · intro r' hafter
      exact reads_pure _ hafter.inside'
    · intro r' hafter
      have hless := hafter.remaining_add_le
      apply reads_get_bind
      apply reads_ite
      · intro _
        exact reads_failAt _
      · intro _
        exact (reads_take hafter.inside').round (by omega) fun _ _ hr' hless => ih hr' hless

/-- Folding the digits of a reference does not move the reader. -/
theorem reads_referenceCode {base code : ℕ} {digits : List Char}
    (hr : r.position ≤ r.chars.length) : Reads 0 (referenceCode base code digits) r := by
  induction digits generalizing code with
  | nil => exact reads_pure code hr
  | cons ch digits ih =>
    rw [referenceCode]
    split
    next => exact reads_fail _
    next digit =>
      apply reads_ite
      · intro _
        exact reads_fail _
      · intro _
        exact ih

/-- Turning a numeric reference into its character does not move the reader. -/
theorem reads_numericReference {base : ℕ} {digits : List Char}
    (hr : r.position ≤ r.chars.length) : Reads 0 (numericReference base digits) r := by
  apply reads_ite
  · intro _
    exact reads_fail _
  · intro _
    apply (reads_referenceCode hr).andThen
    intro code r' hafter
    apply reads_ite
    · intro _
      exact reads_pure _ hafter.inside'
    · intro _
      exact reads_fail _

/-- Looking an entity up does not move the reader. -/
theorem reads_entityCharacter (entity : String) (hr : r.position ≤ r.chars.length) :
    Reads 0 (entityCharacter entity) r := by
  unfold entityCharacter
  split_ifs
  all_goals first
    | exact reads_pure _ hr
    | exact reads_numericReference hr
    | exact reads_failAt _

/-- `entity` passes over at least its ampersand. -/
theorem reads_entity (hr : r.position ≤ r.chars.length) : Reads 1 entity r := by
  apply (reads_expect "&" hr).bind (m := 0)
  intro _ r' hafter
  apply reads_get_bind
  apply (reads_entityLoop hafter.inside' (remaining_lt_rounds r')).andThen
  intro value r'' hafter'
  have hboth := (reads_expect ";" hafter'.inside').bind fun _ r3 hafter3 =>
    reads_entityCharacter (String.ofList value) hafter3.inside'
  exact hboth.mono (Nat.zero_le _)

/-- Each character of an attribute's value passes over at least one of the text. -/
theorem reads_attributeCharacter (hr : r.position ≤ r.chars.length) :
    Reads 1 attributeCharacter r := by
  apply reads_branch hr
  · intro r' hafter
    exact reads_entity hafter.inside'
  · intro r' hafter
    apply (reads_take hafter.inside').bind (m := 0)
    intro ch r'' hafter'
    apply reads_ite
    · intro _
      exact reads_fail _
    · intro _
      exact reads_pure _ hafter'.inside'

/-- The loop over an attribute's value ends inside the text. -/
theorem reads_valueLoop {quote : Char} {value : List Char} {units : ℕ}
    (hr : r.position ≤ r.chars.length) (h : r.remaining < rounds) :
    Reads 0 (valueLoop quote rounds value units) r := by
  induction rounds generalizing r value units with
  | zero => exact absurd h (Nat.not_lt_zero _)
  | succ rounds ih =>
    apply reads_get_bind
    apply reads_ite
    · intro _
      exact ((reads_take hr).bind fun _ _ hafter => reads_pure value hafter.inside').mono
        (Nat.zero_le _)
    · intro _
      apply (reads_attributeCharacter hr).round h
      intro ch r' hr' hless
      apply reads_ite
      · intro _
        exact reads_fail _
      · intro _
        exact ih hr' hless

/-- `attributeValue` ends inside the text. -/
theorem reads_attributeValue (hr : r.position ≤ r.chars.length) : Reads 0 attributeValue r := by
  apply ((reads_take hr).mono (Nat.zero_le 1)).andThen
  intro quote r' hafter
  apply reads_ite
  · intro _
    apply reads_get_bind
    apply (reads_valueLoop hafter.inside' (remaining_lt_rounds r')).andThen
    intro value r'' hafter'
    exact reads_pure _ hafter'.inside'
  · intro _
    exact reads_fail _

/-- The loop over a tag's attributes ends inside the text. -/
theorem reads_attributesLoop {terminator : String} {attrs : List (String × String)}
    (hr : r.position ≤ r.chars.length) (h : r.remaining < rounds) :
    Reads 0 (attributesLoop terminator rounds attrs) r := by
  induction rounds generalizing r attrs with
  | zero => exact absurd h (Nat.not_lt_zero _)
  | succ rounds ih =>
    apply (reads_spaces hr).andThen
    intro separated r1 h1
    apply reads_branch h1.inside'
    · intro r2 h2
      exact reads_pure _ h2.inside'
    · intro r2 h2
      apply reads_branch h2.inside'
      · intro r3 h3
        exact reads_pure _ h3.inside'
      · intro r3 h3
        apply reads_ite
        · intro _
          exact reads_fail _
        · intro _
          apply (reads_name h3.inside').andThen
          intro name r4 h4
          apply reads_ite
          · intro _
            exact reads_fail _
          · intro _
            apply reads_ite
            · intro _
              exact reads_fail _
            · intro _
              apply (reads_spaces h4.inside').andThen
              intro _ r5 h5
              have hless := ((((h1.trans h2).trans h3).trans h4).trans h5).remaining_add_le
              have hlt : r5.remaining < rounds + 1 := by omega
              apply (reads_expect "=" h5.inside').round hlt
              intro _ r6 h6 hless'
              apply (reads_spaces h6).andThen
              intro _ r7 h7
              apply (reads_attributeValue h7.inside').andThen
              intro value r8 h8
              have hless8 := (h7.trans h8).remaining_add_le
              exact ih h8.inside' (by omega)

/-- `attributes` ends inside the text. -/
theorem reads_attributes (terminator : String) (hr : r.position ≤ r.chars.length) :
    Reads 0 (attributes terminator) r := by
  apply reads_get_bind
  exact reads_attributesLoop hr (remaining_lt_rounds r)

/-- The loop over a comment ends inside the text. -/
theorem reads_commentLoop (hr : r.position ≤ r.chars.length) (h : r.remaining < rounds) :
    Reads 0 (commentLoop rounds) r := by
  induction rounds generalizing r with
  | zero => exact absurd h (Nat.not_lt_zero _)
  | succ rounds ih =>
    apply reads_branch hr
    · intro r1 h1
      exact reads_pure _ h1.inside'
    · intro r1 h1
      apply reads_branch h1.inside'
      · intro r2 h2
        exact reads_fail _
      · intro r2 h2
        have hless := (h1.trans h2).remaining_add_le
        exact (reads_take h2.inside').round (by omega) fun _ _ hr' hless => ih hr' hless

/-- `comment` passes over at least its opening. -/
theorem reads_comment (hr : r.position ≤ r.chars.length) : Reads 1 comment r := by
  have hopen := (reads_expect "<!--" hr).mono (by decide : 1 ≤ _)
  apply hopen.bind (m := 0)
  intro _ r1 h1
  apply reads_get_bind
  apply (reads_commentLoop h1.inside' (remaining_lt_rounds r1)).andThen
  intro _ r2 h2
  exact (reads_expect "-->" h2.inside').mono (Nat.zero_le _)

/-- The loop over comments and blanks ends inside the text. -/
theorem reads_miscLoop (hr : r.position ≤ r.chars.length) (h : r.remaining < rounds) :
    Reads 0 (miscLoop rounds) r := by
  induction rounds generalizing r with
  | zero => exact absurd h (Nat.not_lt_zero _)
  | succ rounds ih =>
    apply (reads_spaces hr).andThen
    intro _ r1 h1
    apply reads_branch h1.inside'
    · intro r2 h2
      have hless := (h1.trans h2).remaining_add_le
      exact (reads_comment h2.inside').round (by omega) fun _ _ hr' hless => ih hr' hless
    · intro r2 h2
      exact reads_pure _ h2.inside'

/-- `misc` ends inside the text. -/
theorem reads_misc (hr : r.position ≤ r.chars.length) : Reads 0 misc r := by
  apply reads_get_bind
  exact reads_miscLoop hr (remaining_lt_rounds r)

/-- The loop over a CDATA section ends inside the text. -/
theorem reads_cdataLoop {text : List Char} (hr : r.position ≤ r.chars.length)
    (h : r.remaining < rounds) : Reads 0 (cdataLoop rounds text) r := by
  induction rounds generalizing r text with
  | zero => exact absurd h (Nat.not_lt_zero _)
  | succ rounds ih =>
    apply reads_branch hr
    · intro r1 h1
      exact reads_pure _ h1.inside'
    · intro r1 h1
      have hless := h1.remaining_add_le
      exact (reads_take h1.inside').round (by omega) fun _ _ hr' hless => ih hr' hless

/-- `cdata` passes over at least its opening. -/
theorem reads_cdata (text : List Char) (hr : r.position ≤ r.chars.length) :
    Reads 1 (cdata text) r := by
  have hopen := (reads_expect "<![CDATA[" hr).mono (by decide : 1 ≤ _)
  apply hopen.bind (m := 0)
  intro _ r1 h1
  apply reads_get_bind
  apply (reads_cdataLoop h1.inside' (remaining_lt_rounds r1)).andThen
  intro value r2 h2
  have hclose := (reads_expect "]]>" h2.inside').mono (Nat.zero_le _)
  apply hclose.andThen
  intro _ r3 h3
  exact reads_pure _ h3.inside'

/-- `closeTag` ends inside the text. -/
theorem reads_closeTag (name : String) (hr : r.position ≤ r.chars.length) :
    Reads 0 (closeTag name) r := by
  have hopen := (reads_expect "</" hr).mono (Nat.zero_le _)
  apply hopen.andThen
  intro _ r1 h1
  apply (reads_name h1.inside').andThen
  intro closing r2 h2
  apply reads_ite
  · intro _
    apply (reads_spaces h2.inside').andThen
    intro _ r3 h3
    exact (reads_expect ">" h3.inside').mono (Nat.zero_le _)
  · intro _
    exact reads_failAt _

/-- Each character of a text passes over at least one of the source. -/
theorem reads_textCharacter (hr : r.position ≤ r.chars.length) : Reads 1 textCharacter r := by
  apply reads_branch hr
  · intro r1 h1
    exact reads_fail _
  · intro r1 h1
    exact reads_take h1.inside'

/-- An element of one more round ends inside the text, if the content of a round less does. -/
theorem reads_element_succ {rounds : ℕ}
    (hcontent : ∀ (depth : ℕ) (name : String) (children : List XmlElement) (text : List Char)
      (r : XmlReader), r.position ≤ r.chars.length → 2 * r.remaining + 1 < rounds →
        Reads 0 (content rounds depth name children text) r)
    (depth : ℕ) (r : XmlReader) (hr : r.position ≤ r.chars.length)
    (h : 2 * r.remaining < rounds + 1) : Reads 1 (element (rounds + 1) depth) r := by
  rw [element]
  apply reads_get_bind
  apply reads_ite
  · intro _
    exact reads_fail _
  · intro _
    have hopen : Reads 1 (expect "<") { r with nodes := r.nodes + 1 } := reads_expect "<" hr
    refine meets_set_bind (Meets.mono (?_ : Reads 1 _ { r with nodes := r.nodes + 1 })
      fun _ _ h' => ⟨h'.chars, h'.position, h'.inside⟩)
    apply hopen.bind (m := 0)
    intro _ r1 h1
    apply (reads_name h1.inside').andThen
    intro name r2 h2
    apply (reads_attributes ">" h2.inside').andThen
    intro attrs r3 h3
    apply reads_branch h3.inside'
    · intro r4 h4
      apply ((reads_expect "/>" h4.inside').mono (Nat.zero_le _)).andThen
      intro _ r5 h5
      exact reads_pure _ h5.inside'
    · intro r4 h4
      apply ((reads_expect ">" h4.inside').mono (Nat.zero_le _)).andThen
      intro _ r5 h5
      have hless := ((((h1.trans h2).trans h3).trans h4).trans h5).remaining_add_le
      have hsame : XmlReader.remaining { r with nodes := r.nodes + 1 } = r.remaining := rfl
      apply (hcontent depth name [] [] r5 h5.inside' (by omega)).andThen
      intro found r6 h6
      exact reads_pure _ h6.inside'

/-- A content of one more round ends inside the text, if the elements and the content of a round
less do. -/
theorem reads_content_succ {rounds : ℕ}
    (helement : ∀ (depth : ℕ) (r : XmlReader), r.position ≤ r.chars.length →
      2 * r.remaining < rounds → Reads 1 (element rounds depth) r)
    (hcontent : ∀ (depth : ℕ) (name : String) (children : List XmlElement) (text : List Char)
      (r : XmlReader), r.position ≤ r.chars.length → 2 * r.remaining + 1 < rounds →
        Reads 0 (content rounds depth name children text) r)
    (depth : ℕ) (name : String) (children : List XmlElement) (text : List Char) (r : XmlReader)
    (hr : r.position ≤ r.chars.length) (h : 2 * r.remaining + 1 < rounds + 1) :
    Reads 0 (content (rounds + 1) depth name children text) r := by
  have hround {α : Type} {x : XmlRead α} {f : α → XmlRead (List XmlElement × List Char)}
      {r' : XmlReader} (hafter : After 0 r r') (hx : Reads 1 x r')
      (hf : ∀ value, ∃ children text, f value = content rounds depth name children text) :
      Reads 0 (x >>= f) r' := by
    refine hx.round (Nat.lt_succ_self r'.remaining) fun value r'' hr'' hless => ?_
    obtain ⟨children', text', hnext⟩ := hf value
    have hbefore := hafter.remaining_add_le
    rw [hnext]
    exact hcontent depth name children' text' r'' hr'' (by omega)
  rw [content]
  apply reads_branch hr
  · intro r1 h1
    apply (reads_closeTag name h1.inside').andThen
    intro _ r2 h2
    exact reads_pure _ h2.inside'
  · intro r1 h1
    apply reads_branch h1.inside'
    · intro r2 h2
      exact hround (h1.trans h2) (reads_comment h2.inside') fun _ => ⟨children, text, rfl⟩
    · intro r2 h2
      have h02 := h1.trans h2
      apply reads_branch h2.inside'
      · intro r3 h3
        exact hround (h02.trans h3) (reads_cdata text h3.inside') fun text =>
          ⟨children, text, rfl⟩
      · intro r3 h3
        have h03 := h02.trans h3
        apply reads_branch h3.inside'
        · intro r4 h4
          have h04 := h03.trans h4
          have hless := h04.remaining_add_le
          exact hround h04 (helement (depth + 1) r4 h4.inside' (by omega)) fun child =>
            ⟨children ++ [child], text, rfl⟩
        · intro r4 h4
          have h04 := h03.trans h4
          apply reads_branch h4.inside'
          · intro r5 h5
            exact hround (h04.trans h5) (reads_entity h5.inside') fun ch =>
              ⟨children, text ++ [ch], rfl⟩
          · intro r5 h5
            exact hround (h04.trans h5) (reads_textCharacter h5.inside') fun ch =>
              ⟨children, text ++ [ch], rfl⟩

/-- An element and the loop over its content, with enough rounds for what is left. -/
theorem reads_element_content (rounds : ℕ) :
    (∀ (depth : ℕ) (r : XmlReader), r.position ≤ r.chars.length → 2 * r.remaining < rounds →
      Reads 1 (element rounds depth) r) ∧
    ∀ (depth : ℕ) (name : String) (children : List XmlElement) (text : List Char) (r : XmlReader),
      r.position ≤ r.chars.length → 2 * r.remaining + 1 < rounds →
      Reads 0 (content rounds depth name children text) r := by
  induction rounds with
  | zero =>
    exact ⟨fun _ _ _ h => absurd h (Nat.not_lt_zero _),
      fun _ _ _ _ _ _ h => absurd h (Nat.not_lt_zero _)⟩
  | succ rounds ih => exact ⟨reads_element_succ ih.2, reads_content_succ ih.1 ih.2⟩

/-- `declaration` ends inside the text. -/
theorem reads_declaration (hr : r.position ≤ r.chars.length) : Reads 0 declaration r := by
  apply reads_branch hr
  · intro r1 h1
    apply ((reads_expect "<?xml" h1.inside').mono (Nat.zero_le _)).andThen
    intro _ r2 h2
    apply (reads_attributes "?>" h2.inside').andThen
    intro attrs r3 h3
    apply reads_ite
    · intro _
      exact (reads_expect "?>" h3.inside').mono (Nat.zero_le _)
    · intro _
      exact reads_fail _
  · intro r1 h1
    exact reads_pure _ h1.inside'

/-- `document` ends inside the text, whatever the text holds. -/
theorem reads_document (hr : r.position ≤ r.chars.length) : Reads 0 document r := by
  apply (reads_declaration hr).andThen
  intro _ r1 h1
  apply (reads_misc h1.inside').andThen
  intro _ r2 h2
  apply reads_get_bind
  have hrounds := remaining_lt_rounds r2
  have hroot := (reads_element_content (2 * r2.rounds)).1 1 r2 h2.inside' (by omega)
  apply (hroot.mono (Nat.zero_le 1)).andThen
  intro root r3 h3
  apply (reads_misc h3.inside').andThen
  intro _ r4 h4
  apply reads_get_bind
  apply reads_ite
  · intro _
    exact reads_pure _ h4.inside'
  · intro _
    exact reads_fail _

end Loops

end XmlReader

/-- Every text is parsed or refused: no position outside the text is looked at, and every
loop ends. -/
theorem parseXml_refuses {text : String} {fault : XmlFault} (h : parseXml text = .error fault) :
    fault.IsRefusal := by
  unfold parseXml at h
  split_ifs at h
  · rw [← Except.error.inj h]
    trivial
  · rw [← Except.error.inj h]
    trivial
  · have hread : XmlReader.Reads 0 XmlReader.document ⟨normalized text.toList, 0, 1, 0⟩ :=
      XmlReader.reads_document (Nat.zero_le _)
    exact Meets.of_run'_eq hread h
  · rw [← Except.error.inj h]
    trivial

end Moonfort.Junit
