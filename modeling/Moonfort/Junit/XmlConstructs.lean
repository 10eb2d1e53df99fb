import Mathlib
import Moonfort.Junit.XmlReaderSafety
import Moonfort.Junit.XmlSyntax

/-!
# What the reader does with well-formed constructs

One lemma for each program of the reader: on the characters of a construct it returns what
the construct says and stops behind it.
-/

namespace Moonfort.Junit

open MoonBit Stateful

namespace XmlReader

/-- The characters that are not read yet. -/
def rest (r : XmlReader) : List Char := r.chars.drop r.position

/-- The reader behind some more characters. -/
def moved (r : XmlReader) (s : List Char) : XmlReader :=
  { r with position := r.position + s.length, line := r.line + lineEnds s }

/-- The reader with more elements counted. -/
def counted (r : XmlReader) (n : ℕ) : XmlReader := { r with nodes := r.nodes + n }

section Basic

variable {α : Type} {r r' : XmlReader} {s t : List Char} {c : Char} {value : String}

/-- Moving over nothing leaves the reader. -/
@[simp]
theorem moved_nil (r : XmlReader) : r.moved [] = r := rfl

/-- Moves made one after the other are one move. -/
@[simp]
theorem moved_moved (r : XmlReader) (s t : List Char) : (r.moved s).moved t = r.moved (s ++ t) := by
  simp only [moved, lineEnds, List.length_append, List.count_append, Nat.add_assoc]

/-- Counts made one after the other are one count. -/
@[simp]
theorem counted_counted (r : XmlReader) (n m : ℕ) :
    (r.counted n).counted m = r.counted (n + m) := by
  simp only [counted, Nat.add_assoc]

/-- Moving and counting commute. -/
@[simp]
theorem moved_counted (r : XmlReader) (s : List Char) (n : ℕ) :
    (r.counted n).moved s = (r.moved s).counted n := rfl

/-- Counting leaves what is to be read. -/
@[simp]
theorem rest_counted (r : XmlReader) (n : ℕ) : (r.counted n).rest = r.rest := rfl

/-- Counting leaves the line. -/
@[simp]
theorem line_counted (r : XmlReader) (n : ℕ) : (r.counted n).line = r.line := rfl

/-- A move adds the line ends it passes to the line. -/
@[simp]
theorem line_moved (r : XmlReader) (s : List Char) : (r.moved s).line = r.line + lineEnds s := rfl

/-- A move leaves the count of nodes. -/
@[simp]
theorem nodes_moved (r : XmlReader) (s : List Char) : (r.moved s).nodes = r.nodes := rfl

/-- A count adds to the count of nodes. -/
@[simp]
theorem nodes_counted (r : XmlReader) (n : ℕ) : (r.counted n).nodes = r.nodes + n := rfl

/-- After a move over its first part, the second part is to be read. -/
theorem rest_moved (h : r.rest = s ++ t) : (r.moved s).rest = t := by
  have hdrop : (r.moved s).rest = r.rest.drop s.length := by
    rw [rest, rest, moved, List.drop_drop]
  rw [hdrop, h, List.drop_left]

/-- The character at the position is the first of what is to be read. -/
theorem getElem?_position (r : XmlReader) : r.chars[r.position]? = r.rest.head? := by
  rw [rest, List.head?_drop]

/-- The rounds of a loop outnumber the characters to be read. -/
theorem length_rest_lt_rounds (r : XmlReader) : r.rest.length < r.rounds := by
  rw [rest, List.length_drop, rounds]
  omega

/-- A step over one character is a move. -/
theorem moved_singleton (r : XmlReader) (c : Char) : r.moved [c] = r.next c := by
  unfold moved next lineEnds
  rw [List.count_singleton]
  by_cases h : c = '\n'
  · rw [if_pos h, if_pos (beq_iff_eq.mpr h)]
    rfl
  · rw [if_neg h, if_neg (mt beq_iff_eq.mp h)]
    rfl

/-- `take` returns the next character and moves over it. -/
theorem runs_take (h : r.rest = c :: t) : Runs take r c (r.moved [c]) := by
  apply runs_get.bind
  rw [getElem?_position, h, List.head?_cons, moved_singleton]
  exact (runs_set _).bind (runs_pure c)

/-- `takeEach` moves over the characters it is given. -/
theorem runs_takeEach (h : r.rest = s ++ t) : Runs (takeEach s) r () (r.moved s) := by
  induction s generalizing r with
  | nil => exact runs_pure ()
  | cons c s ih =>
    have hrest := rest_moved (r := r) (s := [c]) h
    have hnext := ih hrest
    rw [moved_moved] at hnext
    exact (runs_take h).bind hnext

/-- Comparing ahead decides whether the text is a prefix of what is to be read. -/
theorem runs_startsFrom {wanted : List Char} {index : ℕ}
    (h : index + wanted.length ≤ r.rest.length) :
    Runs (startsFrom index wanted) r (wanted.isPrefixOf (r.rest.drop index)) r := by
  induction wanted generalizing index with
  | nil => exact runs_pure true
  | cons ch wanted ih =>
    rw [List.length_cons] at h
    apply runs_get.bind
    have hlt : index < r.rest.length := by omega
    have hfound : r.chars[r.position + index]? = some (r.rest[index]) := by
      rw [← List.getElem?_drop, ← rest, List.getElem?_eq_getElem hlt]
    rw [hfound, List.drop_eq_getElem_cons hlt, List.isPrefixOf_cons_cons]
    dsimp only
    by_cases heq : r.rest[index] = ch
    · rw [if_pos heq, heq, beq_self_eq_true, Bool.true_and]
      exact ih (by omega)
    · rw [if_neg heq, beq_eq_false_iff_ne.mpr (Ne.symm heq), Bool.false_and]
      exact runs_pure false

/-- What comes next is compared with a text. -/
theorem runs_starts (hvalue : value.toList ≠ []) (r : XmlReader) :
    Runs (starts value) r (value.toList.isPrefixOf r.rest) r := by
  apply runs_get.bind
  have hpos := List.length_pos_iff.mpr hvalue
  split
  next hlong =>
    have hnot : value.toList.isPrefixOf r.rest = false := by
      rw [Bool.eq_false_iff, ne_eq, List.isPrefixOf_iff_prefix]
      intro hprefix
      have hlength := hprefix.length_le
      rw [rest, List.length_drop] at hlength
      omega
    rw [hnot]
    exact runs_pure false
  next hfits =>
    have hwithin : 0 + value.toList.length ≤ r.rest.length := by
      rw [rest, List.length_drop]
      omega
    exact runs_startsFrom hwithin

/-- A branch that is taken. -/
theorem runs_if_starts {x y : XmlRead α} {answer : α} (hvalue : value.toList ≠ [])
    (h : r.rest = value.toList ++ t) (hx : Runs x r answer r') :
    Runs (do if ← starts value then x else y) r answer r' := by
  apply (runs_starts hvalue r).bind
  have htrue : value.toList.isPrefixOf r.rest = true := by
    rw [List.isPrefixOf_iff_prefix, h]
    exact List.prefix_append _ _
  rw [htrue, if_pos rfl]
  exact hx

/-- A branch that is not taken. -/
theorem runs_unless_starts {x y : XmlRead α} {answer : α} (hvalue : value.toList ≠ [])
    (h : ¬ value.toList <+: r.rest) (hy : Runs y r answer r') :
    Runs (do if ← starts value then x else y) r answer r' := by
  apply (runs_starts hvalue r).bind
  have hfalse : value.toList.isPrefixOf r.rest = false := by
    rw [Bool.eq_false_iff, ne_eq, List.isPrefixOf_iff_prefix]
    exact h
  rw [hfalse, if_neg Bool.false_ne_true]
  exact hy

/-- `expect` moves over the text it names. -/
theorem runs_expect (hvalue : value.toList ≠ []) (h : r.rest = value.toList ++ t) :
    Runs (expect value) r () (r.moved value.toList) :=
  runs_if_starts hvalue h (runs_takeEach h)

end Basic

/-! ## Blanks and names -/

/-- A text that does not start with such a character. -/
def Stops (p : Char → Bool) (t : List Char) : Prop := ∀ c, t.head? = some c → p c = false

/-- A list stops at once when its first character is refused. -/
theorem stops_cons {p : Char → Bool} {c : Char} {t : List Char} (h : p c = false) :
    Stops p (c :: t) := by
  rintro d ⟨⟩
  exact h

/-- The end of the text stops every class of characters. -/
theorem stops_nil (p : Char → Bool) : Stops p [] := by
  rintro d ⟨⟩

/-- The reader takes each of the grammar's blanks. -/
theorem xmlSpace_of_isBlank {c : Char} (h : IsBlank c) : xmlSpace c = true := by
  rcases h with rfl | rfl | rfl <;> rfl

/-- The reader takes each of the grammar's name starts. -/
theorem nameLetter_of_isNameStart {c : Char} (h : IsNameStart c) : nameLetter c = true := by
  unfold nameLetter
  rcases h with h | rfl
  · simp only [Char.isAlpha, Char.isUpper, Char.isLower, Bool.or_eq_true, Bool.and_eq_true,
      decide_eq_true_eq] at h
    simp only [Bool.or_eq_true, Bool.and_eq_true, decide_eq_true_eq]
    rcases h with h | h
    · exact .inl (.inr h)
    · exact .inl (.inl h)
  · rfl

/-- The reader takes each of the grammar's name characters. -/
theorem nameTail_of_isNameChar {c : Char} (h : IsNameChar c) :
    nameLetter c = true ∨ nameTail c = true := by
  unfold nameTail
  rcases h with h | rfl | rfl | rfl
  · rw [Char.isAlphanum, Bool.or_eq_true] at h
    rcases h with h | h
    · exact .inl (nameLetter_of_isNameStart (.inl h))
    · simp only [Char.isDigit, Bool.and_eq_true, decide_eq_true_eq] at h
      simp only [Bool.or_eq_true, Bool.and_eq_true, decide_eq_true_eq]
      exact .inr (.inl (.inl h))
  · exact .inl (nameLetter_of_isNameStart (.inr rfl))
  · exact .inr rfl
  · exact .inr rfl

section Words

variable {r : XmlReader} {s t : List Char} {rounds : ℕ}

/-- The loop over blanks takes a run of blanks and stops behind it. -/
theorem runs_spacesLoop (h : r.rest = s ++ t) (hs : ∀ c ∈ s, IsBlank c) (ht : Stops xmlSpace t)
    (hrounds : s.length < rounds) : Runs (spacesLoop rounds) r () (r.moved s) := by
  induction s generalizing r rounds with
  | nil =>
    obtain ⟨rounds, rfl⟩ := Nat.exists_eq_succ_of_ne_zero (Nat.ne_of_gt hrounds)
    apply runs_get.bind
    rw [getElem?_position, h, List.nil_append]
    cases hhead : t.head? with
    | none => exact runs_pure ()
    | some c =>
      dsimp only
      rw [ht c hhead, if_neg Bool.false_ne_true]
      exact runs_pure ()
  | cons c s ih =>
    obtain ⟨rounds, rfl⟩ := Nat.exists_eq_succ_of_ne_zero (Nat.ne_of_gt (Nat.zero_lt_of_lt hrounds))
    obtain ⟨hc, hs⟩ := List.forall_mem_cons.mp hs
    have hrest := rest_moved (r := r) (s := [c]) h
    have hnext := ih hrest hs (Nat.lt_of_succ_lt_succ hrounds)
    rw [moved_moved] at hnext
    apply runs_get.bind
    rw [getElem?_position, h, List.cons_append, List.head?_cons]
    dsimp only
    rw [xmlSpace_of_isBlank hc, if_pos rfl, ← moved_singleton]
    exact (runs_set _).bind hnext

/-- Blanks up to another character. -/
theorem runs_spaces (h : r.rest = s ++ t) (hs : ∀ c ∈ s, IsBlank c) (ht : Stops xmlSpace t) :
    Runs spaces r (!s.isEmpty) (r.moved s) := by
  have hlength := length_rest_lt_rounds r
  rw [h, List.length_append] at hlength
  apply runs_get.bind
  apply (runs_spacesLoop h hs ht (by omega)).bind
  apply runs_get.bind
  have hmoved : (r.position != (r.moved s).position) = !s.isEmpty := by
    cases s with
    | nil => exact bne_self_eq_false _
    | cons c s =>
      rw [bne_iff_ne.mpr]
      · rfl
      · rw [moved, List.length_cons]
        dsimp only
        omega
  rw [hmoved]
  exact runs_pure _

/-- A round of `name` that takes its character. -/
theorem runs_nameLoop_take {start : ℕ} {c : Char} {result found : List Char} {r' : XmlReader}
    (h : r.rest = c :: t) (hc : nameLetter c = true ∨ start < r.position ∧ nameTail c = true)
    (hnext : Runs (nameLoop start rounds (result ++ [c])) (r.moved [c]) found r') :
    Runs (nameLoop start (rounds + 1) result) r found r' := by
  apply runs_get.bind
  rw [getElem?_position, h, List.head?_cons]
  dsimp only
  rw [if_neg]
  · exact (runs_take h).bind hnext
  · rcases hc with hc | ⟨hstart, hc⟩
    · rw [hc, Bool.not_true, Bool.false_and]
      exact Bool.false_ne_true
    · rw [hc, decide_eq_true hstart, Bool.true_and, Bool.not_true, Bool.and_false]
      exact Bool.false_ne_true

/-- The loop over a name takes its characters and stops behind them. -/
theorem runs_nameLoop {start : ℕ} (result : List Char) (h : r.rest = s ++ t)
    (hs : ∀ c ∈ s, nameLetter c = true ∨ nameTail c = true) (hstart : start < r.position)
    (ht : Stops (fun c => nameLetter c || nameTail c) t) (hrounds : s.length < rounds) :
    Runs (nameLoop start rounds result) r (result ++ s) (r.moved s) := by
  induction s generalizing r rounds result with
  | nil =>
    obtain ⟨rounds, rfl⟩ := Nat.exists_eq_succ_of_ne_zero (Nat.ne_of_gt hrounds)
    rw [List.append_nil]
    apply runs_get.bind
    rw [getElem?_position, h, List.nil_append]
    cases hhead : t.head? with
    | none => exact runs_pure _
    | some c =>
      obtain ⟨hletter, htail⟩ := Bool.or_eq_false_iff.mp (ht c hhead)
      dsimp only
      rw [hletter, htail, Bool.and_false, Bool.not_false, Bool.and_true, if_pos rfl]
      exact runs_pure _
  | cons c s ih =>
    obtain ⟨rounds, rfl⟩ := Nat.exists_eq_succ_of_ne_zero (Nat.ne_of_gt (Nat.zero_lt_of_lt hrounds))
    obtain ⟨hc, hs⟩ := List.forall_mem_cons.mp hs
    have hnext := ih (result ++ [c]) (rest_moved (r := r) (s := [c]) h) hs
      (Nat.lt_succ_of_lt hstart) (Nat.lt_of_succ_lt_succ hrounds)
    rw [moved_moved, List.append_assoc] at hnext
    exact runs_nameLoop_take h (hc.imp_right fun htail => ⟨hstart, htail⟩) hnext

/-- A name up to a character that is not of names. -/
theorem runs_name (h : r.rest = s ++ t) (hs : IsName s)
    (ht : Stops (fun c => nameLetter c || nameTail c) t) :
    Runs name r (String.ofList s) (r.moved s) := by
  obtain ⟨c, rest, rfl, hc, hrest⟩ := hs
  have hlength := length_rest_lt_rounds r
  rw [h, List.length_append, List.length_cons] at hlength
  obtain ⟨rounds, hrounds⟩ :=
    Nat.exists_eq_succ_of_ne_zero (Nat.ne_of_gt (Nat.zero_lt_of_lt hlength))
  have hloop : Runs (nameLoop r.position (rounds + 1) []) r (c :: rest) (r.moved (c :: rest)) := by
    apply runs_nameLoop_take h (.inl (nameLetter_of_isNameStart hc))
    have hmoved : (r.moved [c]).moved rest = r.moved (c :: rest) := moved_moved r [c] rest
    rw [← hmoved]
    exact runs_nameLoop ([] ++ [c]) (rest_moved (r := r) (s := [c]) h)
      (fun d hd => nameTail_of_isNameChar (hrest d hd)) (Nat.lt_succ_self _) ht (by omega)
  apply runs_get.bind
  rw [hrounds]
  apply hloop.bind
  apply runs_get.bind
  rw [if_pos]
  · exact runs_pure _
  · exact Nat.lt_add_of_pos_right (Nat.succ_pos _)

end Words

/-! ## References -/

/-- The reader gives a digit the grammar's value. -/
theorem digitValue_of_isDigit {base value : ℕ} {c : Char} (hbase : base = 10 ∨ base = 16)
    (h : IsDigit base c value) : digitValue base c = some value := by
  obtain ⟨hlt, hget⟩ := h
  rcases hbase with rfl | rfl <;> interval_cases value <;> rcases hget with hget | hget <;>
    cases hget <;> decide

section References

variable {r : XmlReader} {s t : List Char} {rounds : ℕ}

/-- The loop over an entity takes what stands before the semicolon. -/
theorem runs_entityLoop {start : ℕ} (value : List Char) (h : r.rest = s ++ ';' :: t)
    (hs : ∀ d ∈ s, d ≠ ';') (hshort : r.position + s.length ≤ start + 12)
    (hrounds : s.length < rounds) :
    Runs (entityLoop start rounds value) r (value ++ s) (r.moved s) := by
  induction s generalizing r rounds value with
  | nil =>
    obtain ⟨rounds, rfl⟩ := Nat.exists_eq_succ_of_ne_zero (Nat.ne_of_gt hrounds)
    rw [List.append_nil]
    exact runs_if_starts (t := t) (by decide) h (runs_pure _)
  | cons c s ih =>
    obtain ⟨rounds, rfl⟩ := Nat.exists_eq_succ_of_ne_zero (Nat.ne_of_gt (Nat.zero_lt_of_lt hrounds))
    obtain ⟨hc, hs⟩ := List.forall_mem_cons.mp hs
    rw [List.length_cons] at hshort hrounds
    have hposition : (r.moved [c]).position + s.length ≤ start + 12 := by
      have hnext : (r.moved [c]).position = r.position + 1 := rfl
      omega
    have hlater : s.length < rounds := by omega
    have hnext := ih (value ++ [c]) (rest_moved (r := r) (s := [c]) h) hs hposition hlater
    rw [moved_moved, List.append_assoc] at hnext
    have hnot : ¬ ";".toList <+: r.rest := by
      rw [h]
      intro hprefix
      exact hc (List.cons_prefix_cons.mp hprefix).1.symm
    apply runs_unless_starts (by decide) hnot
    apply runs_get.bind
    rw [if_neg (by omega)]
    exact (runs_take h).bind hnext

/-- Folding the digits of a reference gives the numeral's value. -/
theorem runs_referenceCode {base n m : ℕ} (hbase : base = 10 ∨ base = 16)
    (h : Numeral base n s m) (hm : m ≤ 0x10FFFF) : Runs (referenceCode base n s) r m r := by
  have hpos : 1 ≤ base := by omega
  induction h with
  | nil => exact runs_pure _
  | cons hdigit hrest ih =>
    rw [referenceCode, digitValue_of_isDigit hbase hdigit]
    dsimp only
    rw [if_neg (Nat.not_lt.mpr ((hrest.le hpos).trans hm))]
    exact ih hm

/-- The reader takes each of the grammar's characters. -/
theorem xmlCharacter_of_isXmlChar {c : Char} (h : IsXmlChar c) : xmlCharacter c.toNat = true := by
  have hvalid : c.toNat < 0xD800 ∨ 0xDFFF < c.toNat ∧ c.toNat < 0x110000 := c.valid
  have hne {d : Char} (h : c ≠ d) : c.toNat ≠ d.toNat := mt Char.toNat_inj.mp h
  unfold xmlCharacter
  simp only [Bool.or_eq_true, Bool.and_eq_true, beq_iff_eq, decide_eq_true_eq]
  rcases h with rfl | rfl | rfl | ⟨hle, hfe, hff⟩
  · decide
  · decide
  · decide
  · have hle' : 0x20 ≤ c.toNat := hle
    have hfe' : c.toNat ≠ 0xFFFE := hne hfe
    have hff' : c.toNat ≠ 0xFFFF := hne hff
    omega

/-- A numeral in either base is turned into its character. -/
theorem runs_numericReference {base : ℕ} {c : Char} (hbase : base = 10 ∨ base = 16) (hne : s ≠ [])
    (h : Numeral base 0 s c.toNat) (hc : IsXmlChar c) :
    Runs (numericReference base s) r c r := by
  have hvalid : c.toNat < 0xD800 ∨ 0xDFFF < c.toNat ∧ c.toNat < 0x110000 := c.valid
  rw [numericReference, if_neg hne]
  apply (runs_referenceCode hbase h (by omega)).bind
  rw [if_pos (xmlCharacter_of_isXmlChar hc), Char.ofNat_toNat]
  exact runs_pure c

/-- An entity that starts with `#` is a numeric reference, with `x` for base sixteen. -/
theorem entityCharacter_number (s : List Char) :
    entityCharacter (String.ofList ('#' :: s)) =
      if "x".toList.isPrefixOf s = true then numericReference 16 (s.drop 1)
      else numericReference 10 s := by
  have hne (name : String) (hname : name.toList.head? ≠ some '#') :
      String.ofList ('#' :: s) ≠ name := by
    rintro rfl
    rw [String.toList_ofList] at hname
    exact hname rfl
  have htext : (String.ofList ('#' :: s)).toList = '#' :: s := String.toList_ofList
  have hnumber : hasPrefix (String.ofList ('#' :: s)) "#" = true := by
    rw [hasPrefix, htext]
    rfl
  have hhex : hasPrefix (String.ofList ('#' :: s)) "#x" = "x".toList.isPrefixOf s := by
    rw [hasPrefix, htext]
    rfl
  rw [entityCharacter, if_neg (hne "amp" (by decide)), if_neg (hne "lt" (by decide)),
    if_neg (hne "gt" (by decide)), if_neg (hne "quot" (by decide)), if_neg (hne "apos" (by decide)),
    hhex, hnumber, if_pos rfl, htext]
  rfl

/-- An entity is turned into the character it spells. -/
theorem runs_entityCharacter {c : Char} (h : Spells s c) (hc : IsXmlChar c) :
    Runs (entityCharacter (String.ofList s)) r c r := by
  cases h with
  | amp => exact runs_pure _
  | lt => exact runs_pure _
  | gt => exact runs_pure _
  | quot => exact runs_pure _
  | apos => exact runs_pure _
  | @decimal digits _ hne hnumeral =>
    rw [entityCharacter_number, if_neg]
    · exact runs_numericReference (.inl rfl) hne hnumeral hc
    · rw [List.isPrefixOf_iff_prefix]
      intro hprefix
      generalize c.toNat = m at hnumeral
      cases hnumeral with
      | nil => exact hne rfl
      | cons hdigit hrest =>
        rw [(List.cons_prefix_cons.mp hprefix).1.symm] at hdigit
        rcases hdigit.2 with hget | hget
        · exact absurd (List.mem_of_getElem? hget) (by decide)
        · exact absurd (List.mem_of_getElem? hget) (by decide)
  | @hexadecimal digits _ hne hnumeral =>
    have hx : "x".toList.isPrefixOf ('x' :: digits) = true :=
      List.isPrefixOf_iff_prefix.mpr (List.prefix_append ['x'] digits)
    rw [entityCharacter_number, if_pos hx]
    exact runs_numericReference (.inr rfl) hne hnumeral hc

/-- A reference. -/
theorem runs_entity (ref : Reference) (h : r.rest = ref.chars ++ t) :
    Runs entity r ref.char (r.moved ref.chars) := by
  have hsplit : r.rest = "&".toList ++ (ref.spelling ++ ';' :: t) := by
    rw [h, Reference.chars, List.cons_append, List.append_assoc]
    rfl
  have hspelling := rest_moved hsplit
  have hsemicolon : ((r.moved "&".toList).moved ref.spelling).rest = ";".toList ++ t :=
    rest_moved hspelling
  have hlength := length_rest_lt_rounds (r.moved "&".toList)
  rw [hspelling, List.length_append] at hlength
  have hshort := ref.short
  have hend : r.moved ref.chars =
      ((r.moved "&".toList).moved ref.spelling).moved ";".toList := by
    rw [moved_moved, moved_moved]
    rfl
  rw [hend]
  apply (runs_expect (by decide) hsplit).bind
  apply runs_get.bind
  have hrounds : ref.spelling.length < (r.moved "&".toList).rounds := by omega
  have hnear : (r.moved "&".toList).position + ref.spelling.length ≤
      (r.moved "&".toList).position + 12 := by
    omega
  apply (runs_entityLoop [] hspelling (fun d hd => (spells_mem ref.spells hd).1) hnear hrounds).bind
  apply (runs_expect (by decide) hsemicolon).bind
  exact runs_entityCharacter ref.spells ref.valid

end References

/-! ## Attributes -/

section Attributes

variable {r : XmlReader} {s t : List Char} {rounds : ℕ}

/-- A character of a value, as it is written. -/
theorem runs_attributeCharacter {quote : Char} {piece : ValuePiece} (h : r.rest = piece.chars ++ t)
    (hfits : piece.Fits quote) :
    Runs attributeCharacter r piece.char (r.moved piece.chars) := by
  cases piece with
  | reference ref => exact runs_if_starts (by decide) h (runs_entity ref h)
  | raw c =>
    obtain ⟨hlt, hamp, -, htab, hlf, hcr⟩ := hfits
    have hnot : ¬ "&".toList <+: r.rest := by
      rw [h]
      intro hprefix
      exact hamp (List.cons_prefix_cons.mp hprefix).1.symm
    apply runs_unless_starts (by decide) hnot
    apply (runs_take h).bind
    rw [if_neg hlt]
    have hsame : (if xmlSpace c = true then ' ' else c) = c := by
      split
      next hspace =>
        simp only [xmlSpace, Bool.or_eq_true, beq_iff_eq] at hspace
        exact (((hspace.resolve_right hcr).resolve_right hlf).resolve_right htab).symm
      next => rfl
    rw [hsame]
    exact runs_pure c

/-- The code units of a character, as they are counted. -/
theorem utf16Length_ofList (chars : List Char) :
    utf16Length (String.ofList chars) =
      (chars.map fun c => if 65535 < c.toNat then 2 else 1).sum := by
  have hunits : (fun c : Char => if c.toNat < 0x10000 then 1 else 2) =
      fun c => if 65535 < c.toNat then 2 else 1 := by
    funext c
    split <;> split <;> omega
  rw [utf16Length, String.toList_ofList, hunits]

/-- A piece that fits into a value does not start with the value's quote. -/
theorem head?_chars {quote : Char} {piece : ValuePiece} (hquote : quote = '\'' ∨ quote = '"')
    (hfits : piece.Fits quote) (t : List Char) : (piece.chars ++ t).head? ≠ some quote := by
  cases piece with
  | raw c => exact fun heq => hfits.2.2.1 (Option.some.inj heq)
  | reference ref =>
    intro heq
    have hamp : '&' = quote := Option.some.inj heq
    rcases hquote with rfl | rfl <;> exact absurd hamp (by decide)

/-- A value up to its quote. -/
theorem runs_valueLoop {quote : Char} (hquote : quote = '\'' ∨ quote = '"')
    {pieces : List ValuePiece} (value : List Char) (units : ℕ)
    (h : r.rest = pieces.flatMap ValuePiece.chars ++ quote :: t)
    (hfits : ∀ piece ∈ pieces, piece.Fits quote)
    (hunits : units + utf16Length (String.ofList (pieces.map ValuePiece.char)) ≤ 16384)
    (hrounds : r.rest.length ≤ rounds) :
    Runs (valueLoop quote rounds value units) r (value ++ pieces.map ValuePiece.char)
      (r.moved (pieces.flatMap ValuePiece.chars ++ [quote])) := by
  induction pieces generalizing r rounds value units with
  | nil =>
    have hquoted : r.rest = quote :: t := h
    rw [hquoted, List.length_cons] at hrounds
    obtain ⟨rounds, rfl⟩ := Nat.exists_eq_succ_of_ne_zero (Nat.ne_of_gt (Nat.zero_lt_of_lt hrounds))
    rw [List.map_nil, List.append_nil]
    apply runs_get.bind
    rw [getElem?_position, hquoted, List.head?_cons, if_pos rfl]
    exact (runs_take hquoted).bind (runs_pure _)
  | cons piece pieces ih =>
    obtain ⟨hpiece, hfits⟩ := List.forall_mem_cons.mp hfits
    rw [List.flatMap_cons, List.append_assoc] at h
    have hrest := rest_moved h
    have hpos : 0 < piece.chars.length := by
      cases piece <;> exact Nat.succ_pos _
    rw [h, List.length_append] at hrounds
    have hsome : rounds ≠ 0 := by omega
    obtain ⟨rounds, rfl⟩ := Nat.exists_eq_succ_of_ne_zero hsome
    have hfewer : (r.moved piece.chars).rest.length ≤ rounds := by
      rw [hrest]
      omega
    have hwidth := utf16Length_ofList (piece.char :: pieces.map ValuePiece.char)
    rw [List.map_cons, List.sum_cons, ← utf16Length_ofList] at hwidth
    rw [List.map_cons, hwidth] at hunits
    have hnext := ih (value ++ [piece.char]) (units + if 65535 < piece.char.toNat then 2 else 1)
      hrest hfits (by omega) hfewer
    rw [moved_moved, List.append_assoc] at hnext
    apply runs_get.bind
    rw [getElem?_position, h, if_neg (head?_chars hquote hpiece _)]
    apply (runs_attributeCharacter h hpiece).bind
    rw [if_neg (by omega), List.flatMap_cons, List.append_assoc]
    exact hnext

/-- A value with its quotes. -/
theorem runs_attributeValue {a : AttributeSyntax} (ha : a.WellFormed)
    (h : r.rest = a.quote :: (a.valueChars ++ [a.quote]) ++ t) :
    Runs attributeValue r a.text (r.moved (a.quote :: (a.valueChars ++ [a.quote]))) := by
  have hopen : r.rest = [a.quote] ++ (a.value.flatMap ValuePiece.chars ++ a.quote :: t) := by
    rw [h, List.cons_append, List.append_assoc]
    rfl
  have hvalue := rest_moved hopen
  have hend : r.moved (a.quote :: (a.valueChars ++ [a.quote])) =
      (r.moved [a.quote]).moved (a.value.flatMap ValuePiece.chars ++ [a.quote]) := by
    rw [moved_moved]
    rfl
  have hunits : 0 + utf16Length (String.ofList (a.value.map ValuePiece.char)) ≤ 16384 := by
    rw [Nat.zero_add]
    exact ha.units
  rw [hend]
  apply (runs_take hopen).bind
  rw [if_pos ha.quote]
  apply runs_get.bind
  apply (runs_valueLoop ha.quote [] 0 hvalue ha.value hunits (length_rest_lt_rounds _).le).bind
  exact runs_pure _

/-- A blank, an equals sign and a quote do not go on with a name. -/
theorem stops_name_of_isBlank {c : Char} (h : IsBlank c ∨ c = '=') :
    (nameLetter c || nameTail c) = false := by
  rcases h with (rfl | rfl | rfl) | rfl <;> rfl

/-- Blanks before another character stop a name when it does. -/
theorem stops_name_blanks (hs : ∀ c ∈ s, IsBlank c)
    (ht : Stops (fun c => nameLetter c || nameTail c) t) :
    Stops (fun c => nameLetter c || nameTail c) (s ++ t) := by
  cases s with
  | nil => exact ht
  | cons c s => exact stops_cons (stops_name_of_isBlank (.inl (hs c List.mem_cons_self)))

/-- A character that a name starts with is none of the others. -/
theorem isNameStart_ne {c d : Char} (hc : IsNameStart c) (hd : nameLetter d = false) : c ≠ d := by
  rintro rfl
  rw [nameLetter_of_isNameStart hc] at hd
  cases hd

/-- A text that starts with a name starts with none of these. -/
theorem not_prefix_of_isName {value : String} {c d : Char} {tail : List Char} (hs : IsName (c :: s))
    (hvalue : value.toList = d :: tail) (hd : nameLetter d = false) :
    ¬ value.toList <+: c :: s ++ t := by
  obtain ⟨_, _, ⟨⟩, hc, -⟩ := hs
  rw [hvalue]
  exact fun hprefix => isNameStart_ne hc hd (List.cons_prefix_cons.mp hprefix).1.symm

/-- A name does not start with a blank. -/
theorem stops_space_of_isName {c : Char} (hs : IsName (c :: s)) : Stops xmlSpace (c :: s ++ t) := by
  obtain ⟨_, _, ⟨⟩, hc, -⟩ := hs
  apply stops_cons
  rw [Bool.eq_false_iff]
  intro hspace
  simp only [xmlSpace, Bool.or_eq_true, beq_iff_eq] at hspace
  rcases hspace with ((rfl | rfl) | rfl) | rfl <;> exact isNameStart_ne hc rfl rfl

/-- A round of `attributes`. -/
theorem runs_attributesLoop_round {terminator : String} {attrs found : List (String × String)}
    {a : AttributeSyntax} {r' : XmlReader} (ha : a.WellFormed)
    (hterminator : terminator = ">" ∨ terminator = "?>") (h : r.rest = a.chars ++ t)
    (hcount : attrs.length < 64)
    (horder : terminator = "?>" → declarationOrder attrs (String.ofList a.name) = true)
    (hname : String.ofList a.name ≠ "xmlns") (hnew : attrs.lookup (String.ofList a.name) = none)
    (hnext : Runs (attributesLoop terminator rounds (attrs ++ [a.pair])) (r.moved a.chars)
      found r') :
    Runs (attributesLoop terminator (rounds + 1) attrs) r found r' := by
  have hbefore : r.rest = a.before ++ (a.name ++ (a.beforeEquals ++ ("=".toList ++ (a.afterEquals ++
      (a.quote :: (a.valueChars ++ [a.quote]) ++ t))))) := by
    rw [h, AttributeSyntax.chars]
    simp only [List.append_assoc, List.cons_append, List.nil_append]
    rfl
  have hword := rest_moved hbefore
  have hafterName := rest_moved hword
  have hequals := rest_moved hafterName
  have hafterEquals := rest_moved hequals
  have hvalue := rest_moved hafterEquals
  have hend : r.moved a.chars =
      ((((((r.moved a.before).moved a.name).moved a.beforeEquals).moved "=".toList).moved
        a.afterEquals).moved (a.quote :: (a.valueChars ++ [a.quote]))) := by
    simp only [moved_moved, AttributeSyntax.chars, List.append_assoc]
    rfl
  have hseparated : (!a.before.isEmpty) = true := by
    rw [Bool.not_eq_true', List.isEmpty_eq_false_iff]
    exact ha.before_ne_nil
  obtain ⟨c, name, hletters, hc, hrest⟩ := id ha.name
  have hstart : IsName (c :: name) := ⟨c, name, rfl, hc, hrest⟩
  have hspaces : Stops xmlSpace (a.name ++ (a.beforeEquals ++ ("=".toList ++ (a.afterEquals ++
      (a.quote :: (a.valueChars ++ [a.quote]) ++ t))))) := by
    rw [hletters]
    exact stops_space_of_isName hstart
  have hnotTerminator : ¬ terminator.toList <+: (r.moved a.before).rest := by
    rw [hword, hletters]
    rcases hterminator with rfl | rfl
    · exact not_prefix_of_isName hstart rfl (by decide)
    · exact not_prefix_of_isName hstart rfl (by decide)
  have hnotClosed : ¬ "/>".toList <+: (r.moved a.before).rest := by
    rw [hword, hletters]
    exact not_prefix_of_isName hstart rfl (by decide)
  have hterminatorNe : terminator.toList ≠ [] := by
    rcases hterminator with rfl | rfl <;> decide
  have hquote : xmlSpace a.quote = false := by
    rcases ha.quote with heq | heq <;> rw [heq] <;> rfl
  have hordered : (terminator == "?>" && !declarationOrder attrs (String.ofList a.name)) =
      false := by
    by_cases hdeclares : terminator = "?>"
    · rw [horder hdeclares, Bool.not_true, Bool.and_false]
    · rw [beq_eq_false_iff_ne.mpr hdeclares, Bool.false_and]
  have hfresh : (String.ofList a.name == "xmlns" ||
      (attrs.lookup (String.ofList a.name)).isSome) = false := by
    rw [hnew, beq_eq_false_iff_ne.mpr hname]
    rfl
  have hafter : Stops (fun c => nameLetter c || nameTail c) (a.beforeEquals ++ ("=".toList ++
      (a.afterEquals ++ (a.quote :: (a.valueChars ++ [a.quote]) ++ t)))) :=
    stops_name_blanks ha.beforeEquals (stops_cons rfl)
  rw [hend] at hnext
  apply (runs_spaces hbefore ha.before hspaces).bind
  apply runs_unless_starts hterminatorNe hnotTerminator
  apply runs_unless_starts (by decide) hnotClosed
  rw [hseparated, decide_eq_true hcount, if_neg (by decide)]
  apply (runs_name hword ha.name hafter).bind
  rw [hordered, if_neg Bool.false_ne_true, hfresh, if_neg Bool.false_ne_true]
  apply (runs_spaces hafterName ha.beforeEquals (stops_cons rfl)).bind
  apply (runs_expect (by decide) hequals).bind
  apply (runs_spaces hafterEquals ha.afterEquals (stops_cons hquote)).bind
  exact (runs_attributeValue ha hvalue).bind hnext

/-- The attributes of an XML declaration come in order. -/
def inOrder : List (String × String) → List (String × String) → Bool
  | _, [] => true
  | attrs, pair :: rest => declarationOrder attrs pair.1 && inOrder (attrs ++ [pair]) rest

/-- Names that are not among the attributes read so far. -/
theorem lookup_eq_none {attrs : List (String × String)} {name : String}
    (h : name ∉ attrs.map Prod.fst) : attrs.lookup name = none := by
  rw [List.lookup_eq_none_iff]
  intro pair hpair
  rw [bne_iff_ne]
  rintro rfl
  exact h (List.mem_map_of_mem hpair)

/-- Attributes up to the end of their tag. -/
theorem runs_attributesLoop {terminator : String} {attrs : List (String × String)}
    {items : List AttributeSyntax} {trailing : List Char}
    (hterminator : terminator = ">" ∨ terminator = "?>")
    (h : r.rest = items.flatMap AttributeSyntax.chars ++ (trailing ++ t))
    (ht : terminator.toList <+: t ∨ terminator = ">" ∧ "/>".toList <+: t)
    (hitems : ∀ a ∈ items, a.WellFormed) (htrailing : ∀ c ∈ trailing, IsBlank c)
    (hcount : attrs.length + items.length ≤ 64)
    (horder : terminator = "?>" → inOrder attrs (items.map AttributeSyntax.pair) = true)
    (hnames : ∀ pair ∈ items.map AttributeSyntax.pair, pair.1 ≠ "xmlns")
    (hdistinct : (attrs.map Prod.fst ++ (items.map AttributeSyntax.pair).map Prod.fst).Nodup)
    (hrounds : items.length < rounds) :
    Runs (attributesLoop terminator rounds attrs) r (attrs ++ items.map AttributeSyntax.pair)
      (r.moved (items.flatMap AttributeSyntax.chars ++ trailing)) := by
  induction items generalizing r rounds attrs with
  | nil =>
    obtain ⟨rounds, rfl⟩ := Nat.exists_eq_succ_of_ne_zero (Nat.ne_of_gt (Nat.zero_lt_of_lt hrounds))
    have htail : r.rest = trailing ++ t := h
    have hrest := rest_moved htail
    have hstops : Stops xmlSpace t := by
      rcases ht with ⟨u, rfl⟩ | ⟨-, u, rfl⟩
      · rcases hterminator with rfl | rfl <;> exact stops_cons rfl
      · exact stops_cons rfl
    rw [List.map_nil, List.append_nil, List.flatMap_nil, List.nil_append]
    apply (runs_spaces htail htrailing hstops).bind
    have hterminatorNe : terminator.toList ≠ [] := by
      rcases hterminator with rfl | rfl <;> decide
    rcases ht with ⟨u, rfl⟩ | ⟨rfl, u, rfl⟩
    · exact runs_if_starts hterminatorNe hrest (runs_pure _)
    · have hnot : ¬ ">".toList <+: (r.moved trailing).rest := by
        rw [hrest]
        exact fun hprefix => absurd (List.cons_prefix_cons.mp hprefix).1 (by decide)
      apply runs_unless_starts (by decide) hnot
      exact runs_if_starts (by decide) hrest (runs_pure _)
  | cons a items ih =>
    obtain ⟨rounds, rfl⟩ := Nat.exists_eq_succ_of_ne_zero (Nat.ne_of_gt (Nat.zero_lt_of_lt hrounds))
    obtain ⟨ha, hitems⟩ := List.forall_mem_cons.mp hitems
    obtain ⟨hname, hnames⟩ := List.forall_mem_cons.mp hnames
    have horders (hdeclares : terminator = "?>") := Bool.and_eq_true_iff.mp (horder hdeclares)
    rw [List.flatMap_cons, List.append_assoc] at h
    rw [List.length_cons] at hcount hrounds
    have hnew : String.ofList a.name ∉ attrs.map Prod.fst := fun hmem =>
      (List.nodup_append.mp hdistinct).2.2 _ hmem _ List.mem_cons_self rfl
    have hdistinct' : ((attrs ++ [a.pair]).map Prod.fst ++
        (items.map AttributeSyntax.pair).map Prod.fst).Nodup := by
      rw [List.map_append, List.append_assoc]
      exact hdistinct
    have hcount' : (attrs ++ [a.pair]).length + items.length ≤ 64 := by
      rw [List.length_append, List.length_singleton]
      omega
    have hnext := ih (rest_moved h) hitems hcount' (fun heq => (horders heq).2) hnames hdistinct'
      (Nat.lt_of_succ_lt_succ hrounds)
    rw [moved_moved, List.append_assoc] at hnext
    rw [List.flatMap_cons, List.map_cons, List.append_assoc]
    exact runs_attributesLoop_round ha hterminator h (by omega) (fun heq => (horders heq).1) hname
      (lookup_eq_none hnew) hnext

/-- There are no more attributes than characters that write them. -/
theorem length_le_flatMap_chars (items : List AttributeSyntax) :
    items.length ≤ (items.flatMap AttributeSyntax.chars).length := by
  induction items with
  | nil => exact le_refl _
  | cons a items ih =>
    have hsome : 1 ≤ a.chars.length := by
      simp only [AttributeSyntax.chars, List.length_append, List.length_cons]
      omega
    rw [List.flatMap_cons, List.length_append, List.length_cons]
    omega

/-- The attributes of a well-formed tag, with its trailing blanks. -/
theorem runs_attributes {terminator : String} {items : List AttributeSyntax}
    {trailing : List Char} (hterminator : terminator = ">" ∨ terminator = "?>")
    (h : r.rest = items.flatMap AttributeSyntax.chars ++ (trailing ++ t))
    (ht : terminator.toList <+: t ∨ terminator = ">" ∧ "/>".toList <+: t)
    (hitems : ∀ a ∈ items, a.WellFormed) (htrailing : ∀ c ∈ trailing, IsBlank c)
    (hcount : items.length ≤ 64)
    (horder : terminator = "?>" → inOrder [] (items.map AttributeSyntax.pair) = true)
    (hnames : ∀ pair ∈ items.map AttributeSyntax.pair, pair.1 ≠ "xmlns")
    (hdistinct : ((items.map AttributeSyntax.pair).map Prod.fst).Nodup) :
    Runs (attributes terminator) r (items.map AttributeSyntax.pair)
      (r.moved (items.flatMap AttributeSyntax.chars ++ trailing)) := by
  have hlong := length_le_flatMap_chars items
  have hlength := length_rest_lt_rounds r
  rw [h, List.length_append] at hlength
  apply runs_get.bind
  have hcount' : ([] : List (String × String)).length + items.length ≤ 64 := by
    rw [List.length_nil, Nat.zero_add]
    exact hcount
  exact runs_attributesLoop hterminator h ht hitems htrailing hcount' horder hnames hdistinct
    (by omega)

end Attributes

/-! ## Comments, CDATA sections and tags -/

section Constructs

variable {r : XmlReader} {s t : List Char} {rounds : ℕ}

/-- Characters between two others, in front of some more. -/
theorem enclosed_append (a s b t : List Char) : (a ++ (s ++ b)) ++ t = a ++ (s ++ (b ++ t)) := by
  rw [List.append_assoc, List.append_assoc]

/-- A move over an enclosed text is three moves. -/
theorem moved_enclosed (r : XmlReader) (a s b : List Char) :
    r.moved (a ++ (s ++ b)) = ((r.moved a).moved s).moved b := by
  rw [moved_moved, moved_moved]

/-- A text ends where its terminator first stands. -/
theorem not_prefix_of_not_infix {terminator : List Char} {c : Char}
    (h : ¬ terminator <:+: c :: s) (hshort : terminator.length ≤ (c :: s).length) :
    ¬ terminator <+: c :: s ++ t := by
  intro hprefix
  have htake : terminator <+: c :: s :=
    List.prefix_of_prefix_length_le hprefix (List.prefix_append _ _) hshort
  exact h htake.isInfix

/-- The loop over a comment takes its text and stops before the closing. -/
theorem runs_commentLoop (h : r.rest = s ++ ("-->".toList ++ t)) (hs : IsCommentText s)
    (hrounds : s.length < rounds) : Runs (commentLoop rounds) r () (r.moved s) := by
  induction s generalizing r rounds with
  | nil =>
    obtain ⟨rounds, rfl⟩ := Nat.exists_eq_succ_of_ne_zero (Nat.ne_of_gt hrounds)
    exact runs_if_starts (by decide) h (runs_pure ())
  | cons c s ih =>
    obtain ⟨rounds, rfl⟩ := Nat.exists_eq_succ_of_ne_zero (Nat.ne_of_gt (Nat.zero_lt_of_lt hrounds))
    have hnext := ih (rest_moved (r := r) (s := [c]) h) (fun hin => hs (hin.trans
      (List.suffix_cons c _).isInfix)) (Nat.lt_of_succ_lt_succ hrounds)
    rw [moved_moved] at hnext
    have hsplit : r.rest = (c :: s ++ ['-']) ++ ("->".toList ++ t) := by
      rw [h, List.append_assoc]
      rfl
    have hdouble : ¬ "--".toList <+: r.rest := by
      rw [hsplit]
      have hshort : "--".toList.length ≤ (c :: (s ++ ['-'])).length := by
        rw [List.length_cons, List.length_append]
        exact Nat.succ_le_succ (Nat.le_add_left _ _)
      exact not_prefix_of_not_infix hs hshort
    have hend : ¬ "-->".toList <+: r.rest := fun hprefix =>
      hdouble ((by decide : "--".toList <+: "-->".toList).trans hprefix)
    apply runs_unless_starts (by decide) hend
    apply runs_unless_starts (by decide) hdouble
    exact (runs_take h).bind hnext

/-- `comment` moves over a written comment. -/
theorem runs_comment (h : r.rest = commentChars s ++ t) (hs : IsCommentText s) :
    Runs comment r () (r.moved (commentChars s)) := by
  have hopen : r.rest = "<!--".toList ++ (s ++ ("-->".toList ++ t)) :=
    h.trans (enclosed_append _ _ _ _)
  have hbody := rest_moved hopen
  have hlength := length_rest_lt_rounds (r.moved "<!--".toList)
  rw [hbody, List.length_append] at hlength
  have hend : r.moved (commentChars s) =
      ((r.moved "<!--".toList).moved s).moved "-->".toList := moved_enclosed r _ s _
  rw [hend]
  apply (runs_expect (by decide) hopen).bind
  apply runs_get.bind
  apply (runs_commentLoop hbody hs (by omega)).bind
  exact runs_expect (by decide) (rest_moved hbody)

/-- The end of a CDATA section does not start before it. -/
theorem not_prefix_cdata {c : Char} (h : ¬ "]]>".toList <:+: c :: s) :
    ¬ "]]>".toList <+: c :: s ++ ("]]>".toList ++ t) := by
  intro hprefix
  match s with
  | [] =>
    have hthird := (List.cons_prefix_cons.mp (List.cons_prefix_cons.mp
      (List.cons_prefix_cons.mp hprefix).2).2).1
    exact absurd hthird (by decide)
  | [d] =>
    have hthird := (List.cons_prefix_cons.mp (List.cons_prefix_cons.mp
      (List.cons_prefix_cons.mp hprefix).2).2).1
    exact absurd hthird (by decide)
  | d :: e :: s =>
    exact not_prefix_of_not_infix h (Nat.le_add_left 3 s.length) hprefix

/-- The loop over a CDATA section adds its text and stops before the closing. -/
theorem runs_cdataLoop (text : List Char) (h : r.rest = s ++ ("]]>".toList ++ t))
    (hs : ¬ "]]>".toList <:+: s) (hrounds : s.length < rounds) :
    Runs (cdataLoop rounds text) r (text ++ s) (r.moved s) := by
  induction s generalizing r rounds text with
  | nil =>
    obtain ⟨rounds, rfl⟩ := Nat.exists_eq_succ_of_ne_zero (Nat.ne_of_gt hrounds)
    rw [List.append_nil]
    exact runs_if_starts (by decide) h (runs_pure _)
  | cons c s ih =>
    obtain ⟨rounds, rfl⟩ := Nat.exists_eq_succ_of_ne_zero (Nat.ne_of_gt (Nat.zero_lt_of_lt hrounds))
    have hnext := ih (text ++ [c]) (rest_moved (r := r) (s := [c]) h) (fun hin => hs (hin.trans
      (List.suffix_cons c _).isInfix)) (Nat.lt_of_succ_lt_succ hrounds)
    rw [moved_moved, List.append_assoc] at hnext
    have hend : ¬ "]]>".toList <+: r.rest := by
      rw [h]
      exact not_prefix_cdata hs
    apply runs_unless_starts (by decide) hend
    exact (runs_take h).bind hnext

/-- `cdata` adds the text of a written section. -/
theorem runs_cdata (text : List Char) (h : r.rest = cdataChars s ++ t)
    (hs : ¬ "]]>".toList <:+: s) :
    Runs (cdata text) r (text ++ s) (r.moved (cdataChars s)) := by
  have hopen : r.rest = "<![CDATA[".toList ++ (s ++ ("]]>".toList ++ t)) :=
    h.trans (enclosed_append _ _ _ _)
  have hbody := rest_moved hopen
  have hlength := length_rest_lt_rounds (r.moved "<![CDATA[".toList)
  rw [hbody, List.length_append] at hlength
  have hend : r.moved (cdataChars s) =
      ((r.moved "<![CDATA[".toList).moved s).moved "]]>".toList := moved_enclosed r _ s _
  rw [hend]
  apply (runs_expect (by decide) hopen).bind
  apply runs_get.bind
  apply (runs_cdataLoop text hbody hs (by omega)).bind
  apply (runs_expect (by decide) (rest_moved hbody)).bind
  exact runs_pure _

/-- Characters that a longer text does not start with. -/
theorem not_prefix_append {a b : List Char} (h : ¬ a <+: b) (hlength : a.length ≤ b.length)
    (t : List Char) : ¬ a <+: b ++ t := fun hprefix =>
  h (List.prefix_of_prefix_length_le hprefix (List.prefix_append b t) hlength)

/-- A name in a tag is stopped by what comes behind it. -/
theorem stops_name_attributes {items : List AttributeSyntax} (hitems : ∀ a ∈ items, a.WellFormed)
    (ht : Stops (fun c => nameLetter c || nameTail c) t) :
    Stops (fun c => nameLetter c || nameTail c) (items.flatMap AttributeSyntax.chars ++ t) := by
  cases items with
  | nil => exact ht
  | cons a items =>
    have ha := hitems a List.mem_cons_self
    obtain ⟨c, before, hbefore⟩ := List.exists_cons_of_ne_nil ha.before_ne_nil
    have hblank : IsBlank c := ha.before c (by rw [hbefore]; exact List.mem_cons_self)
    rw [List.flatMap_cons, AttributeSyntax.chars, hbefore]
    exact stops_cons (stops_name_of_isBlank (.inl hblank))

/-- A start tag up to its end, and what is read behind it. -/
theorem runs_startTag {α : Type} {f : String → List (String × String) → XmlRead α} {tag : StartTag}
    {answer : α} {r' : XmlReader} (htag : tag.WellFormed) (h : r.rest = tag.chars ++ t)
    (ht : ">".toList <+: t ∨ "/>".toList <+: t)
    (hnext : Runs (f (String.ofList tag.name) tag.attrs) (r.moved tag.chars) answer r') :
    Runs (do
      expect "<"
      let name ← name
      let attrs ← attributes ">"
      f name attrs) r answer r' := by
  have hopen : r.rest = "<".toList ++ (tag.name ++ (tag.attributes.flatMap AttributeSyntax.chars ++
      (tag.trailing ++ t))) := by
    rw [h, StartTag.chars, List.cons_append, List.append_assoc, List.append_assoc]
    rfl
  have hname := rest_moved hopen
  have hattributes := rest_moved hname
  have hend : r.moved tag.chars = ((r.moved "<".toList).moved tag.name).moved
      (tag.attributes.flatMap AttributeSyntax.chars ++ tag.trailing) := by
    rw [moved_moved, moved_moved]
    rfl
  have hstops : Stops (fun c => nameLetter c || nameTail c) t := by
    rcases ht with ⟨u, rfl⟩ | ⟨u, rfl⟩ <;> exact stops_cons rfl
  rw [hend] at hnext
  apply (runs_expect (by decide) hopen).bind
  apply (runs_name hname htag.name (stops_name_attributes htag.attributes
    (stops_name_blanks htag.trailing hstops))).bind
  have hread : Runs (attributes ">") _ tag.attrs _ := runs_attributes (.inl rfl) hattributes
    (ht.imp_right fun hclosed => ⟨rfl, hclosed⟩) htag.attributes htag.trailing htag.count
    (fun heq => absurd heq (by decide)) htag.no_namespace htag.distinct
  exact hread.bind hnext

/-- `closeTag` moves over the written closing of its tag. -/
theorem runs_closeTag {tag : StartTag} {closing : List Char} (htag : IsName tag.name)
    (hclosing : ∀ c ∈ closing, IsBlank c) (h : r.rest = closeChars tag closing ++ t) :
    Runs (closeTag (String.ofList tag.name)) r () (r.moved (closeChars tag closing)) := by
  have hopen : r.rest = "</".toList ++ (tag.name ++ (closing ++ (">".toList ++ t))) := by
    rw [h, closeChars, List.append_assoc, List.append_assoc, List.append_assoc]
  have hname := rest_moved hopen
  have hblanks := rest_moved hname
  have hlast := rest_moved hblanks
  have hend : r.moved (closeChars tag closing) =
      (((r.moved "</".toList).moved tag.name).moved closing).moved ">".toList := by
    rw [moved_moved, moved_moved, moved_moved]
    rfl
  rw [hend]
  apply (runs_expect (by decide) hopen).bind
  apply (runs_name hname htag (stops_name_blanks hclosing (stops_cons rfl))).bind
  rw [if_pos rfl]
  apply (runs_spaces hblanks hclosing (stops_cons rfl)).bind
  exact runs_expect (by decide) hlast

/-- A self-closing element. -/
theorem runs_element_empty {tag : StartTag} {depth : ℕ} (htag : tag.WellFormed)
    (hdepth : depth ≤ 32) (hnodes : r.nodes < 20000) (h : r.rest = emptyChars tag ++ t) :
    Runs (element (rounds + 1) depth) r ⟨String.ofList tag.name, tag.attrs, [], "", r.line⟩
      ((r.moved (emptyChars tag)).counted 1) := by
  have htagChars : (r.counted 1).rest = tag.chars ++ ("/>".toList ++ t) := by
    rw [rest_counted, h, emptyChars, List.append_assoc]
  have hclosed := rest_moved htagChars
  have hend : (r.moved (emptyChars tag)).counted 1 =
      ((r.counted 1).moved tag.chars).moved "/>".toList := by
    rw [moved_moved]
    rfl
  rw [element, hend]
  apply runs_get.bind
  rw [if_neg (by omega)]
  apply (runs_set _).bind
  apply runs_startTag htag htagChars (.inr (List.prefix_append _ _))
  apply runs_if_starts (by decide) hclosed
  apply (runs_expect (by decide) hclosed).bind
  exact runs_pure _

/-- An element with the content that is read behind its start tag. -/
theorem runs_element_filled {tag : StartTag} {depth : ℕ} {children : List XmlElement}
    {text : List Char} {r' : XmlReader} (htag : tag.WellFormed) (hdepth : depth ≤ 32)
    (hnodes : r.nodes < 20000) (h : r.rest = openChars tag ++ t)
    (hcontent : Runs (content rounds depth (String.ofList tag.name) [] [])
      ((r.moved (openChars tag)).counted 1) (children, text) r') :
    Runs (element (rounds + 1) depth) r
      ⟨String.ofList tag.name, tag.attrs, children, String.ofList text, r.line⟩ r' := by
  have htagChars : (r.counted 1).rest = tag.chars ++ (">".toList ++ t) := by
    rw [rest_counted, h, openChars, List.append_assoc]
  have hopened := rest_moved htagChars
  have hnot : ¬ "/>".toList <+: ((r.counted 1).moved tag.chars).rest := by
    rw [hopened]
    exact fun hprefix => absurd (List.cons_prefix_cons.mp hprefix).1 (by decide)
  have hend : (r.moved (openChars tag)).counted 1 =
      ((r.counted 1).moved tag.chars).moved ">".toList := by
    rw [moved_moved]
    rfl
  rw [hend] at hcontent
  rw [element]
  apply runs_get.bind
  rw [if_neg (by omega)]
  apply (runs_set _).bind
  apply runs_startTag htag htagChars (.inl (List.prefix_append _ _))
  apply runs_unless_starts (by decide) hnot
  apply (runs_expect (by decide) hopened).bind
  apply hcontent.bind
  exact runs_pure _

end Constructs

end XmlReader

end Moonfort.Junit
