import Moonfort.Junit.XmlRoundTrip

/-!
# Texts of documents

A text that writes a document, with its own line ends and byte order mark, is parsed to
the element tree of the document. The line of an element is the physical line of the text
in which its start tag starts.
-/

namespace Moonfort.Junit

open MoonBit Stateful

/-! ## Line ends -/

namespace LineEnds

variable {plain text front back : List Char}

/-- Line ends are read as LF. -/
theorem replaceCrlf_eq (h : LineEnds plain text) : replaceCrlf text = plain := by
  induction h with
  | nil => rfl
  | @char c plain text hlf hcr h ih =>
    rw [replaceCrlf, ih]
    rintro rest rfl
    exact absurd rfl hcr
  | lf h ih =>
    rw [replaceCrlf, ih]
    rintro rest hcr
    exact absurd hcr (by decide)
  | crlf h ih => rw [replaceCrlf, ih]

/-- Every line end of a text ends one line. -/
theorem lineEnds_eq (h : LineEnds plain text) : lineEnds text = lineEnds plain := by
  unfold lineEnds
  induction h with
  | nil => rfl
  | char hlf hcr h ih => rw [List.count_cons, List.count_cons, ih]
  | lf h ih => rw [List.count_cons, List.count_cons, ih]
  | crlf h ih =>
    have hcr : ('\r' == '\n') = false := rfl
    rw [List.count_cons, List.count_cons, List.count_cons, ih, hcr]
    rfl

/-- The two parts of a text are written one behind the other. -/
theorem exists_append (h : LineEnds plain text) (hplain : plain = front ++ back) :
    ∃ front' back', text = front' ++ back' ∧ LineEnds front front' ∧ LineEnds back back' := by
  induction h generalizing front with
  | nil =>
    obtain ⟨rfl, rfl⟩ := List.append_eq_nil_iff.mp hplain.symm
    exact ⟨[], [], rfl, .nil, .nil⟩
  | @char c plain text hlf hcr h ih =>
    rcases List.cons_eq_append_iff.mp hplain with ⟨rfl, rfl⟩ | ⟨front, rfl, htail⟩
    · exact ⟨[], c :: text, rfl, .nil, .char hlf hcr h⟩
    · obtain ⟨front', back', rfl, hfront, hback⟩ := ih htail
      exact ⟨c :: front', back', rfl, .char hlf hcr hfront, hback⟩
  | @lf plain text h ih =>
    rcases List.cons_eq_append_iff.mp hplain with ⟨rfl, rfl⟩ | ⟨front, rfl, htail⟩
    · exact ⟨[], '\n' :: text, rfl, .nil, .lf h⟩
    · obtain ⟨front', back', rfl, hfront, hback⟩ := ih htail
      exact ⟨'\n' :: front', back', rfl, .lf hfront, hback⟩
  | @crlf plain text h ih =>
    rcases List.cons_eq_append_iff.mp hplain with ⟨rfl, rfl⟩ | ⟨front, rfl, htail⟩
    · exact ⟨[], '\r' :: '\n' :: text, rfl, .nil, .crlf h⟩
    · obtain ⟨front', back', rfl, hfront, hback⟩ := ih htail
      exact ⟨'\r' :: '\n' :: front', back', rfl, .crlf hfront, hback⟩

/-- A byte order mark at the front is written as it is. -/
theorem mark_inj {rest : List Char} (h : LineEnds plain ('\uFEFF' :: rest)) :
    ∃ tail, plain = '\uFEFF' :: tail := by
  cases h
  exact ⟨_, rfl⟩

end LineEnds

/-! ## The round trip -/

section Texts

variable {d : Document} {text : String}

/-- The first character of a document. -/
theorem not_mark_chars (hd : d.WellFormed) (rest : List Char) : d.chars ≠ '\uFEFF' :: rest := by
  intro hmark
  have hnotBlank : ¬ IsBlank '\uFEFF' := by
    rintro (heq | heq | heq) <;> exact absurd heq (by decide)
  have hopens : XmlReader.OpensMarkup (d.before.chars ++ (d.root.chars ++ d.after.chars)) := by
    obtain ⟨rootRest, hroot⟩ := XmlReader.exists_root_chars d
    apply XmlReader.opensMarkup_misc hd.before
    rw [hroot, List.append_assoc]
    exact XmlReader.opensMarkup_tag (XmlReader.isName_tag hd) _
  rw [Document.chars, Document.prolog, List.append_assoc] at hmark
  cases hdeclared : d.declaration with
  | none =>
    rw [hdeclared] at hmark
    obtain ⟨c, u, hchars, hc⟩ := hopens
    have hhead : c = '\uFEFF' := (List.cons.inj (hchars.symm.trans hmark)).1
    rw [hhead] at hc
    rcases hc with hblank | ⟨heq, -⟩
    · exact hnotBlank hblank
    · exact absurd heq (by decide)
  | some declared =>
    rw [hdeclared] at hmark
    have hhead : '<' = '\uFEFF' := (List.cons.inj hmark).1
    exact absurd hhead (by decide)

/-- What the reader gets of a text is the document. -/
theorem normalized_eq (hd : d.WellFormed) (h : Writes text d) :
    '\r' ∉ replaceCrlf text.toList ∧ normalized text.toList = d.chars := by
  obtain ⟨body, hends, htext⟩ := h
  have hbody := hends.replaceCrlf_eq
  have hcr : '\r' ∉ d.chars := fun hmem => (hd.chars _ hmem).2 rfl
  have hmap : d.chars.map (fun ch => if ch = '\r' then '\n' else ch) = d.chars := by
    rw [List.map_congr_left fun c hc => if_neg (hd.chars c hc).2]
    exact List.map_id' _
  rcases htext with htext | htext
  · have hstrip : stripMark body = body := by
      cases body with
      | nil => rfl
      | cons c rest =>
        apply if_neg
        rintro rfl
        obtain ⟨tail, hmark⟩ := hends.mark_inj
        exact not_mark_chars hd tail hmark
    rw [htext]
    refine ⟨hbody ▸ hcr, ?_⟩
    rw [normalized, hstrip, hbody, hmap]
  · have hreplace : replaceCrlf ('\uFEFF' :: body) = '\uFEFF' :: d.chars := by
      rw [replaceCrlf, hbody]
      rintro rest heq
      exact absurd heq (by decide)
    have hstrip : stripMark ('\uFEFF' :: body) = body := by rw [stripMark, if_pos rfl]
    rw [htext, hreplace]
    refine ⟨List.not_mem_cons_of_ne_of_not_mem (by decide) hcr, ?_⟩
    rw [normalized, hstrip, hbody, hmap]

/-- Parsing a text that writes a document gives its element tree. -/
theorem parseXml_writes (hd : d.WellFormed) (h : Writes text d)
    (hsize : utf8Length text ≤ 1048576) :
    parseXml text = .ok d.tree := by
  obtain ⟨hcr, hchars⟩ := normalized_eq hd h
  obtain ⟨last, hread⟩ := XmlReader.runs_document hd
  have hvalid : d.chars.all (fun ch => xmlCharacter ch.toNat) = true := by
    rw [List.all_eq_true]
    intro c hc
    exact XmlReader.xmlCharacter_of_isXmlChar (hd.chars c hc).1
  rw [parseXml, if_neg (Nat.not_lt.mpr hsize), if_neg hcr, hchars, if_pos hvalid]
  exact hread.run'

end Texts

/-! ## The lines of the start tags -/

mutual

/-- An element and the elements in it, in document order. -/
def XmlElement.preorder : XmlElement → List XmlElement
  | ⟨name, attrs, children, text, line⟩ =>
    ⟨name, attrs, children, text, line⟩ :: preorderAll children

/-- The elements of these and in these. -/
def preorderAll : List XmlElement → List XmlElement
  | [] => []
  | element :: rest => element.preorder ++ preorderAll rest

end

/-- The start tags of a content in document order, each with the characters before it. -/
def Content.places (front : List Char) : Content → List (List Char × StartTag)
  | nil => []
  | raw c rest => rest.places (front ++ [c])
  | reference r rest => rest.places (front ++ r.chars)
  | cdata chars rest => rest.places (front ++ cdataChars chars)
  | comment chars rest => rest.places (front ++ commentChars chars)
  | empty tag rest => (front, tag) :: rest.places (front ++ emptyChars tag)
  | element tag inside closing rest =>
    (front, tag) :: (inside.places (front ++ openChars tag) ++
      rest.places (front ++ (openChars tag ++ (inside.chars ++ closeChars tag closing))))

/-- The start tags of a document in document order. -/
def Document.startTags (d : Document) : List StartTag :=
  (d.root.places d.prolog).map Prod.snd

/-- An element has this start tag, and the line in which the text behind `place.1` starts. -/
structure Marks (element : XmlElement) (place : List Char × StartTag) : Prop where
  name : element.name = String.ofList place.2.name
  attrs : element.attrs = place.2.attrs
  line : element.line = 1 + lineEnds place.1

/-- A start tag stands in a text behind these characters. -/
def StandsIn (text : List Char) (place : List Char × StartTag) : Prop :=
  ∃ written, LineEnds place.2.chars written ∧ place.1 ++ written <+: text

/-- The lines that end in two texts are those of both. -/
theorem lineEnds_append (front back : List Char) :
    lineEnds (front ++ back) = lineEnds front + lineEnds back := List.count_append

/-- The elements of a content are marked by its start tags. -/
theorem marks_places (c : Content) (front : List Char) :
    List.Forall₂ Marks (preorderAll (c.children (1 + lineEnds front))) (c.places front) := by
  induction c generalizing front with
  | nil => exact .nil
  | raw d rest ih =>
    have hrest := ih (front ++ [d])
    rw [lineEnds_append, ← Nat.add_assoc] at hrest
    exact hrest
  | reference ref rest ih =>
    have hrest := ih (front ++ ref.chars)
    rw [lineEnds_append, ref.lineEnds_chars] at hrest
    exact hrest
  | cdata chars rest ih =>
    have hrest := ih (front ++ cdataChars chars)
    rw [lineEnds_append, ← Nat.add_assoc] at hrest
    exact hrest
  | comment chars rest ih =>
    have hrest := ih (front ++ commentChars chars)
    rw [lineEnds_append, ← Nat.add_assoc] at hrest
    exact hrest
  | empty tag rest ih =>
    have hrest := ih (front ++ emptyChars tag)
    rw [lineEnds_append, ← Nat.add_assoc] at hrest
    exact .cons ⟨rfl, rfl, rfl⟩ hrest
  | element tag inside closing rest ihInside ihRest =>
    have hinside := ihInside (front ++ openChars tag)
    have hrest := ihRest (front ++ (openChars tag ++ (inside.chars ++ closeChars tag closing)))
    rw [lineEnds_append, ← Nat.add_assoc] at hinside hrest
    rw [Content.children, preorderAll, XmlElement.preorder]
    exact .cons ⟨rfl, rfl, rfl⟩ (List.rel_append hinside hrest)

/-- Every start tag stands behind the characters before it. -/
theorem prefix_of_mem_places {c : Content} {front chars : List Char} {place : List Char × StartTag}
    (h : place ∈ c.places front) (hfront : front ++ c.chars <+: chars) :
    place.1 ++ place.2.chars <+: chars := by
  induction c generalizing front with
  | nil => exact absurd h List.not_mem_nil
  | raw d rest ih =>
    apply ih h
    rw [List.append_assoc]
    exact hfront
  | reference ref rest ih =>
    apply ih h
    rw [List.append_assoc]
    exact hfront
  | cdata inside rest ih =>
    apply ih h
    rw [List.append_assoc]
    exact hfront
  | comment inside rest ih =>
    apply ih h
    rw [List.append_assoc]
    exact hfront
  | empty tag rest ih =>
    rcases List.mem_cons.mp h with rfl | h
    · rw [Content.chars, emptyChars, List.append_assoc, ← List.append_assoc] at hfront
      exact (List.prefix_append _ _).trans hfront
    · apply ih h
      rw [List.append_assoc]
      exact hfront
  | element tag inside closing rest ihInside ihRest =>
    rw [Content.chars] at hfront
    rcases List.mem_cons.mp h with rfl | h
    · rw [openChars, List.append_assoc, ← List.append_assoc] at hfront
      exact (List.prefix_append _ _).trans hfront
    · rcases List.mem_append.mp h with h | h
      · apply ihInside h
        rw [← List.append_assoc, ← List.append_assoc] at hfront
        exact (List.prefix_append _ _).trans hfront
      · apply ihRest h
        simp only [List.append_assoc]
        exact hfront

/-- The characters before a start tag, as they are in the text. -/
theorem exists_standsIn {plain text front : List Char} {tag : StartTag}
    (hends : LineEnds plain text) (h : front ++ tag.chars <+: plain) :
    ∃ front', StandsIn text (front', tag) ∧ lineEnds front' = lineEnds front := by
  obtain ⟨back, hback⟩ := h
  obtain ⟨opened, rest, rfl, hopened, -⟩ := hends.exists_append hback.symm
  obtain ⟨front', written, rfl, hfront, hwritten⟩ := hopened.exists_append rfl
  exact ⟨front', ⟨written, hwritten, List.prefix_append _ _⟩, hfront.lineEnds_eq⟩

/-- The places of start tags in a text that is written with its own line ends. -/
theorem exists_places (mark : List Char) {plain text : List Char} (hends : LineEnds plain text)
    (hmark : lineEnds mark = 0) {elements : List XmlElement} {places : List (List Char × StartTag)}
    (hmarks : List.Forall₂ Marks elements places)
    (hplaces : ∀ place ∈ places, place.1 ++ place.2.chars <+: plain) :
    ∃ places', places'.map Prod.snd = places.map Prod.snd ∧
      List.Forall₂ Marks elements places' ∧ ∀ place ∈ places', StandsIn (mark ++ text) place := by
  induction hmarks with
  | nil => exact ⟨[], rfl, .nil, List.forall_mem_nil _⟩
  | @cons element place elements places hmarked hmarks ih =>
    obtain ⟨hplace, hplaces⟩ := List.forall_mem_cons.mp hplaces
    obtain ⟨places', htags, hmarks', hstands⟩ := ih hplaces
    obtain ⟨front', ⟨written, hwritten, hprefix⟩, hlines⟩ := exists_standsIn hends hplace
    have hline : lineEnds (mark ++ front') = lineEnds place.1 := by
      rw [lineEnds_append, hmark, hlines, Nat.zero_add]
    have hstand : StandsIn (mark ++ text) (mark ++ front', place.2) := by
      refine ⟨written, hwritten, ?_⟩
      rw [List.append_assoc]
      exact List.prefix_append_right_inj mark |>.mpr hprefix
    refine ⟨(mark ++ front', place.2) :: places', ?_, .cons ⟨hmarked.name, hmarked.attrs, ?_⟩
      hmarks', List.forall_mem_cons.mpr ⟨hstand, hstands⟩⟩
    · rw [List.map_cons, List.map_cons, htags]
    · rw [hmarked.line, hline]

/-- The root of a document is the element of its content. -/
theorem preorder_tree (d : Document) :
    d.tree.preorder = preorderAll (d.root.children (1 + lineEnds d.prolog)) := by
  unfold Document.tree Document.root
  split
  · simp only [Content.children, preorderAll, XmlElement.preorder, List.append_nil]
  · simp only [Content.children, preorderAll, XmlElement.preorder, List.append_nil]

/-- The elements of a document in document order are those of its start tags, and each has
the physical line of the text in which its start tag starts. -/
theorem exists_places_of_writes {d : Document} {text : String} (h : Writes text d) :
    ∃ places, places.map Prod.snd = d.startTags ∧ List.Forall₂ Marks d.tree.preorder places ∧
      ∀ place ∈ places, StandsIn text.toList place := by
  obtain ⟨body, hends, htext⟩ := h
  have hmarks := marks_places d.root d.prolog
  rw [← preorder_tree] at hmarks
  have hplaces : ∀ place ∈ d.root.places d.prolog, place.1 ++ place.2.chars <+: d.chars := by
    intro place hplace
    apply prefix_of_mem_places hplace
    rw [Document.chars, ← List.append_assoc]
    exact List.prefix_append _ _
  rcases htext with htext | htext
  · rw [htext]
    exact exists_places [] hends rfl hmarks hplaces
  · rw [htext]
    exact exists_places ['\uFEFF'] hends rfl hmarks hplaces

end Moonfort.Junit
