import Moonfort.Junit.XmlConstructs

/-!
# Documents are read back

The reader gives back the element tree of every document within its bounds, with the
line of each start tag, however the document is written.
-/

namespace Moonfort.Junit

open MoonBit Stateful

namespace XmlReader

/-! ## The loop over a content -/

section Contents

variable {r r' : XmlReader} {s t : List Char} {rounds depth : ℕ} {name : String}
  {children : List XmlElement} {text : List Char} {found : List XmlElement × List Char}

/-- A character that a text does not start with. -/
theorem not_prefix_of_ne {a : List Char} {c d : Char} (h : d ≠ c) : ¬ d :: a <+: c :: s :=
  fun hprefix => h (List.cons_prefix_cons.mp hprefix).1

/-- The close tag. -/
theorem runs_content_closed {tag : StartTag} {closing : List Char} (htag : IsName tag.name)
    (hclosing : ∀ c ∈ closing, IsBlank c) (h : r.rest = closeChars tag closing ++ t) :
    Runs (content (rounds + 1) depth (String.ofList tag.name) children text) r (children, text)
      (r.moved (closeChars tag closing)) := by
  have hopen : r.rest = "</".toList ++ (tag.name ++ (closing ++ ">".toList) ++ t) := by
    rw [h, closeChars, List.append_assoc]
  rw [content]
  apply runs_if_starts (by decide) hopen
  exact (runs_closeTag htag hclosing h).bind (runs_pure _)

/-- A comment inside an element leaves what is collected. -/
theorem runs_content_comment (h : r.rest = commentChars s ++ t) (hs : IsCommentText s)
    (hnext : Runs (content rounds depth name children text) (r.moved (commentChars s)) found r') :
    Runs (content (rounds + 1) depth name children text) r found r' := by
  have hopen : r.rest = "<!--".toList ++ (s ++ ("-->".toList ++ t)) :=
    h.trans (enclosed_append _ _ _ _)
  have hnotClose : ¬ "</".toList <+: r.rest := by
    rw [hopen]
    exact not_prefix_append (by decide) (by decide) _
  rw [content]
  apply runs_unless_starts (by decide) hnotClose
  apply runs_if_starts (by decide) hopen
  exact (runs_comment h hs).bind hnext

/-- A CDATA section inside an element adds its text. -/
theorem runs_content_cdata (h : r.rest = cdataChars s ++ t) (hs : ¬ "]]>".toList <:+: s)
    (hnext : Runs (content rounds depth name children (text ++ s)) (r.moved (cdataChars s))
      found r') :
    Runs (content (rounds + 1) depth name children text) r found r' := by
  have hopen : r.rest = "<![CDATA[".toList ++ (s ++ ("]]>".toList ++ t)) :=
    h.trans (enclosed_append _ _ _ _)
  have hnotClose : ¬ "</".toList <+: r.rest := by
    rw [hopen]
    exact not_prefix_append (by decide) (by decide) _
  have hnotComment : ¬ "<!--".toList <+: r.rest := by
    rw [hopen]
    exact not_prefix_append (by decide) (by decide) _
  rw [content]
  apply runs_unless_starts (by decide) hnotClose
  apply runs_unless_starts (by decide) hnotComment
  apply runs_if_starts (by decide) hopen
  exact (runs_cdata text h hs).bind hnext

/-- An element inside an element becomes the next child. -/
theorem runs_content_element {c : Char} {child : XmlElement} {r1 : XmlReader}
    (h : r.rest = '<' :: c :: s) (hc : IsNameStart c)
    (hchild : Runs (element rounds (depth + 1)) r child r1)
    (hnext : Runs (content rounds depth name (children ++ [child]) text) r1 found r') :
    Runs (content (rounds + 1) depth name children text) r found r' := by
  have hnot {a : List Char} {d : Char} (hd : nameLetter d = false) :
      ¬ '<' :: d :: a <+: r.rest := by
    rw [h]
    intro hprefix
    exact not_prefix_of_ne (isNameStart_ne hc hd).symm (List.cons_prefix_cons.mp hprefix).2
  have hclose : ¬ "</".toList <+: r.rest := hnot (by decide)
  have hcomment : ¬ "<!--".toList <+: r.rest := hnot (by decide)
  have hcdata : ¬ "<![CDATA[".toList <+: r.rest := hnot (by decide)
  have hopen : r.rest = "<".toList ++ c :: s := h
  rw [content]
  apply runs_unless_starts (by decide) hclose
  apply runs_unless_starts (by decide) hcomment
  apply runs_unless_starts (by decide) hcdata
  apply runs_if_starts (by decide) hopen
  exact hchild.bind hnext

/-- Neither markup nor a reference. -/
theorem runs_content_else {c : Char} (hlt : c ≠ '<') (h : r.rest = c :: s)
    (hnext : Runs (do
      if ← starts "&" then do
        let ch ← entity
        content rounds depth name children (text ++ [ch])
      else do
        let ch ← textCharacter
        content rounds depth name children (text ++ [ch])) r found r') :
    Runs (content (rounds + 1) depth name children text) r found r' := by
  have hnot (a : List Char) : ¬ '<' :: a <+: r.rest := by
    rw [h]
    exact not_prefix_of_ne hlt.symm
  have hclose : ¬ "</".toList <+: r.rest := hnot _
  have hcomment : ¬ "<!--".toList <+: r.rest := hnot _
  have hcdata : ¬ "<![CDATA[".toList <+: r.rest := hnot _
  have hopen : ¬ "<".toList <+: r.rest := hnot _
  rw [content]
  apply runs_unless_starts (by decide) hclose
  apply runs_unless_starts (by decide) hcomment
  apply runs_unless_starts (by decide) hcdata
  exact runs_unless_starts (by decide) hopen hnext

/-- A reference inside an element adds its character. -/
theorem runs_content_reference (ref : Reference) (h : r.rest = ref.chars ++ t)
    (hnext : Runs (content rounds depth name children (text ++ [ref.char])) (r.moved ref.chars)
      found r') :
    Runs (content (rounds + 1) depth name children text) r found r' := by
  have hopen : r.rest = "&".toList ++ (ref.spelling ++ [';'] ++ t) := h
  apply runs_content_else (by decide) hopen
  apply runs_if_starts (by decide) hopen
  exact (runs_entity ref h).bind hnext

/-- A plain character inside an element is added to the text. -/
theorem runs_content_raw {c : Char} (hlt : c ≠ '<') (hamp : c ≠ '&') (h : r.rest = c :: s)
    (hend : ¬ "]]>".toList <+: c :: s)
    (hnext : Runs (content rounds depth name children (text ++ [c])) (r.moved [c]) found r') :
    Runs (content (rounds + 1) depth name children text) r found r' := by
  apply runs_content_else hlt h
  have hnot : ¬ "&".toList <+: r.rest := by
    rw [h]
    exact not_prefix_of_ne hamp.symm
  have hnotEnd : ¬ "]]>".toList <+: r.rest := by
    rw [h]
    exact hend
  have htake : Runs textCharacter r c (r.moved [c]) :=
    runs_unless_starts (by decide) hnotEnd (runs_take h)
  apply runs_unless_starts (by decide) hnot
  exact htake.bind hnext

/-- A tag starts with a letter behind its `<`. -/
theorem exists_tag_chars {tag : StartTag} (htag : IsName tag.name) :
    ∃ c rest, IsNameStart c ∧ tag.chars = '<' :: c :: rest := by
  obtain ⟨c, rest, hname, hc, -⟩ := htag
  exact ⟨c, _, hc, by rw [StartTag.chars, hname]; rfl⟩

/-- The end of a raw text does not stand across the start of a tag. -/
theorem not_prefix_raw {c : Char} {tail : List Char} (h : ¬ "]]>".toList <+: c :: s) :
    ¬ "]]>".toList <+: c :: (s ++ '<' :: tail) := by
  intro hprefix
  match s with
  | [] =>
    have hsecond := (List.cons_prefix_cons.mp (List.cons_prefix_cons.mp hprefix).2).1
    exact absurd hsecond (by decide)
  | [d] =>
    have hthird := (List.cons_prefix_cons.mp (List.cons_prefix_cons.mp
      (List.cons_prefix_cons.mp hprefix).2).2).1
    exact absurd hthird (by decide)
  | d :: e :: s => exact not_prefix_append h (Nat.le_add_left 3 s.length) _ hprefix

/-- Rounds are left behind what a round has read. -/
theorem rounds_moved {u : List Char} (h : r.rest = s ++ u) (hs : s ≠ [])
    (hrounds : 2 * r.rest.length + 1 < rounds + 1) :
    2 * (r.moved s).rest.length + 1 < rounds := by
  have hlength := List.length_pos_iff.mpr hs
  rw [h, List.length_append] at hrounds
  rw [rest_moved h]
  omega

/-- A self-closing tag has characters. -/
theorem emptyChars_ne_nil {tag : StartTag} (htag : IsName tag.name) : emptyChars tag ≠ [] := by
  obtain ⟨d, tail, -, htail⟩ := exists_tag_chars htag
  rw [emptyChars, htail]
  exact List.cons_ne_nil _ _

/-- A tag that opens an element has at least two characters. -/
theorem two_le_length_openChars {tag : StartTag} (htag : IsName tag.name) :
    2 ≤ (openChars tag).length := by
  obtain ⟨d, tail, -, htail⟩ := exists_tag_chars htag
  rw [openChars, htail, List.length_append, List.length_cons, List.length_cons]
  omega

/-- The content of a child has a round less, and at least two characters less to read. -/
theorem rounds_inside {child : StartTag} {u : List Char} (hchild : IsName child.name)
    (h : r.rest = openChars child ++ u) (hrounds : 2 * r.rest.length + 1 < rounds + 2) :
    2 * ((r.moved (openChars child)).counted 1).rest.length + 1 < rounds := by
  have htwo := two_le_length_openChars hchild
  rw [h, List.length_append] at hrounds
  rw [rest_counted, rest_moved h]
  omega

/-- A content up to the close tag behind it. -/
theorem runs_content {c : Content} {tag : StartTag} {closing : List Char}
    (children : List XmlElement) (text : List Char) (hc : c.WellFormed)
    (htag : IsName tag.name) (hclosing : ∀ d ∈ closing, IsBlank d)
    (h : r.rest = c.chars ++ (closeChars tag closing ++ t)) (hdepth : depth + c.depth ≤ 32)
    (hnodes : r.nodes + c.elements ≤ 20000) (hrounds : 2 * r.rest.length + 1 < rounds) :
    Runs (content rounds depth (String.ofList tag.name) children text) r
      (children ++ c.children r.line, text ++ c.text)
      ((r.moved (c.chars ++ closeChars tag closing)).counted c.elements) := by
  induction c generalizing r rounds depth tag closing children text t with
  | nil =>
    obtain ⟨rounds, rfl⟩ := Nat.exists_eq_succ_of_ne_zero (Nat.ne_of_gt (Nat.zero_lt_of_lt hrounds))
    rw [Content.children, Content.text, List.append_nil, List.append_nil]
    exact runs_content_closed htag hclosing h
  | raw d rest ih =>
    obtain ⟨rounds, rfl⟩ := Nat.exists_eq_succ_of_ne_zero (Nat.ne_of_gt (Nat.zero_lt_of_lt hrounds))
    obtain ⟨hlt, hamp, hend, hrest⟩ := hc
    have hraw : r.rest = [d] ++ (rest.chars ++ (closeChars tag closing ++ t)) := h
    have hmore := rounds_moved hraw (List.cons_ne_nil _ _) hrounds
    have hnext := ih children (text ++ [d]) hrest htag hclosing
      (rest_moved hraw) hdepth hnodes hmore
    rw [moved_moved, List.append_assoc] at hnext
    exact runs_content_raw hlt hamp hraw (not_prefix_raw hend) hnext
  | reference ref rest ih =>
    obtain ⟨rounds, rfl⟩ := Nat.exists_eq_succ_of_ne_zero (Nat.ne_of_gt (Nat.zero_lt_of_lt hrounds))
    rw [Content.chars, List.append_assoc] at h
    have hmore := rounds_moved h (List.cons_ne_nil _ _) hrounds
    have hnext := ih children (text ++ [ref.char]) hc htag hclosing
      (rest_moved h) hdepth hnodes hmore
    rw [moved_moved, line_moved, ref.lineEnds_chars, List.append_assoc] at hnext
    rw [Content.chars, List.append_assoc]
    exact runs_content_reference ref h hnext
  | cdata s rest ih =>
    obtain ⟨rounds, rfl⟩ := Nat.exists_eq_succ_of_ne_zero (Nat.ne_of_gt (Nat.zero_lt_of_lt hrounds))
    rw [Content.chars, List.append_assoc] at h
    have hmore := rounds_moved h (List.cons_ne_nil _ _) hrounds
    have hnext := ih children (text ++ s) hc.2 htag hclosing
      (rest_moved h) hdepth hnodes hmore
    rw [moved_moved, List.append_assoc] at hnext
    rw [Content.chars, List.append_assoc]
    exact runs_content_cdata h hc.1 hnext
  | comment s rest ih =>
    obtain ⟨rounds, rfl⟩ := Nat.exists_eq_succ_of_ne_zero (Nat.ne_of_gt (Nat.zero_lt_of_lt hrounds))
    rw [Content.chars, List.append_assoc] at h
    have hmore := rounds_moved h (List.cons_ne_nil _ _) hrounds
    have hnext := ih children text hc.2 htag hclosing
      (rest_moved h) hdepth hnodes hmore
    rw [moved_moved] at hnext
    rw [Content.chars, List.append_assoc]
    exact runs_content_comment h hc.1 hnext
  | empty child rest ih =>
    obtain ⟨rounds, rfl⟩ := Nat.exists_eq_succ_of_ne_zero (Nat.ne_of_gt (Nat.zero_lt_of_lt hrounds))
    obtain ⟨hchild, hrest⟩ := hc
    obtain ⟨d, tail, hd, htail⟩ := exists_tag_chars hchild.name
    rw [Content.chars, List.append_assoc] at h
    rw [Content.depth] at hdepth
    rw [Content.elements] at hnodes
    have hmore := rounds_moved h (emptyChars_ne_nil hchild.name) hrounds
    obtain ⟨fewer, rfl⟩ := Nat.exists_eq_succ_of_ne_zero (Nat.ne_of_gt (Nat.zero_lt_of_lt hmore))
    have hread : Runs (element (fewer + 1) (depth + 1)) r _ _ :=
      runs_element_empty hchild (by omega) (by omega) h
    have hmoved : ((r.moved (emptyChars child)).counted 1).rest =
        rest.chars ++ (closeChars tag closing ++ t) := rest_moved h
    have hcounted : ((r.moved (emptyChars child)).counted 1).nodes + rest.elements ≤ 20000 := by
      rw [nodes_counted, nodes_moved]
      omega
    have hlevels : depth + rest.depth ≤ 32 := by omega
    have hnext := ih (children ++ [⟨String.ofList child.name, child.attrs, [], "", r.line⟩]) text
      hrest htag hclosing hmoved hlevels hcounted hmore
    rw [moved_counted, moved_moved, counted_counted, List.append_assoc] at hnext
    rw [Content.chars, List.append_assoc, Content.elements]
    have hfirst : r.rest = '<' :: d :: (tail ++ "/>".toList ++ (rest.chars ++
        (closeChars tag closing ++ t))) := by
      rw [h, emptyChars, htail]
      rfl
    exact runs_content_element hfirst hd hread hnext
  | element child inside childClosing rest ihInside ih =>
    obtain ⟨rounds, rfl⟩ := Nat.exists_eq_succ_of_ne_zero (Nat.ne_of_gt (Nat.zero_lt_of_lt hrounds))
    obtain ⟨hchild, hinside, hchildClosing, hrest⟩ := hc
    obtain ⟨d, tail, hd, htail⟩ := exists_tag_chars hchild.name
    rw [Content.depth] at hdepth
    rw [Content.elements] at hnodes
    have hopen : r.rest = openChars child ++ (inside.chars ++ (closeChars child childClosing ++
        (rest.chars ++ (closeChars tag closing ++ t)))) := by
      rw [h, Content.chars]
      simp only [List.append_assoc]
    have hwhole : r.rest = (openChars child ++ (inside.chars ++ closeChars child childClosing)) ++
        (rest.chars ++ (closeChars tag closing ++ t)) := by
      rw [hopen]
      simp only [List.append_assoc]
    have hsome : openChars child ≠ [] :=
      List.ne_nil_of_length_pos (Nat.zero_lt_of_lt (two_le_length_openChars hchild.name))
    have hmore := rounds_moved hwhole (List.append_ne_nil_of_left_ne_nil hsome _) hrounds
    obtain ⟨fewer, rfl⟩ := Nat.exists_eq_succ_of_ne_zero (Nat.ne_of_gt (Nat.zero_lt_of_lt hmore))
    have hinsideRounds := rounds_inside hchild.name hopen hrounds
    have hinsideNodes : ((r.moved (openChars child)).counted 1).nodes + inside.elements ≤
        20000 := by
      rw [nodes_counted, nodes_moved]
      omega
    have hinsideDepth : depth + 1 + inside.depth ≤ 32 := by omega
    have hinsideRest : ((r.moved (openChars child)).counted 1).rest = inside.chars ++
        (closeChars child childClosing ++ (rest.chars ++ (closeChars tag closing ++ t))) :=
      rest_moved hopen
    have hread := ihInside [] [] hinside hchild.name hchildClosing hinsideRest hinsideDepth
      hinsideNodes hinsideRounds
    have helement : Runs (element (fewer + 1) (depth + 1)) r _ _ :=
      runs_element_filled hchild (by omega) (by omega) hopen hread
    rw [moved_counted, moved_moved, counted_counted] at helement
    have hnodes' :
        ((r.moved (openChars child ++ (inside.chars ++ closeChars child childClosing))).counted
        (1 + inside.elements)).nodes + rest.elements ≤ 20000 := by
      rw [nodes_counted, nodes_moved]
      omega
    have hlevels : depth + rest.depth ≤ 32 := by omega
    have hbehind : ((r.moved (openChars child ++ (inside.chars ++
        closeChars child childClosing))).counted (1 + inside.elements)).rest =
          rest.chars ++ (closeChars tag closing ++ t) := rest_moved hwhole
    have hnext := ih (children ++ [⟨String.ofList child.name, child.attrs,
      inside.children (r.line + lineEnds (openChars child)), String.ofList inside.text, r.line⟩])
        text hrest htag hclosing hbehind hlevels hnodes' hmore
    rw [moved_counted, moved_moved, counted_counted, List.append_assoc] at hnext
    have hfirst : r.rest = '<' :: d :: (tail ++ ">".toList ++ (inside.chars ++
        (closeChars child childClosing ++ (rest.chars ++ (closeChars tag closing ++ t))))) := by
      rw [hopen, openChars, htail]
      rfl
    have hnext' := runs_content_element hfirst hd helement hnext
    rw [Content.chars, Content.elements]
    simp only [List.append_assoc] at hnext' ⊢
    exact hnext'

end Contents

/-! ## Documents -/

/-- A text that starts with a blank, or with markup that is no declaration. -/
def OpensMarkup (t : List Char) : Prop :=
  ∃ c u, t = c :: u ∧ (IsBlank c ∨ c = '<' ∧ u.head? ≠ some '?')

/-- Such a text does not start with an XML declaration. -/
theorem OpensMarkup.not_declaration {t : List Char} (h : OpensMarkup t) :
    ¬ "<?xml".toList <+: t := by
  obtain ⟨c, u, rfl, hc⟩ := h
  rintro ⟨v, hv⟩
  have hhead : '<' = c := (List.cons.inj hv).1
  have htail : '?' :: ("xml".toList ++ v) = u := (List.cons.inj hv).2
  subst hhead htail
  rcases hc with hblank | ⟨-, hne⟩
  · rcases hblank with heq | heq | heq <;> exact absurd heq (by decide)
  · exact hne rfl

/-- A comment opens markup. -/
theorem opensMarkup_comment (s t : List Char) : OpensMarkup (commentChars s ++ t) :=
  ⟨'<', _, rfl, .inr ⟨rfl, fun heq => absurd (Option.some.inj heq) (by decide)⟩⟩

/-- A start tag opens markup. -/
theorem opensMarkup_tag {tag : StartTag} (htag : IsName tag.name) (t : List Char) :
    OpensMarkup (tag.chars ++ t) := by
  obtain ⟨c, rest, hc, htag⟩ := exists_tag_chars htag
  refine ⟨'<', c :: rest ++ t, by rw [htag]; rfl, .inr ⟨rfl, fun heq => ?_⟩⟩
  exact isNameStart_ne hc (by decide) (Option.some.inj heq)

/-- Blanks before markup still open markup. -/
theorem opensMarkup_blanks {s t : List Char} (hs : ∀ c ∈ s, IsBlank c) (ht : OpensMarkup t) :
    OpensMarkup (s ++ t) := by
  cases s with
  | nil => exact ht
  | cons c s => exact ⟨c, s ++ t, rfl, .inl (hs c List.mem_cons_self)⟩

/-- Comments and blanks before markup still open markup. -/
theorem opensMarkup_misc {m : Misc} {t : List Char} (hm : m.WellFormed) (ht : OpensMarkup t) :
    OpensMarkup (m.chars ++ t) := by
  have htrailing := opensMarkup_blanks hm.trailing ht
  rw [Misc.chars, List.append_assoc]
  cases hcomments : m.comments with
  | nil => exact htrailing
  | cons item rest =>
    have hmem : item ∈ m.comments := by
      rw [hcomments]
      exact List.mem_cons_self
    rw [Misc.commentsChars, List.flatMap_cons, List.append_assoc, List.append_assoc]
    exact opensMarkup_blanks (hm.blanks item hmem) (opensMarkup_comment _ _)

section Documents

variable {r : XmlReader} {t : List Char} {rounds : ℕ}

/-- The loop over comments and blanks takes all of them; one comment is taken in each round. -/
theorem runs_miscLoop {comments : List (List Char × List Char)} {trailing : List Char}
    (hblanks : ∀ item ∈ comments, ∀ c ∈ item.1, IsBlank c)
    (hcomments : ∀ item ∈ comments, IsCommentText item.2)
    (htrailing : ∀ c ∈ trailing, IsBlank c) (ht : Stops xmlSpace t) (hnot : ¬ "<!--".toList <+: t)
    (h : r.rest = Misc.commentsChars comments ++ (trailing ++ t))
    (hrounds : comments.length < rounds) :
    Runs (miscLoop rounds) r () (r.moved (Misc.commentsChars comments ++ trailing)) := by
  induction comments generalizing r rounds with
  | nil =>
    obtain ⟨rounds, rfl⟩ := Nat.exists_eq_succ_of_ne_zero (Nat.ne_of_gt hrounds)
    have hspaces : r.rest = trailing ++ t := h
    have hend : ¬ "<!--".toList <+: (r.moved trailing).rest := by
      rw [rest_moved hspaces]
      exact hnot
    apply (runs_spaces hspaces htrailing ht).bind
    exact runs_unless_starts (by decide) hend (runs_pure ())
  | cons item comments ih =>
    obtain ⟨rounds, rfl⟩ := Nat.exists_eq_succ_of_ne_zero (Nat.ne_of_gt (Nat.zero_lt_of_lt hrounds))
    obtain ⟨hitem, hblanks⟩ := List.forall_mem_cons.mp hblanks
    obtain ⟨hcomment, hcomments⟩ := List.forall_mem_cons.mp hcomments
    have hspaces : r.rest = item.1 ++ (commentChars item.2 ++ (Misc.commentsChars comments ++
        (trailing ++ t))) := by
      rw [h, Misc.commentsChars, List.flatMap_cons, List.append_assoc, List.append_assoc]
      rfl
    have hbody := rest_moved hspaces
    have hopen : (r.moved item.1).rest = "<!--".toList ++ (item.2 ++ ("-->".toList ++
        (Misc.commentsChars comments ++ (trailing ++ t)))) :=
      hbody.trans (enclosed_append _ _ _ _)
    have hnext := ih hblanks hcomments (rest_moved hbody) (Nat.lt_of_succ_lt_succ hrounds)
    have hend : r.moved (Misc.commentsChars (item :: comments) ++ trailing) =
        ((r.moved item.1).moved (commentChars item.2)).moved
          (Misc.commentsChars comments ++ trailing) := by
      rw [moved_moved, moved_moved, Misc.commentsChars, List.flatMap_cons]
      simp only [List.append_assoc]
      rfl
    rw [hend]
    apply (runs_spaces hspaces hitem (stops_cons rfl)).bind
    apply runs_if_starts (by decide) hopen
    exact (runs_comment hbody hcomment).bind hnext

/-- Comments and blanks up to something else. -/
theorem runs_misc {m : Misc} (hm : m.WellFormed) (h : r.rest = m.chars ++ t)
    (ht : Stops xmlSpace t) (hnot : ¬ "<!--".toList <+: t) :
    Runs misc r () (r.moved m.chars) := by
  have hcomments : m.comments.length ≤ (Misc.commentsChars m.comments).length := by
    induction m.comments with
    | nil => exact le_refl _
    | cons item comments ih =>
      have hone : 1 ≤ (commentChars item.2).length := Nat.succ_pos _
      rw [Misc.commentsChars, List.flatMap_cons, List.length_append, List.length_append,
        List.length_cons]
      rw [Misc.commentsChars] at ih
      omega
  have hlength := length_rest_lt_rounds r
  rw [h, Misc.chars, List.append_assoc] at hlength
  rw [List.length_append] at hlength
  rw [Misc.chars, List.append_assoc] at h
  apply runs_get.bind
  exact runs_miscLoop hm.blanks hm.comments hm.trailing ht hnot h (by omega)

/-- The attributes that a declaration may have. -/
def declaredPairs : List (List (String × String)) :=
  [[], [("encoding", "UTF-8")], [("encoding", "utf-8")]].flatMap fun encoding =>
    [[], [("standalone", "yes")], [("standalone", "no")]].map fun standalone =>
      ("version", "1.0") :: (encoding ++ standalone)

/-- The attributes of a declaration are among those the reader knows. -/
theorem mem_declaredPairs {d : Declaration} (hd : d.WellFormed) :
    d.attributes.map AttributeSyntax.pair ∈ declaredPairs := by
  obtain ⟨version, encoding, standalone, trailing⟩ := d
  have hencoding : encoding.toList.map AttributeSyntax.pair ∈
      [[], [("encoding", "UTF-8")], [("encoding", "utf-8")]] := by
    cases encoding with
    | none => exact List.mem_cons_self
    | some a => rcases hd.encoding a rfl with h | h <;> simp [h]
  have hstandalone : standalone.toList.map AttributeSyntax.pair ∈
      [[], [("standalone", "yes")], [("standalone", "no")]] := by
    cases standalone with
    | none => exact List.mem_cons_self
    | some a => rcases hd.standalone a rfl with h | h <;> simp [h]
  apply List.mem_flatMap.mpr
  refine ⟨_, hencoding, List.mem_map.mpr ⟨_, hstandalone, ?_⟩⟩
  have hversion := hd.version
  rw [Declaration.attributes, List.map_cons, List.map_append]
  dsimp only at hversion ⊢
  rw [hversion]

/-- `declaration` moves over a written declaration. -/
theorem runs_declaration {d : Declaration} (hd : d.WellFormed) (h : r.rest = d.chars ++ t) :
    Runs declaration r () (r.moved d.chars) := by
  have hpairs := mem_declaredPairs hd
  have hall : ∀ pairs ∈ declaredPairs, pairs.length ≤ 64 ∧ inOrder [] pairs = true ∧
      (∀ pair ∈ pairs, pair.1 ≠ "xmlns") ∧ (pairs.map Prod.fst).Nodup ∧
      declarationAccepted pairs = true := by
    decide
  obtain ⟨hcount, horder, hnames, hdistinct, haccepted⟩ := hall _ hpairs
  rw [List.length_map] at hcount
  have hopen : r.rest = "<?xml".toList ++ (d.attributes.flatMap AttributeSyntax.chars ++
      (d.trailing ++ ("?>".toList ++ t))) := by
    have hchars : d.chars = "<?xml".toList ++ (d.attributes.flatMap AttributeSyntax.chars ++
        (d.trailing ++ "?>".toList)) := rfl
    rw [h, hchars]
    simp only [List.append_assoc]
  have hattributes := rest_moved hopen
  have hread : Runs (attributes "?>") _ (d.attributes.map AttributeSyntax.pair) _ :=
    runs_attributes (.inr rfl) hattributes (.inl (List.prefix_append _ _)) hd.attributes hd.trailing
      hcount (fun _ => horder) hnames hdistinct
  have hclose : ((r.moved "<?xml".toList).moved (d.attributes.flatMap AttributeSyntax.chars ++
      d.trailing)).rest = "?>".toList ++ t := by
    apply rest_moved
    rw [hattributes, List.append_assoc]
  have hend : r.moved d.chars = ((r.moved "<?xml".toList).moved
      (d.attributes.flatMap AttributeSyntax.chars ++ d.trailing)).moved "?>".toList := by
    rw [moved_moved, moved_moved, List.append_assoc]
    rfl
  rw [hend]
  apply runs_if_starts (by decide) hopen
  apply (runs_expect (by decide) hopen).bind
  apply hread.bind
  rw [haccepted, if_pos rfl]
  exact runs_expect (by decide) hclose

/-- The root of a document. -/
theorem runs_root {d : Document} (hd : d.WellFormed) (h : r.rest = d.root.chars ++ t)
    (hnodes : r.nodes = 0) (hline : r.line = 1 + lineEnds d.prolog)
    (hrounds : 2 * r.rest.length + 1 < rounds) :
    Runs (element rounds 1) r d.tree ((r.moved d.root.chars).counted d.root.elements) := by
  obtain ⟨rounds, rfl⟩ := Nat.exists_eq_succ_of_ne_zero (Nat.ne_of_gt (Nat.zero_lt_of_lt hrounds))
  have hroot := hd.root
  have hdepth := hd.depth
  have helements := hd.elements
  unfold Document.root at h hroot hdepth helements ⊢
  unfold Document.tree
  rw [← hline]
  split at h
  next hbody =>
    rw [hbody] at hroot hdepth
    have hempty : r.rest = emptyChars d.tag ++ t := by
      rw [h, Content.chars, Content.chars, List.append_nil]
    have hread : Runs (element (rounds + 1) 1) r _ _ :=
      runs_element_empty hroot.1 (by decide) (by omega) hempty
    simp only [Content.chars, Content.elements, List.append_nil]
    exact hread
  next inside closing hbody =>
    rw [hbody] at hroot hdepth helements
    obtain ⟨htag, hinside, hclosing, -⟩ := hroot
    simp only [Content.depth, Content.elements, Nat.max_zero] at hdepth helements
    have hopen : r.rest = openChars d.tag ++ (inside.chars ++ (closeChars d.tag closing ++ t)) := by
      rw [h, Content.chars, Content.chars, List.append_nil]
      simp only [List.append_assoc]
    have hinsideRest : ((r.moved (openChars d.tag)).counted 1).rest =
        inside.chars ++ (closeChars d.tag closing ++ t) := rest_moved hopen
    have hlength := hrounds
    rw [hopen, List.length_append] at hlength
    have hsome : 1 ≤ (openChars d.tag).length := by
      rw [openChars, List.length_append]
      exact Nat.le_add_left 1 _
    have hinsideRounds : 2 * ((r.moved (openChars d.tag)).counted 1).rest.length + 1 < rounds := by
      rw [hinsideRest]
      omega
    have hinsideNodes :
        ((r.moved (openChars d.tag)).counted 1).nodes + inside.elements ≤ 20000 := by
      rw [nodes_counted, nodes_moved]
      omega
    have hread := runs_content [] [] hinside htag.name hclosing hinsideRest hdepth hinsideNodes
      hinsideRounds
    have helement : Runs (element (rounds + 1) 1) r _ _ :=
      runs_element_filled htag (by decide) (by omega) hopen hread
    rw [moved_counted, moved_moved, counted_counted] at helement
    simp only [Content.chars, Content.elements, List.append_nil, Nat.add_zero]
    exact helement

/-- The root starts with its tag. -/
theorem exists_root_chars (d : Document) : ∃ rest, d.root.chars = d.tag.chars ++ rest := by
  unfold Document.root
  split
  · exact ⟨_, by rw [Content.chars, emptyChars, List.append_assoc]⟩
  · exact ⟨_, by rw [Content.chars, openChars, List.append_assoc]⟩

/-- The root of a document has a name. -/
theorem isName_tag {d : Document} (hd : d.WellFormed) : IsName d.tag.name := by
  have hroot := hd.root
  unfold Document.root at hroot
  split at hroot
  · exact hroot.1.name
  · exact hroot.1.name

/-- The document, and then its end. -/
theorem runs_document {d : Document} (hd : d.WellFormed) :
    ∃ r', Runs document ⟨d.chars, 0, 1, 0⟩ d.tree r' := by
  let start : XmlReader := ⟨d.chars, 0, 1, 0⟩
  let front := d.declaration.elim [] Declaration.chars
  have hname := isName_tag hd
  obtain ⟨rootRest, hroot⟩ := exists_root_chars d
  have hopens : OpensMarkup (d.root.chars ++ d.after.chars) := by
    rw [hroot, List.append_assoc]
    exact opensMarkup_tag hname _
  have hfront : start.rest = front ++ (d.before.chars ++ (d.root.chars ++ d.after.chars)) := by
    have hchars : start.rest = d.chars := rfl
    rw [hchars, Document.chars, Document.prolog, List.append_assoc]
  have hbefore := rest_moved hfront
  have hmiddle := rest_moved hbefore
  have hprolog : (start.moved front).moved d.before.chars = start.moved d.prolog := by
    rw [moved_moved]
    rfl
  rw [hprolog] at hmiddle
  have hdeclaration : Runs declaration start () (start.moved front) := by
    cases hdeclared : d.declaration with
    | none =>
      have hnone : front = [] := by
        change d.declaration.elim [] Declaration.chars = []
        rw [hdeclared]
        rfl
      rw [hnone] at hfront ⊢
      have hmisc := opensMarkup_misc hd.before hopens
      apply runs_unless_starts (by decide) _ (runs_pure ())
      rw [hfront]
      exact hmisc.not_declaration
    | some declared =>
      have hsome : front = declared.chars := by
        change d.declaration.elim [] Declaration.chars = _
        rw [hdeclared]
        rfl
      rw [hsome] at hfront ⊢
      exact runs_declaration (hd.declaration declared hdeclared) hfront
  obtain ⟨c, rest, hc, htag⟩ := exists_tag_chars hname
  have hstops : Stops xmlSpace (d.root.chars ++ d.after.chars) := by
    rw [hroot, htag]
    exact stops_cons rfl
  have hnotComment : ¬ "<!--".toList <+: d.root.chars ++ d.after.chars := by
    rw [hroot, htag]
    intro hprefix
    exact not_prefix_of_ne (isNameStart_ne hc (by decide)).symm (List.cons_prefix_cons.mp hprefix).2
  have hline : (start.moved d.prolog).line = 1 + lineEnds d.prolog := rfl
  have hlength := length_rest_lt_rounds (start.moved d.prolog)
  have hafter : ((start.moved d.prolog).moved d.root.chars).rest = d.after.chars ++ [] := by
    rw [List.append_nil]
    exact rest_moved hmiddle
  let last := (start.moved (d.prolog ++ (d.root.chars ++ d.after.chars))).counted d.root.elements
  have hend : last.position = last.chars.length := by
    change 0 + (d.prolog ++ (d.root.chars ++ d.after.chars)).length = d.chars.length
    rw [Nat.zero_add]
    rfl
  refine ⟨last, ?_⟩
  apply hdeclaration.bind
  apply (runs_misc hd.before hbefore hstops hnotComment).bind
  rw [hprolog]
  apply runs_get.bind
  apply (runs_root hd hmiddle rfl hline (by omega)).bind
  have hmisc := runs_misc (r := ((start.moved d.prolog).moved d.root.chars).counted d.root.elements)
    hd.after hafter (stops_nil _) (by decide)
  apply hmisc.bind
  apply runs_get.bind
  rw [moved_counted, moved_moved, moved_moved, if_pos hend]
  exact runs_pure _

end Documents

end XmlReader

end Moonfort.Junit
