import Moonfort.Executor.LiveOutputWriter

/-!
# Reading a live output

A reader polls a stream while its writer goes on. The host answers the parts of
one poll at successive moments of the writer's run.
-/

namespace Moonfort.Executor

open MoonBit Sandbox

variable {crypto : Crypto} {config : Deployment} {approvalId : String}

/-- The moments at which the parts of one poll are answered. -/
structure PollMoments where
  manifest : WriterState
  clock : WriterState
  lookup : WriterState
  size : WriterState
  whole : WriterState
  page : WriterState
  after : WriterState

namespace PollMoments

/-- The writer runs from each moment to the next one. -/
structure Ordered (crypto : Crypto) (config : Deployment) (approvalId : String)
    (before : WriterState) (moments : PollMoments) : Prop where
  manifest : Writes crypto config approvalId before moments.manifest
  clock : Writes crypto config approvalId moments.manifest moments.clock
  lookup : Writes crypto config approvalId moments.clock moments.lookup
  size : Writes crypto config approvalId moments.lookup moments.size
  whole : Writes crypto config approvalId moments.size moments.whole
  page : Writes crypto config approvalId moments.whole moments.page
  after : Writes crypto config approvalId moments.page moments.after

/-- The answers that the host gives are those of the stream; it may raise instead. -/
structure Truthful (moments : PollMoments) (host : LiveOutputReading) : Prop where
  manifest : host.manifest = none ∨ host.manifest = moments.manifest.manifest
  clock : host.now = moments.clock.now
  blobExists : ∀ found ∈ host.blobExists, found = moments.lookup.blob.isSome
  blobSize : ∀ size ∈ host.blobSize, size = moments.size.bytes.length
  readAt : ∀ position count bytes, host.readAt position count = some bytes →
    bytes = (moments.page.bytes.drop position.toNat).take count.toNat ∧
      (bytes.length : ℤ) = count

/-- The host answers all parts of a poll. -/
structure Faultless (moments : PollMoments) (host : LiveOutputReading) : Prop where
  manifest : host.manifest = moments.manifest.manifest
  blobExists : host.blobExists = some moments.lookup.blob.isSome
  blobSafe : host.blobSafe = some true
  blobSize : host.blobSize = some (moments.size.bytes.length : ℤ)
  complete : host.complete.Faithful moments.whole.bytes

/-- What stays of the stream while a poll is answered. -/
structure Sound (crypto : Crypto) (config : Deployment) (approvalId : String)
    (before : WriterState) (moments : PollMoments) : Prop where
  manifest_consistent : moments.manifest.Consistent crypto config approvalId
  after_consistent : moments.after.Consistent crypto config approvalId
  manifest : before.Later moments.manifest
  clock : moments.manifest.Later moments.clock
  lookup : moments.clock.Later moments.lookup
  size : moments.lookup.Later moments.size
  whole : moments.size.Later moments.whole
  page : moments.whole.Later moments.page
  after : moments.page.Later moments.after

/-- Moments in order see states of the writer, one after the other. -/
theorem Ordered.sound {before : WriterState} {moments : PollMoments}
    (h : moments.Ordered crypto config approvalId before)
    (hbefore : before.Consistent crypto config approvalId) :
    moments.Sound crypto config approvalId before := by
  obtain ⟨hmanifest, hmanifest'⟩ := Writes.keeps h.manifest hbefore
  obtain ⟨hclock, hclock'⟩ := Writes.keeps h.clock hmanifest
  obtain ⟨hlookup, hlookup'⟩ := Writes.keeps h.lookup hclock
  obtain ⟨hsize, hsize'⟩ := Writes.keeps h.size hlookup
  obtain ⟨hwhole, hwhole'⟩ := Writes.keeps h.whole hsize
  obtain ⟨hpage, hpage'⟩ := Writes.keeps h.page hwhole
  obtain ⟨hafter, hafter'⟩ := Writes.keeps h.after hpage
  exact ⟨hmanifest, hafter, hmanifest', hclock', hlookup', hsize', hwhole', hpage', hafter'⟩

end PollMoments

/-- The bytes that the responses have returned. -/
def deliveredBytes (responses : List LiveOutputReadResponse) : List UInt8 :=
  responses.flatMap fun response => (base64Decode response.contentBase64).getD []

/-- The stream, and what its reader has been answered. -/
structure LiveState where
  writer : WriterState
  cursor : ℤ
  responses : List LiveOutputReadResponse

/-- The cursor of the next poll. A response without an error gives it, and so does
an error that the stream itself explains; after an error the reader may also keep
the cursor that it has. -/
inductive NextCursor (moments : PollMoments) (host : LiveOutputReading) (cursor : ℤ)
    (response : LiveOutputReadResponse) : ℤ → Prop
  | follow (h : response.error = none ∨ moments.Faultless host) :
      NextCursor moments host cursor response response.nextOffset
  | keep (h : response.error ≠ none) : NextCursor moments host cursor response cursor

/-- A step of the writer, or a poll of the reader with a page size of its choice. -/
inductive LiveStep (crypto : Crypto) (config : Deployment) (approvalId : String) :
    LiveState → LiveState → Prop
  | write {s : LiveState} {w : WriterState}
      (hstep : WriterStep crypto config approvalId s.writer w) :
      LiveStep crypto config approvalId s { s with writer := w }
  | poll {s : LiveState} (moments : PollMoments) (host : LiveOutputReading) (maxBytes : ℤ)
      (response : LiveOutputReadResponse) (cursor : ℤ)
      (hordered : moments.Ordered crypto config approvalId s.writer)
      (htruthful : moments.Truthful host)
      (hread : readLiveOutput crypto host ⟨1, approvalId, s.cursor, maxBytes⟩ config =
        some response)
      (hcursor : NextCursor moments host s.cursor response cursor) :
      LiveStep crypto config approvalId s
        ⟨moments.after, cursor, s.responses ++ [response]⟩
  /-- The call raises, and the reader keeps its cursor. -/
  | raised {s : LiveState} (moments : PollMoments) (host : LiveOutputReading) (maxBytes : ℤ)
      (hordered : moments.Ordered crypto config approvalId s.writer)
      (htruthful : moments.Truthful host)
      (hread : readLiveOutput crypto host ⟨1, approvalId, s.cursor, maxBytes⟩ config = none) :
      LiveStep crypto config approvalId s { s with writer := moments.after }

/-- A stream that has not begun, and a reader that has not polled. -/
def LiveState.initial (now : ℤ) : LiveState := ⟨⟨now, none, none, .idle⟩, 0, []⟩

/-- The states that a stream and its reader can reach. -/
def LiveReachable (crypto : Crypto) (config : Deployment) (approvalId : String) (s : LiveState) :
    Prop :=
  ∃ now, Relation.ReflTransGen (LiveStep crypto config approvalId) (.initial now) s

/-- A stream whose reads are refused from now on: its record has expired, or its
blob is longer than the deployment allows. -/
def WriterState.Closed (config : Deployment) (w : WriterState) : Prop :=
  (∃ record ∈ w.manifest, record.reference.expiresAtMs ≤ w.now) ∨
    config.limits.maxOutputBytes < w.bytes.length

/-- A closed output stays closed. -/
theorem WriterState.Closed.later {w w' : WriterState} (h : w.Closed config) (hlater : w.Later w') :
    w'.Closed config := by
  obtain ⟨record, hrecord, hexpired⟩ | hlong := h
  · obtain ⟨record', hrecord', hexpires⟩ := hlater.manifest record hrecord
    refine .inl ⟨record', hrecord', ?_⟩
    rw [hexpires]
    exact hexpired.trans hlater.now
  · have hlength := hlater.bytes.length_le
    exact .inr (by omega)

/-- The record in the manifest is signed for the bytes that the reader has. -/
def LiveState.Delivered (crypto : Crypto) (s : LiveState) : Prop :=
  ∃ record, s.writer.manifest = some record ∧ SignedFor crypto record s.writer.blob ∧
    s.writer.blob = some (deliveredBytes s.responses)

/-- What holds of a stream and its reader in every run. -/
structure LiveState.Invariant (crypto : Crypto) (config : Deployment) (approvalId : String)
    (s : LiveState) : Prop where
  consistent : s.writer.Consistent crypto config approvalId
  delivered : deliveredBytes s.responses <+: s.writer.bytes
  started : s.writer.manifest = none → deliveredBytes s.responses = []
  cursor : s.cursor = (deliveredBytes s.responses).length ∨ s.cursor = 0 ∧ s.writer.Closed config
  terminal : ∀ response ∈ s.responses, response.terminal = true → response.error = none →
    s.writer.phase = .finished ∧ s.Delivered crypto

/-- One more response delivers its bytes behind the others. -/
theorem deliveredBytes_append (responses : List LiveOutputReadResponse)
    (response : LiveOutputReadResponse) :
    deliveredBytes (responses ++ [response]) =
      deliveredBytes responses ++ (base64Decode response.contentBase64).getD [] := by
  rw [deliveredBytes, List.flatMap_append, List.flatMap_singleton]
  rfl

/-- The page at a cursor holds the bytes from there on. -/
theorem liveOutputPage_eq_some {host : LiveOutputReading} {request : LiveOutputReadRequest}
    {record : LiveOutputRecord} {available : ℤ} {response : LiveOutputReadResponse}
    {bytes : List UInt8}
    (hread : ∀ position count page, host.readAt position count = some page →
      page = (bytes.drop position.toNat).take count.toNat ∧ (page.length : ℤ) = count)
    (h : liveOutputPage host request record available = some response) :
    ∃ page : List UInt8, page <+: bytes.drop request.offset.toNat ∧
      (base64Decode response.contentBase64).getD [] = page ∧
      response.nextOffset = request.offset + page.length ∧
      (response.terminal = true → record.reference.status ≠ "running" ∧
        response.nextOffset = available) := by
  unfold liveOutputPage at h
  dsimp only at h
  generalize min (available - request.offset) _ = count at h
  split at h
  next => cases h
  next page hpage =>
    cases h
    refine ⟨page, ?_, ?_, rfl, ?_⟩
    · split at hpage
      · cases hpage
        exact List.nil_prefix
      · rw [(hread _ _ _ hpage).1]
        exact List.take_prefix _ _
    · rw [base64Decode_encode, Option.getD_some]
    · intro hterminal
      simpa only [Bool.and_eq_true, bne_iff_ne, beq_iff_eq] using hterminal

/-- Bytes behind a prefix of a list prolong it. -/
theorem prefix_append_of_drop {α : Type*} {front page bytes : List α} (hfront : front <+: bytes)
    (hpage : page <+: bytes.drop front.length) : front ++ page <+: bytes := by
  obtain ⟨rest, rfl⟩ := hfront
  rw [List.drop_left] at hpage
  exact (List.prefix_append_right_inj front).mpr hpage

variable {s : LiveState} {moments : PollMoments} {host : LiveOutputReading} {available : ℤ}

/-- What is counted as available is the length of the blob, or the blob does not
exist yet. -/
theorem availableBytes_truthful (htruthful : moments.Truthful host)
    (h : availableBytes host = .bytes available) :
    available = moments.size.bytes.length ∨ available = 0 ∧ moments.lookup.blob = none := by
  unfold availableBytes at h
  split at h
  next => cases h
  next hexists =>
    cases h
    have hfound := htruthful.blobExists false hexists
    exact .inr ⟨rfl, Option.isNone_iff_eq_none.mp (Option.isSome_eq_false_iff.mp hfound.symm)⟩
  next =>
    split at h
    next => cases h
    next => cases h
    next =>
      split at h
      next => cases h
      next size hsize =>
        cases h
        exact .inl (htruthful.blobSize _ hsize)

namespace PollMoments.Sound

variable {before : WriterState}

/-- The lookup comes after the state before the request. -/
theorem before_lookup (h : moments.Sound crypto config approvalId before) :
    before.Later moments.lookup :=
  h.manifest.trans (h.clock.trans h.lookup)

/-- The page comes after the state before the request. -/
theorem before_page (h : moments.Sound crypto config approvalId before) :
    before.Later moments.page :=
  h.before_lookup.trans (h.size.trans (h.whole.trans h.page))

/-- What is counted as available is at least what the blob held before. -/
theorem length_le_available (h : moments.Sound crypto config approvalId before)
    (htruthful : moments.Truthful host) (havailable : availableBytes host = .bytes available) :
    (before.bytes.length : ℤ) ≤ available := by
  have hlookup := h.before_lookup.bytes.length_le
  obtain heq | ⟨heq, hblob⟩ := availableBytes_truthful htruthful havailable
  · have hsize := h.size.bytes.length_le
    omega
  · have hempty : moments.lookup.bytes = [] := by rw [WriterState.bytes, hblob, Option.getD_none]
    rw [hempty, List.length_nil] at hlookup
    omega

/-- Without a fault of the host, a blob that is signed for is found whole. -/
theorem whole_of_signed (h : moments.Sound crypto config approvalId before)
    (hfaultless : moments.Faultless host) {record : LiveOutputRecord}
    (hmanifest : moments.manifest.manifest = some record)
    (hended : record.reference.status ≠ "running")
    (havailable : availableBytes host = .bytes available) :
    terminalBlobError crypto host record available config = "" := by
  obtain ⟨hphase, hsigned⟩ := h.manifest_consistent.final hmanifest hended
  obtain ⟨blob, hblob, hsize, hdigest⟩ := hsigned.whole
  have hlookup := h.clock.trans h.lookup
  have hblobAt : ∀ {w : WriterState}, moments.manifest.Later w → w.blob = some blob := by
    intro w hlater
    exact (hlater.frozen hphase).2.2.trans hblob
  have hbytesAt : ∀ {w : WriterState}, moments.manifest.Later w → w.bytes = blob := by
    intro w hlater
    rw [WriterState.bytes, hblobAt hlater, Option.getD_some]
  have hwhole := hfaultless.complete
  rw [hbytesAt (hlookup.trans (h.size.trans h.whole))] at hwhole
  have hcount : available = blob.length := by
    unfold availableBytes at havailable
    rw [hfaultless.blobExists, hblobAt hlookup, hfaultless.blobSafe, hfaultless.blobSize,
      hbytesAt (hlookup.trans h.size)] at havailable
    cases havailable
    rfl
  have hlimit := sizeBytes_le_of_valid (h.manifest_consistent.published hmanifest).valid
  rw [hsize] at hlimit
  unfold terminalBlobError
  rw [if_neg (by rw [hcount, hsize]; exact not_not.mpr rfl), hcount, hwhole.bounded hlimit]
  dsimp only
  rw [if_neg]
  rw [Bool.not_eq_true', Bool.not_eq_false, constantTimeStringEqual_iff]
  exact hdigest.symm

/-- A page is only answered while the stream is open. -/
theorem not_closed (h : moments.Sound crypto config approvalId before)
    (htruthful : moments.Truthful host) {request : LiveOutputReadRequest}
    {record : LiveOutputRecord} {response : LiveOutputReadResponse}
    (hpage : LivePage crypto host request config record available response)
    (hmanifest : moments.manifest.manifest = some record) : ¬ before.Closed config := by
  rintro (⟨first, hfirst, hexpired⟩ | hlong)
  · obtain ⟨later, hlater, hexpires⟩ := h.manifest.manifest first hfirst
    have hrecord : later = record := Option.some.inj (hlater.symm.trans hmanifest)
    have hnow := h.manifest.now.trans h.clock.now
    have hlive := hpage.live
    rw [htruthful.clock, ← hrecord] at hlive
    omega
  · have havailable := h.length_le_available htruthful hpage.available_eq
    have hlimit := hpage.available_le
    omega

end PollMoments.Sound

namespace LiveState.Invariant

variable {maxBytes : ℤ} {record : LiveOutputRecord} {response : LiveOutputReadResponse}

/-- A page is answered at the reader's own cursor, and its bytes follow the
delivered ones. -/
theorem page (h : s.Invariant crypto config approvalId)
    (hsound : moments.Sound crypto config approvalId s.writer) (htruthful : moments.Truthful host)
    (hpage : LivePage crypto host ⟨1, approvalId, s.cursor, maxBytes⟩ config record available
      response) :
    moments.manifest.manifest = some record ∧
      deliveredBytes (s.responses ++ [response]) <+: moments.page.bytes ∧
      response.nextOffset = (deliveredBytes (s.responses ++ [response])).length ∧
      (response.terminal = true → record.reference.status ≠ "running" ∧
        response.nextOffset = available) := by
  have hmanifest : moments.manifest.manifest = some record := by
    obtain hnone | hsome := htruthful.manifest
    · have hread := hpage.manifest
      rw [hnone] at hread
      cases hread
    · exact hsome.symm.trans hpage.manifest
  have hcursor : s.cursor = (deliveredBytes s.responses).length := by
    obtain hcursor | ⟨-, hclosed⟩ := h.cursor
    · exact hcursor
    · exact absurd hclosed (hsound.not_closed htruthful hpage hmanifest)
  obtain ⟨bytes, hbytes, hcontent, hnext, hterminal⟩ :=
    liveOutputPage_eq_some htruthful.readAt hpage.page
  have hdelivered : deliveredBytes (s.responses ++ [response]) =
      deliveredBytes s.responses ++ bytes := by
    rw [deliveredBytes_append, hcontent]
  refine ⟨hmanifest, ?_, ?_, hterminal⟩
  · rw [hdelivered]
    apply prefix_append_of_drop (h.delivered.trans hsound.before_page.bytes)
    rwa [hcursor, Int.toNat_natCast] at hbytes
  · rw [hnext, hdelivered, hcursor, List.length_append, Nat.cast_add]

/-- A last page is only answered when every signed byte has been delivered. -/
theorem page_terminal (h : s.Invariant crypto config approvalId)
    (hsound : moments.Sound crypto config approvalId s.writer) (htruthful : moments.Truthful host)
    (hpage : LivePage crypto host ⟨1, approvalId, s.cursor, maxBytes⟩ config record available
      response) (hterminal : response.terminal = true) (cursor : ℤ) :
    moments.after.phase = .finished ∧
      Delivered crypto ⟨moments.after, cursor, s.responses ++ [response]⟩ := by
  obtain ⟨hmanifest, hstarts, hnext, hlast⟩ := h.page hsound htruthful hpage
  obtain ⟨hended, havailable⟩ := hlast hterminal
  obtain ⟨hphase, hsigned⟩ := hsound.manifest_consistent.final hmanifest hended
  have hfrozen : ∀ {w w' : WriterState}, w.Later w' →
      w.phase = .finished ∧ w.manifest = some record ∧ w.blob = moments.manifest.blob →
      w'.phase = .finished ∧ w'.manifest = some record ∧ w'.blob = moments.manifest.blob := by
    rintro w w' hlater ⟨hphase, hmanifest, hblob⟩
    obtain ⟨hphase', hmanifest', hblob'⟩ := hlater.frozen hphase
    exact ⟨hphase', hmanifest'.trans hmanifest, hblob'.trans hblob⟩
  have hpageFrozen := hfrozen
    (hsound.clock.trans (hsound.lookup.trans (hsound.size.trans (hsound.whole.trans hsound.page))))
    ⟨hphase, hmanifest, rfl⟩
  have hafterFrozen := hfrozen hsound.after hpageFrozen
  obtain ⟨blob, hblob, hsize, hdigest⟩ := hsigned.whole
  obtain ⟨havailable', -⟩ := terminalBlobError_eq_empty (hpage.whole hended)
  have hwhole : deliveredBytes (s.responses ++ [response]) = blob := by
    rw [WriterState.bytes, hpageFrozen.2.2, hblob, Option.getD_some] at hstarts
    apply hstarts.eq_of_length
    omega
  refine ⟨hafterFrozen.1, record, hafterFrozen.2.1, ?_, ?_⟩
  · exact ⟨hended, blob, hafterFrozen.2.2.trans hblob, hsize, hdigest⟩
  · rw [hwhole]
    exact hafterFrozen.2.2.trans hblob

/-- Nothing has been delivered while no record was published. -/
theorem nothing_before (h : s.Invariant crypto config approvalId) {w : WriterState}
    (hlater : s.writer.Later w) (hnone : w.manifest = none) : deliveredBytes s.responses = [] := by
  apply h.started
  cases hmanifest : s.writer.manifest with
  | none => rfl
  | some record =>
    obtain ⟨record', hrecord', -⟩ := hlater.manifest record hmanifest
    rw [hnone] at hrecord'
    cases hrecord'

/-- Without a fault of the host, an error means that nothing has been delivered
yet or that nothing will be from now on. -/
theorem refused (h : s.Invariant crypto config approvalId)
    (hsound : moments.Sound crypto config approvalId s.writer) (htruthful : moments.Truthful host)
    (hfaultless : moments.Faultless host)
    (hrefusal : LiveRefusal crypto host ⟨1, approvalId, s.cursor, maxBytes⟩ config) :
    deliveredBytes s.responses = [] ∨ moments.after.Closed config := by
  have hafterManifest : moments.manifest.Later moments.after :=
    hsound.clock.trans <| hsound.lookup.trans <| hsound.size.trans <| hsound.whole.trans <|
      hsound.page.trans hsound.after
  cases hrefusal with
  | request hrequest =>
    have hoffset : 0 ≤ s.cursor := by
      obtain hcursor | ⟨hcursor, -⟩ := h.cursor <;> omega
    have hsafe : safeIdentifier approvalId = false := by
      obtain hversion | hsafe | hnegative := hrequest
      · exact absurd rfl hversion
      · exact hsafe
      · exact absurd hoffset (not_le.mpr hnegative)
    cases hmanifest : moments.manifest.manifest with
    | none => exact .inl (h.nothing_before hsound.manifest hmanifest)
    | some record =>
      have hpublished := hsound.manifest_consistent.published hmanifest
      rw [hpublished.safe] at hsafe
      cases hsafe
  | unavailable hnone =>
    rw [hfaultless.manifest] at hnone
    exact .inl (h.nothing_before hsound.manifest hnone)
  | @record record hmanifest hrecord =>
    rw [hfaultless.manifest] at hmanifest
    have hpublished := hsound.manifest_consistent.published hmanifest
    obtain hinvalid | hother | hexpired := hrecord
    · rw [hpublished.valid] at hinvalid
      cases hinvalid
    · exact absurd hpublished.approvalId_eq hother
    · obtain ⟨record', hrecord', hexpires⟩ := hafterManifest.manifest record hmanifest
      refine .inr (.inl ⟨record', hrecord', ?_⟩)
      have hnow := hsound.lookup.trans <| hsound.size.trans <| hsound.whole.trans <|
        hsound.page.trans hsound.after
      rw [hexpires]
      rw [htruthful.clock] at hexpired
      exact hexpired.trans hnow.now
  | blob hrefused =>
    unfold availableBytes at hrefused
    rw [hfaultless.blobExists, hfaultless.blobSafe, hfaultless.blobSize] at hrefused
    cases hexists : moments.lookup.blob.isSome <;> rw [hexists] at hrefused <;> cases hrefused
  | @cursor available havailable hcursor =>
    have hlength := hsound.length_le_available htruthful havailable
    obtain hlong | hbehind := hcursor
    · right
      right
      obtain heq | ⟨heq, -⟩ := availableBytes_truthful htruthful havailable
      · have hafter := (hsound.whole.trans (hsound.page.trans hsound.after)).bytes.length_le
        omega
      · omega
    · have hdelivered := h.delivered.length_le
      have hbehind' : available < s.cursor := hbehind
      obtain hcursor | ⟨hcursor, -⟩ := h.cursor <;> omega
  | broken hmanifest havailable hended hbroken =>
    rw [hfaultless.manifest] at hmanifest
    exact absurd (hsound.whole_of_signed hfaultless hmanifest hended havailable) hbroken

end LiveState.Invariant

namespace LiveState.Invariant

/-- What the reader has been told stays true while the writer goes on. -/
theorem later (h : s.Invariant crypto config approvalId) {w : WriterState}
    (hconsistent : w.Consistent crypto config approvalId) (hlater : s.writer.Later w) :
    LiveState.Invariant crypto config approvalId { s with writer := w } where
  consistent := hconsistent
  delivered := h.delivered.trans hlater.bytes
  started hnone := h.nothing_before hlater hnone
  cursor := by
    obtain hcursor | ⟨hcursor, hclosed⟩ := h.cursor
    · exact .inl hcursor
    · exact .inr ⟨hcursor, hclosed.later hlater⟩
  terminal response hresponse hterminal herror := by
    obtain ⟨hphase, record, hmanifest, hsigned, hblob⟩ :=
      h.terminal response hresponse hterminal herror
    obtain ⟨hphase', hmanifest', hblob'⟩ := hlater.frozen hphase
    refine ⟨hphase', record, hmanifest'.trans hmanifest, ?_, hblob'.trans hblob⟩
    dsimp only
    rwa [hblob']

/-- One poll keeps the invariant. -/
theorem poll (h : s.Invariant crypto config approvalId)
    (hsound : moments.Sound crypto config approvalId s.writer) (htruthful : moments.Truthful host)
    {cursor : ℤ} {response : LiveOutputReadResponse}
    (hread : readLiveOutput crypto host ⟨1, approvalId, s.cursor, maxBytes⟩ config = some response)
    (hcursor : NextCursor moments host s.cursor response cursor) :
    LiveState.Invariant crypto config approvalId
      ⟨moments.after, cursor, s.responses ++ [response]⟩ := by
  have hbase := h.later hsound.after_consistent (hsound.before_page.trans hsound.after)
  obtain ⟨record, available, hpage⟩ | ⟨hrefusal, code, message, rfl⟩ := readLiveOutput_cases hread
  · obtain ⟨hmanifest, hstarts, hnext, -⟩ := h.page hsound htruthful hpage
    refine
      { consistent := hsound.after_consistent
        delivered := hstarts.trans hsound.after.bytes
        started := ?_
        cursor := ?_
        terminal := ?_ }
    · intro hnone
      have hlater := hsound.clock.trans <| hsound.lookup.trans <| hsound.size.trans <|
        hsound.whole.trans <| hsound.page.trans hsound.after
      obtain ⟨record', hrecord', -⟩ := hlater.manifest record hmanifest
      rw [hnone] at hrecord'
      cases hrecord'
    · cases hcursor with
      | follow _ => exact .inl hnext
      | keep herror => exact absurd hpage.error_eq_none herror
    · intro response' hresponse hterminal herror
      rw [List.mem_append, List.mem_singleton] at hresponse
      obtain hearlier | rfl := hresponse
      · obtain ⟨hphase, record', hmanifest', hsigned, hblob⟩ :=
          hbase.terminal response' hearlier hterminal herror
        have hkept : deliveredBytes s.responses <+: deliveredBytes (s.responses ++ [response]) := by
          rw [deliveredBytes_append]
          exact List.prefix_append _ _
        have hwhole := hstarts.trans hsound.after.bytes
        have hblob' : moments.after.blob = some (deliveredBytes s.responses) := hblob
        rw [WriterState.bytes, hblob', Option.getD_some] at hwhole
        refine ⟨hphase, record', hmanifest', hsigned, ?_⟩
        rw [hwhole.eq_of_length_le hkept.length_le]
        exact hblob'
      · exact h.page_terminal hsound htruthful hpage hterminal cursor
  · have hdelivered : deliveredBytes (s.responses ++
        [liveOutputReadError approvalId code message]) = deliveredBytes s.responses := by
      rw [deliveredBytes_append]
      exact List.append_nil _
    refine
      { consistent := hbase.consistent
        delivered := ?_
        started := ?_
        cursor := ?_
        terminal := ?_ }
    · rw [hdelivered]
      exact hbase.delivered
    · rw [hdelivered]
      exact hbase.started
    · rw [hdelivered]
      cases hcursor with
      | follow hfollow =>
        obtain herror | hfaultless := hfollow
        · cases herror
        · obtain hnothing | hclosed := h.refused hsound htruthful hfaultless hrefusal
          · rw [hnothing]
            exact .inl rfl
          · exact .inr ⟨rfl, hclosed⟩
      | keep _ => exact hbase.cursor
    · intro response hresponse hterminal herror
      rw [List.mem_append, List.mem_singleton] at hresponse
      obtain hearlier | rfl := hresponse
      · rw [LiveState.Delivered, hdelivered]
        exact hbase.terminal response hearlier hterminal herror
      · cases herror

/-- A reader that has not polled has missed nothing. -/
theorem initial (now : ℤ) :
    (LiveState.initial now).Invariant crypto config approvalId where
  consistent := ⟨rfl, rfl⟩
  delivered := List.nil_prefix
  started _ := rfl
  cursor := .inl rfl
  terminal response hresponse := by cases hresponse

/-- Every step keeps the invariant. -/
theorem step (h : s.Invariant crypto config approvalId) {s' : LiveState}
    (hstep : LiveStep crypto config approvalId s s') :
    s'.Invariant crypto config approvalId := by
  cases hstep with
  | write hstep =>
    obtain ⟨hconsistent, hlater⟩ := hstep.keeps h.consistent
    exact h.later hconsistent hlater
  | poll moments host maxBytes response cursor hordered htruthful hread hcursor =>
    exact h.poll (hordered.sound h.consistent) htruthful hread hcursor
  | raised moments host maxBytes hordered htruthful hread =>
    have hsound := hordered.sound h.consistent
    exact h.later hsound.after_consistent (hsound.before_page.trans hsound.after)

end LiveState.Invariant

/-- The invariant holds in every reachable state. -/
theorem LiveReachable.invariant (h : LiveReachable crypto config approvalId s) :
    s.Invariant crypto config approvalId := by
  obtain ⟨now, hrun⟩ := h
  induction hrun with
  | refl => exact .initial now
  | tail _ hstep ih => exact ih.step hstep

/-- In every run of a stream and its reader the bytes that the responses have
returned are a prefix of the blob, and a last response without an error has been
returned only when these are all bytes of the blob, of the signed size and the
signed digest. -/
theorem live_output_delivered (crypto : Crypto) (config : Deployment) (approvalId : String)
    (s : LiveState) (h : LiveReachable crypto config approvalId s) :
    deliveredBytes s.responses <+: s.writer.bytes ∧
      ∀ response ∈ s.responses, response.terminal = true → response.error = none →
        ∃ record, s.writer.manifest = some record ∧ record.reference.status ≠ "running" ∧
          s.writer.blob = some (deliveredBytes s.responses) ∧
          record.reference.sizeBytes = (deliveredBytes s.responses).length ∧
          record.reference.sha256 = crypto.digest (deliveredBytes s.responses) := by
  have hinvariant := h.invariant
  refine ⟨hinvariant.delivered, ?_⟩
  intro response hresponse hterminal herror
  obtain ⟨-, record, hmanifest, hsigned, hblob⟩ :=
    hinvariant.terminal response hresponse hterminal herror
  obtain ⟨bytes, hbytes, hsize, hdigest⟩ := hsigned.whole
  have heq : bytes = deliveredBytes s.responses := Option.some.inj (hbytes.symm.trans hblob)
  rw [heq] at hsize hdigest
  exact ⟨record, hmanifest, hsigned.ended, hblob, hsize, hdigest⟩

/-- HMAC and SHA-256 on what the sample stream signs, told apart by its length. -/
def sampleLiveCrypto : Crypto where
  sha256 bytes :=
    if bytes.length = 0 then
      [227, 176, 196, 66, 152, 252, 28, 20, 154, 251, 244, 200, 153, 111, 185, 36, 39, 174, 65, 228,
        100, 155, 147, 76, 164, 149, 153, 27, 120, 82, 184, 85]
    else
      [143, 67, 67, 70, 100, 143, 107, 150, 223, 137, 221, 169, 1, 197, 23, 107, 16, 166, 216, 57,
        97, 221, 60, 26, 200, 139, 89, 178, 220, 50, 122, 164]
  hmac _ message :=
    if message.length = 43 then
      [178, 45, 125, 176, 239, 36, 118, 184, 187, 181, 226, 249, 130, 93, 233, 72, 124, 223, 112,
        118, 175, 95, 199, 214, 157, 14, 192, 193, 65, 160, 55, 0]
    else if message.length = 257 then
      [14, 64, 105, 151, 127, 130, 248, 88, 55, 198, 164, 145, 209, 115, 231, 82, 158, 147, 237,
        229, 112, 110, 149, 203, 74, 238, 169, 206, 95, 212, 70, 234]
    else
      [1, 39, 42, 162, 209, 75, 30, 115, 189, 98, 0, 31, 83, 128, 137, 54, 7, 102, 201, 141, 135,
        202, 32, 77, 201, 49, 72, 238, 185, 189, 209, 176]

/-- The sample functions give digests of 32 bytes. -/
theorem sampleLiveCrypto_sized : sampleLiveCrypto.Sized where
  sha256 bytes := by
    dsimp only [sampleLiveCrypto]
    split <;> rfl
  hmac key message := by
    dsimp only [sampleLiveCrypto]
    split
    · rfl
    · split <;> rfl

/-- The approval digest of the sample stream. -/
def sampleLiveDigest : String := String.ofList (List.replicate 64 'a')

/-- The record of the sample stream in a status, signed for some bytes. -/
def sampleLiveRecord (status : String) (bytes : List UInt8) : LiveOutputRecord :=
  { reference := signLiveOutputReference sampleLiveCrypto
      { streamId := liveOutputStreamId sampleLiveCrypto "approval-1" sampleDeployment
        runId := "run-1"
        status := status
        sizeBytes := bytes.length
        sha256 := sampleLiveCrypto.digest bytes
        expiresAtMs := 60000
        keyId := "key-1"
        signature := "" } "approval-1" sampleLiveDigest sampleDeployment
    approvalId := "approval-1"
    approvalDigest := sampleLiveDigest }

/-- The sample stream with some bytes and a record. -/
def sampleLiveWriter (bytes : List UInt8) (record : LiveOutputRecord) (phase : WriterPhase) :
    WriterState := ⟨0, some bytes, some record, phase⟩

/-- A host that answers what the sample stream holds. -/
def sampleLiveHost (record : LiveOutputRecord) : LiveOutputReading where
  manifest := some record
  now := 0
  blobExists := some true
  blobSafe := some true
  blobSize := some 2
  complete := ⟨some true, some (true, 2), some [[104], [105]], 2, some true⟩
  readAt position count :=
    if 0 ≤ position ∧ 0 ≤ count ∧ position + count ≤ 2 then
      some (([104, 105].drop position.toNat).take count.toNat)
    else none

/-- The page of one byte of the sample stream at a cursor. -/
def sampleLivePage (record : LiveOutputRecord) (offset : ℤ) (byte : UInt8) (terminal : Bool) :
    LiveOutputReadResponse :=
  { protocolVersion := 1
    approvalId := "approval-1"
    streamId := record.reference.streamId
    runId := record.reference.runId
    offset := offset
    nextOffset := offset + 1
    availableBytes := 2
    contentBase64 := base64Encode [byte]
    status := record.reference.status
    terminal := terminal
    retryAfterMs := 0
    error := none }

/-- The live output of the sample run begins. -/
theorem sampleLive_started :
    beginLiveOutput sampleLiveCrypto "run-1" "approval-1" sampleLiveDigest 0 sampleDeployment =
      some (sampleLiveRecord "running" []).reference := by
  rw [beginLiveOutput, if_neg (by decide), if_neg (by decide)]
  rfl

/-- The live output of the sample run is finalized with its two bytes. -/
theorem sampleLive_finalized : finalizeLiveOutput sampleLiveCrypto
    ⟨true, false, true, some 2, (sampleLiveHost (sampleLiveRecord "running" [])).complete⟩
    (sampleLiveRecord "running" []).reference "approval-1" sampleLiveDigest .exited
    sampleDeployment = some (sampleLiveRecord "exited" [104, 105]).reference := by
  have hread : boundedOutputArtifactBytes
      (sampleLiveHost (sampleLiveRecord "running" [])).complete 2
      sampleDeployment.limits.maxOutputBytes = .ok [104, 105] := by decide
  rw [finalizeLiveOutput, if_neg (by decide), if_neg (by decide)]
  dsimp only
  rw [hread]
  rfl

/-- A step of the writer is a step of both. -/
theorem sampleLive_write {w w' : WriterState} {cursor : ℤ}
    {responses : List LiveOutputReadResponse}
    (h : WriterStep sampleLiveCrypto sampleDeployment "approval-1" w w') :
    LiveStep sampleLiveCrypto sampleDeployment "approval-1" ⟨w, cursor, responses⟩
      ⟨w', cursor, responses⟩ := .write h

/-- The records of the sample stream are written. -/
theorem sampleLive_writable :
    liveOutputRecordWritable sampleLiveCrypto (sampleLiveRecord "running" []) sampleDeployment =
      true ∧
    liveOutputRecordWritable sampleLiveCrypto (sampleLiveRecord "exited" [104, 105])
      sampleDeployment = true := by
  have hstarted := beginLiveOutput_writable sampleLiveCrypto_sized sampleDeployment_accepted
    (by decide) sampleLive_started
  refine ⟨hstarted, ?_⟩
  have hpublished := publishedRecord_of_writable hstarted rfl
    (beginLiveOutput_eq_some sampleLive_started).1
  exact finalizeLiveOutput_writable sampleLiveCrypto_sized sampleDeployment_accepted (by decide)
    hpublished.valid hpublished.safe (by decide) sampleLive_finalized

/-- One poll of the whole sample stream while its writer rests. -/
theorem sampleLive_poll {record : LiveOutputRecord} {phase : WriterPhase} {cursor : ℤ}
    {responses : List LiveOutputReadResponse} {response : LiveOutputReadResponse}
    (hpage : LivePage sampleLiveCrypto (sampleLiveHost record) ⟨1, "approval-1", cursor, 1⟩
      sampleDeployment record 2 response) :
    LiveStep sampleLiveCrypto sampleDeployment "approval-1"
      ⟨sampleLiveWriter [104, 105] record phase, cursor, responses⟩
      ⟨sampleLiveWriter [104, 105] record phase, response.nextOffset, responses ++ [response]⟩ := by
  let w := sampleLiveWriter [104, 105] record phase
  have hread := hpage.read rfl (beginLiveOutput_eq_some sampleLive_started).1
  refine .poll ⟨w, w, w, w, w, w, w⟩ (sampleLiveHost record) 1 response _ ?_ ?_ hread
    (.follow (.inl hpage.error_eq_none))
  · exact ⟨.refl, .refl, .refl, .refl, .refl, .refl, .refl⟩
  · refine ⟨.inr rfl, rfl, ?_, ?_, ?_⟩
    · intro found hfound
      exact (Option.some.inj hfound).symm
    · intro size hsize
      exact (Option.some.inj hsize).symm
    · intro position count page hpage
      dsimp only [sampleLiveHost] at hpage
      split at hpage
      next hrange =>
        cases hpage
        refine ⟨rfl, ?_⟩
        have hlength : [104, 105].length = 2 := rfl
        rw [List.length_take, List.length_drop]
        omega
      next => cases hpage

/-- The first byte, read while the run goes on. -/
theorem sampleLive_first :
    LivePage sampleLiveCrypto (sampleLiveHost (sampleLiveRecord "running" []))
      ⟨1, "approval-1", 0, 1⟩ sampleDeployment (sampleLiveRecord "running" []) 2
      (sampleLivePage (sampleLiveRecord "running" []) 0 104 false) where
  manifest := rfl
  valid := (publishedRecord_of_writable sampleLive_writable.1 rfl
    (beginLiveOutput_eq_some sampleLive_started).1).valid
  approvalId := rfl
  live := by decide
  offset_nonneg := by decide
  available_eq := rfl
  offset_le := by decide
  available_le := by decide
  whole hended := absurd rfl hended
  page := rfl

/-- The second byte, read when the run has ended. -/
theorem sampleLive_second :
    LivePage sampleLiveCrypto (sampleLiveHost (sampleLiveRecord "exited" [104, 105]))
      ⟨1, "approval-1", 1, 1⟩ sampleDeployment (sampleLiveRecord "exited" [104, 105]) 2
      (sampleLivePage (sampleLiveRecord "exited" [104, 105]) 1 105 true) where
  manifest := rfl
  valid := (publishedRecord_of_writable sampleLive_writable.2 rfl
    (beginLiveOutput_eq_some sampleLive_started).1).valid
  approvalId := rfl
  live := by decide
  offset_nonneg := by decide
  available_eq := rfl
  offset_le := by decide
  available_le := by decide
  whole _ := by
    have hread : boundedOutputArtifactBytes
        (sampleLiveHost (sampleLiveRecord "exited" [104, 105])).complete 2
        sampleDeployment.limits.maxOutputBytes = .ok [104, 105] := by decide
    have hdigest : constantTimeStringEqual (sampleLiveCrypto.digest [104, 105])
        (sampleLiveRecord "exited" [104, 105]).reference.sha256 = true :=
      (constantTimeStringEqual_iff _ _).mpr rfl
    rw [terminalBlobError, if_neg (by decide), hread]
    dsimp only
    rw [hdigest]
    rfl
  page := rfl

/-- The sample stream after its reader has read the second byte. -/
def sampleLiveState : LiveState :=
  ⟨sampleLiveWriter [104, 105] (sampleLiveRecord "exited" [104, 105]) .finished, 2,
    [sampleLivePage (sampleLiveRecord "running" []) 0 104 false,
      sampleLivePage (sampleLiveRecord "exited" [104, 105]) 1 105 true]⟩

/-- The sample state is reached by one poll before the run ends and one behind it. -/
theorem sampleLiveState_reachable :
    LiveReachable sampleLiveCrypto sampleDeployment "approval-1" sampleLiveState := by
  let started := sampleLiveRecord "running" []
  let final := sampleLiveRecord "exited" [104, 105]
  have hstart : WriterStep sampleLiveCrypto sampleDeployment "approval-1" ⟨0, none, none, .idle⟩
      ⟨0, none, some started, .appending started⟩ :=
    .start "run-1" sampleLiveDigest started.reference rfl sampleLive_started sampleLive_writable.1
  have hcreate : WriterStep sampleLiveCrypto sampleDeployment "approval-1"
      ⟨0, none, some started, .appending started⟩
      (sampleLiveWriter [] started (.appending started)) := .create rfl rfl
  have happend : WriterStep sampleLiveCrypto sampleDeployment "approval-1"
      (sampleLiveWriter [] started (.appending started))
      (sampleLiveWriter ([] ++ [104, 105]) started (.appending started)) :=
    .append [104, 105] rfl rfl
  have hsign : WriterStep sampleLiveCrypto sampleDeployment "approval-1"
      (sampleLiveWriter [104, 105] started (.appending started))
      (sampleLiveWriter [104, 105] started (.signed final)) := by
    refine .sign ⟨true, false, true, some 2, (sampleLiveHost started).complete⟩ .exited
      final.reference rfl ⟨fun _ => rfl, nofun, ?_, ?_⟩ sampleLive_finalized
    · intro size hsize
      exact (Option.some.inj hsize).symm
    · intro chunks hchunks
      rw [← Option.some.inj hchunks]
      rfl
  have hpublish : WriterStep sampleLiveCrypto sampleDeployment "approval-1"
      (sampleLiveWriter [104, 105] started (.signed final))
      (sampleLiveWriter [104, 105] final .finished) := .publish rfl sampleLive_writable.2
  have hfirst : LiveStep sampleLiveCrypto sampleDeployment "approval-1"
      ⟨sampleLiveWriter [104, 105] started (.appending started), 0, []⟩
      ⟨sampleLiveWriter [104, 105] started (.appending started), 1,
        [sampleLivePage started 0 104 false]⟩ := sampleLive_poll sampleLive_first
  have hsecond : LiveStep sampleLiveCrypto sampleDeployment "approval-1"
      ⟨sampleLiveWriter [104, 105] final .finished, 1, [sampleLivePage started 0 104 false]⟩
      sampleLiveState := sampleLive_poll sampleLive_second
  refine ⟨0, ?_⟩
  refine .tail ?_ hsecond
  refine .tail ?_ (sampleLive_write hpublish)
  refine .tail ?_ (sampleLive_write hsign)
  refine .tail ?_ hfirst
  refine .tail ?_ (sampleLive_write happend)
  refine .tail ?_ (sampleLive_write hcreate)
  exact .tail .refl (sampleLive_write hstart)

/-- The bytes delivered in the sample run are those that were written. -/
theorem live_output_delivered_sample :
    deliveredBytes sampleLiveState.responses <+: sampleLiveState.writer.bytes ∧
      ∃ record, sampleLiveState.writer.manifest = some record ∧
        sampleLiveState.writer.blob = some (deliveredBytes sampleLiveState.responses) ∧
        record.reference.sizeBytes = (deliveredBytes sampleLiveState.responses).length := by
  obtain ⟨hstarts, hlast⟩ := live_output_delivered sampleLiveCrypto sampleDeployment "approval-1"
    sampleLiveState sampleLiveState_reachable
  have hmem : sampleLivePage (sampleLiveRecord "exited" [104, 105]) 1 105 true ∈
      sampleLiveState.responses := List.mem_cons_of_mem _ List.mem_cons_self
  obtain ⟨record, hmanifest, -, hblob, hsize, -⟩ := hlast _ hmem rfl rfl
  exact ⟨hstarts, record, hmanifest, hblob, hsize⟩

end Moonfort.Executor
