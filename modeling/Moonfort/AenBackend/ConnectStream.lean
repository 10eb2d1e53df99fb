import Moonfort.Framing
import Moonfort.AenBackend.MessageCodec

/-!
# The Connect stream decoder

`ConnectDecoder` of `connect_codec.mbt`: a buffer and a flag kept across calls
of `feed`, which reads every complete envelope in the buffer. The envelopes of a
stream do not depend on its chunks. What the calls deliver does, because a raise
discards the events of its own call and the flag is tested only between calls.
-/

namespace Moonfort.AenBackend

open MoonBit Framing

/-- What one complete envelope says. -/
inductive Envelope where
  /-- A message, with the event it decodes to. -/
  | message (event : Option AenExecEvent)
  /-- The end of the stream. -/
  | endStream (error : Option String)
  deriving DecidableEq

namespace Envelope

/-- The events pushed for an envelope. -/
def events : Envelope → List AenExecEvent
  | message event => event.toList
  | endStream error => [.connectEnded error]

/-- The envelope sets the `ended` flag. -/
def isEnd : Envelope → Bool
  | message _ => false
  | endStream _ => true

end Envelope

/-- A byte as an `Int`. -/
def byteToInt (byte : UInt8) : Int32 := Int32.ofNat byte.toNat

/-- The payload `pending[5:total]`, where `body` is the buffer past the header. -/
def envelopePayload (body : List UInt8) (len : Int32) : Bytes :=
  ⟨body.take len.toInt.toNat, by
    have := len.toInt_lt
    simp only [List.length_take]
    omega⟩

/-- The `match flag` of `feed`. -/
def readEnvelope (flag : UInt8) (payload : Bytes) : Except Fault Envelope :=
  if flag = 0x00 then (decodeStartResponse payload).map .message
  else if flag = 0x02 then
    .ok (.endStream (if payload.data = [] ∨ payload.data = [0x7B, 0x7D] then none
      else some (utf8DecodeLossy payload)))
  else protocolFailure ("unexpected Connect envelope flag " ++ toString flag.toNat)

/-- The big-endian length in an envelope's header. -/
def envelopeLength (b1 b2 b3 b4 : UInt8) : Int32 :=
  (byteToInt b1 <<< 24) ||| (byteToInt b2 <<< 16) ||| (byteToInt b3 <<< 8) ||| byteToInt b4

/-- The round of the loop of `feed` after an envelope's flag and length. The
length of the whole envelope is computed in 32 bits and may wrap, and slicing to
it then aborts. -/
def readBody (limit : Int32) (flag : UInt8) (len : Int32) (body : List UInt8) :
    Verdict UInt8 Envelope Fault :=
  if 0 ≤ len ∧ len ≤ limit then
    let total := 5 + len
    if (body.length + 5 : ℤ) < total.toInt then .needMore
    else if total < 5 then .fault .outOfBounds
    else
      match readEnvelope flag (envelopePayload body len) with
      | .ok envelope => .frame envelope (body.drop len.toInt.toNat)
      | .error fault => .fault fault
  else .fault (.raised (.protocolFailure "Connect frame exceeded the configured limit"))

/-- One round of the loop of `feed` over the buffer. -/
def nextEnvelope (limit : Int32) : List UInt8 → Verdict UInt8 Envelope Fault
  | flag :: b1 :: b2 :: b3 :: b4 :: body => readBody limit flag (envelopeLength b1 b2 b3 b4) body
  | _ => .needMore

/-- The configured limit on the length of an envelope. -/
abbrev FrameLimit := { limit : Int32 // 0 < limit }

/-- `ConnectDecoder`. -/
structure ConnectDecoder where
  /-- Received bytes not yet read. -/
  pending : List UInt8
  /-- The end envelope was read. -/
  ended : Bool
  /-- The limit on the length of an envelope. -/
  maxFrameBytes : FrameLimit

namespace ConnectDecoder

/-- `ConnectDecoder::new`. -/
def new (maxFrameBytes : FrameLimit) : ConnectDecoder := ⟨[], false, maxFrameBytes⟩

/-- The loop of `feed`, with the events pushed so far. -/
def feedLoop : (rounds : ℕ) → ConnectDecoder → List AenExecEvent →
    Except Fault (ConnectDecoder × List AenExecEvent)
  | 0, _, _ => .error .unfinished
  | rounds + 1, d, events =>
    match nextEnvelope d.maxFrameBytes d.pending with
    | .needMore => .ok (d, events)
    | .fault fault => .error fault
    | .frame envelope rest =>
      feedLoop rounds { d with pending := rest, ended := d.ended || envelope.isEnd }
        (events ++ envelope.events)

/-- `ConnectDecoder::feed`. Every round takes the header of an envelope, so one
more round than there are bytes suffices. -/
def feed (d : ConnectDecoder) (chunk : Bytes) :
    Except Fault (ConnectDecoder × List AenExecEvent) :=
  if d.ended then protocolFailure "Connect stream supplied bytes after end envelope"
  else
    let d := { d with pending := d.pending ++ chunk.data }
    d.feedLoop (d.pending.length + 1) []

/-- How a stream ends for the caller that feeds it. -/
inductive Outcome where
  /-- A call raised. -/
  | raised
  /-- A call aborted. -/
  | aborted
  /-- Every call returned and the end envelope was read. -/
  | finished
  /-- Every call returned and the end envelope was not read. -/
  | unfinished
  deriving DecidableEq

/-- The outcome of a call that does not return. -/
def Outcome.ofFault : Fault → Outcome
  | .raised _ => .raised
  | _ => .aborted

/-- Feed chunks in order until one raises: the events returned and the outcome. -/
def feedAll (d : ConnectDecoder) : List Bytes → List AenExecEvent × Outcome
  | [] => ([], if d.ended then .finished else .unfinished)
  | chunk :: chunks =>
    match d.feed chunk with
    | .error fault => ([], .ofFault fault)
    | .ok (d, events) => ((events ++ (d.feedAll chunks).1), (d.feedAll chunks).2)

end ConnectDecoder

/-! ## Envelopes of a stream -/

/-- A length whose envelope does not wrap is added exactly. -/
theorem toInt_total {len : Int32} (hlen : 0 ≤ len) (htotal : ¬ 5 + len < 5) :
    (5 + len).toInt = 5 + len.toInt := by
  have hlen' : 0 ≤ len.toInt := Int32.le_iff_toInt_le.mp hlen
  have htotal' : ¬ (5 + len).toInt < 5 := fun h => htotal (Int32.lt_iff_toInt_lt.mpr h)
  refine toInt_add_of_lt (by decide) hlen' ?_
  by_contra hlarge
  have := toInt_add_of_le hlen' (not_lt.mp hlarge)
  omega

/-- A complete envelope is a payload of the declared length, read alike before
any input. -/
theorem readBody_frame {limit len : Int32} {flag : UInt8} {body rest : List UInt8}
    {envelope : Envelope} (h : readBody limit flag len body = .frame envelope rest) :
    ∃ payload, body = payload ++ rest ∧
      ∀ t, readBody limit flag len (payload ++ t) = .frame envelope t := by
  unfold readBody at h
  by_cases hlimit : 0 ≤ len ∧ len ≤ limit
  case neg => simp [hlimit] at h
  by_cases hshort : (body.length + 5 : ℤ) < (5 + len).toInt
  case pos => simp only [hlimit, hshort, and_self, if_true, reduceCtorEq] at h
  by_cases hwrap : 5 + len < 5
  case pos =>
    simp only [hlimit, hshort, hwrap, and_self, if_true, if_false, reduceCtorEq] at h
  simp only [hlimit, hshort, hwrap, and_self, if_true, if_false] at h
  have htotal := toInt_total hlimit.1 hwrap
  have hbody : len.toInt.toNat ≤ body.length := by omega
  refine ⟨body.take len.toInt.toNat, ?_, fun t => ?_⟩
  · cases hread : readEnvelope flag (envelopePayload body len) with
    | error fault => simp [hread] at h
    | ok envelope' =>
      simp only [hread, Verdict.frame.injEq] at h
      rw [← h.2, List.take_append_drop]
  · have htake : (body.take len.toInt.toNat).length = len.toInt.toNat :=
      List.length_take_of_le hbody
    have hpayload : envelopePayload (body.take len.toInt.toNat ++ t) len =
        envelopePayload body len := by
      unfold envelopePayload
      congr 1
      exact List.take_left' htake
    have hshort' : ¬ ((body.take len.toInt.toNat ++ t).length + 5 : ℤ) < (5 + len).toInt := by
      rw [List.length_append, htake]
      omega
    simp only [readBody, hlimit, hshort', hwrap, and_self, if_true, if_false, hpayload,
      List.drop_left' htake]
    cases hread : readEnvelope flag (envelopePayload body len) with
    | error fault => simp [hread] at h
    | ok envelope' =>
      simp only [hread, Verdict.frame.injEq] at h
      rw [h.1]

/-- A faulty envelope is faulty before any input. -/
theorem readBody_fault {limit len : Int32} {flag : UInt8} {body : List UInt8} {fault : Fault}
    (t : List UInt8) (h : readBody limit flag len body = .fault fault) :
    readBody limit flag len (body ++ t) = .fault fault := by
  unfold readBody at h ⊢
  by_cases hlimit : 0 ≤ len ∧ len ≤ limit
  case neg => simpa only [if_neg hlimit] using h
  by_cases hshort : (body.length + 5 : ℤ) < (5 + len).toInt
  case pos => simp only [hlimit, hshort, and_self, if_true, reduceCtorEq] at h
  have hshort' : ¬ ((body ++ t).length + 5 : ℤ) < (5 + len).toInt := by
    rw [List.length_append]
    omega
  by_cases hwrap : 5 + len < 5
  case pos => simpa only [hlimit, hshort, hshort', hwrap, and_self, if_true, if_false] using h
  simp only [hlimit, hshort, hshort', hwrap, and_self, if_true, if_false] at h ⊢
  have htotal := toInt_total hlimit.1 hwrap
  have hpayload : envelopePayload (body ++ t) len = envelopePayload body len := by
    unfold envelopePayload
    congr 1
    exact List.take_append_of_le_length (by omega)
  rw [hpayload]
  cases hread : readEnvelope flag (envelopePayload body len) with
  | error fault' => simpa [hread] using h
  | ok envelope => simp [hread] at h

/-- A complete envelope is some input of its own, read alike before any input. -/
theorem nextEnvelope_frame {limit : Int32} {s rest : List UInt8} {envelope : Envelope}
    (h : nextEnvelope limit s = .frame envelope rest) :
    ∃ a, a ≠ [] ∧ s = a ++ rest ∧ ∀ t, nextEnvelope limit (a ++ t) = .frame envelope t := by
  unfold nextEnvelope at h
  split at h
  case h_2 => cases h
  case h_1 flag b1 b2 b3 b4 body =>
    obtain ⟨payload, rfl, hpayload⟩ := readBody_frame h
    exact ⟨flag :: b1 :: b2 :: b3 :: b4 :: payload, by simp, rfl, hpayload⟩

/-- A faulty envelope is faulty before any input. -/
theorem nextEnvelope_fault {limit : Int32} {s : List UInt8} {fault : Fault} (t : List UInt8)
    (h : nextEnvelope limit s = .fault fault) : nextEnvelope limit (s ++ t) = .fault fault := by
  unfold nextEnvelope at h
  split at h
  case h_2 => cases h
  case h_1 => exact readBody_fault t h

/-- The envelopes of a stream under a limit. -/
def envelopes (limit : FrameLimit) : Splitter UInt8 Envelope Fault where
  next := nextEnvelope limit
  next_nil := rfl
  fault_append t h := nextEnvelope_fault t h
  frame_append t h := by
    obtain ⟨a, _, rfl, ha⟩ := nextEnvelope_frame h
    rw [List.append_assoc]
    exact ha _
  frame_prefix h := by
    obtain ⟨a, hne, rfl, ha⟩ := nextEnvelope_frame h
    exact ⟨a, hne, rfl, by simpa using ha []⟩

/-! ## What the calls deliver -/

namespace ConnectDecoder

/-- The answer to a buffer whose envelopes are `frames`, in a call that has
already pushed `events`. -/
def answer (limit : FrameLimit) (ended : Bool) (events : List AenExecEvent)
    (frames : List Envelope) : Tail UInt8 Fault → Except Fault (ConnectDecoder × List AenExecEvent)
  | .fault fault => .error fault
  | .pending rest =>
    .ok (⟨rest, ended || frames.any Envelope.isEnd, limit⟩,
      events ++ frames.flatMap Envelope.events)

variable {limit : FrameLimit} {frames : List Envelope} {tail : Tail UInt8 Fault}

/-- The loop of `feed` reads the envelopes of its buffer. -/
theorem feedLoop_eq {pending : List UInt8} (hreads : (envelopes limit).Reads pending frames tail)
    {rounds : ℕ} (hrounds : pending.length < rounds) (ended : Bool) (events : List AenExecEvent) :
    feedLoop rounds ⟨pending, ended, limit⟩ events = answer limit ended events frames tail := by
  induction hreads generalizing rounds ended events with
  | pending hs =>
    obtain ⟨rounds, rfl⟩ : ∃ n, rounds = n + 1 := ⟨rounds - 1, by omega⟩
    have hs' : nextEnvelope limit _ = .needMore := hs
    simp [feedLoop, hs', answer]
  | fault hs =>
    obtain ⟨rounds, rfl⟩ : ∃ n, rounds = n + 1 := ⟨rounds - 1, by omega⟩
    have hs' : nextEnvelope limit _ = .fault _ := hs
    simp [feedLoop, hs', answer]
  | @frame _ _ _ _ tail hs hrest ih =>
    obtain ⟨rounds, rfl⟩ : ∃ n, rounds = n + 1 := ⟨rounds - 1, by omega⟩
    have hs' : nextEnvelope limit _ = .frame _ _ := hs
    have hlt := Splitter.length_rest_lt hs
    rw [feedLoop, hs']
    dsimp only
    rw [ih (by omega)]
    cases tail <;> simp [answer, Bool.or_assoc]

/-- A call answers what its buffer and its chunk say together. -/
theorem feed_eq {pending : List UInt8} {chunk : Bytes}
    (hreads : (envelopes limit).Reads (pending ++ chunk.data) frames tail) :
    feed ⟨pending, false, limit⟩ chunk = answer limit false [] frames tail :=
  feedLoop_eq hreads (Nat.lt_succ_self _) false []

/-- The byte string that a list of chunks splits. -/
def joined (chunks : List Bytes) : List UInt8 := chunks.flatMap (·.data)

/-- The first chunk of a stream either ends the feeding with the stream's fault,
or takes the stream's first envelopes and leaves the others to the next chunks. -/
theorem reads_first_chunk {pending rest : List UInt8} {chunk : Bytes}
    (hreads : (envelopes limit).Reads (pending ++ (chunk.data ++ rest)) frames tail) :
    (∃ fault, tail = .fault fault ∧
        (envelopes limit).Reads (pending ++ chunk.data) frames (.fault fault)) ∨
      ∃ now later left, frames = now ++ later ∧
        (envelopes limit).Reads (pending ++ chunk.data) now (.pending left) ∧
        (envelopes limit).Reads (left ++ rest) later tail := by
  rw [← List.append_assoc] at hreads
  obtain ⟨now, tail', hnow⟩ := (envelopes limit).exists_reads (pending ++ chunk.data)
  cases tail' with
  | fault fault =>
    obtain ⟨rfl, rfl⟩ := hreads.unique (hnow.append_fault rest)
    exact .inl ⟨fault, rfl, hnow⟩
  | pending left =>
    obtain ⟨later, tail'', hlater⟩ := (envelopes limit).exists_reads (left ++ rest)
    obtain ⟨rfl, rfl⟩ := hreads.unique (hnow.append hlater)
    exact .inr ⟨now, later, left, rfl, hnow, hlater⟩

/-- No envelope among these ends the stream. -/
def NoEnd (frames : List Envelope) : Prop := ∀ envelope ∈ frames, envelope.isEnd = false

/-- Envelopes without an end leave the flag down. -/
theorem NoEnd.any_isEnd (h : NoEnd frames) :
    frames.any Envelope.isEnd = false := by
  simpa [NoEnd] using h

/-- Envelopes that push nothing do not end the stream, since the end pushes an event. -/
theorem noEnd_of_no_events (h : frames.flatMap Envelope.events = []) :
    NoEnd frames := by
  intro envelope hmem
  have := List.flatMap_eq_nil_iff.mp h envelope hmem
  cases envelope with
  | message => rfl
  | endStream => simp [Envelope.events] at this

/-- A stream of messages alone delivers all of them, however it is split. -/
theorem feedAll_of_noEnd {chunks : List Bytes} {pending left : List UInt8}
    (hwait : nextEnvelope limit pending = .needMore)
    (hreads : (envelopes limit).Reads (pending ++ joined chunks) frames (.pending left))
    (hnoEnd : NoEnd frames) :
    feedAll ⟨pending, false, limit⟩ chunks = (frames.flatMap Envelope.events, .unfinished) := by
  induction chunks generalizing pending frames with
  | nil =>
    rw [joined, List.flatMap_nil, List.append_nil] at hreads
    obtain ⟨rfl, _⟩ := hreads.unique (.pending hwait)
    simp [feedAll]
  | cons chunk chunks ih =>
    rw [joined, List.flatMap_cons] at hreads
    rcases reads_first_chunk hreads with ⟨_, htail, _⟩ | ⟨now, later, left', rfl, hnow, hlater⟩
    · cases htail
    · have hnow' : NoEnd now := fun e he => hnoEnd e (List.mem_append_left _ he)
      have hlater' : NoEnd later := fun e he => hnoEnd e (List.mem_append_right _ he)
      simp only [feedAll, feed_eq hnow, answer, hnow'.any_isEnd, Bool.or_false,
        ih hnow.needMore hlater hlater', List.nil_append, List.flatMap_append]

/-- A stream with a fault before any event delivers nothing, however it is split. -/
theorem feedAll_of_fault {chunks : List Bytes} {pending : List UInt8} {fault : Fault}
    (hwait : nextEnvelope limit pending = .needMore)
    (hreads : (envelopes limit).Reads (pending ++ joined chunks) frames (.fault fault))
    (hnoEvents : frames.flatMap Envelope.events = []) :
    feedAll ⟨pending, false, limit⟩ chunks = ([], .ofFault fault) := by
  induction chunks generalizing pending frames with
  | nil =>
    rw [joined, List.flatMap_nil, List.append_nil] at hreads
    cases (hreads.unique (.pending hwait)).2
  | cons chunk chunks ih =>
    rw [joined, List.flatMap_cons] at hreads
    rcases reads_first_chunk hreads with ⟨_, htail, hnow⟩ | ⟨now, later, left, rfl, hnow, hlater⟩
    · cases htail
      simp only [feedAll, feed_eq hnow, answer]
    · rw [List.flatMap_append, List.append_eq_nil_iff] at hnoEvents
      have hnow' := noEnd_of_no_events hnoEvents.1
      simp only [feedAll, feed_eq hnow, answer, hnow'.any_isEnd, Bool.or_false,
        ih hnow.needMore hlater hnoEvents.2, hnoEvents.1, List.nil_append]

/-- A stream that stops at its first end envelope delivers everything, however it
is split into chunks that are not empty. -/
theorem feedAll_of_closed {chunks : List Bytes} {pending : List UInt8} {error : Option String}
    (hwait : nextEnvelope limit pending = .needMore)
    (hreads : (envelopes limit).Reads (pending ++ joined chunks)
      (frames ++ [.endStream error]) (.pending []))
    (hnoEnd : NoEnd frames) (hchunks : ∀ chunk ∈ chunks, chunk.data ≠ []) :
    feedAll ⟨pending, false, limit⟩ chunks =
      (frames.flatMap Envelope.events ++ [.connectEnded error], .finished) := by
  induction chunks generalizing pending frames with
  | nil =>
    rw [joined, List.flatMap_nil, List.append_nil] at hreads
    have := (hreads.unique (.pending hwait)).1
    simp at this
  | cons chunk chunks ih =>
    rw [joined, List.flatMap_cons] at hreads
    rcases reads_first_chunk hreads with ⟨_, htail, _⟩ | ⟨now, later, left, happ, hnow, hlater⟩
    · cases htail
    rcases List.eq_nil_or_concat later with rfl | ⟨later', last, rfl⟩
    · -- The end envelope was in this chunk, so no bytes are left for another.
      rw [List.append_nil] at happ
      subst happ
      have hnone : chunks.flatMap (·.data) = [] :=
        (List.append_eq_nil_iff.mp hlater.eq_pending).2
      have hempty : chunks = [] := by
        rw [List.eq_nil_iff_forall_not_mem]
        intro next hnext
        exact hchunks next (List.mem_cons_of_mem _ hnext)
          (List.flatMap_eq_nil_iff.mp hnone next hnext)
      subst hempty
      simp [feedAll, feed_eq hnow, answer, Envelope.isEnd, Envelope.events]
    · rw [List.concat_eq_append] at happ hlater
      rw [← List.append_assoc] at happ
      obtain ⟨rfl, hlast⟩ := List.append_inj' happ rfl
      obtain rfl : Envelope.endStream error = last := by simpa using hlast
      have hnow' : NoEnd now := fun e he => hnoEnd e (List.mem_append_left _ he)
      have hlater' : NoEnd later' := fun e he => hnoEnd e (List.mem_append_right _ he)
      have hchunks' : ∀ chunk ∈ chunks, chunk.data ≠ [] :=
        fun c hc => hchunks c (List.mem_cons_of_mem _ hc)
      simp only [feedAll, feed_eq hnow, answer, hnow'.any_isEnd, Bool.or_false,
        ih hnow.needMore hlater hlater' hchunks', List.nil_append, List.flatMap_append,
        List.append_assoc]

/-! ## Chunking invariance -/

/-- However the bytes are split into allowed chunks, a fresh decoder delivers the
same events and ends the same way. -/
def ChunkingInvariant (limit : FrameLimit) (allowed : Bytes → Prop) (s : Bytes) : Prop :=
  ∀ chunks chunks' : List Bytes,
    joined chunks = s.data → joined chunks' = s.data →
    (∀ chunk ∈ chunks, allowed chunk) → (∀ chunk ∈ chunks', allowed chunk) →
    (new limit).feedAll chunks = (new limit).feedAll chunks'

/-- The bytes have no end envelope, and a fault only before the first event. -/
def Undisturbed (limit : FrameLimit) (s : Bytes) : Prop :=
  ∃ frames tail, (envelopes limit).Reads s.data frames tail ∧ NoEnd frames ∧
    ∀ fault, tail = .fault fault → frames.flatMap Envelope.events = []

/-- The bytes stop exactly at their first end envelope. -/
def StopsAtEnd (limit : FrameLimit) (s : Bytes) : Prop :=
  ∃ frames error, (envelopes limit).Reads s.data (frames ++ [.endStream error]) (.pending []) ∧
    NoEnd frames

/-- The two ends of a byte string, as chunks. -/
theorem exists_two_chunks {s : Bytes} {a b : List UInt8} (h : s.data = a ++ b) :
    ∃ first second : Bytes, first.data = a ∧ second.data = b ∧
      joined [first, second] = s.data ∧ joined [s] = s.data := by
  have hlength := s.length_lt
  rw [h, List.length_append] at hlength
  exact ⟨⟨a, by omega⟩, ⟨b, by omega⟩, rfl, rfl, by simp [joined, h], by simp [joined]⟩

/-- An undisturbed stream is delivered alike under every split. -/
theorem Undisturbed.chunkingInvariant {s : Bytes}
    (h : Undisturbed limit s) (allowed : Bytes → Prop) : ChunkingInvariant limit allowed s := by
  obtain ⟨frames, tail, hreads, hnoEnd, hfault⟩ := h
  intro chunks chunks' hjoin hjoin' _ _
  cases tail with
  | pending left =>
    rw [new, feedAll_of_noEnd rfl (by rwa [List.nil_append, hjoin]) hnoEnd,
      feedAll_of_noEnd rfl (by rwa [List.nil_append, hjoin']) hnoEnd]
  | fault fault =>
    have hnoEvents := hfault fault rfl
    rw [new, feedAll_of_fault rfl (by rwa [List.nil_append, hjoin]) hnoEvents,
      feedAll_of_fault rfl (by rwa [List.nil_append, hjoin']) hnoEvents]

/-- A stream that stops at its end envelope is delivered alike under every split
into chunks that are not empty. -/
theorem StopsAtEnd.chunkingInvariant {s : Bytes}
    (h : StopsAtEnd limit s) : ChunkingInvariant limit (·.data ≠ []) s := by
  obtain ⟨frames, error, hreads, hnoEnd⟩ := h
  intro chunks chunks' hjoin hjoin' hallowed hallowed'
  rw [new, feedAll_of_closed rfl (by rwa [List.nil_append, hjoin]) hnoEnd hallowed,
    feedAll_of_closed rfl (by rwa [List.nil_append, hjoin']) hnoEnd hallowed']

/-- Fed in one chunk, a stream delivers everything or faults. -/
theorem feedAll_singleton {s : Bytes} (hreads : (envelopes limit).Reads s.data frames tail) :
    (new limit).feedAll [s] =
      match tail with
      | .fault fault => ([], .ofFault fault)
      | .pending _ => (frames.flatMap Envelope.events,
          if frames.any Envelope.isEnd then .finished else .unfinished) := by
  have hfeed : feed ⟨[], false, limit⟩ s = answer limit false [] frames tail := feed_eq hreads
  cases tail <;> simp [new, feedAll, hfeed, answer]

/-- Fed in two chunks, a stream delivers the events of the first before anything
in the second goes wrong. -/
theorem feedAll_pair {first second : Bytes}
    (hreads : (envelopes limit).Reads first.data frames (.pending [])) :
    (new limit).feedAll [first, second] =
      (frames.flatMap Envelope.events ++
          (feedAll ⟨[], frames.any Envelope.isEnd, limit⟩ [second]).1,
        (feedAll ⟨[], frames.any Envelope.isEnd, limit⟩ [second]).2) := by
  have hfeed : feed ⟨[], false, limit⟩ first = answer limit false [] frames (.pending []) :=
    feed_eq hreads
  rw [new, feedAll, hfeed]
  simp [answer]

/-- An invariant stream faults only before its first event: a fault in a later
chunk would leave the events of the earlier ones delivered. -/
theorem ChunkingInvariant.no_events_of_fault {allowed : Bytes → Prop}
    {s : Bytes} (hallowed : ∀ chunk : Bytes, chunk.data ≠ [] → allowed chunk)
    (h : ChunkingInvariant limit allowed s) {frames : List Envelope} {fault : Fault}
    (hreads : (envelopes limit).Reads s.data frames (.fault fault)) :
    frames.flatMap Envelope.events = [] := by
  have hreads' : (envelopes limit).Reads s.data (frames ++ []) (.fault fault) :=
    by simpa using hreads
  obtain ⟨a, b, hs, ha, hb⟩ := hreads'.split
  obtain ⟨first, second, rfl, rfl, hpair, hsingle⟩ := exists_two_chunks hs
  by_cases hfirst : first.data = []
  · rw [hfirst] at ha
    obtain ⟨rfl, _⟩ := ha.unique (.pending rfl)
    rfl
  have hsecond : second.data ≠ [] := by
    intro hnil
    rw [hnil] at hb
    cases (hb.unique (.pending rfl)).2
  have hs' : s.data ≠ [] := by
    rw [hs]
    exact fun hnil => hfirst (List.append_eq_nil_iff.mp hnil).1
  have hsame := h [first, second] [s] hpair hsingle (by simp [hallowed, hfirst, hsecond])
    (by simp [hallowed, hs'])
  rw [feedAll_pair ha, feedAll_singleton hreads] at hsame
  have := (Prod.mk.inj hsame).1
  exact (List.append_eq_nil_iff.mp this).1

/-- An invariant stream that is read to its end and has an end envelope stops at
the first, and empty chunks are not allowed: either would raise after it. -/
theorem ChunkingInvariant.stopsAtEnd {allowed : Bytes → Prop} {s : Bytes}
    (hallowed : ∀ chunk : Bytes, chunk.data ≠ [] → allowed chunk)
    (h : ChunkingInvariant limit allowed s) {frames : List Envelope} {left : List UInt8}
    (hreads : (envelopes limit).Reads s.data frames (.pending left)) (hend : ¬ NoEnd frames) :
    StopsAtEnd limit s ∧ ¬ allowed .empty := by
  obtain ⟨envelope, hfound⟩ : ∃ e, frames.find? Envelope.isEnd = some e := by
    rw [← Option.isSome_iff_exists, List.find?_isSome]
    simpa [NoEnd] using hend
  obtain ⟨hisEnd, before, later, rfl, hbefore⟩ := List.find?_eq_some_iff_append.mp hfound
  cases envelope with
  | message => cases hisEnd
  | endStream error =>
  have hreads' : (envelopes limit).Reads s.data ((before ++ [.endStream error]) ++ later)
      (.pending left) := by simpa using hreads
  obtain ⟨a, b, hs, ha, hb⟩ := hreads'.split
  obtain ⟨first, second, rfl, rfl, hpair, hsingle⟩ := exists_two_chunks hs
  have hfirst : first.data ≠ [] := by
    intro hnil
    rw [hnil] at ha
    have := (ha.unique (.pending rfl)).1
    simp at this
  have hs' : s.data ≠ [] := by
    rw [hs]
    exact fun hnil => hfirst (List.append_eq_nil_iff.mp hnil).1
  have hsecond : ¬ allowed second := by
    intro hsecond
    have hsame := h [first, second] [s] hpair hsingle (by simp [hallowed, hfirst, hsecond])
      (by simp [hallowed, hs'])
    rw [feedAll_pair ha, feedAll_singleton hreads] at hsame
    have := (Prod.mk.inj hsame).2
    simp [Envelope.isEnd, feedAll, feed, protocolFailure, Outcome.ofFault] at this
  have hnil : second.data = [] := by
    by_contra hne
    exact hsecond (hallowed second hne)
  refine ⟨⟨before, error, ?_, fun e he => by simpa using hbefore e he⟩, ?_⟩
  · rw [hs, hnil, List.append_nil]
    exact ha
  · have : second = .empty := by
      cases second
      simpa [Bytes.empty] using hnil
    rwa [← this]

/-- A stream is delivered alike under every split exactly when it is undisturbed,
and under every split into nonempty chunks also when it stops at its end envelope. -/
theorem chunkingInvariant_iff (limit : FrameLimit) (s : Bytes) :
    (ChunkingInvariant limit (fun _ => True) s ↔ Undisturbed limit s) ∧
    (ChunkingInvariant limit (·.data ≠ []) s ↔ Undisturbed limit s ∨ StopsAtEnd limit s) := by
  obtain ⟨frames, tail, hreads⟩ := (envelopes limit).exists_reads s.data
  have hinv {allowed : Bytes → Prop} (hallowed : ∀ chunk : Bytes, chunk.data ≠ [] → allowed chunk)
      (h : ChunkingInvariant limit allowed s) :
      Undisturbed limit s ∨ StopsAtEnd limit s ∧ ¬ allowed .empty := by
    cases tail with
    | fault fault =>
      have hnoEvents := h.no_events_of_fault hallowed hreads
      exact .inl ⟨frames, .fault fault, hreads, noEnd_of_no_events hnoEvents, fun _ _ => hnoEvents⟩
    | pending left =>
      by_cases hend : NoEnd frames
      · exact .inl ⟨frames, .pending left, hreads, hend, fun _ h => by cases h⟩
      · exact .inr (h.stopsAtEnd hallowed hreads hend)
  constructor
  · refine ⟨fun h => ?_, fun h => h.chunkingInvariant _⟩
    rcases hinv (fun _ _ => trivial) h with hquiet | ⟨_, hempty⟩
    · exact hquiet
    · exact absurd trivial hempty
  · constructor
    · intro h
      exact (hinv (fun _ h => h) h).imp_right And.left
    · rintro (h | h)
      · exact h.chunkingInvariant _
      · exact h.chunkingInvariant

/-- An end envelope with a byte after it. -/
def trailingByte : Bytes := ⟨[0x02, 0, 0, 0, 0, 0], by decide⟩

/-- The end envelope alone, and the byte alone. -/
def trailingByteChunks : List Bytes := [⟨[0x02, 0, 0, 0, 0], by decide⟩, ⟨[0], by decide⟩]

/-- In one chunk the byte after the end envelope is accepted; in a chunk of its
own it raises. -/
theorem trailingByte_not_chunkingInvariant :
    ¬ ∀ (limit : FrameLimit) (s : Bytes), ChunkingInvariant limit (·.data ≠ []) s := by
  intro h
  have hsame := h ⟨1, by decide⟩ trailingByte [trailingByte] trailingByteChunks (by decide)
    (by decide) (by decide) (by decide)
  have hone : ((new ⟨1, by decide⟩).feedAll [trailingByte]).2 = .finished := by decide
  have htwo : ((new ⟨1, by decide⟩).feedAll trailingByteChunks).2 = .raised := by decide
  rw [hsame, htwo] at hone
  cases hone

end ConnectDecoder

end Moonfort.AenBackend
