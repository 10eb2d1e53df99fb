import Moonfort.AenBackend.EventEncoding
import Moonfort.AenBackend.ExecReceipts

/-!
# The cap on the output of a run

What `exec` captures of a stream of events, however the stream is cut into chunks:
the first bytes of the output up to its limit. A stream with more output ends in a
killed receipt or in a refusal.
-/

namespace Moonfort.AenBackend

open Framing Methods MoonBit Sandbox

/-! ## Streams of events -/

/-- A message of a stream: a payload and the event that it says. -/
structure EventMessage where
  payload : Bytes
  event : Option AenExecEvent
  decodes : decodeStartResponse payload = .ok event

namespace EventMessage

variable (payload : Bytes)

/-- The message of output on the standard output. -/
def stdout (data : Bytes) (h : encodeOutput 1 data = some payload) : EventMessage :=
  ⟨payload, some (.stdout data), decodeStartResponse_stdout h⟩

/-- The message of output on the standard error. -/
def stderr (data : Bytes) (h : encodeOutput 2 data = some payload) : EventMessage :=
  ⟨payload, some (.stderr data), decodeStartResponse_stderr h⟩

/-- The message of a start. -/
def started (pid : Int32) (hpid : 0 ≤ pid.toInt)
    (h : (encodeStarted pid).bind (encodeResponse 1) = some payload) : EventMessage :=
  ⟨payload, some (.processStarted pid), decodeStartResponse_started hpid h⟩

/-- The message of an exit. -/
def exited (code : ℕ) (status : String) (hcode : code < 2 ^ 30)
    (h : (encodeExited code status).bind (encodeResponse 3) = some payload) : EventMessage :=
  ⟨payload, some (.processExited (Int32.ofNat code) status), decodeStartResponse_exited hcode h⟩

end EventMessage

/-- A stream as a guest sends it: messages, and at most one end envelope behind them. -/
structure EventStream where
  messages : List EventMessage
  ending : Option Bytes

namespace EventStream

variable (stream : EventStream)

/-- The payloads of the envelopes of a stream. -/
def payloads : List Bytes := stream.messages.map EventMessage.payload ++ stream.ending.toList

/-- Every envelope is a byte string of its own, and its length is within the decoder's limit. -/
def Within (limit : FrameLimit) : Prop :=
  ∀ payload ∈ stream.payloads, payload.length ≤ limit.1 ∧ payload.data.length + 5 < 2 ^ 31

/-- The bytes of a stream. -/
def bytes : List UInt8 :=
  stream.messages.flatMap (fun message => envelopeBytes 0 message.payload) ++
    stream.ending.elim [] (envelopeBytes 2)

/-- The events of the messages of a stream. -/
def events : List AenExecEvent := stream.messages.flatMap fun message => message.event.toList

end EventStream

/-- The output that an event carries. -/
def AenExecEvent.outputBytes : AenExecEvent → List UInt8
  | .stdout data | .stderr data => data.data
  | _ => []

/-- The output of a stream in the order of its arrival. -/
def EventStream.output (stream : EventStream) : List UInt8 :=
  stream.events.flatMap AenExecEvent.outputBytes

/-! ## Events of messages -/

/-- An event that a message can say: any but the end of the stream. -/
def AenExecEvent.OfMessage : AenExecEvent → Prop
  | .connectEnded _ => False
  | _ => True

namespace FieldLoop

variable {σ ρ : Type} {P : ρ → Prop}

/-- What all ends of a loop satisfy, its result does. -/
structure EndsIn (loop : FieldLoop σ ρ) (P : ρ → Prop) : Prop where
  varint : ∀ {field act state value result}, loop.varint field = some act →
    act state value = .done result → P result
  bytes : ∀ {field act state payload result}, loop.bytes field = some act →
    act state payload = .ok (.done result) → P result
  finish : ∀ {state result}, loop.finish state = .ok result → P result

/-- A field that ends a loop ends it in a result of the kind. -/
theorem EndsIn.readField {loop : FieldLoop σ ρ} (h : loop.EndsIn P) {data : Bytes} {state : σ}
    {field wire start next : Int32} {result : ρ}
    (hread : loop.readField data state field wire start = .ok (.done result, next)) : P result := by
  unfold FieldLoop.readField at hread
  split at hread
  next act hact =>
    have hvarint : loop.varint field = some act := by
      split at hact
      · exact hact
      · cases hact
    cases hvalue : readVarint data start with
    | error fault =>
      rw [hvalue] at hread
      cases hread
    | ok value =>
      rw [hvalue] at hread
      exact h.varint hvarint (Prod.mk.inj (Except.ok.inj hread)).1
  next =>
    split at hread
    next act hact =>
      have hbytes : loop.bytes field = some act := by
        split at hact
        · exact hact
        · cases hact
      cases hvalue : readBytes data start with
      | error fault =>
        rw [hvalue] at hread
        cases hread
      | ok value =>
        rw [hvalue] at hread
        cases hcontrol : act state value.1 with
        | error fault =>
          simp only [bind, Except.bind, hcontrol] at hread
          cases hread
        | ok control =>
          simp only [bind, Except.bind, hcontrol, Except.map] at hread
          rw [(Prod.mk.inj (Except.ok.inj hread)).1] at hcontrol
          exact h.bytes hbytes hcontrol
    next =>
      cases hskip : skipField data start wire with
      | error fault =>
        rw [hskip] at hread
        cases hread
      | ok next =>
        rw [hskip] at hread
        cases (Prod.mk.inj (Except.ok.inj hread)).1

/-- A scan of the fields ends in a result of the kind. -/
theorem EndsIn.scan {loop : FieldLoop σ ρ} (h : loop.EndsIn P) {data : Bytes} {rounds : ℕ}
    {state : σ} {index : Int32} {result : ρ}
    (hscan : loop.scan data rounds state index = .ok result) : P result := by
  induction rounds generalizing state index with
  | zero => cases hscan
  | succ rounds ih =>
    rw [FieldLoop.scan] at hscan
    split at hscan
    next =>
      cases hkey : readVarint data index with
      | error fault =>
        rw [hkey] at hscan
        cases hscan
      | ok key =>
        rw [hkey] at hscan
        simp only [bind, Except.bind] at hscan
        cases hfield : loop.readField data state (key.1 >>> 3) (key.1 &&& 7) key.2 with
        | error fault =>
          rw [hfield] at hscan
          cases hscan
        | ok answer =>
          obtain ⟨control, next⟩ := answer
          rw [hfield] at hscan
          cases control with
          | next state => exact ih hscan
          | done value =>
            rw [← Except.ok.inj hscan]
            exact h.readField hfield
    next => exact h.finish hscan

/-- A loop over a whole message answers one of its ends. -/
theorem EndsIn.run {loop : FieldLoop σ ρ} (h : loop.EndsIn P) {data : Bytes} {state : σ}
    {result : ρ} (hrun : loop.run data state = .ok result) : P result := h.scan hrun

end FieldLoop

/-- The events that an answer holds are events of messages. -/
def SaysMessage (event : Option AenExecEvent) : Prop := ∀ e ∈ event, e.OfMessage

/-- No event at all is an event of a message. -/
theorem saysMessage_none : SaysMessage none := by
  rintro e ⟨⟩

/-- A decoded start event is an event of a message. -/
theorem saysMessage_startEvent {data : Bytes} {event : Option AenExecEvent}
    (h : decodeStartEvent data = .ok event) : SaysMessage event := by
  have hends : startEventLoop.EndsIn SaysMessage :=
    { varint := by
        intro field act state value result hact hdone
        unfold startEventLoop at hact
        dsimp only at hact
        split at hact
        next =>
          cases hact
          cases hdone
          rintro e ⟨⟩
          trivial
        next => cases hact
      bytes := by
        intro field act state payload result hact
        cases hact
      finish := by
        rintro state result ⟨⟩
        exact saysMessage_none }
  exact hends.run h

/-- A decoded data event is an event of a message. -/
theorem saysMessage_dataEvent {data : Bytes} {event : Option AenExecEvent}
    (h : decodeDataEvent data = .ok event) : SaysMessage event := by
  have hends : dataEventLoop.EndsIn SaysMessage :=
    { varint := by
        intro field act state value result hact
        cases hact
      bytes := by
        intro field act state payload result hact hdone
        unfold dataEventLoop at hact
        dsimp only at hact
        split at hact
        next =>
          cases hact
          cases hdone
          rintro e ⟨⟩
          split <;> trivial
        next => cases hact
      finish := by
        rintro state result ⟨⟩
        exact saysMessage_none }
  exact hends.run h

/-- A decoded end event is an event of a message. -/
theorem ofMessage_endEvent {data : Bytes} {event : AenExecEvent}
    (h : decodeEndEvent data = .ok event) : event.OfMessage := by
  have hends : endEventLoop.EndsIn AenExecEvent.OfMessage :=
    { varint := by
        intro field act state value result hact hdone
        unfold endEventLoop at hact
        dsimp only at hact
        split at hact
        next =>
          cases hact
          cases hdone
        next => cases hact
      bytes := by
        intro field act state payload result hact hdone
        unfold endEventLoop at hact
        dsimp only at hact
        split at hact
        next =>
          cases hact
          dsimp only at hdone
          split at hdone <;> cases hdone
        next => cases hact
      finish := by
        rintro state result ⟨⟩
        trivial }
  exact hends.run h

/-- A nested decoder that ends a loop hands on what it says. -/
theorem exists_of_map_done {σ ρ : Type} {outcome : Except Fault ρ} {result : ρ}
    (h : outcome.map (Control.done (σ := σ)) = .ok (.done result)) : outcome = .ok result := by
  cases outcome with
  | error fault => cases h
  | ok value => exact congrArg Except.ok (Control.done.inj (Except.ok.inj h))

/-- A decoded process event is an event of a message. -/
theorem saysMessage_processEvent {data : Bytes} {event : Option AenExecEvent}
    (h : decodeProcessEvent data = .ok event) : SaysMessage event := by
  have hends : processEventLoop.EndsIn SaysMessage :=
    { varint := by
        intro field act state value result hact
        cases hact
      bytes := by
        intro field act state payload result hact hdone
        unfold processEventLoop at hact
        dsimp only at hact
        split at hact
        next =>
          cases hact
          have hnested := exists_of_map_done hdone
          split at hnested
          next => exact saysMessage_startEvent hnested
          next =>
            split at hnested
            next => exact saysMessage_dataEvent hnested
            next =>
              cases hend : decodeEndEvent payload with
              | error fault =>
                rw [hend] at hnested
                cases hnested
              | ok ended =>
                rw [hend] at hnested
                cases hnested
                rintro e ⟨⟩
                exact ofMessage_endEvent hend
        next => cases hact
      finish := by
        rintro state result ⟨⟩
        exact saysMessage_none }
  exact hends.run h

/-- No message says that the stream ends. -/
theorem EventMessage.saysMessage (message : EventMessage) : SaysMessage message.event := by
  have hends : startResponseLoop.EndsIn SaysMessage :=
    { varint := by
        intro field act state value result hact
        cases hact
      bytes := by
        intro field act state payload result hact hdone
        unfold startResponseLoop at hact
        dsimp only at hact
        split at hact
        next =>
          cases hact
          exact saysMessage_processEvent (exists_of_map_done hdone)
        next => cases hact
      finish := by
        rintro state result ⟨⟩
        exact saysMessage_none }
  exact hends.run message.decodes

/-! ## The envelopes of a stream -/

/-- What an end envelope says. -/
def endEnvelope (payload : Bytes) : Envelope :=
  .endStream (if payload.data = [] ∨ payload.data = [0x7B, 0x7D] then none
    else some (utf8DecodeLossy payload))

/-- The envelopes of a stream. -/
def EventStream.frames (stream : EventStream) : List Envelope :=
  stream.messages.map (fun message => .message message.event) ++
    (stream.ending.map endEnvelope).toList

/-- The decoder reads the envelopes of a stream off its bytes. -/
theorem EventStream.reads (stream : EventStream) {limit : FrameLimit}
    (hwithin : stream.Within limit) :
    (envelopes limit).Reads stream.bytes stream.frames (.pending []) := by
  have hframe (flag : Int32) (payload : Bytes) (hmem : payload ∈ stream.payloads)
      {envelope : Envelope} (hread : readEnvelope (toByte flag) payload = .ok envelope)
      (rest : List UInt8) :
      (envelopes limit).next (envelopeBytes flag payload ++ rest) = .frame envelope rest := by
    have hnext := nextEnvelope_envelopeBytes (hwithin payload hmem).1 (hwithin payload hmem).2 flag
      rest
    rw [hread] at hnext
    exact hnext
  have hending : (envelopes limit).Reads (stream.ending.elim [] (envelopeBytes 2))
      (stream.ending.map endEnvelope).toList (.pending []) := by
    cases hcase : stream.ending with
    | none => exact .pending rfl
    | some payload =>
      have hmem : payload ∈ stream.payloads := by
        rw [EventStream.payloads, hcase]
        exact List.mem_append_right _ List.mem_cons_self
      have hread : readEnvelope (toByte 2) payload = .ok (endEnvelope payload) := rfl
      have hnext := hframe 2 payload hmem hread []
      rw [List.append_nil] at hnext
      exact .frame hnext (.pending rfl)
  have hmessages : ∀ messages : List EventMessage, (∀ message ∈ messages,
      message.payload ∈ stream.payloads) →
      (envelopes limit).Reads
        (messages.flatMap (fun message => envelopeBytes 0 message.payload) ++
          stream.ending.elim [] (envelopeBytes 2))
        (messages.map (fun message => .message message.event) ++
          (stream.ending.map endEnvelope).toList) (.pending []) := by
    intro messages hmem
    induction messages with
    | nil => exact hending
    | cons message messages ih =>
      rw [List.forall_mem_cons] at hmem
      have hread : readEnvelope (toByte 0) message.payload = .ok (.message message.event) := by
        rw [readEnvelope, if_pos (by decide), message.decodes]
        rfl
      rw [List.flatMap_cons, List.append_assoc, List.map_cons, List.cons_append]
      exact .frame (hframe 0 message.payload hmem.1 hread _) (ih hmem.2)
  exact hmessages stream.messages fun message hmem =>
    List.mem_append_left _ (List.mem_map_of_mem hmem)

/-! ## Consuming chunks -/

section Consume

variable {ρ : Type} {step : ρ → AenExecEvent → ρ × Bool}

/-- Folding two lists of events stops in the first or goes on into the second. -/
theorem foldEvents_append (step : ρ → AenExecEvent → ρ × Bool) (state : ρ)
    (a b : List AenExecEvent) :
    foldEvents step state (a ++ b) =
      if (foldEvents step state a).2 = true then foldEvents step state a
      else foldEvents step (foldEvents step state a).1 b := by
  induction a generalizing state with
  | nil => rfl
  | cons event a ih =>
    rw [List.cons_append, foldEvents, foldEvents]
    obtain ⟨next, stops⟩ := step state event
    cases stops with
    | true => rfl
    | false => exact ih next

/-- A consumer that stops at the end of a stream has not seen it when it goes on. -/
theorem noEnd_of_foldEvents (hstops : ∀ state error, (step state (.connectEnded error)).2 = true)
    {frames : List Envelope} {state : ρ}
    (h : (foldEvents step state (frames.flatMap Envelope.events)).2 = false) :
    ConnectDecoder.NoEnd frames := by
  induction frames generalizing state with
  | nil =>
    rintro envelope ⟨⟩
  | cons envelope frames ih =>
    rw [List.flatMap_cons, foldEvents_append] at h
    split at h
    next hstopped =>
      rw [hstopped] at h
      cases h
    next hgoes =>
      have hhead : envelope.isEnd = false := by
        cases envelope with
        | message event => rfl
        | endStream error =>
          refine absurd ?_ hgoes
          have hstop := hstops state error
          rw [Envelope.events, foldEvents]
          split
          next => rfl
          next next hnext =>
            rw [hnext] at hstop
            cases hstop
      exact List.forall_mem_cons.mpr ⟨hhead, ih h⟩

/-- Whatever the chunks, the consumer sees the events of the stream in order. -/
theorem consumeChunks_reads (hstops : ∀ state error, (step state (.connectEnded error)).2 = true)
    {rejected : ρ → ρ} {limit : FrameLimit} {chunks : List Bytes} {pending left : List UInt8}
    {frames : List Envelope} {state : ρ} (hwait : nextEnvelope limit pending = .needMore)
    (hreads : (envelopes limit).Reads (pending ++ ConnectDecoder.joined chunks) frames
      (.pending left)) :
    ∃ decoder, consumeChunks step rejected ⟨pending, false, limit⟩ state chunks =
      some (decoder, (foldEvents step state (frames.flatMap Envelope.events)).1) := by
  induction chunks generalizing pending frames state with
  | nil =>
    rw [ConnectDecoder.joined, List.flatMap_nil, List.append_nil] at hreads
    obtain ⟨rfl, -⟩ := hreads.unique (.pending hwait)
    exact ⟨_, rfl⟩
  | cons chunk chunks ih =>
    rw [ConnectDecoder.joined, List.flatMap_cons] at hreads
    obtain ⟨_, htail, -⟩ | ⟨now, later, left', rfl, hnow, hlater⟩ :=
      ConnectDecoder.reads_first_chunk hreads
    · cases htail
    · rw [consumeChunks, ConnectDecoder.feed_eq hnow]
      dsimp only [ConnectDecoder.answer]
      rw [List.nil_append, List.flatMap_append, foldEvents_append]
      cases hfold : foldEvents step state (now.flatMap Envelope.events) with
      | mk next stopped =>
        cases stopped with
        | true => exact ⟨_, rfl⟩
        | false =>
          have hnoEnd := noEnd_of_foldEvents hstops (by rw [hfold])
          rw [hnoEnd.any_isEnd]
          exact ih hnow.needMore hlater

end Consume

/-! ## The captured output -/

section Capture

variable {limit : ℤ} {process : ExecProcess} {event : AenExecEvent}

/-- An event whose output fits is captured whole. -/
theorem consume_within (hevent : event.OfMessage)
    (hfits : ((process.output ++ event.outputBytes).length : ℤ) ≤ limit) :
    ∃ next, process.consume limit event = (next, false) ∧
      next.output = process.output ++ event.outputBytes ∧
      next.outputLimited = process.outputLimited := by
  rw [List.length_append] at hfits
  cases event with
  | processStarted pid => exact ⟨_, rfl, (List.append_nil _).symm, rfl⟩
  | processExited code status => exact ⟨_, rfl, (List.append_nil _).symm, rfl⟩
  | connectEnded error => exact absurd hevent not_false
  | stdout data =>
    rw [AenExecEvent.outputBytes] at hfits
    refine ⟨_, if_neg ?_, rfl, rfl⟩
    omega
  | stderr data =>
    rw [AenExecEvent.outputBytes] at hfits
    refine ⟨_, if_neg ?_, rfl, rfl⟩
    omega

/-- An event whose output does not fit is captured up to the limit and stops the stream. -/
theorem consume_beyond (hroom : (process.output.length : ℤ) ≤ limit)
    (hmore : limit < (process.output ++ event.outputBytes).length) :
    ∃ next, process.consume limit event = (next, true) ∧
      next.output = (process.output ++ event.outputBytes).take limit.toNat ∧
      next.outputLimited = true := by
  have hcut (data : List UInt8) :
      process.output ++ data.take (limit - process.output.length).toNat =
        (process.output ++ data).take limit.toNat := by
    have hwhole : process.output.take limit.toNat = process.output :=
      List.take_of_length_le (by omega)
    rw [List.take_append, hwhole]
    congr 2
    omega
  rw [List.length_append] at hmore
  cases event with
  | processStarted pid =>
    change limit < ((process.output.length + 0 : ℕ) : ℤ) at hmore
    omega
  | processExited code status =>
    change limit < ((process.output.length + 0 : ℕ) : ℤ) at hmore
    omega
  | connectEnded error =>
    change limit < ((process.output.length + 0 : ℕ) : ℤ) at hmore
    omega
  | stdout data =>
    rw [AenExecEvent.outputBytes] at hmore
    refine ⟨_, if_pos ?_, hcut data.data, rfl⟩
    omega
  | stderr data =>
    rw [AenExecEvent.outputBytes] at hmore
    refine ⟨_, if_pos ?_, hcut data.data, rfl⟩
    omega

/-- What is captured of some events, and whether there was more. -/
theorem foldEvents_consume {events : List AenExecEvent}
    (hevents : ∀ event ∈ events, event.OfMessage)
    (hroom : (process.output.length : ℤ) ≤ limit) (hopen : process.outputLimited = false) :
    let total := process.output ++ events.flatMap AenExecEvent.outputBytes
    let answer := foldEvents (ExecProcess.consume limit) process events
    answer.1.output = total.take limit.toNat ∧
      (answer.1.outputLimited = true ↔ limit < total.length) ∧
      answer.2 = answer.1.outputLimited := by
  induction events generalizing process with
  | nil =>
    have hwhole : process.output.take limit.toNat = process.output :=
      List.take_of_length_le (by omega)
    dsimp only [foldEvents]
    rw [List.flatMap_nil, List.append_nil, hwhole, hopen]
    refine ⟨rfl, ?_, rfl⟩
    simp only [Bool.false_eq_true, false_iff]
    omega
  | cons event events ih =>
    obtain ⟨hevent, hevents⟩ := List.forall_mem_cons.mp hevents
    dsimp only
    rw [foldEvents, List.flatMap_cons, ← List.append_assoc]
    by_cases hfits : ((process.output ++ event.outputBytes).length : ℤ) ≤ limit
    · obtain ⟨next, hstep, houtput, hlimited⟩ := consume_within hevent hfits
      rw [hstep, ← houtput]
      rw [← houtput] at hfits
      exact ih hevents hfits (hlimited.trans hopen)
    · obtain ⟨next, hstep, houtput, hlimited⟩ := consume_beyond hroom (not_le.mp hfits)
      have hlong : limit.toNat ≤ (process.output ++ event.outputBytes).length := by omega
      rw [hstep]
      dsimp only
      rw [List.take_append_of_le_length hlong, hlimited]
      refine ⟨houtput, iff_of_true rfl ?_, rfl⟩
      rw [List.length_append]
      omega

/-- The end of a stream captures nothing. -/
theorem foldEvents_ending (error : Option (Option String)) :
    let answer := foldEvents (ExecProcess.consume limit) process
      (error.map AenExecEvent.connectEnded).toList
    answer.1.output = process.output ∧ answer.1.outputLimited = process.outputLimited := by
  cases error <;> exact ⟨rfl, rfl⟩

end Capture

/-- Every event of a stream is the event of a message. -/
theorem EventStream.events_ofMessage (stream : EventStream) :
    ∀ event ∈ stream.events, event.OfMessage := by
  intro event hevent
  obtain ⟨message, -, hsays⟩ := List.mem_flatMap.mp hevent
  exact message.saysMessage event (Option.mem_toList.mp hsays)

/-- What a stream says: its events, and then that it ends. -/
theorem EventStream.frames_events (stream : EventStream) :
    ∃ error : Option (Option String), stream.frames.flatMap Envelope.events =
      stream.events ++ (error.map AenExecEvent.connectEnded).toList := by
  have hmessages : (stream.messages.map fun message => Envelope.message message.event).flatMap
      Envelope.events = stream.events := by
    rw [EventStream.events, List.flatMap_map]
    rfl
  rw [EventStream.frames, List.flatMap_append, hmessages]
  cases stream.ending with
  | none => exact ⟨none, rfl⟩
  | some payload => exact ⟨some _, rfl⟩

/-- What is captured of a stream, whatever the chunks. -/
theorem read_output {limit : ℤ} (hlimit : 0 ≤ limit) {decoder : ConnectDecoder}
    (hdecoder : decoderFor (limit + 65536) = some decoder) {stream : EventStream}
    (hwithin : stream.Within decoder.maxFrameBytes) {chunks : List Bytes}
    (hchunks : ConnectDecoder.joined chunks = stream.bytes) :
    ∃ final process, ExecProcess.read limit chunks = some (final, process) ∧
      process.output = stream.output.take limit.toNat ∧
      (process.outputLimited = true ↔ limit < stream.output.length) := by
  have hnew : decoder = ⟨[], false, decoder.maxFrameBytes⟩ := by
    unfold decoderFor at hdecoder
    split at hdecoder
    · rw [← Option.some.inj hdecoder]
      rfl
    · cases hdecoder
  obtain ⟨error, hevents⟩ := stream.frames_events
  have hstops (process : ExecProcess) (error : Option String) :
      (process.consume limit (.connectEnded error)).2 = true := rfl
  let start : ExecProcess := ⟨none, none, "", none, false, []⟩
  have hreads : (envelopes decoder.maxFrameBytes).Reads ([] ++ ConnectDecoder.joined chunks)
      stream.frames (.pending []) := by
    rw [List.nil_append, hchunks]
    exact stream.reads hwithin
  have hempty : nextEnvelope decoder.maxFrameBytes.1 [] = .needMore := rfl
  obtain ⟨final, hread⟩ : ∃ final, consumeChunks (ExecProcess.consume limit) ExecProcess.rejected
      ⟨[], false, decoder.maxFrameBytes⟩ start chunks = some (final, (foldEvents
        (ExecProcess.consume limit) start (stream.frames.flatMap Envelope.events)).1) :=
    consumeChunks_reads hstops hempty hreads
  have hroom : (start.output.length : ℤ) ≤ limit := hlimit
  obtain ⟨houtput, hlimited, hstopped⟩ := foldEvents_consume stream.events_ofMessage hroom rfl
  rw [← hnew] at hread
  refine ⟨final, (foldEvents (ExecProcess.consume limit) start
    (stream.frames.flatMap Envelope.events)).1, ?_, ?_⟩
  · rw [ExecProcess.read, hdecoder, Option.bind_some]
    exact hread
  rw [hevents, foldEvents_append]
  split
  next => exact ⟨houtput, hlimited⟩
  next =>
    obtain ⟨hsame, hlimited'⟩ := foldEvents_ending error
    rw [hsame, hlimited']
    exact ⟨houtput, hlimited⟩

/-! ## Runs with more output -/

/-- A receipt of a run that is killed for its output. -/
def IsOutputKill (receipt : SandboxReceipt) : Prop :=
  receipt.status = .killed ∧ receipt.limitReason = some "output_bytes" ∧
    receipt.outputTruncated = true

section Exec

variable {lib : AenLibrary} {backend : Backend} {W : Type} {world : World AenCall AenCall.Res W}
  {c : Controller} {w : W}

/-- A limited output ends in a receipt that says so, or in a refusal. -/
theorem killed_finishLimited {id watcherId : String} {process : ExecProcess} :
    Returns world (finishLimited lib backend id watcherId process)
      (fun receipt _ _ => IsOutputKill receipt ∧ receipt.output = decodeUtf8Lossy process.output ∨
        IsRefusal receipt) c w := by
  apply returns_bind
  rintro ⟨changed, cleanupVerified⟩ c' w'
  dsimp only
  split
  · exact isRefusal_refusedExecReceipt.mono fun _ _ _ => .inr
  · split
    · exact isRefusal_refusedExecReceipt.mono fun _ _ _ => .inr
    · exact returns_pure (.inl ⟨⟨rfl, rfl, rfl⟩, rfl⟩)

/-- A run whose process has more output than it may. -/
theorem killed_exec {prepared : PreparedSandboxCommand} {workingDirectory : String}
    {output : List UInt8} (hanswer : ∀ id executable arguments (answer : StreamAnswer) w w',
      world w (execCall backend id executable arguments workingDirectory) answer w' →
      ∀ decoder process, ExecProcess.read backend.profile.limits.outputBytes answer.chunks =
        some (decoder, process) → process.outputLimited = true ∧ process.output = output) :
    Returns world (exec lib backend prepared workingDirectory)
      (fun receipt _ _ => IsOutputKill receipt ∧ receipt.output = decodeUtf8Lossy output ∨
        IsRefusal receipt) c w := by
  have hrefused {reason : String} {c : Controller} {w : W} :
      Returns world (refusedExecReceipt lib backend reason)
        (fun receipt _ _ => IsOutputKill receipt ∧ receipt.output = decodeUtf8Lossy output ∨
          IsRefusal receipt) c w := isRefusal_refusedExecReceipt.mono fun _ _ _ => .inr
  apply returns_bind
  intro fields c' w'
  split
  next id hstate hid =>
    split
    · exact hrefused
    · split
      · exact hrefused
      · split
        · exact hrefused
        · rename_i executable arguments hargv
          apply returns_bind
          intro watcher c' w'
          split
          · exact hrefused
          · rename_i watcherId
            rw [Returns, ensures_perform_bind]
            intro answer w'' hstep
            have hread := hanswer _ _ _ _ _ _ hstep
            split
            · exact returns_throw _
            · rename_i decoder process hprocess
              obtain ⟨hlimited, rfl⟩ := hread decoder process hprocess
              rw [finishStream, if_pos hlimited]
              exact killed_finishLimited
  next => exact hrefused

end Exec

/-- Whatever the chunks that a stream of events comes in, `exec` captures the first bytes
of its output up to the limit, and notes exactly when there is more. A run with more
output ends in a receipt that is killed for its output, or in a refusal. -/
theorem output_capped (limit : ℤ) (hlimit : 0 ≤ limit) (decoder : ConnectDecoder)
    (hdecoder : decoderFor (limit + 65536) = some decoder) (stream : EventStream)
    (hwithin : stream.Within decoder.maxFrameBytes) :
    (∀ chunks, ConnectDecoder.joined chunks = stream.bytes →
      ∃ final process, ExecProcess.read limit chunks = some (final, process) ∧
        process.output = stream.output.take (min limit stream.output.length).toNat ∧
        (process.outputLimited = true ↔ limit < stream.output.length)) ∧
    (limit < stream.output.length →
      ∀ (lib : AenLibrary) (backend : Backend), backend.profile.limits.outputBytes = limit →
      ∀ (prepared : PreparedSandboxCommand) (workingDirectory : String) (W : Type)
        (world : World AenCall AenCall.Res W),
        (∀ id executable arguments (answer : StreamAnswer) w w',
          world w (execCall backend id executable arguments workingDirectory) answer w' →
          ConnectDecoder.joined answer.chunks = stream.bytes) →
        ∀ c w, Returns world (exec lib backend prepared workingDirectory)
          (fun receipt _ _ => IsOutputKill receipt ∧
            receipt.output = decodeUtf8Lossy (stream.output.take limit.toNat) ∨
            IsRefusal receipt) c w) := by
  constructor
  · intro chunks hchunks
    obtain ⟨final, process, hread, houtput, hlimited⟩ :=
      read_output hlimit hdecoder hwithin hchunks
    have hmin : (min limit stream.output.length).toNat = min limit.toNat stream.output.length := by
      omega
    refine ⟨final, process, hread, ?_, hlimited⟩
    rw [houtput, hmin, List.take_eq_take_min]
  · rintro hmore lib backend rfl prepared workingDirectory W world hworld c w
    apply killed_exec
    intro id executable arguments answer w w' hstep final process hread
    obtain ⟨_, _, hread', houtput, hlimited⟩ :=
      read_output hlimit hdecoder hwithin (hworld _ _ _ _ _ _ hstep)
    rw [hread] at hread'
    cases hread'
    exact ⟨hlimited.mpr hmore, houtput⟩

/-- The process starts, writes a byte to each of its outputs and exits. -/
def sampleEvents : EventStream where
  messages :=
    [.started sampleStartResponse 7 (by decide) (by decide +kernel),
      .stdout ⟨[0x0A, 5, 0x12, 3, 0x0A, 1, 65], by decide⟩ ⟨[65], by decide⟩
        (by decide +kernel),
      .stderr ⟨[0x0A, 5, 0x12, 3, 0x12, 1, 66], by decide⟩ ⟨[66], by decide⟩
        (by decide +kernel),
      .exited ⟨[0x0A, 6, 0x1A, 4, 8, 0, 0x1A, 0], by decide⟩ 0 "" (by decide)
        (by decide +kernel)]
  ending := some .empty

/-- The bytes of the stream in two chunks, the first of which ends within an envelope. -/
def sampleChunks : List Bytes :=
  [⟨sampleEvents.bytes.take 20, by decide⟩, ⟨sampleEvents.bytes.drop 20, by decide⟩]

/-- The two chunks join to the bytes of the events. -/
theorem joined_sampleChunks : ConnectDecoder.joined sampleChunks = sampleEvents.bytes := by
  rw [ConnectDecoder.joined, sampleChunks, List.flatMap_cons, List.flatMap_singleton]
  exact List.take_append_drop 20 _

/-- A guest whose process writes that stream. -/
def sampleOutputHost : GuestHost := sampleGuestOf sampleChunks

/-- The limit of one byte is within the decoder's. -/
theorem within_sampleEvents : sampleEvents.Within ⟨Int32.ofInt (1 + 65536), by decide⟩ := by
  unfold EventStream.Within
  decide

/-- A run of `exec` returns the receipt that is killed for the output of the stream. -/
theorem runs_sampleOutputHost : ∃ receipt c',
    Runs (execWorld sampleOutputHost) ((exec sampleAenLibrary sampleAenBackend samplePrepared
      "").run.run sampleController) () (.ok receipt, c') () ∧ receipt.status = .killed := by
  have hoption : ∃ arguments,
      guestArgv sampleAenBackend samplePrepared = some ("/supervisor", arguments) := ⟨_, rfl⟩
  obtain ⟨arguments, hargv⟩ := hoption
  obtain ⟨final, process, hread, -, hlimited⟩ :=
    read_output (by decide : (0 : ℤ) ≤ 1) (dif_pos (by decide)) within_sampleEvents
      joined_sampleChunks
  have hmore : (1 : ℤ) < sampleEvents.output.length := by decide
  have hdiff : Answers sampleOutputHost (scratchDiffOf sampleAenLibrary sampleAenBackend "vm")
      sampleController ⟨[], 0, 0⟩ := answers_inventoryGuestChanges_sample
  have hstream : ExecProcess.read sampleAenBackend.profile.limits.outputBytes
      (sampleOutputHost (execCall sampleAenBackend "vm" "/supervisor" arguments "") :
        StreamAnswer).chunks = some (final, process) := hread
  have hruns : Returns (execWorld sampleOutputHost)
      (exec sampleAenLibrary sampleAenBackend samplePrepared "") (fun receipt _ _ => ∃ c',
        Runs (execWorld sampleOutputHost) ((exec sampleAenLibrary sampleAenBackend samplePrepared
          "").run.run sampleController) () (.ok receipt, c') ()) sampleController () :=
    (returns_runs _).mono fun receipt c' _ hrun => ⟨c', hrun⟩
  have hrun := limitedReceipt_of_returns rfl rfl (by decide) (by decide) hargv
    answers_beginDiffManifest_sample hstream (hlimited.mpr hmore)
    answers_finishDiffManifest_sample hdiff hruns
  obtain ⟨c', hrun⟩ := hrun
  exact ⟨_, c', hrun, rfl⟩

/-- The first of two bytes is captured, and a run returns the receipt that is killed for it. -/
theorem output_capped_sample :
    (∃ final process, ExecProcess.read 1 sampleChunks = some (final, process) ∧
      process.output = [65] ∧ process.outputLimited = true) ∧
    ∃ receipt c', Runs (execWorld sampleOutputHost) ((exec sampleAenLibrary sampleAenBackend
        samplePrepared "").run.run sampleController) () (.ok receipt, c') () ∧
      IsOutputKill receipt ∧ receipt.output = "A" := by
  have houtput : sampleEvents.output = [65, 66] := by decide
  have hcapped := output_capped 1 (by decide) _ (dif_pos (by decide)) sampleEvents
    within_sampleEvents
  rw [houtput] at hcapped
  have hrendered : decodeUtf8Lossy [65] = "A" := by decide
  constructor
  · obtain ⟨final, process, hread, hcaptured, hlimited⟩ := hcapped.1 _ joined_sampleChunks
    exact ⟨final, process, hread, hcaptured, hlimited.mpr (by decide)⟩
  · obtain ⟨receipt, c', hrun, hstatus⟩ := runs_sampleOutputHost
    have hkilled :=
      hcapped.2 (by decide) sampleAenLibrary sampleAenBackend rfl samplePrepared "" Unit
      (execWorld sampleOutputHost)
    have hfirst : [65, 66].take (Int.toNat 1) = [(65 : UInt8)] := rfl
    rw [hfirst, hrendered] at hkilled
    refine ⟨receipt, c', hrun, ?_⟩
    have hreturns := hkilled ?_ sampleController ()
    · rcases hreturns.of_runs hrun with hkill | ⟨-, hfailed⟩
      · exact hkill
      · rw [hstatus] at hfailed
        cases hfailed
    · rintro id executable arguments answer w w' (hfree | rfl)
      · exact absurd hfree not_false
      · exact joined_sampleChunks

end Moonfort.AenBackend
