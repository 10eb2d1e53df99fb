import Moonfort.AenBackend.Protobuf

/-!
# The guest's protobuf messages

The decoders of `connect_codec.mbt` and `filesystem_codec.mbt`, each a
`FieldLoop`. A message overflows when its decoder reaches, in it or in a nested
message it opens, a field that ends past the range of an `Int`. The decoders
abort on exactly these messages.
-/

namespace Moonfort.AenBackend

open MoonBit

/-! ## Process events -/

/-- The loop of `decode_start_event`. -/
def startEventLoop : FieldLoop Unit (Option AenExecEvent) where
  varint field :=
    if field = 1 then some fun _ pid => .done (some (.processStarted pid)) else none
  bytes _ := none
  finish _ := .ok none

/-- `decode_start_event`. -/
def decodeStartEvent (data : Bytes) : Except Fault (Option AenExecEvent) :=
  startEventLoop.run data ()

/-- The loop of `decode_data_event`. -/
def dataEventLoop : FieldLoop Unit (Option AenExecEvent) where
  varint _ := none
  bytes field :=
    if field = 1 ∨ field = 2 ∨ field = 3 then
      some fun _ value => .ok (.done (some (if field = 2 then .stderr value else .stdout value)))
    else none
  finish _ := .ok none

/-- `decode_data_event`. -/
def decodeDataEvent (data : Bytes) : Except Fault (Option AenExecEvent) :=
  dataEventLoop.run data ()

/-- The loop of `decode_end_event`, over the exit code and the status read so far.
The exit code is zigzag encoded. -/
def endEventLoop : FieldLoop (Int32 × String) AenExecEvent where
  varint field :=
    if field = 1 then some fun (_, status) raw => .next ((raw >>> 1) ^^^ -(raw &&& 1), status)
    else none
  bytes field :=
    if field = 3 then
      some fun (exitCode, _) value =>
        match utf8Decode value with
        | some status => .ok (.next (exitCode, status))
        | none => protocolFailure "envd EndEvent status is not UTF-8"
    else none
  finish := fun (exitCode, status) => .ok (.processExited exitCode status)

/-- `decode_end_event`. -/
def decodeEndEvent (data : Bytes) : Except Fault AenExecEvent :=
  endEventLoop.run data (0, "")

/-- The inner loop of `decode_start_response`, over one process event. -/
def processEventLoop : FieldLoop Unit (Option AenExecEvent) where
  varint _ := none
  bytes field :=
    if 1 ≤ field ∧ field ≤ 3 then
      some fun _ event =>
        (if field = 1 then decodeStartEvent event
        else if field = 2 then decodeDataEvent event
        else (decodeEndEvent event).map some).map .done
    else none
  finish _ := .ok none

/-- The part of `decode_start_response` that reads its process event. -/
def decodeProcessEvent (data : Bytes) : Except Fault (Option AenExecEvent) :=
  processEventLoop.run data ()

/-- The outer loop of `decode_start_response`. -/
def startResponseLoop : FieldLoop Unit (Option AenExecEvent) where
  varint _ := none
  bytes field :=
    if field = 1 then some fun _ event => (decodeProcessEvent event).map .done else none
  finish _ := .ok none

/-- `decode_start_response`. -/
def decodeStartResponse (payload : Bytes) : Except Fault (Option AenExecEvent) :=
  startResponseLoop.run payload ()

/-! ## Filesystem events -/

/-- The loop of `decode_single_string_field`. -/
def singleStringLoop (expectedField : Int32) : FieldLoop Unit String where
  varint _ := none
  bytes field :=
    if field = expectedField then
      some fun _ value =>
        match utf8Decode value with
        | some text => .ok (.done text)
        | none => protocolFailure "envd filesystem response is not UTF-8"
    else none
  finish _ :=
    protocolFailure ("envd filesystem response omitted field " ++ toString expectedField)

/-- `decode_single_string_field`. -/
def decodeSingleStringField (payload : Bytes) (expectedField : Int32) : Except Fault String :=
  (singleStringLoop expectedField).run payload ()

/-- The loop of `decode_filesystem_event`. -/
def filesystemEventLoop : FieldLoop Unit (Option String) where
  varint _ := none
  bytes field :=
    if field = 1 then
      some fun _ value =>
        match utf8Decode value with
        | some path => .ok (.done (some path))
        | none => protocolFailure "envd watcher path is not UTF-8"
    else none
  finish _ := .ok none

/-- `decode_filesystem_event`. -/
def decodeFilesystemEvent (payload : Bytes) : Except Fault (Option String) :=
  filesystemEventLoop.run payload ()

/-- The guards of `decode_watcher_events` on the next path. -/
def pushWatcherPath (paths : List String) :
    Option String → Except Fault (Control (List String) (List String))
  | none => .ok (.next paths)
  | some path =>
    if paths.length < 4096 then
      if utf16Length path ≤ 4096 then .ok (.next (paths ++ [path]))
      else protocolFailure "envd watcher path exceeded 4096 bytes"
    else protocolFailure "envd watcher event count exceeded 4096"

/-- The loop of `decode_watcher_events`, over the paths read so far. -/
def watcherEventsLoop : FieldLoop (List String) (List String) where
  varint _ := none
  bytes field :=
    if field = 1 then
      some fun paths event => do
        let path ← decodeFilesystemEvent event
        pushWatcherPath paths path
    else none
  finish paths := .ok paths

/-- `decode_watcher_events`. -/
def decodeWatcherEvents (payload : Bytes) : Except Fault (List String) :=
  watcherEventsLoop.run payload []

/-! ## The messages that overflow -/

/-- A loop that opens no nested message has none to overflow. -/
def NoNested (_ : Int32) (_ : Bytes) : Prop := False

/-- `decode_start_event` reaches a field that overflows. -/
def StartEventOverflows (data : Bytes) : Prop :=
  startEventLoop.Overflows NoNested data () 0

/-- `decode_data_event` reaches a field that overflows. -/
def DataEventOverflows (data : Bytes) : Prop :=
  dataEventLoop.Overflows NoNested data () 0

/-- `decode_end_event` reaches a field that overflows. -/
def EndEventOverflows (data : Bytes) : Prop :=
  endEventLoop.Overflows NoNested data (0, "") 0

/-- The event inside a process event, by the field it stands in, overflows. -/
def EventOverflows (field : Int32) (event : Bytes) : Prop :=
  if field = 1 then StartEventOverflows event
  else if field = 2 then DataEventOverflows event
  else EndEventOverflows event

/-- A process event or the event inside it overflows. -/
def ProcessEventOverflows (data : Bytes) : Prop :=
  processEventLoop.Overflows EventOverflows data () 0

/-- A start response or a message nested in it overflows. -/
def StartResponseOverflows (payload : Bytes) : Prop :=
  startResponseLoop.Overflows (fun _ event => ProcessEventOverflows event) payload () 0

/-- A response with one string field overflows. -/
def SingleStringOverflows (payload : Bytes) (expectedField : Int32) : Prop :=
  (singleStringLoop expectedField).Overflows NoNested payload () 0

/-- One filesystem event overflows. -/
def FilesystemEventOverflows (payload : Bytes) : Prop :=
  filesystemEventLoop.Overflows NoNested payload () 0

/-- A watcher response or an event in it overflows. -/
def WatcherEventsOverflow (payload : Bytes) : Prop :=
  watcherEventsLoop.Overflows (fun _ event => FilesystemEventOverflows event) payload [] 0

/-- Returning or raising on every payload is aborting on none. -/
private theorem abortsIff_noNested {α : Type} {field : Int32} {payload : Bytes}
    {outcome : Except Fault α} (h : ReturnsOrRaises outcome) :
    AbortsIff (NoNested field payload) outcome :=
  .inr ⟨id, h⟩

/-- `decode_start_event` aborts exactly on overflow. -/
theorem decodeStartEvent_abortsIff (data : Bytes) :
    AbortsIff (StartEventOverflows data) (decodeStartEvent data) := by
  refine FieldLoop.run_abortsIff ⟨?_, fun _ => by simp [startEventLoop]⟩ data ()
  intro field act hown
  cases hown

/-- `decode_data_event` aborts exactly on overflow. -/
theorem decodeDataEvent_abortsIff (data : Bytes) :
    AbortsIff (DataEventOverflows data) (decodeDataEvent data) := by
  refine FieldLoop.run_abortsIff ⟨?_, fun _ => by simp [dataEventLoop]⟩ data ()
  intro field act hown state payload
  obtain ⟨_, hact⟩ := Option.ite_none_right_eq_some.mp hown
  cases hact
  exact abortsIff_noNested (by simp)

/-- `decode_end_event` aborts exactly on overflow. -/
theorem decodeEndEvent_abortsIff (data : Bytes) :
    AbortsIff (EndEventOverflows data) (decodeEndEvent data) := by
  refine FieldLoop.run_abortsIff ⟨?_, fun _ => by simp [endEventLoop]⟩ data (0, "")
  intro field act hown state payload
  obtain ⟨_, hact⟩ := Option.ite_none_right_eq_some.mp hown
  cases hact
  refine abortsIff_noNested ?_
  dsimp only
  split <;> simp

/-- The inner loop of `decode_start_response` aborts exactly on overflow. -/
theorem decodeProcessEvent_abortsIff (data : Bytes) :
    AbortsIff (ProcessEventOverflows data) (decodeProcessEvent data) := by
  refine FieldLoop.run_abortsIff ⟨?_, fun _ => by simp [processEventLoop]⟩ data ()
  intro field act hown state payload
  obtain ⟨_, hact⟩ := Option.ite_none_right_eq_some.mp hown
  cases hact
  refine AbortsIff.map _ ?_
  unfold EventOverflows
  split
  · exact decodeStartEvent_abortsIff payload
  split
  · exact decodeDataEvent_abortsIff payload
  · exact (decodeEndEvent_abortsIff payload).map some

/-- `decode_start_response` aborts exactly on overflow. -/
theorem decodeStartResponse_abortsIff (payload : Bytes) :
    AbortsIff (StartResponseOverflows payload) (decodeStartResponse payload) := by
  refine FieldLoop.run_abortsIff ⟨?_, fun _ => by simp [startResponseLoop]⟩ payload ()
  intro field act hown state event
  obtain ⟨_, hact⟩ := Option.ite_none_right_eq_some.mp hown
  cases hact
  exact (decodeProcessEvent_abortsIff event).map _

/-- `decode_single_string_field` aborts exactly on overflow. -/
theorem decodeSingleStringField_abortsIff (payload : Bytes) (expectedField : Int32) :
    AbortsIff (SingleStringOverflows payload expectedField)
      (decodeSingleStringField payload expectedField) := by
  refine FieldLoop.run_abortsIff ⟨?_, fun _ => by simp [singleStringLoop]⟩ payload ()
  intro field act hown state value
  obtain ⟨_, hact⟩ := Option.ite_none_right_eq_some.mp hown
  cases hact
  refine abortsIff_noNested ?_
  dsimp only
  split <;> simp

/-- `decode_filesystem_event` aborts exactly on overflow. -/
theorem decodeFilesystemEvent_abortsIff (payload : Bytes) :
    AbortsIff (FilesystemEventOverflows payload) (decodeFilesystemEvent payload) := by
  refine FieldLoop.run_abortsIff ⟨?_, fun _ => by simp [filesystemEventLoop]⟩ payload ()
  intro field act hown state value
  obtain ⟨_, hact⟩ := Option.ite_none_right_eq_some.mp hown
  cases hact
  refine abortsIff_noNested ?_
  dsimp only
  split <;> simp

/-- The guards on a watcher path return or raise. -/
theorem pushWatcherPath_returnsOrRaises (paths : List String) (path : Option String) :
    ReturnsOrRaises (pushWatcherPath paths path) := by
  cases path with
  | none => simp [pushWatcherPath]
  | some path =>
    rw [pushWatcherPath]
    split
    · split <;> simp
    · simp

/-- `decode_watcher_events` aborts exactly on overflow. -/
theorem decodeWatcherEvents_abortsIff (payload : Bytes) :
    AbortsIff (WatcherEventsOverflow payload) (decodeWatcherEvents payload) := by
  refine FieldLoop.run_abortsIff ⟨?_, fun _ => by simp [watcherEventsLoop]⟩ payload []
  intro field act hown paths event
  obtain ⟨_, hact⟩ := Option.ite_none_right_eq_some.mp hown
  cases hact
  rcases decodeFilesystemEvent_abortsIff event with ⟨hover, habort⟩ | ⟨hfit, hends⟩
  · exact .inl ⟨hover, by simp [habort, bind, Except.bind]⟩
  · refine .inr ⟨hfit, ?_⟩
    rcases hends with ⟨path, hpath⟩ | ⟨message, hraise⟩
    · simpa [hpath, bind, Except.bind] using pushWatcherPath_returnsOrRaises paths path
    · exact .inr ⟨message, by simp [hraise, bind, Except.bind, protocolFailure]⟩

/-! ## Totality -/

/-- Each decoder returns a value or raises `ProtocolFailure` exactly on the
messages that do not overflow, and no decoder runs on. -/
theorem decoders_returnsOrRaises_iff (payload : Bytes) (expectedField : Int32) :
    (decodeStartResponse payload ≠ .error .unfinished ∧
      decodeWatcherEvents payload ≠ .error .unfinished ∧
      decodeSingleStringField payload expectedField ≠ .error .unfinished) ∧
    (ReturnsOrRaises (decodeStartResponse payload) ↔ ¬ StartResponseOverflows payload) ∧
    (ReturnsOrRaises (decodeWatcherEvents payload) ↔ ¬ WatcherEventsOverflow payload) ∧
    (ReturnsOrRaises (decodeSingleStringField payload expectedField) ↔
      ¬ SingleStringOverflows payload expectedField) := by
  have hstart := decodeStartResponse_abortsIff payload
  have hwatcher := decodeWatcherEvents_abortsIff payload
  have hsingle := decodeSingleStringField_abortsIff payload expectedField
  exact ⟨⟨hstart.ne_unfinished, hwatcher.ne_unfinished, hsingle.ne_unfinished⟩,
    hstart.returnsOrRaises_iff, hwatcher.returnsOrRaises_iff, hsingle.returnsOrRaises_iff⟩

/-- A field of declared length `2 ^ 31 - 1` at offset six. -/
def wrappingPayload : Bytes := ⟨[0x0A, 0xFF, 0xFF, 0xFF, 0xFF, 0x07], by decide⟩

/-- All three decoders abort on six bytes: the length passes the guard because
the end of its field wraps to a negative offset. -/
theorem decoders_abort_on_wrappingPayload :
    ¬ ∀ payload : Bytes,
      ReturnsOrRaises (decodeStartResponse payload) ∧
      ReturnsOrRaises (decodeWatcherEvents payload) ∧
      ReturnsOrRaises (decodeSingleStringField payload 1) := by
  intro htotal
  obtain ⟨hstart, _, _⟩ := htotal wrappingPayload
  have habort : decodeStartResponse wrappingPayload = .error .outOfBounds := by decide
  rw [habort] at hstart
  exact not_returnsOrRaises_outOfBounds hstart

end Moonfort.AenBackend
