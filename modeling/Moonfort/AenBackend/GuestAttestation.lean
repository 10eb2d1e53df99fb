import Moonfort.AenBackend.Controller

/-!
# Attestation of the guest

The processes of the guest that the controller itself starts, and the checks of
what the guest attests with them: the structured inventory of the scratch tree.
-/

namespace Moonfort.AenBackend

open Methods MoonBit Sandbox

/-- `GuestAttestationContract`. -/
def guestAttestationContract : String := "moonfort-guest-v1"

/-- `ControlTimeoutMs`. -/
def controlTimeoutMs : ℤ := 30000

/-! ## Streams of events -/

/-- Consume events until the consumer stops the stream. -/
def foldEvents {ρ : Type} (step : ρ → AenExecEvent → ρ × Bool) : ρ → List AenExecEvent → ρ × Bool
  | state, [] => (state, false)
  | state, event :: rest =>
    match step state event with
    | (state, true) => (state, true)
    | (state, false) => foldEvents step state rest

/-- Decode and consume chunks until the consumer stops the stream. A chunk that the
decoder rejects stops it; none when the decoder aborts. -/
def consumeChunks {ρ : Type} (step : ρ → AenExecEvent → ρ × Bool) (rejected : ρ → ρ) :
    ConnectDecoder → ρ → List Bytes → Option (ConnectDecoder × ρ)
  | decoder, state, [] => some (decoder, state)
  | decoder, state, chunk :: rest =>
    match decoder.feed chunk with
    | .error (.raised _) => some (decoder, rejected state)
    | .error _ => none
    | .ok (decoder, events) =>
      match foldEvents step state events with
      | (state, true) => some (decoder, state)
      | (state, false) => consumeChunks step rejected decoder state rest

/-- `ConnectDecoder::new(max_frame_bytes=n)`, which aborts unless the limit is positive. -/
def decoderFor (n : ℤ) : Option ConnectDecoder :=
  if h : 0 < Int32.ofInt n then some (.new ⟨Int32.ofInt n, h⟩) else none

/-- `signal_process`. -/
def signalProcess (pid : Option Int32) : AenMethod Bool := do
  let c ← get
  match c.sandboxId, pid with
  | some id, some value => do
    let answer ← perform (AenCall.request (.sendSignal id value))
    match answer with
    | .ok response => pure (200 ≤ response.status && response.status < 300)
    | .error _ => pure false
  | _, _ => pure false

/-- What `run_fixed_guest_json` has read of its process. -/
structure FixedProcess where
  pid : Option Int32
  exitCode : Option Int32
  connectError : Bool
  output : List UInt8

/-- The `match event` of `run_fixed_guest_json`. -/
def FixedProcess.consume (maxBytes : ℤ) (process : FixedProcess) :
    AenExecEvent → FixedProcess × Bool
  | .processStarted value => ({ process with pid := some value }, false)
  | .stdout bytes =>
    if process.output.length + bytes.data.length > maxBytes then
      ({ process with connectError := true }, true)
    else ({ process with output := process.output ++ bytes.data }, false)
  | .stderr _ => ({ process with connectError := true }, true)
  | .processExited code _ => ({ process with exitCode := some code }, false)
  | .connectEnded error => ({ process with connectError := error.isSome }, true)

/-- `@utf8.decode` of the bytes of a buffer. -/
def decodeUtf8 (bytes : List UInt8) : Option String :=
  ((utf8Items .idle bytes).mapM id).map String.ofList

/-- What a consumed stream of a fixed process says: the text of its output. -/
def FixedProcess.result (lib : AenLibrary) (decoder : ConnectDecoder) (process : FixedProcess) :
    Option (Except AenBackendError Json) :=
  if !process.connectError && decoder.ended && process.exitCode == some 0 then
    some (match (decodeUtf8 process.output).bind lib.parseJson with
      | some json => .ok json
      | none => .error (.protocolFailure "AEN fixed guest process returned invalid JSON"))
  else none

section Guest

variable (lib : AenLibrary) (backend : Backend)

/-- `run_fixed_guest_json`. -/
def runFixedGuestJson (sandboxId executable : String) (arguments : List String) (cwd : String)
    (maxBytes : ℤ) : AenMethod Json := do
  if ¬ (0 < maxBytes ∧ maxBytes ≤ 16777216) then
    raise (.invalidConfiguration "fixed guest output limit is invalid")
  else
    match decoderFor (maxBytes + 65536) with
    | none => throw .aborted
    | some decoder => do
      let answer : StreamAnswer ← perform (AenCall.stream sandboxId executable arguments cwd
        controlTimeoutMs (maxBytes + 131072))
      match consumeChunks (FixedProcess.consume maxBytes)
          (fun process => { process with connectError := true }) decoder ⟨none, none, false, []⟩
          answer.chunks with
      | none => throw .aborted
      | some (decoder, process) =>
        match answer.failure with
        | some _ => do
          let _ ← signalProcess process.pid
          raise (.transportFailure "AEN fixed guest process failed")
        | none =>
          match process.result lib decoder with
          | none => do
            let _ ← signalProcess process.pid
            raise (.protocolFailure "AEN fixed guest process did not exit cleanly")
          | some (.ok json) => pure json
          | some (.error error) => raise error

/-- A check of the backend in a method. -/
def checked {α : Type} : Except AenBackendError α → AenMethod α
  | .ok value => pure value
  | .error error => raise error

/-! ## The checks -/

/-- `required_string(object, key) == expected`. -/
def textIs (object : List (String × Json)) (key expected : String) : Except AenBackendError Bool :=
  (requiredString object key).map (· == expected)

/-- Comparisons joined by `&&`: the first that is false or raises ends them. -/
def allHold : List (Except AenBackendError Bool) → Except AenBackendError Bool
  | [] => .ok true
  | .ok true :: rest => allHold rest
  | first :: _ => first

/-! ## The structured inventory -/

/-- `value.fingerprint.length() <= 256` and the other checks of one inventory entry. -/
def inventoryEntryIsSafe (entry : ScratchEntry) : Bool :=
  scratchRelativePathIsSafe entry.relativePath && 0 ≤ entry.sizeBytes &&
    utf16Length entry.fingerprint ≤ 256

/-- The checks of `inventory_guest_changes` on what the guest reported. -/
def guestDiff (detail : Json) : Except AenBackendError ScratchDiff := do
  let object ← jsonObject detail "guest inventory"
  let bound ← allHold [textIs object "contract" guestAttestationContract,
    textIs object "profileDigest" backend.digest]
  guardProtocol bound "guest inventory is not bound to this profile"
  match object.lookup "baseline" with
  | none => .error (.protocolFailure "guest inventory omitted baseline")
  | some baselineJson =>
    match object.lookup "inventory" with
    | none => .error (.protocolFailure "guest inventory omitted inventory")
    | some inventoryJson =>
      match lib.inventoryOfJson baselineJson with
      | none => .error (.protocolFailure "guest baseline inventory is malformed")
      | some baseline =>
        match lib.inventoryOfJson inventoryJson with
        | none => .error (.protocolFailure "guest inventory is malformed")
        | some inventory => do
          guardProtocol ((baseline.entries.length : ℤ) == backend.workspaceLease.entryCount &&
            inventory.entries.length ≤ 4096 &&
            baseline.totalBytes == backend.workspaceLease.totalBytes &&
            inventory.totalBytes ≤ backend.profile.limits.diskMib * 1048576)
            "guest inventory exceeds the profile bound"
          guardProtocol ((baseline.entries ++ inventory.entries).all inventoryEntryIsSafe)
            "guest inventory contains an unsafe entry"
          .ok (diffScratch baseline inventory)

/-- `inventory_guest_changes`. -/
def inventoryGuestChanges (sandboxId : String) : AenMethod ScratchDiff := do
  let detail ← runFixedGuestJson lib sandboxId backend.guestAttester
    ["inventory", "--contract", guestAttestationContract, "--scratch", backend.guestScratch,
      "--profile-digest", backend.digest, "--disk-mib", intText backend.profile.limits.diskMib,
      "--max-entries", "4096", "--baseline-bytes",
      intText (max backend.workspaceLease.totalBytes 1), "--baseline-entries",
      intText (max backend.workspaceLease.entryCount 1)] "/" 4194304
  checked (guestDiff lib backend detail)

end Guest

end Moonfort.AenBackend
