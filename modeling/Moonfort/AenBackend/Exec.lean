import Moonfort.AenBackend.GuestAttestation
import Moonfort.MoonBit.StringOrder

/-!
# Running a prepared command

`exec`: a watcher over the scratch tree, the stream of the supervised process, and
the receipt of how it ended.
-/

namespace Moonfort.AenBackend

open Methods MoonBit Sandbox

/-- `x catch { error => … }`, for a handler that goes on with the error. -/
def attempt {α : Type} (x : AenMethod α) : AenMethod (Except AenFailure α) :=
  rescue (do
    let value ← x
    pure (.ok value)) fun failure => pure (.error failure)

/-- `trusted_guest_limit_reason`. -/
def trustedGuestLimitReason (code : Int32) : Option String :=
  if code = 201 then some "output_bytes"
  else if code = 202 then some "wall_clock_ms"
  else if code = 203 then some "cpu_seconds"
  else if code = 204 then some "disk_mib"
  else if code = 205 then some "processes"
  else none

/-- `safe_guest_working_directory`. -/
def safeGuestWorkingDirectory (path : String) : Bool :=
  path == "" ||
    (!hasPrefix path "/" && !hasSuffix path "/" && !containsText path "//" &&
      !containsText path "\x00" && utf8Length path ≤ 4096 &&
      !(splitPath path).any fun component => component == "." || component == "..")

section Exec

variable (lib : AenLibrary) (backend : Backend)

/-- `canonical_changed_path`. -/
def canonicalChangedPath (path : String) : Except AenBackendError String :=
  if !(path != "" && !containsText path "\x00") then
    .error (.protocolFailure "envd watcher returned an empty or NUL path")
  else if containsText path "\\" then
    .error (.protocolFailure "envd watcher path contains a backslash")
  else if hasPrefix path "/" then
    if !hasPrefix path (backend.guestScratch ++ "/") then
      .error (.protocolFailure "envd watcher path escaped guest scratch")
    else if (splitPath path).any fun component => component == "." || component == ".." then
      .error (.protocolFailure "envd watcher path contains traversal")
    else
      let relative := String.ofList (path.toList.drop (backend.guestScratch.toList.length + 1))
      if relative == "" then .error (.protocolFailure "envd watcher returned the scratch root")
      else .ok relative
  else if (splitPath path).any fun component =>
      component == "" || component == "." || component == ".." then
    .error (.protocolFailure "envd watcher relative path contains traversal")
  else .ok path

/-- `begin_diff_manifest`. -/
def beginDiffManifest (sandboxId : String) : AenMethod String := do
  let response ← request (.createWatcher sandboxId backend.guestScratch)
  checked (expectStatus response 200)
  orFault (decodeSingleStringField response.body 1)

/-- `finish_diff_manifest`. -/
def finishDiffManifest (sandboxId watcherId : String) : AenMethod (List String) := do
  let events ← request (.watcherEvents sandboxId watcherId)
  checked (expectStatus events 200)
  let paths ← orFault (decodeWatcherEvents events.body)
  let changed ← checked (paths.mapM (canonicalChangedPath backend))
  let removed ← request (.removeWatcher sandboxId watcherId)
  checked (expectStatus removed 200)
  pure (sortedDistinct changed)

/-! ## The process -/

/-- What `exec` has read of its process. -/
structure ExecProcess where
  pid : Option Int32
  exitCode : Option Int32
  status : String
  connectError : Option String
  outputLimited : Bool
  output : List UInt8

/-- The `match event` of `exec`. -/
def ExecProcess.consume (outputLimit : ℤ) (process : ExecProcess) :
    AenExecEvent → ExecProcess × Bool
  | .processStarted value => ({ process with pid := some value }, false)
  | .stdout bytes | .stderr bytes =>
    let remaining := outputLimit - process.output.length
    if bytes.data.length > remaining then
      ({ process with
        output := process.output ++ bytes.data.take remaining.toNat
        outputLimited := true }, true)
    else ({ process with output := process.output ++ bytes.data }, false)
  | .processExited code status => ({ process with exitCode := some code, status := status }, false)
  | .connectEnded error =>
    ({ process with connectError := error.map fun _ => "remote Connect error" }, true)

/-- A chunk that the decoder rejects. -/
def ExecProcess.rejected (process : ExecProcess) : ExecProcess :=
  { process with connectError := some "invalid Connect stream" }

/-- The chunks of a streamed response, read from its start. -/
def ExecProcess.read (outputLimit : ℤ) (chunks : List Bytes) :
    Option (ConnectDecoder × ExecProcess) :=
  (decoderFor (outputLimit + 65536)).bind fun decoder =>
    consumeChunks (ExecProcess.consume outputLimit) ExecProcess.rejected decoder
      ⟨none, none, "", none, false, []⟩ chunks

/-- `@utf8.decode_lossy` of the bytes of a buffer. -/
def decodeUtf8Lossy (bytes : List UInt8) : String :=
  String.ofList ((utf8Items .idle bytes).map (·.getD '\uFFFD'))

/-- `guest_argv`; none when the tool has no binding. -/
def guestArgv (prepared : PreparedSandboxCommand) : Option (String × List String) :=
  match backend.guestTools.lookup prepared.capabilityLabel with
  | none => none
  | some executable =>
    let commandArgs := match prepared.command with
      | .exec _ args => args
      | .shell script => ["-lc", script]
    some (backend.guestSupervisor,
      ["run", "--contract", guestAttestationContract, "--profile-digest", backend.digest,
        "--cpu-seconds", intText backend.profile.limits.cpuSeconds, "--process-limit",
        intText backend.profile.limits.processes, "--scratch-disk-mib",
        intText backend.profile.limits.diskMib, "--scratch", backend.guestScratch,
        "--wall-clock-ms", intText backend.profile.limits.wallClockMs, "--output-bytes",
        intText backend.profile.limits.outputBytes, "--capability", prepared.capabilityLabel, "--",
        executable] ++ commandArgs)

/-- The structured diff of a run, which is empty when no attestation is required. -/
def scratchDiffOf (sandboxId : String) : AenMethod ScratchDiff :=
  if backend.requireGuestAttestation then inventoryGuestChanges lib backend sandboxId
  else pure ⟨[], 0, 0⟩

/-! ## How a run ends -/

/-- `refused_exec_receipt`. -/
def refusedExecReceipt (reason : String) : AenMethod SandboxReceipt := do
  let cleanupVerified ← discardProtected
  refusedAfterCleanup lib backend reason cleanupVerified

/-- `terminate_and_finish_manifest`. -/
def terminateAndFinishManifest (sandboxId watcherId : String) (pid : Option Int32) :
    AenMethod (Except AenFailure (List String × ScratchDiff) × Bool) := do
  let _ ← signalProcess pid
  let changed ← attempt (do
    let paths ← finishDiffManifest backend sandboxId watcherId
    let diff ← scratchDiffOf lib backend sandboxId
    pure (paths, diff))
  let discarded ← discardChecked
  let cancelled : Bool ← perform AenCall.protectionEnds
  pure (if cancelled then (.error .cancelled, false) else (changed, discarded))

/-- The end of a run whose output reached its limit. -/
def finishLimited (sandboxId watcherId : String) (process : ExecProcess) :
    AenMethod SandboxReceipt := do
  let (changed, cleanupVerified) ← terminateAndFinishManifest lib backend sandboxId watcherId
    process.pid
  if !cleanupVerified then
    refusedExecReceipt lib backend
      "output limit reached and VM termination could not be verified"
  else
    match changed with
    | .error _ =>
      refusedExecReceipt lib backend "AEN output-limited run has no trusted diff manifest"
    | .ok (changedPaths, diff) =>
      pure { killedReceipt backend.profile.runId .microVm .enforced backend.digest
          (decodeUtf8Lossy process.output) true "output_bytes" with
        changedPaths := changedPaths
        changes := diff.entries
        cleanupVerified := true
        retentionId := none }

/-- The receipt of a process that ended by itself. -/
def terminalReceipt (code : Int32) (process : ExecProcess) (changedPaths : List String)
    (diff : ScratchDiff) : AenMethod SandboxReceipt := do
  let c ← get
  let rendered := decodeUtf8Lossy process.output
  match trustedGuestLimitReason code with
  | some reason =>
    pure { killedReceipt backend.profile.runId .microVm .enforced backend.digest rendered
        (reason == "output_bytes") reason with
      changedPaths := changedPaths
      changes := diff.entries
      cleanupVerified := false
      retentionId := c.retainedVmId lib }
  | none =>
    pure { baseReceipt lib backend c .running with
      exitCode := some code.toInt
      output := rendered
      changedPaths := changedPaths
      changes := diff.entries
      denialReason := if process.status = "" ∨ process.status = "exited" then none
        else some "AEN process returned a nonstandard terminal status" }

/-- The end of a run whose process exited. -/
def finishExited (sandboxId watcherId : String) (code : Int32) (process : ExecProcess) :
    AenMethod SandboxReceipt := do
  match ← attempt (finishDiffManifest backend sandboxId watcherId) with
  | .error _ => refusedExecReceipt lib backend "AEN terminal run has no trusted diff manifest"
  | .ok changedPaths =>
    match ← attempt (scratchDiffOf lib backend sandboxId) with
    | .error _ => refusedExecReceipt lib backend "AEN terminal run has no trusted structured diff"
    | .ok diff =>
      if backend.requireGuestAttestation = true ∧
          changedPaths ≠ sortedDistinct (diff.entries.map (·.relativePath)) then
        refusedExecReceipt lib backend "AEN watcher and structured inventory disagree"
      else terminalReceipt lib backend code process changedPaths diff

/-- The end of a run whose stream is read. -/
def finishStream (sandboxId watcherId : String) (answer : StreamAnswer) (decoder : ConnectDecoder)
    (process : ExecProcess) : AenMethod SandboxReceipt := do
  if process.outputLimited then finishLimited lib backend sandboxId watcherId process
  else
    match answer.failure with
    | some failure => do
      let (_, cleanupVerified) ← terminateAndFinishManifest lib backend sandboxId watcherId
        process.pid
      if failure = .cancelled then do
        modify fun c => { c with state := .refused }
        throw (.failed failure)
      else refusedAfterCleanup lib backend "AEN execution stream failed" cleanupVerified
    | none =>
      match process.connectError, decoder.ended, process.exitCode with
      | none, true, some code => finishExited lib backend sandboxId watcherId code process
      | connectError, _, _ => do
        let (_, cleanupVerified) ← terminateAndFinishManifest lib backend sandboxId watcherId
          process.pid
        refusedAfterCleanup lib backend
          (if connectError.isSome then "AEN Connect stream reported an error"
            else "AEN Connect stream ended without a terminal process event") cleanupVerified

/-- The process that `exec` starts. -/
abbrev execCall (id executable : String) (arguments : List String) (workingDirectory : String) :
    AenCall :=
  .stream id executable arguments
    (if workingDirectory == "" then backend.guestScratch
      else backend.guestScratch ++ "/" ++ workingDirectory)
    backend.profile.limits.wallClockMs (backend.profile.limits.outputBytes + 1048576)

/-- The prepared command is bound to this run. -/
def isBound (prepared : PreparedSandboxCommand) : Bool :=
  prepared.profileDigest == backend.digest && prepared.profile.runId == backend.profile.runId &&
    prepared.enforcement == .enforced

/-- `exec`. -/
def exec (prepared : PreparedSandboxCommand) (workingDirectory : String) :
    AenMethod SandboxReceipt := do
  let c ← get
  match c.state, c.sandboxId with
  | .running, some id =>
    if !isBound backend prepared then
      refusedExecReceipt lib backend "prepared command is not bound to this enforced run"
    else if !safeGuestWorkingDirectory workingDirectory then
      refusedExecReceipt lib backend "working directory is not a safe workspace-relative path"
    else
      match guestArgv backend prepared with
      | none => refusedExecReceipt lib backend "AEN guest command binding failed"
      | some (executable, arguments) => do
        match ← attempt (beginDiffManifest backend id) with
        | .error _ =>
          refusedExecReceipt lib backend "AEN could not establish trusted scratch diff watcher"
        | .ok watcherId => do
          let answer : StreamAnswer ← perform
            (execCall backend id executable arguments workingDirectory)
          match ExecProcess.read backend.profile.limits.outputBytes answer.chunks with
          | none => throw .aborted
          | some (decoder, process) =>
            finishStream lib backend id watcherId answer decoder process
  | _, _ => refusedExecReceipt lib backend "AEN exec requires an attested running sandbox"

end Exec

end Moonfort.AenBackend
