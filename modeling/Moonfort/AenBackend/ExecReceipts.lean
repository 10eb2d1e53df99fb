import Moonfort.AenBackend.Exec

/-!
# The receipts of enforced runs

Which changed paths `exec` reports together with its structured changes. What the
provider and the guest answer during one call is a parameter.
-/

namespace Moonfort.AenBackend

open Methods MoonBit Sandbox

/-- What the provider and the guest answer to the calls that `exec` makes once. -/
abbrev GuestHost : Type := (call : AenCall) → call.Res

/-- Calls that may be answered in any way: deletions, signals, and the ends of protected
sections. -/
def AenCall.IsFree : AenCall → Prop
  | .request (.delete _) | .request (.sendSignal _ _) | .protectionEnds => True
  | _ => False

/-- A world that answers as a host does. -/
def execWorld (host : GuestHost) : World AenCall AenCall.Res Unit :=
  fun _ call answer _ => call.IsFree ∨ answer = host call

/-- The host answers every call. -/
theorem execWorld_answering (host : GuestHost) : Answering (execWorld host) :=
  fun _ call => ⟨host call, (), .inr rfl⟩

variable {α : Type} {host : GuestHost} {c : Controller}

/-- Every run of a method on a host returns this value and leaves the fields as they are. -/
def Answers (host : GuestHost) (x : AenMethod α) (c : Controller) (value : α) : Prop :=
  Ensures (execWorld host) x (fun outcome c' _ => outcome = .ok value ∧ c' = c) c ()

/-- All runs of a method on a host end alike and leave the fields as they are. -/
def Settled (host : GuestHost) (x : AenMethod α) (c : Controller) : Prop :=
  ∃ result, Ensures (execWorld host) x (fun outcome c' _ => outcome = result ∧ c' = c) c ()

/-! ## Methods whose runs end alike -/

/-- A value is settled. -/
theorem settled_pure (value : α) : Settled host (pure value) c := ⟨.ok value, rfl, rfl⟩

/-- An error is settled. -/
theorem settled_throw (error : AenError) : Settled host (throw error : AenMethod α) c :=
  ⟨.error error, rfl, rfl⟩

variable {x : AenMethod α} {β : Type}

/-- Settled methods compose. -/
theorem Settled.bind {f : α → AenMethod β} (hx : Settled host x c)
    (hf : ∀ value, Settled host (f value) c) : Settled host (x >>= f) c := by
  obtain ⟨result, hresult⟩ := hx
  cases result with
  | ok value =>
    obtain ⟨next, hnext⟩ := hf value
    refine ⟨next, ensures_bind.mpr (hresult.mono ?_)⟩
    rintro outcome c' ⟨⟩ ⟨rfl, rfl⟩
    exact hnext
  | error error =>
    refine ⟨.error error, ensures_bind.mpr (hresult.mono ?_)⟩
    rintro outcome c' ⟨⟩ ⟨rfl, rfl⟩
    exact ⟨rfl, rfl⟩

/-- A call whose answer the host fixes is settled. -/
theorem settled_perform (call : AenCall) (hcall : ¬ call.IsFree) :
    Settled host (perform call) c := by
  refine ⟨.ok (host call), ?_⟩
  rintro answer ⟨⟩ (hfree | rfl)
  · exact absurd hfree hcall
  · exact ⟨rfl, rfl⟩

/-- A check made on values is settled. -/
theorem settled_checked (result : Except AenBackendError α) : Settled host (checked result) c := by
  cases result with
  | ok value => exact settled_pure value
  | error error => exact settled_throw _

/-- A result with its fault is settled. -/
theorem settled_orFault (result : Except Fault α) : Settled host (orFault result) c := by
  cases result with
  | ok value => exact settled_pure value
  | error fault => cases fault <;> exact settled_throw _

/-- A request whose answer the host fixes is settled. -/
theorem settled_request (call : AenRequest) (hcall : ¬ (AenCall.request call).IsFree) :
    Settled host (request call) c := by
  apply (settled_perform _ hcall).bind
  intro answer
  cases answer with
  | ok response => exact settled_pure response
  | error failure => exact settled_throw _

variable {world : World AenCall AenCall.Res Unit}

/-- A signal leaves the fields as they are. -/
theorem ensures_signalProcess {pid : Option Int32}
    {Q : Except AenError Bool → Controller → Unit → Prop}
    (hQ : ∀ signalled, Q (.ok signalled) c ()) :
    Ensures world (signalProcess pid) Q c () := by
  unfold signalProcess
  rw [ensures_bind, ensures_get, onValue_ok]
  split
  · rw [ensures_bind]
    rintro answer ⟨⟩ -
    cases answer <;> exact hQ _
  · exact hQ _

/-- What comes after a signal may ignore its answer. -/
theorem settled_signalProcess {pid : Option Int32} (hx : Settled host x c) :
    Settled host (do
      let _ ← signalProcess pid
      x) c := by
  obtain ⟨result, hresult⟩ := hx
  exact ⟨result, ensures_bind.mpr (ensures_signalProcess fun _ => hresult)⟩

/-! ## Methods whose value is known -/

/-- A value is answered as it is. -/
theorem answers_pure (value : α) : Answers host (pure value) c value := ⟨rfl, rfl⟩

/-- Answering methods compose. -/
theorem Answers.bind {f : α → AenMethod β} {value : α} {next : β}
    (hx : Answers host x c value) (hf : Answers host (f value) c next) :
    Answers host (x >>= f) c next := by
  apply ensures_bind.mpr
  apply Ensures.mono hx
  rintro outcome c' ⟨⟩ ⟨rfl, rfl⟩
  exact hf

/-- A check that passes answers its value. -/
theorem answers_checked (value : α) : Answers host (checked (.ok value)) c value := ⟨rfl, rfl⟩

/-- A result without a fault answers its value. -/
theorem answers_orFault {result : Except Fault α} {value : α} (h : result = .ok value) :
    Answers host (orFault result) c value := by
  rw [h]
  exact ⟨rfl, rfl⟩

/-- A call whose answer the host fixes is answered by it. -/
theorem answers_perform (call : AenCall) (hcall : ¬ call.IsFree) :
    Answers host (perform call) c (host call) := by
  rintro answer ⟨⟩ (hfree | rfl)
  · exact absurd hfree hcall
  · exact ⟨rfl, rfl⟩

/-- A request that the host fulfils is answered by its response. -/
theorem answers_request (call : AenRequest) (hcall : ¬ (AenCall.request call).IsFree)
    {response : AenResponse} (h : host (.request call) = .ok response) :
    Answers host (request call) c response := by
  apply (answers_perform _ hcall).bind
  rw [h]
  exact answers_pure response

/-- A process of the guest whose stream says one JSON value. -/
theorem answers_runFixedGuestJson {lib : AenLibrary} {id executable cwd : String}
    {arguments : List String} {maxBytes : ℤ} (hbound : 0 < maxBytes ∧ maxBytes ≤ 16777216)
    {start decoder : ConnectDecoder} (hstart : decoderFor (maxBytes + 65536) = some start)
    {answer : StreamAnswer} (hanswer : host (.stream id executable arguments cwd controlTimeoutMs
      (maxBytes + 131072)) = answer) (hfailure : answer.failure = none) {process : FixedProcess}
    (hread : consumeChunks (FixedProcess.consume maxBytes)
      (fun process => { process with connectError := true }) start ⟨none, none, false, []⟩
      answer.chunks = some (decoder, process)) {json : Json}
    (hresult : process.result lib decoder = some (.ok json)) :
    Answers host (runFixedGuestJson lib id executable arguments cwd maxBytes) c json := by
  rw [runFixedGuestJson, if_neg (not_not.mpr hbound), hstart]
  apply (answers_perform (.stream id executable arguments cwd controlTimeoutMs
    (maxBytes + 131072)) not_false).bind
  rw [hanswer, hread]
  dsimp only
  rw [hfailure]
  dsimp only
  rw [hresult]
  exact answers_pure json

variable {Q : Except AenError β → Controller → Unit → Prop}

section Exec

variable {lib : AenLibrary} {backend : Backend} {id watcherId : String}

/-- Reading a guest program's JSON is settled. -/
theorem settled_runFixedGuestJson {executable cwd : String} {arguments : List String}
    {maxBytes : ℤ} :
    Settled host (runFixedGuestJson lib id executable arguments cwd maxBytes) c := by
  unfold runFixedGuestJson
  split
  · exact settled_throw _
  · split
    · exact settled_throw _
    · apply (settled_perform (.stream _ _ _ _ _ _) not_false).bind
      intro answer
      split
      · exact settled_throw _
      · split
        · exact settled_signalProcess (settled_throw _)
        · split
          · exact settled_signalProcess (settled_throw _)
          · exact settled_pure _
          · exact settled_throw _

/-- Reading the watcher's events is settled. -/
theorem settled_finishDiffManifest :
    Settled host (finishDiffManifest backend id watcherId) c := by
  apply (settled_request (.watcherEvents _ _) not_false).bind
  intro events
  apply (settled_checked _).bind
  intro _
  apply (settled_orFault _).bind
  intro paths
  apply (settled_checked _).bind
  intro changed
  apply (settled_request (.removeWatcher _ _) not_false).bind
  intro removed
  apply (settled_checked _).bind
  intro _
  exact settled_pure _

/-- Creating the watcher is settled. -/
theorem settled_beginDiffManifest : Settled host (beginDiffManifest backend id) c := by
  apply (settled_request (.createWatcher _ _) not_false).bind
  intro response
  apply (settled_checked _).bind
  intro _
  exact settled_orFault _

/-- Comparing the inventories is settled. -/
theorem settled_scratchDiffOf : Settled host (scratchDiffOf lib backend id) c := by
  unfold scratchDiffOf
  split
  · apply settled_runFixedGuestJson.bind
    intro detail
    exact settled_checked _
  · exact settled_pure _

/-- A value that a settled method returns in one run is the value of all its runs. -/
theorem Settled.returns (h : Settled host x c) :
    Returns (execWorld host) x (fun value c' _ => Answers host x c value ∧ c' = c) c () := by
  obtain ⟨result, hresult⟩ := h
  apply Ensures.mono hresult
  rintro outcome c' ⟨⟩ ⟨rfl, rfl⟩ value rfl
  exact ⟨hresult, rfl⟩

/-- What follows a method whose value is known. -/
theorem Answers.ensures {f : α → AenMethod β} {value : α} (hx : Answers host x c value)
    (h : Ensures (execWorld host) (x >>= f) Q c ()) :
    Ensures (execWorld host) (f value) Q c () := by
  obtain ⟨outcome, c', ⟨⟩, ⟨rfl, rfl⟩, hnext⟩ :=
    (Ensures.and hx (ensures_bind.mp h)).exists (execWorld_answering host)
  exact hnext

/-- An attempt at an answering method has its value. -/
theorem Answers.attempt {value : α} (hx : Answers host x c value) :
    Answers host (attempt x) c (.ok value) := by
  unfold AenBackend.attempt rescue
  apply ensures_tryCatch.mpr
  apply ensures_bind.mpr
  apply Ensures.mono hx
  rintro outcome c' ⟨⟩ ⟨rfl, rfl⟩
  exact ⟨rfl, rfl⟩

/-- What a method returns, an attempt at it returns when it succeeds. -/
theorem returns_attempt {P : α → Controller → Unit → Prop}
    (hx : Returns (execWorld host) x P c ()) :
    Returns (execWorld host) (attempt x)
      (fun outcome c' w' => ∀ value, outcome = .ok value → P value c' w') c () := by
  unfold AenBackend.attempt rescue
  apply ensures_tryCatch.mpr
  apply ensures_bind.mpr
  apply Ensures.mono hx
  intro outcome c' w' h
  cases outcome with
  | ok value =>
    rintro _ ⟨⟩ _ ⟨⟩
    exact h value rfl
  | error error =>
    cases error with
    | failed failure =>
      rintro _ ⟨⟩ _ ⟨⟩
    | aborted =>
      rintro _ ⟨⟩

/-! ## The receipts -/

/-- An enforced receipt reports as changed paths the paths of its changes, in order and
without duplicates. -/
def ReportsAgree (receipt : SandboxReceipt) : Prop :=
  receipt.enforcement = .enforced →
    IsSortedSet receipt.changedPaths (receipt.changes.map (·.relativePath))

/-- The output of the run exceeds its limit, and the manifest of the watcher and the
structured inventory, which the guest both answers, name different paths. -/
def DisagreesAtLimit (lib : AenLibrary) (backend : Backend) (prepared : PreparedSandboxCommand)
    (workingDirectory : String) (host : GuestHost) (c : Controller) : Prop :=
  ∃ id executable arguments watcherId decoder process changed diff,
    c.state = .running ∧ c.sandboxId = some id ∧ isBound backend prepared = true ∧
    safeGuestWorkingDirectory workingDirectory = true ∧
    guestArgv backend prepared = some (executable, arguments) ∧
    Answers host (beginDiffManifest backend id) c watcherId ∧
    ExecProcess.read backend.profile.limits.outputBytes
      (host (execCall backend id executable arguments workingDirectory) : StreamAnswer).chunks =
        some (decoder, process) ∧
    process.outputLimited = true ∧
    Answers host (finishDiffManifest backend id watcherId) c changed ∧
    Answers host (inventoryGuestChanges lib backend id) c diff ∧
    changed ≠ sortedDistinct (diff.entries.map (·.relativePath))

/-- A receipt that refuses the run. -/
def IsRefusal (receipt : SandboxReceipt) : Prop :=
  receipt.enforcement = .refused ∧ receipt.status = .failed

/-- The reports of a refusal agree: it has none. -/
theorem IsRefusal.reportsAgree {receipt : SandboxReceipt} (h : IsRefusal receipt) :
    ReportsAgree receipt := by
  intro henforced
  rw [h.1] at henforced
  cases henforced

/-- A refusal after the cleanup is a refusal. -/
theorem isRefusal_refusedAfterCleanup {W : Type} {world : World AenCall AenCall.Res W} {w : W}
    {reason : String} {cleanupVerified : Bool} :
    Returns world (refusedAfterCleanup lib backend reason cleanupVerified)
      (fun receipt _ _ => IsRefusal receipt) c w := by
  apply returns_bind
  intro _ c' w'
  apply returns_bind
  intro c' _ w'
  exact returns_pure ⟨rfl, rfl⟩

/-- A refused exec receipt is a refusal. -/
theorem isRefusal_refusedExecReceipt {W : Type} {world : World AenCall AenCall.Res W} {w : W}
    {reason : String} :
    Returns world (refusedExecReceipt lib backend reason) (fun receipt _ _ => IsRefusal receipt)
      c w := by
  apply returns_bind
  intro cleanupVerified c' w'
  exact isRefusal_refusedAfterCleanup

/-- The reports of a refused exec receipt agree. -/
theorem returns_refusedExecReceipt {reason : String} :
    Returns world (refusedExecReceipt lib backend reason) (fun receipt _ _ => ReportsAgree receipt)
      c () := isRefusal_refusedExecReceipt.mono fun _ _ _ => IsRefusal.reportsAgree

/-- The reports of a refusal after the cleanup agree. -/
theorem returns_refusedAfterCleanup {reason : String}
    {cleanupVerified : Bool} :
    Returns world (refusedAfterCleanup lib backend reason cleanupVerified)
      (fun receipt _ _ => ReportsAgree receipt) c () :=
  isRefusal_refusedAfterCleanup.mono fun _ _ _ => IsRefusal.reportsAgree

/-- What the end of a terminated run says of its changes, the guest has answered. -/
theorem returns_terminateAndFinishManifest {pid : Option Int32} :
    Returns (execWorld host) (terminateAndFinishManifest lib backend id watcherId pid)
      (fun ended _ _ => ∀ changed diff, ended.1 = .ok (changed, diff) →
        Answers host (finishDiffManifest backend id watcherId) c changed ∧
        Answers host (scratchDiffOf lib backend id) c diff) c () := by
  have hsignal : Returns (execWorld host) (signalProcess pid) (fun _ c' _ => c' = c) c () :=
    ensures_signalProcess fun _ _ _ => rfl
  apply hsignal.bind
  rintro _ c' ⟨⟩ rfl
  have hchanged : Returns (execWorld host) (attempt (do
      let paths ← finishDiffManifest backend id watcherId
      let diff ← scratchDiffOf lib backend id
      pure (paths, diff))) (fun outcome _ _ => ∀ value, outcome = .ok value →
        Answers host (finishDiffManifest backend id watcherId) c' value.1 ∧
        Answers host (scratchDiffOf lib backend id) c' value.2) c' () := by
    apply returns_attempt
    apply settled_finishDiffManifest.returns.bind
    rintro paths c'' ⟨⟩ ⟨hpaths, rfl⟩
    apply settled_scratchDiffOf.returns.bind
    rintro diff c'' ⟨⟩ ⟨hdiff, rfl⟩
    exact returns_pure ⟨hpaths, hdiff⟩
  apply hchanged.bind
  intro outcome c'' w'' houtcome
  apply returns_bind
  intro discarded c3 w3
  apply returns_bind
  intro cancelled c4 w4
  apply returns_pure
  intro changed diff hended
  cases hcancelled : (cancelled : Bool) with
  | true =>
    rw [hcancelled, if_pos rfl] at hended
    cases hended
  | false =>
    rw [hcancelled, if_neg Bool.false_ne_true] at hended
    exact houtcome (changed, diff) hended

/-- The reports agree after a limited output when the watcher and the inventories do. -/
theorem returns_finishLimited {process : ExecProcess}
    (hagree : ∀ changed diff, Answers host (finishDiffManifest backend id watcherId) c changed →
      Answers host (scratchDiffOf lib backend id) c diff →
      changed = sortedDistinct (diff.entries.map (·.relativePath))) :
    Returns (execWorld host) (finishLimited lib backend id watcherId process)
      (fun receipt _ _ => ReportsAgree receipt) c () := by
  apply returns_terminateAndFinishManifest.bind
  rintro ⟨changed, cleanupVerified⟩ c' ⟨⟩ hended
  dsimp only
  split
  · exact returns_refusedExecReceipt
  · split
    · exact returns_refusedExecReceipt
    · apply returns_pure
      intro _
      obtain ⟨hchanged, hdiff⟩ := hended _ _ rfl
      exact isSortedSet_iff.mpr (hagree _ _ hchanged hdiff)

/-- The reports agree after a normal exit, where the method compares them itself. -/
theorem returns_finishExited (hrequire : backend.requireGuestAttestation = true) {code : Int32}
    {process : ExecProcess} :
    Returns (execWorld host) (finishExited lib backend id watcherId code process)
      (fun receipt _ _ => ReportsAgree receipt) c () := by
  apply returns_bind
  rintro changed c' ⟨⟩
  split
  · exact returns_refusedExecReceipt
  · apply returns_bind
    rintro diff c' ⟨⟩
    split
    · exact returns_refusedExecReceipt
    · split
      · exact returns_refusedExecReceipt
      · rename_i hguard
        have hagree := not_ne_iff.mp fun hne => hguard ⟨hrequire, hne⟩
        apply returns_bind
        rintro c' _ ⟨⟩
        split
        · apply returns_pure
          intro _
          exact isSortedSet_iff.mpr hagree
        · apply returns_pure
          intro _
          exact isSortedSet_iff.mpr hagree

/-- The reports agree at the end of a stream, limited or not. -/
theorem returns_finishStream (hrequire : backend.requireGuestAttestation = true)
    {answer : StreamAnswer} {decoder : ConnectDecoder} {process : ExecProcess}
    (hagree : process.outputLimited = true → ∀ changed diff,
      Answers host (finishDiffManifest backend id watcherId) c changed →
      Answers host (scratchDiffOf lib backend id) c diff →
      changed = sortedDistinct (diff.entries.map (·.relativePath))) :
    Returns (execWorld host) (finishStream lib backend id watcherId answer decoder process)
      (fun receipt _ _ => ReportsAgree receipt) c () := by
  unfold finishStream
  split
  · rename_i hlimited
    exact returns_finishLimited (hagree hlimited)
  · split
    · apply returns_bind
      rintro ⟨_, cleanupVerified⟩ c' ⟨⟩
      dsimp only
      split
      · apply returns_bind
        rintro _ c' ⟨⟩
        exact returns_throw _
      · exact returns_refusedAfterCleanup
    · split
      · exact returns_finishExited hrequire
      · apply returns_bind
        rintro ⟨_, cleanupVerified⟩ c' ⟨⟩
        exact returns_refusedAfterCleanup

/-- Without the disagreement every receipt of a run agrees. -/
theorem returns_exec (hrequire : backend.requireGuestAttestation = true)
    {prepared : PreparedSandboxCommand} {workingDirectory : String}
    (h : ¬ DisagreesAtLimit lib backend prepared workingDirectory host c) :
    Returns (execWorld host) (exec lib backend prepared workingDirectory)
      (fun receipt _ _ => ReportsAgree receipt) c () := by
  have hget : Returns (execWorld host) (get : AenMethod Controller)
      (fun fields c' _ => fields = c ∧ c' = c) c () := by
    rintro _ ⟨⟩
    exact ⟨rfl, rfl⟩
  apply hget.bind
  rintro fields c' ⟨⟩ ⟨rfl, rfl⟩
  split
  next id hstate hid =>
    split
    · exact returns_refusedExecReceipt
    · rename_i hbound
      split
      · exact returns_refusedExecReceipt
      · rename_i hdirectory
        split
        · exact returns_refusedExecReceipt
        · rename_i executable arguments hargv
          apply (returns_attempt settled_beginDiffManifest.returns).bind
          rintro watcher c' ⟨⟩ hwatcher
          split
          · exact returns_refusedExecReceipt
          · rename_i watcherId
            obtain ⟨hwatcher, rfl⟩ := hwatcher watcherId rfl
            have hstream : Returns (execWorld host)
                (perform (execCall backend id executable arguments workingDirectory) :
                  AenMethod StreamAnswer)
                (fun answer fields _ => answer =
                  host (execCall backend id executable arguments workingDirectory) ∧
                    fields = c') c' () := by
              rintro answer ⟨⟩ (hfree | rfl)
              · exact absurd hfree not_false
              · rintro _ ⟨⟩
                exact ⟨rfl, rfl⟩
            apply hstream.bind
            rintro answer fields ⟨⟩ ⟨hanswer, rfl⟩
            split
            · exact returns_throw _
            · rename_i decoder process hread
              rw [hanswer] at hread
              apply returns_finishStream hrequire
              intro hlimited changed diff hchanged hdiff
              rw [scratchDiffOf, if_pos hrequire] at hdiff
              by_contra hne
              have hbound' : isBound backend prepared = true := by simpa using hbound
              have hdirectory' : safeGuestWorkingDirectory workingDirectory = true := by
                simpa using hdirectory
              exact h ⟨id, executable, arguments, watcherId, decoder, process, changed, diff,
                hstate, hid, hbound', hdirectory', hargv, hwatcher, hread, hlimited, hchanged,
                hdiff, hne⟩
  next => exact returns_refusedExecReceipt

/-- A run in which the provider deletes what it is asked to delete. -/
theorem ensures_deleted {f : Bool → AenMethod β}
    (h : Ensures (execWorld host) (deleteKnownId id >>= f) Q c ()) :
    Ensures (execWorld host) (f true) Q c () := by
  rw [deleteKnownId, ensures_bind_assoc] at h
  exact ensures_bind.mp h (.ok ⟨204, .empty⟩) () (.inl trivial)

/-- What holds of every run holds of the one in which the children are deleted. -/
theorem ensures_childrenDeleted {ids : List String} {f : List String → AenMethod β}
    (h : Ensures (execWorld host) (deleteChildren ids >>= f) Q c ()) :
    Ensures (execWorld host) (f []) Q c () := by
  induction ids generalizing f with
  | nil => exact h
  | cons childId rest ih =>
    rw [deleteChildren, ensures_bind_assoc] at h
    have hdeleted := ensures_deleted h
    rw [ensures_bind_assoc] at hdeleted
    exact ih hdeleted

/-- What holds of every run holds of the one in which the sandbox is deleted. -/
theorem ensures_sandboxDeleted (hid : c.sandboxId = some id) {f : Bool → AenMethod β}
    {Q : Except AenError β → Controller → Unit → Prop}
    (h : Ensures (execWorld host) (deleteSandbox true >>= f) Q c ()) :
    ∃ c', Ensures (execWorld host) (f true) Q c' () := by
  rw [deleteSandbox, ensures_bind_assoc, ensures_get_bind, hid] at h
  dsimp only at h
  rw [ensures_bind_assoc] at h
  have hdeleted := ensures_deleted h
  rw [if_pos rfl, ensures_bind_assoc, ensures_modify_bind, ensures_pure_bind] at hdeleted
  exact ⟨_, hdeleted⟩

/-- A run in which the VM and its children are deleted. -/
theorem ensures_discarded (hid : c.sandboxId = some id) {f : Bool → AenMethod β}
    {Q : Except AenError β → Controller → Unit → Prop}
    (h : Ensures (execWorld host) (discardChecked >>= f) Q c ()) :
    ∃ c', Ensures (execWorld host) (f true) Q c' () := by
  rw [discardChecked, ensures_bind_assoc, ensures_get_bind, ensures_bind_assoc] at h
  have hchildren := ensures_childrenDeleted h
  rw [ensures_bind_assoc, ensures_modify_bind, ensures_bind_assoc] at hchildren
  have hid' : ({ c with pendingChildIds := [] } : Controller).sandboxId = some id := hid
  obtain ⟨c', hdeleted⟩ := ensures_sandboxDeleted hid' hchildren
  rw [if_pos rfl, ensures_bind_assoc, ensures_modify_bind, ensures_pure_bind] at hdeleted
  exact ⟨_, hdeleted⟩

/-- Some run goes on after a signal. -/
theorem ensures_signalled {pid : Option Int32} {f : Bool → AenMethod β}
    (h : Ensures (execWorld host) (signalProcess pid >>= f) Q c ()) :
    ∃ signalled, Ensures (execWorld host) (f signalled) Q c () := by
  have hsignal : Ensures (execWorld host) (signalProcess pid)
      (fun outcome c' _ => ∃ signalled, outcome = .ok signalled ∧ c' = c) c () :=
    ensures_signalProcess fun signalled => ⟨signalled, rfl, rfl⟩
  obtain ⟨outcome, c', ⟨⟩, ⟨signalled, rfl, rfl⟩, hnext⟩ :=
    (hsignal.and (ensures_bind.mp h)).exists (execWorld_answering host)
  exact ⟨signalled, hnext⟩

/-- A run terminated at its output limit, whose VM is deleted. -/
theorem ensures_terminated (hid : c.sandboxId = some id) {pid : Option Int32}
    {changed : List String} {diff : ScratchDiff}
    (hchanged : Answers host (finishDiffManifest backend id watcherId) c changed)
    (hdiff : Answers host (scratchDiffOf lib backend id) c diff)
    {f : Except AenFailure (List String × ScratchDiff) × Bool → AenMethod β}
    {Q : Except AenError β → Controller → Unit → Prop}
    (h : Ensures (execWorld host)
      (terminateAndFinishManifest lib backend id watcherId pid >>= f) Q c ()) :
    ∃ c', Ensures (execWorld host) (f (.ok (changed, diff), true)) Q c' () := by
  rw [terminateAndFinishManifest, ensures_bind_assoc] at h
  obtain ⟨_, hsignalled⟩ := ensures_signalled h
  have hboth : Answers host (do
      let paths ← finishDiffManifest backend id watcherId
      let diff ← scratchDiffOf lib backend id
      pure (paths, diff)) c (changed, diff) := by
    apply hchanged.bind
    apply hdiff.bind
    exact answers_pure (changed, diff)
  rw [ensures_bind_assoc] at hsignalled
  have hmanifest := hboth.attempt.ensures hsignalled
  rw [ensures_bind_assoc] at hmanifest
  obtain ⟨c', hdiscarded⟩ := ensures_discarded hid hmanifest
  rw [ensures_bind_assoc] at hdiscarded
  exact ⟨c', ensures_perform_bind.mp hdiscarded false () (.inl trivial)⟩

/-- The receipt of a run that is killed for its output. -/
def limitedReceipt (backend : Backend) (process : ExecProcess) (changed : List String)
    (diff : ScratchDiff) : SandboxReceipt :=
  { killedReceipt backend.profile.runId .microVm .enforced backend.digest
      (decodeUtf8Lossy process.output) true "output_bytes" with
    changedPaths := changed
    changes := diff.entries
    cleanupVerified := true
    retentionId := none }

/-- Where the guest answers all calls of a run whose output exceeds its limit, some run of `exec`
returns the receipt that is killed for it. -/
theorem limitedReceipt_of_returns {prepared : PreparedSandboxCommand}
    {workingDirectory executable : String} {arguments changed : List String}
    {decoder : ConnectDecoder} {process : ExecProcess} {diff : ScratchDiff}
    (hstate : c.state = .running) (hid : c.sandboxId = some id)
    (hbound : isBound backend prepared = true)
    (hdirectory : safeGuestWorkingDirectory workingDirectory = true)
    (hargv : guestArgv backend prepared = some (executable, arguments))
    (hwatcher : Answers host (beginDiffManifest backend id) c watcherId)
    (hread : ExecProcess.read backend.profile.limits.outputBytes
      (host (execCall backend id executable arguments workingDirectory) : StreamAnswer).chunks =
        some (decoder, process))
    (hlimited : process.outputLimited = true)
    (hchanged : Answers host (finishDiffManifest backend id watcherId) c changed)
    (hdiff : Answers host (scratchDiffOf lib backend id) c diff)
    {P : SandboxReceipt → Prop}
    (hreturns : Returns (execWorld host) (exec lib backend prepared workingDirectory)
      (fun receipt _ _ => P receipt) c ()) :
    P (limitedReceipt backend process changed diff) := by
  rw [exec, Returns, ensures_get_bind, hstate, hid] at hreturns
  dsimp only at hreturns
  rw [hbound, hdirectory, if_neg (by decide), if_neg (by decide), hargv] at hreturns
  dsimp only at hreturns
  have hstream := hwatcher.attempt.ensures hreturns
  dsimp only at hstream
  have hanswer := ensures_perform_bind.mp hstream _ () (.inr rfl)
  rw [hread] at hanswer
  dsimp only at hanswer
  rw [finishStream, if_pos hlimited, finishLimited] at hanswer
  obtain ⟨c', hkilled⟩ := ensures_terminated hid hchanged hdiff hanswer
  exact hkilled _ rfl

/-- With the disagreement some receipt of a run does not agree. -/
theorem not_returns_exec (hrequire : backend.requireGuestAttestation = true)
    {prepared : PreparedSandboxCommand} {workingDirectory : String}
    (h : DisagreesAtLimit lib backend prepared workingDirectory host c) :
    ¬ Returns (execWorld host) (exec lib backend prepared workingDirectory)
      (fun receipt _ _ => ReportsAgree receipt) c () := by
  obtain ⟨id, executable, arguments, watcherId, decoder, process, changed, diff, hstate, hid,
    hbound, hdirectory, hargv, hwatcher, hread, hlimited, hchanged, hdiff, hne⟩ := h
  intro hreturns
  have hscratch : Answers host (scratchDiffOf lib backend id) c diff := by
    rw [scratchDiffOf, if_pos hrequire]
    exact hdiff
  have hagree :=
    limitedReceipt_of_returns hstate hid hbound hdirectory hargv hwatcher hread hlimited
    hchanged hscratch hreturns
  exact hne (isSortedSet_iff.mp (hagree rfl))

end Exec

/-! ## A run that disagrees -/

/-- The profile of a run whose output is limited to one byte. -/
def sampleAenProfile : SandboxProfile where
  runId := "run"
  workspaceRoot := "/w"
  scratchRoot := "/t"
  backend := .microVm
  enforcementRequirement := .requireEnforced
  network := .deny
  readOnlyRoots := ["/w"]
  allowedEgress := []
  allowedCommands := ["tool"]
  limits := ⟨1000, 1, 1, 1, 1, 1⟩
  readOnlyWorkspace := true
  executorEvidenceRoot := ""
  liveOutputId := ""

/-- The digest of the profile. -/
def sampleAenDigest : String := "8ffb74e7b7333eab50d3b933a9dfe75515acd8d1f34522d3707d82a0a94645d0"

/-- Another digest. -/
def sampleFileDigest : String := String.ofList (List.replicate 64 'b')

/-- A backend with an empty workspace that requires attestation. -/
def sampleAenBackend : Backend where
  apiKey := "key"
  executorImageRef := "registry.invalid/executor@sha256:" ++ sampleFileDigest
  workspaceLease := ⟨1, "lease", "run", "workspace", sampleAenDigest, sampleFileDigest,
    "registry.invalid/workspace@sha256:" ++ sampleFileDigest, 0, 0, true, "key", sampleFileDigest⟩
  expectedVcpuCount := 1
  expectedRootDiskMib := 1024
  guestWorkspace := "/workspace"
  guestScratch := "/scratch"
  guestAttester := "/attester"
  guestSupervisor := "/supervisor"
  executorRootDigest := sampleFileDigest
  guestAttesterDigest := sampleFileDigest
  guestSupervisorDigest := sampleFileDigest
  toolRegistryDigest := sampleFileDigest
  requireGuestAttestation := true
  warmSnapshotCompat := false
  guestTools := [("tool", "/tool")]
  profile := sampleAenProfile
  digest := sampleAenDigest

/-- A command bound to the run. -/
def samplePrepared : PreparedSandboxCommand :=
  ⟨sampleAenProfile, sampleAenDigest, .exec "tool" [], "tool", .enforced⟩

/-- The inventory of an empty scratch tree, as the guest writes it. -/
def sampleInventoryText : String :=
  "\x7b\"contract\":\"moonfort-guest-v1\",\"profileDigest\":\"" ++ sampleAenDigest ++ "\"," ++
    "\"baseline\":\x7b\"entries\":[],\"total_bytes\":\"0\"\x7d," ++
    "\"inventory\":\x7b\"entries\":[],\"total_bytes\":\"0\"\x7d\x7d"

/-- The inventory of an empty scratch tree. -/
def sampleInventoryJson : Json :=
  .object [("contract", .string "moonfort-guest-v1"), ("profileDigest", .string sampleAenDigest),
    ("baseline", .object [("entries", .array []), ("total_bytes", .string "0")]),
    ("inventory", .object [("entries", .array []), ("total_bytes", .string "0")])]

/-- The attester writes its inventory and exits with code 0. -/
def sampleInventoryStream : Bytes :=
  ⟨[0, 0, 0, 0, 213, 0x0A, 0xD2, 1, 0x12, 0xCF, 1, 0x0A, 0xCC, 1] ++
    sampleInventoryText.toByteArray.data.toList ++
    [0, 0, 0, 0, 4, 0x0A, 2, 0x1A, 0, 2, 0, 0, 0, 0], by decide +kernel⟩

/-- The supervised process writes two bytes. -/
def sampleRunStream : Bytes := ⟨[0, 0, 0, 0, 8, 0x0A, 6, 0x12, 4, 0x0A, 2, 65, 65], by decide⟩

/-- Libraries that read the inventory of an empty scratch tree. Nothing is hashed here. -/
def sampleAenLibrary : AenLibrary where
  crypto := ⟨fun _ => [], fun _ _ => []⟩
  parseJson text := if text = sampleInventoryText then some sampleInventoryJson else none
  inventoryOfJson _ := some ⟨[], 0⟩

/-- The watcher names a file that the inventory does not, and the process of a run writes these
chunks. -/
def sampleGuestOf (chunks : List Bytes) : GuestHost
  | .request (.createWatcher _ _) => .ok ⟨200, ⟨[0x0A, 1, 119], by decide⟩⟩
  | .request (.watcherEvents _ _) => .ok ⟨200, ⟨[0x0A, 3, 0x0A, 1, 97], by decide⟩⟩
  | .request _ => .ok ⟨200, .empty⟩
  | .stream _ _ _ cwd _ _ => ⟨if cwd = "/scratch" then chunks else [sampleInventoryStream], none⟩
  | .protectionEnds => false

/-- The guest whose process writes two bytes. -/
def sampleGuest : GuestHost := sampleGuestOf [sampleRunStream]

/-- A controller whose VM runs. -/
def sampleController : Controller := ⟨false, some "vm", [], .running⟩

/-- The watcher of a run. -/
theorem answers_beginDiffManifest_sample {chunks : List Bytes} :
    Answers (sampleGuestOf chunks) (beginDiffManifest sampleAenBackend "vm")
      sampleController "w" := by
  apply (answers_request (.createWatcher "vm" _) not_false rfl).bind
  apply (answers_checked ()).bind
  exact answers_orFault (by decide)

/-- The watcher names one file. -/
theorem answers_finishDiffManifest_sample {chunks : List Bytes} :
    Answers (sampleGuestOf chunks) (finishDiffManifest sampleAenBackend "vm" "w") sampleController
      ["a"] := by
  apply (answers_request (.watcherEvents "vm" "w") not_false rfl).bind
  apply (answers_checked ()).bind
  have hpaths : decodeWatcherEvents ⟨[0x0A, 3, 0x0A, 1, 97], by decide⟩ = .ok ["a"] := by
    decide
  apply (answers_orFault hpaths).bind
  apply (answers_checked ["a"]).bind
  apply (answers_request (.removeWatcher "vm" "w") not_false rfl).bind
  apply (answers_checked ()).bind
  have hsorted : sortedDistinct ["a"] = ["a"] := by
    exact (isSortedSet_iff.mp ⟨List.pairwise_singleton _ _, List.nodup_singleton _,
      fun _ => Iff.rfl⟩).symm
  rw [hsorted]
  exact answers_pure ["a"]

/-- What the attester's stream says. -/
theorem sampleInventoryStream_read :
    ∃ start decoder process, decoderFor (4194304 + 65536) = some start ∧
      consumeChunks (FixedProcess.consume 4194304)
        (fun process => { process with connectError := true }) start ⟨none, none, false, []⟩
        [sampleInventoryStream] = some (decoder, process) ∧
      process.result sampleAenLibrary decoder = some (.ok sampleInventoryJson) := by
  have hstream : ((decoderFor (4194304 + 65536)).bind fun start =>
      (consumeChunks (FixedProcess.consume 4194304)
        (fun process => { process with connectError := true }) start ⟨none, none, false, []⟩
        [sampleInventoryStream]).map fun result =>
          (!result.2.connectError && result.1.ended && result.2.exitCode == some 0,
            decodeUtf8 result.2.output)) = some (true, some sampleInventoryText) := by
    decide +kernel
  rw [Option.bind_eq_some_iff] at hstream
  obtain ⟨start, hstart, hread⟩ := hstream
  rw [Option.map_eq_some_iff] at hread
  obtain ⟨⟨decoder, process⟩, hconsumed, hresult⟩ := hread
  rw [Prod.mk.injEq] at hresult
  obtain ⟨hclean, htext⟩ := hresult
  refine ⟨start, decoder, process, hstart, hconsumed, ?_⟩
  rw [FixedProcess.result, if_pos hclean, htext]
  have hparsed : sampleAenLibrary.parseJson sampleInventoryText = some sampleInventoryJson := by
    simp only [sampleAenLibrary, if_true]
  rw [Option.bind_some, hparsed]

/-- The inventory names no file. -/
theorem answers_inventoryGuestChanges_sample {chunks : List Bytes} :
    Answers (sampleGuestOf chunks) (inventoryGuestChanges sampleAenLibrary sampleAenBackend "vm")
      sampleController ⟨[], 0, 0⟩ := by
  obtain ⟨start, decoder, process, hstart, hconsumed, hresult⟩ := sampleInventoryStream_read
  apply (answers_runFixedGuestJson (by decide) hstart rfl rfl hconsumed hresult).bind
  have hdiff : guestDiff sampleAenLibrary sampleAenBackend sampleInventoryJson =
      .ok ⟨[], 0, 0⟩ := by
    decide +kernel
  rw [hdiff]
  exact answers_checked _

/-- Every enforced receipt of an attested run reports as changed paths the sorted paths of
its changes, unless the output exceeds its limit while the watcher and the structured
inventory disagree. -/
theorem exec_receipts_agree_iff (lib : AenLibrary) (backend : Backend)
    (prepared : PreparedSandboxCommand) (workingDirectory : String) (host : GuestHost)
    (c : Controller) :
    (backend.requireGuestAttestation = true →
      Returns (execWorld host) (exec lib backend prepared workingDirectory)
        (fun receipt _ _ => ReportsAgree receipt) c ()) ↔
    ¬ (backend.requireGuestAttestation = true ∧
      DisagreesAtLimit lib backend prepared workingDirectory host c) := by
  constructor
  · rintro h ⟨hrequire, hdisagrees⟩
    exact not_returns_exec hrequire hdisagrees (h hrequire)
  · intro h hrequire
    exact returns_exec hrequire fun hdisagrees => h ⟨hrequire, hdisagrees⟩

/-- The sample run disagrees. -/
theorem disagreesAtLimit_sample :
    DisagreesAtLimit sampleAenLibrary sampleAenBackend samplePrepared "" sampleGuest
      sampleController := by
  have hprocess : (ExecProcess.read 1 [sampleRunStream]).map (·.2.outputLimited) = some true := by
    decide
  rw [Option.map_eq_some_iff] at hprocess
  obtain ⟨⟨decoder, process⟩, hread, hlimited⟩ := hprocess
  have hargv : ∃ arguments,
      guestArgv sampleAenBackend samplePrepared = some ("/supervisor", arguments) := ⟨_, rfl⟩
  obtain ⟨arguments, hargv⟩ := hargv
  refine ⟨"vm", "/supervisor", arguments, "w", decoder, process, ["a"], ⟨[], 0, 0⟩, rfl, rfl,
    ?_, ?_, hargv, answers_beginDiffManifest_sample, hread, hlimited,
    answers_finishDiffManifest_sample,
    answers_inventoryGuestChanges_sample, ?_⟩
  · decide
  · decide
  · intro hnone
    have hmem := (isSortedSet_iff.mpr hnone).mem_iff "a"
    exact absurd (hmem.mp (List.mem_singleton_self _)) List.not_mem_nil

/-- The output of the run exceeds its limit while the watcher names a changed file and the
inventory names none; its receipt is enforced. -/
theorem exec_disagrees_sample :
    ¬ ∀ (lib : AenLibrary) (backend : Backend) (prepared : PreparedSandboxCommand)
      (workingDirectory : String) (host : GuestHost) (c : Controller),
      backend.requireGuestAttestation = true →
        Returns (execWorld host) (exec lib backend prepared workingDirectory)
          (fun receipt _ _ => ReportsAgree receipt) c () := by
  intro h
  exact not_returns_exec rfl disagreesAtLimit_sample (h _ _ _ _ _ _ rfl)

end Moonfort.AenBackend
