import Moonfort.Sandbox.CommandPreflight

/-!
# The lifecycle of a sandbox run

The transitions of a run, each begun and completed on its own, and what holds of
the run after every sequence of them. A completion works on the file system, so
its call carries what the storage routine answered; a transition that answers
without a new run leaves the caller with the run it had.
-/

namespace Moonfort.Sandbox

open MoonBit

/-- `SandboxLifecycleState`. -/
inductive SandboxLifecycleState where
  | created
  | starting
  | ready
  | executing
  | stopping
  | stopped
  | snapshottingReady
  | snapshottingStopped
  | resetting
  | failed
  deriving DecidableEq

/-- `SandboxStorageRefusal`. -/
inductive SandboxStorageRefusal where
  | invalidScratchRoot (root : String)
  | scratchRootNotCanonical (expected actual : String)
  | unsafeEntryName (name : String)
  | unsupportedEntry (path kind : String)
  | entryChangedDuringInventory (path : String)
  | diskLimitExceeded (limitBytes observedBytes : ℤ)
  | storageIo (message : String)
  deriving DecidableEq

/-- `SandboxLifecycleRefusal`. -/
inductive SandboxLifecycleRefusal where
  | invalidLifecycleProfile (reason : String)
  | invalidLifecycleTransition (operation : String) (actual : SandboxLifecycleState)
  | preparedRunMismatch
  | receiptRunMismatch
  | receiptNotTerminal
  | storageRefused (reason : SandboxStorageRefusal)
  | resetDidNotRestoreBaseline (diff : ScratchDiff)
  deriving DecidableEq

/-- `SandboxRunContract`. -/
structure SandboxRunContract where
  profile : SandboxProfile
  profileDigest : String
  state : SandboxLifecycleState
  baseline : Option ScratchInventory
  latest : Option ScratchInventory
  revision : Int32

/-- `SandboxScratchSnapshot`. -/
structure SandboxScratchSnapshot where
  runId : String
  profileDigest : String
  revision : Int32
  inventory : ScratchInventory

/-- `SandboxRunObservation`. -/
structure SandboxRunObservation where
  run : SandboxRunContract
  snapshot : SandboxScratchSnapshot
  diffFromBaseline : ScratchDiff

/-- How `inventory_scratch`, `materialize_workspace_snapshot` or
`reset_workspace_snapshot` ended. -/
inductive StorageOutcome where
  | answered (inventory : ScratchInventory)
  | refused (reason : SandboxStorageRefusal)
  | raised

/-- Why a transition answers without a new run. -/
inductive TransitionFailure where
  | refused (reason : SandboxLifecycleRefusal)
  | raised
  deriving DecidableEq

/-- `new_sandbox_run`. -/
def newSandboxRun (sha256Hex : String → String) (profile : SandboxProfile) :
    Except SandboxLifecycleRefusal SandboxRunContract :=
  if profileRejection profile ≠ "" then
    .error (.invalidLifecycleProfile (profileRejection profile))
  else .ok ⟨profile, profileDigest sha256Hex profile, .created, none, none, 0⟩

/-- `lifecycle_transition_error`. -/
def lifecycleTransitionError {α : Type} (operation : String) (actual : SandboxLifecycleState) :
    Except TransitionFailure α :=
  .error (.refused (.invalidLifecycleTransition operation actual))

/-- What a transition does with the answer of a storage routine. -/
def StorageOutcome.result : StorageOutcome → Except TransitionFailure ScratchInventory
  | .answered inventory => .ok inventory
  | .refused reason => .error (.refused (.storageRefused reason))
  | .raised => .error .raised

/-- `observation`. -/
def observation (run : SandboxRunContract) (inventory : ScratchInventory) :
    SandboxRunObservation :=
  ⟨run, ⟨run.profile.runId, run.profileDigest, run.revision, inventory⟩,
    diffScratch (run.baseline.getD inventory) inventory⟩

namespace SandboxRunContract

/-- The run that a completed exec, stop, snapshot or reset leaves. -/
def advance (run : SandboxRunContract) (state : SandboxLifecycleState)
    (inventory : ScratchInventory) : SandboxRunContract :=
  { run with state := state, latest := some inventory, revision := run.revision + 1 }

/-- `begin_start`. -/
def beginStart (run : SandboxRunContract) : Except TransitionFailure SandboxRunContract :=
  match run.state with
  | .created => .ok { run with state := .starting }
  | actual => lifecycleTransitionError "start" actual

/-- `complete_start`. -/
def completeStart (run : SandboxRunContract) (storage : StorageOutcome) :
    Except TransitionFailure SandboxRunContract :=
  if run.state ≠ .starting then lifecycleTransitionError "complete-start" run.state
  else do
    let baseline ← storage.result
    return { run with state := .ready, baseline := some baseline, latest := some baseline }

/-- `begin_exec`. -/
def beginExec (run : SandboxRunContract) (prepared : PreparedSandboxCommand) :
    Except TransitionFailure SandboxRunContract :=
  if run.state ≠ .ready then lifecycleTransitionError "exec" run.state
  else if prepared.profileDigest ≠ run.profileDigest ∨
      prepared.profile.runId ≠ run.profile.runId ∨
      prepared.profile.backend ≠ run.profile.backend then
    .error (.refused .preparedRunMismatch)
  else .ok { run with state := .executing }

/-- `complete_exec`. -/
def completeExec (run : SandboxRunContract) (receipt : SandboxReceipt)
    (storage : StorageOutcome) : Except TransitionFailure SandboxRunObservation :=
  if run.state ≠ .executing then lifecycleTransitionError "complete-exec" run.state
  else if receipt.runId ≠ run.profile.runId ∨ receipt.profileDigest ≠ run.profileDigest ∨
      receipt.backend ≠ run.profile.backend then
    .error (.refused .receiptRunMismatch)
  else if receipt.status ∉ [.exited, .killed, .failed] ∨ receipt.enforcement = .refused then
    .error (.refused .receiptNotTerminal)
  else do
    let inventory ← storage.result
    return observation (run.advance .ready inventory) inventory

/-- `begin_stop`. -/
def beginStop (run : SandboxRunContract) : Except TransitionFailure SandboxRunContract :=
  match run.state with
  | .ready | .executing => .ok { run with state := .stopping }
  | actual => lifecycleTransitionError "stop" actual

/-- `complete_stop`. -/
def completeStop (run : SandboxRunContract) (storage : StorageOutcome) :
    Except TransitionFailure SandboxRunObservation :=
  if run.state ≠ .stopping then lifecycleTransitionError "complete-stop" run.state
  else do
    let inventory ← storage.result
    return observation (run.advance .stopped inventory) inventory

/-- `begin_snapshot`. -/
def beginSnapshot (run : SandboxRunContract) : Except TransitionFailure SandboxRunContract :=
  match run.state with
  | .ready => .ok { run with state := .snapshottingReady }
  | .stopped => .ok { run with state := .snapshottingStopped }
  | actual => lifecycleTransitionError "snapshot" actual

/-- The state to which `complete_snapshot` returns. -/
def resumeState : SandboxLifecycleState → Except TransitionFailure SandboxLifecycleState
  | .snapshottingReady => .ok .ready
  | .snapshottingStopped => .ok .stopped
  | actual => lifecycleTransitionError "complete-snapshot" actual

/-- `complete_snapshot`. -/
def completeSnapshot (run : SandboxRunContract) (storage : StorageOutcome) :
    Except TransitionFailure SandboxRunObservation := do
  let state ← resumeState run.state
  let inventory ← storage.result
  return observation (run.advance state inventory) inventory

/-- `begin_reset`. -/
def beginReset (run : SandboxRunContract) : Except TransitionFailure SandboxRunContract :=
  match run.state with
  | .stopped => .ok { run with state := .resetting }
  | actual => lifecycleTransitionError "reset" actual

/-- The last part of `complete_reset`: the restored tree is compared with the baseline. -/
def finishReset (run : SandboxRunContract) (baseline inventory : ScratchInventory) :
    Except TransitionFailure SandboxRunObservation :=
  let resetDiff := diffScratch baseline inventory
  if !resetDiff.entries.isEmpty then .error (.refused (.resetDidNotRestoreBaseline resetDiff))
  else .ok (observation (run.advance .ready inventory) inventory)

/-- `complete_reset`. -/
def completeReset (run : SandboxRunContract) (storage : StorageOutcome) :
    Except TransitionFailure SandboxRunObservation :=
  if run.state ≠ .resetting then lifecycleTransitionError "complete-reset" run.state
  else
    match run.baseline with
    | none => lifecycleTransitionError "reset-without-baseline" run.state
    | some baseline => do
      let inventory ← storage.result
      run.finishReset baseline inventory

/-- `mark_failed`. -/
def markFailed (run : SandboxRunContract) : SandboxRunContract := { run with state := .failed }

end SandboxRunContract

/-- A call of one transition, with what the file system and the caller bring to it. -/
inductive LifecycleCall where
  | beginStart
  | completeStart (storage : StorageOutcome)
  | beginExec (prepared : PreparedSandboxCommand)
  | completeExec (receipt : SandboxReceipt) (storage : StorageOutcome)
  | beginStop
  | completeStop (storage : StorageOutcome)
  | beginSnapshot
  | completeSnapshot (storage : StorageOutcome)
  | beginReset
  | completeReset (storage : StorageOutcome)
  | markFailed

/-- The call completes an exec, a stop, a snapshot or a reset when it succeeds. -/
def LifecycleCall.counts : LifecycleCall → Bool
  | .completeExec .. | .completeStop _ | .completeSnapshot _ | .completeReset _ => true
  | _ => false

/-- The call completes a start when it succeeds. -/
def LifecycleCall.starts : LifecycleCall → Bool
  | .completeStart _ => true
  | _ => false

/-- The run that a call answers with. -/
def LifecycleCall.apply (run : SandboxRunContract) :
    LifecycleCall → Except TransitionFailure SandboxRunContract
  | .beginStart => run.beginStart
  | .completeStart storage => run.completeStart storage
  | .beginExec prepared => run.beginExec prepared
  | .completeExec receipt storage => (run.completeExec receipt storage).map (·.run)
  | .beginStop => run.beginStop
  | .completeStop storage => (run.completeStop storage).map (·.run)
  | .beginSnapshot => run.beginSnapshot
  | .completeSnapshot storage => (run.completeSnapshot storage).map (·.run)
  | .beginReset => run.beginReset
  | .completeReset storage => (run.completeReset storage).map (·.run)
  | .markFailed => .ok run.markFailed

/-- The run that the caller holds after a call: the old one unless the call answered. -/
def stepRun (run : SandboxRunContract) (call : LifecycleCall) : SandboxRunContract :=
  match call.apply run with
  | .ok next => next
  | .error _ => run

/-- The run after a sequence of calls. -/
def afterCalls (run : SandboxRunContract) (calls : List LifecycleCall) : SandboxRunContract :=
  calls.foldl stepRun run

/-- How many of the calls that a test selects succeed. -/
def succeeded (test : LifecycleCall → Bool) : SandboxRunContract → List LifecycleCall → ℕ
  | _, [] => 0
  | run, call :: rest =>
    (if test call = true ∧ (call.apply run).isOk = true then 1 else 0) +
      succeeded test (stepRun run call) rest

/-- A state that a run reaches only through a completed start. -/
def SandboxLifecycleState.afterStart : SandboxLifecycleState → Bool
  | .created | .starting | .failed => false
  | _ => true

variable {storage : StorageOutcome}

/-- A transition succeeds on an inventory only. -/
theorem bind_result_eq_ok {α : Type} {rest : ScratchInventory → Except TransitionFailure α} {a : α}
    (h : (storage.result >>= rest) = .ok a) :
    ∃ inventory, storage = .answered inventory ∧ rest inventory = .ok a := by
  cases storage with
  | answered inventory => exact ⟨inventory, rfl, h⟩
  | refused reason => cases h
  | raised => cases h

/-- The next run is that of an observation. -/
theorem map_run_eq_ok {result : Except TransitionFailure SandboxRunObservation}
    {next : SandboxRunContract} (h : result.map (·.run) = .ok next) :
    ∃ observed, result = .ok observed ∧ observed.run = next := by
  cases result with
  | error failure => cases h
  | ok observed => exact ⟨observed, rfl, Except.ok.inj h⟩

variable {run : SandboxRunContract}

namespace SandboxRunContract

/-- An exec is begun in the ready state, with a command prepared under this run's profile. -/
theorem beginExec_eq_ok {run next : SandboxRunContract} {prepared : PreparedSandboxCommand}
    (h : run.beginExec prepared = .ok next) :
    run.state = .ready ∧ prepared.profileDigest = run.profileDigest ∧
      next = { run with state := .executing } := by
  rw [beginExec] at h
  split at h
  · cases h
  · rename_i hready
    split at h
    · cases h
    · rename_i hmatches
      rw [not_or] at hmatches
      exact ⟨not_not.mp hready, not_not.mp hmatches.1, (Except.ok.inj h).symm⟩

variable {observed : SandboxRunObservation}

/-- A completed exec answers with the inventory that the storage routine found. -/
theorem completeExec_eq_ok {receipt : SandboxReceipt}
    (h : run.completeExec receipt storage = .ok observed) :
    run.state = .executing ∧ ∃ inventory, observed.run = run.advance .ready inventory := by
  rw [completeExec] at h
  split at h
  · cases h
  · rename_i hstate
    split at h
    · cases h
    · split at h
      · cases h
      · obtain ⟨inventory, _, hrest⟩ := bind_result_eq_ok h
        refine ⟨not_not.mp hstate, inventory, ?_⟩
        rw [← Except.ok.inj hrest]
        rfl

/-- A completed stop answers with the inventory that the storage routine found. -/
theorem completeStop_eq_ok (h : run.completeStop storage = .ok observed) :
    run.state = .stopping ∧ ∃ inventory, observed.run = run.advance .stopped inventory := by
  rw [completeStop] at h
  split at h
  · cases h
  · rename_i hstate
    obtain ⟨inventory, _, hrest⟩ := bind_result_eq_ok h
    refine ⟨not_not.mp hstate, inventory, ?_⟩
    rw [← Except.ok.inj hrest]
    rfl

/-- A completed snapshot returns to the state in which it was begun. -/
theorem completeSnapshot_eq_ok (h : run.completeSnapshot storage = .ok observed) :
    ∃ state inventory, resumeState run.state = .ok state ∧
      observed.run = run.advance state inventory := by
  rw [completeSnapshot] at h
  cases hstate : resumeState run.state with
  | error failure =>
    rw [hstate] at h
    cases h
  | ok state =>
    rw [hstate] at h
    obtain ⟨inventory, _, hrest⟩ := bind_result_eq_ok h
    refine ⟨state, inventory, rfl, ?_⟩
    rw [← Except.ok.inj hrest]
    rfl

/-- A completed reset has found nothing changed against the baseline. -/
theorem completeReset_eq_ok (h : run.completeReset storage = .ok observed) :
    run.state = .resetting ∧ ∃ baseline inventory, run.baseline = some baseline ∧
      storage = .answered inventory ∧ (diffScratch baseline inventory).entries = [] ∧
      observed = observation (run.advance .ready inventory) inventory := by
  rw [completeReset] at h
  split at h
  · cases h
  · rename_i hstate
    split at h
    · cases h
    · rename_i baseline hbaseline
      obtain ⟨inventory, hstorage, hrest⟩ := bind_result_eq_ok h
      rw [finishReset] at hrest
      split at hrest
      · cases hrest
      · rename_i hempty
        refine ⟨not_not.mp hstate, baseline, inventory, hbaseline, hstorage, ?_,
          (Except.ok.inj hrest).symm⟩
        simpa using hempty

/-- A completed start records the materialized tree as the baseline. -/
theorem completeStart_eq_ok {run next : SandboxRunContract}
    (h : run.completeStart storage = .ok next) :
    run.state = .starting ∧ ∃ baseline, storage = .answered baseline ∧
      next = { run with state := .ready, baseline := some baseline, latest := some baseline } := by
  rw [completeStart] at h
  split at h
  · cases h
  · rename_i hstate
    obtain ⟨baseline, hstorage, hrest⟩ := bind_result_eq_ok h
    exact ⟨not_not.mp hstate, baseline, hstorage, (Except.ok.inj hrest).symm⟩

end SandboxRunContract

/-- Everything that a call which answers can do to the run: move its state on,
record the baseline of the start, or complete a step with a new inventory. -/
theorem LifecycleCall.apply_cases {call : LifecycleCall} {run next : SandboxRunContract}
    (h : call.apply run = .ok next) :
    (call.starts = false ∧ call.counts = false ∧ ∃ state, next = { run with state := state } ∧
      (state.afterStart = true → run.state.afterStart = true)) ∨
    (call.starts = true ∧ call.counts = false ∧ ∃ baseline, next =
      { run with state := .ready, baseline := some baseline, latest := some baseline }) ∨
    (call.starts = false ∧ call.counts = true ∧ run.state.afterStart = true ∧
      ∃ state inventory, next = run.advance state inventory) := by
  cases call with
  | beginStart =>
    simp only [LifecycleCall.apply, SandboxRunContract.beginStart] at h
    split at h
    · exact .inl ⟨rfl, rfl, .starting, (Except.ok.inj h).symm, fun h => by cases h⟩
    · cases h
  | completeStart storage =>
    obtain ⟨_, baseline, _, hnext⟩ := SandboxRunContract.completeStart_eq_ok h
    exact .inr (.inl ⟨rfl, rfl, baseline, hnext⟩)
  | beginExec prepared =>
    obtain ⟨hstate, _, hnext⟩ := SandboxRunContract.beginExec_eq_ok h
    exact .inl ⟨rfl, rfl, .executing, hnext, fun _ => by rw [hstate]; rfl⟩
  | completeExec receipt storage =>
    obtain ⟨observed, hok, hrun⟩ := map_run_eq_ok h
    obtain ⟨hstate, inventory, hnext⟩ := SandboxRunContract.completeExec_eq_ok hok
    exact .inr (.inr ⟨rfl, rfl, by rw [hstate]; rfl, _, inventory, hrun.symm.trans hnext⟩)
  | beginStop =>
    simp only [LifecycleCall.apply, SandboxRunContract.beginStop] at h
    split at h
    · rename_i hstate
      exact .inl ⟨rfl, rfl, .stopping, (Except.ok.inj h).symm, fun _ => by rw [hstate]; rfl⟩
    · rename_i hstate
      exact .inl ⟨rfl, rfl, .stopping, (Except.ok.inj h).symm, fun _ => by rw [hstate]; rfl⟩
    · cases h
  | completeStop storage =>
    obtain ⟨observed, hok, hrun⟩ := map_run_eq_ok h
    obtain ⟨hstate, inventory, hnext⟩ := SandboxRunContract.completeStop_eq_ok hok
    exact .inr (.inr ⟨rfl, rfl, by rw [hstate]; rfl, _, inventory, hrun.symm.trans hnext⟩)
  | beginSnapshot =>
    simp only [LifecycleCall.apply, SandboxRunContract.beginSnapshot] at h
    split at h
    · rename_i hstate
      exact .inl ⟨rfl, rfl, _, (Except.ok.inj h).symm, fun _ => by rw [hstate]; rfl⟩
    · rename_i hstate
      exact .inl ⟨rfl, rfl, _, (Except.ok.inj h).symm, fun _ => by rw [hstate]; rfl⟩
    · cases h
  | completeSnapshot storage =>
    obtain ⟨observed, hok, hrun⟩ := map_run_eq_ok h
    obtain ⟨state, inventory, hstate, hnext⟩ := SandboxRunContract.completeSnapshot_eq_ok hok
    have hstarted : run.state.afterStart = true := by
      rw [SandboxRunContract.resumeState.eq_def] at hstate
      split at hstate
      · rename_i heq
        rw [heq]
        rfl
      · rename_i heq
        rw [heq]
        rfl
      · cases hstate
    exact .inr (.inr ⟨rfl, rfl, hstarted, state, inventory, hrun.symm.trans hnext⟩)
  | beginReset =>
    simp only [LifecycleCall.apply, SandboxRunContract.beginReset] at h
    split at h
    · rename_i hstate
      exact .inl ⟨rfl, rfl, _, (Except.ok.inj h).symm, fun _ => by rw [hstate]; rfl⟩
    · cases h
  | completeReset storage =>
    obtain ⟨observed, hok, hrun⟩ := map_run_eq_ok h
    obtain ⟨hstate, baseline, inventory, _, _, _, hobserved⟩ :=
      SandboxRunContract.completeReset_eq_ok hok
    refine .inr (.inr ⟨rfl, rfl, by rw [hstate]; rfl, .ready, inventory, ?_⟩)
    rw [← hrun, hobserved]
    rfl
  | markFailed => exact .inl ⟨rfl, rfl, .failed, (Except.ok.inj h).symm, fun h => by cases h⟩

/-- What holds of a run after every sequence of calls, with the numbers of
completed starts and of completed later steps so far. -/
structure LifecycleInvariant (initial : SandboxRunContract) (starts steps : ℕ)
    (run : SandboxRunContract) : Prop where
  profile_eq : run.profile = initial.profile
  digest_eq : run.profileDigest = initial.profileDigest
  baseline_of_start : 0 < starts → run.baseline.isSome = true
  baseline_of_state : run.state.afterStart = true → run.baseline.isSome = true
  revision_eq : run.revision = initial.revision + Int32.ofNat steps

/-- A call keeps the invariant and moves the counts on as it succeeds. -/
theorem LifecycleInvariant.step {initial run : SandboxRunContract} {starts steps : ℕ}
    (hinv : LifecycleInvariant initial starts steps run) (call : LifecycleCall) :
    LifecycleInvariant initial
      (starts + if call.starts = true ∧ (call.apply run).isOk = true then 1 else 0)
      (steps + if call.counts = true ∧ (call.apply run).isOk = true then 1 else 0)
      (stepRun run call) := by
  rw [stepRun]
  cases happly : call.apply run with
  | error failure => simpa [Except.isOk, Except.toBool] using hinv
  | ok next =>
    obtain ⟨hstart, hcount, state, rfl, hstate⟩ | ⟨hstart, hcount, baseline, rfl⟩ |
      ⟨hstart, hcount, hstate, state, inventory, rfl⟩ := LifecycleCall.apply_cases happly
    · simp only [hstart, hcount, Bool.false_eq_true, false_and, if_false, Nat.add_zero]
      exact ⟨hinv.profile_eq, hinv.digest_eq, hinv.baseline_of_start,
        fun h => hinv.baseline_of_state (hstate h), hinv.revision_eq⟩
    · simp only [hcount, Bool.false_eq_true, false_and, if_false, Nat.add_zero]
      exact ⟨hinv.profile_eq, hinv.digest_eq, fun _ => rfl, fun _ => rfl, hinv.revision_eq⟩
    · have hbaseline := hinv.baseline_of_state hstate
      have hrevision : run.revision + 1 = initial.revision + Int32.ofNat (steps + 1) := by
        rw [hinv.revision_eq, Int32.ofNat_add, Int32.add_assoc]
        rfl
      simp only [hstart, hcount, Except.isOk, Except.toBool, Bool.false_eq_true, false_and,
        and_self, if_false, if_true, Nat.add_zero]
      exact ⟨hinv.profile_eq, hinv.digest_eq, fun _ => hbaseline, fun _ => hbaseline, hrevision⟩

/-- The invariant holds after every sequence of calls. -/
theorem LifecycleInvariant.afterCalls {initial run : SandboxRunContract} {starts steps : ℕ}
    (hinv : LifecycleInvariant initial starts steps run) (calls : List LifecycleCall) :
    LifecycleInvariant initial (starts + succeeded LifecycleCall.starts run calls)
      (steps + succeeded LifecycleCall.counts run calls) (afterCalls run calls) := by
  induction calls generalizing run starts steps with
  | nil => exact hinv
  | cons call rest ih =>
    have hrest := ih (hinv.step call)
    rw [Nat.add_assoc, Nat.add_assoc] at hrest
    exact hrest

/-- What `new_sandbox_run` answers with. -/
theorem newSandboxRun_eq_ok {sha256Hex : String → String} {profile : SandboxProfile}
    {initial : SandboxRunContract} (h : newSandboxRun sha256Hex profile = .ok initial) :
    initial = ⟨profile, profileDigest sha256Hex profile, .created, none, none, 0⟩ := by
  rw [newSandboxRun] at h
  split at h
  · cases h
  · exact (Except.ok.inj h).symm

/-- The invariant holds of a run from `new_sandbox_run` after every sequence of calls. -/
theorem lifecycleInvariant_of_new {sha256Hex : String → String} {profile : SandboxProfile}
    {initial : SandboxRunContract} (h : newSandboxRun sha256Hex profile = .ok initial)
    (calls : List LifecycleCall) :
    LifecycleInvariant initial (succeeded LifecycleCall.starts initial calls)
      (succeeded LifecycleCall.counts initial calls) (afterCalls initial calls) := by
  have hstart : LifecycleInvariant initial 0 0 initial := by
    rw [newSandboxRun_eq_ok h]
    exact ⟨rfl, rfl, fun h => absurd h (lt_irrefl 0), (fun h => by cases h), rfl⟩
  have hinv := hstart.afterCalls calls
  rwa [Nat.zero_add, Nat.zero_add] at hinv

/-- After every sequence of calls the run still has the profile and the digest
that it began with, its baseline since the first completed start, and the number
of completed later steps as its revision, which is a 32-bit number and wraps. An
exec is begun only in the ready state under a matching digest, and a completed
reset has found nothing changed against the baseline. -/
theorem lifecycle_kept (sha256Hex : String → String) (profile : SandboxProfile)
    (initial : SandboxRunContract) (hnew : newSandboxRun sha256Hex profile = .ok initial)
    (calls : List LifecycleCall) :
    let run := afterCalls initial calls
    let steps := succeeded LifecycleCall.counts initial calls
    run.profile = profile ∧ run.profileDigest = profileDigest sha256Hex profile ∧
      (0 < succeeded LifecycleCall.starts initial calls → run.baseline.isSome = true) ∧
      (∀ storage actual,
        run.completeReset storage ≠ lifecycleTransitionError "reset-without-baseline" actual) ∧
      run.revision = Int32.ofNat steps ∧ (steps < 2 ^ 31 → run.revision.toInt = steps) ∧
      (∀ call failure, LifecycleCall.apply run call = .error failure → stepRun run call = run) ∧
      (∀ prepared next, run.beginExec prepared = .ok next →
        run.state = .ready ∧ prepared.profileDigest = run.profileDigest) ∧
      ∀ storage observed, run.completeReset storage = .ok observed →
        observed.run.state = .ready ∧ ∃ baseline inventory, run.baseline = some baseline ∧
          observed.run.latest = some inventory ∧
          (diffScratch baseline inventory).entries = [] := by
  intro run steps
  have hinv := lifecycleInvariant_of_new hnew calls
  have hinitial := newSandboxRun_eq_ok hnew
  have hrevision : run.revision = Int32.ofNat steps := by
    have hzero : initial.revision = 0 := by rw [hinitial]
    rw [hinv.revision_eq, hzero, Int32.zero_add]
  refine ⟨?_, ?_, hinv.baseline_of_start, ?_, hrevision, ?_, ?_, ?_, ?_⟩
  · rw [hinv.profile_eq, hinitial]
  · rw [hinv.digest_eq, hinitial]
  · intro storage actual hreset
    rw [SandboxRunContract.completeReset] at hreset
    split at hreset
    · simp [lifecycleTransitionError] at hreset
    · rename_i hstate
      have hbaseline := hinv.baseline_of_state (by rw [not_not.mp hstate]; rfl)
      split at hreset
      · rename_i hnone
        rw [hnone] at hbaseline
        cases hbaseline
      · cases storage with
        | answered inventory =>
          change SandboxRunContract.finishReset _ _ _ = _ at hreset
          rw [SandboxRunContract.finishReset] at hreset
          split at hreset <;> simp [lifecycleTransitionError] at hreset
        | refused reason =>
          have hne := TransitionFailure.refused.inj (Except.error.inj hreset)
          cases hne
        | raised => cases Except.error.inj hreset
  · intro hsmall
    rw [hrevision]
    exact Int32.toInt_ofNat_of_lt hsmall
  · intro call failure hfailure
    rw [stepRun, hfailure]
  · intro prepared next hexec
    obtain ⟨hready, hdigest, _⟩ := SandboxRunContract.beginExec_eq_ok hexec
    exact ⟨hready, hdigest⟩
  · intro storage observed hreset
    obtain ⟨_, baseline, inventory, hbaseline, _, hdiff, hobserved⟩ :=
      SandboxRunContract.completeReset_eq_ok hreset
    rw [hobserved]
    exact ⟨rfl, baseline, inventory, hbaseline, rfl, hdiff⟩

/-- A profile with one read-only workspace. -/
def sampleProfile : SandboxProfile where
  runId := "run"
  workspaceRoot := "/w"
  scratchRoot := "/s"
  backend := .localOs
  enforcementRequirement := .allowDegraded
  network := .deny
  readOnlyRoots := ["/w"]
  allowedEgress := []
  allowedCommands := ["moon"]
  limits := ⟨1, 1, 1, 1, 1, 1⟩
  readOnlyWorkspace := true
  executorEvidenceRoot := ""
  liveOutputId := ""

/-- The SHA-256 of the canonical text of the sample profile. -/
def sampleProfileSha256 (_ : String) : String :=
  "2c5dab8de7049e5522d4399b9546ede859dd895134ed1c1d5aeebc93a9fef2db"

/-- The run of the sample profile before any call. -/
def sampleRun : SandboxRunContract :=
  ⟨sampleProfile, profileDigest sampleProfileSha256 sampleProfile, .created, none, none, 0⟩

/-- The sample run is the one of the sample profile. -/
theorem newSandboxRun_sampleProfile :
    newSandboxRun sampleProfileSha256 sampleProfile = .ok sampleRun := by
  have haccepted : profileRejection sampleProfile = "" := by decide
  rw [newSandboxRun, haccepted]
  rfl

/-- A command prepared under the sample profile. -/
def samplePrepared : PreparedSandboxCommand where
  profile := sampleProfile
  profileDigest := profileDigest sampleProfileSha256 sampleProfile
  command := .exec "moon" ["test"]
  capabilityLabel := "moon"
  enforcement := .degraded

/-- The receipt of the command. -/
def sampleExited : SandboxReceipt :=
  { refusedReceipt "run" .localOs (profileDigest sampleProfileSha256 sampleProfile) "" with
    enforcement := .degraded
    status := .exited }

/-- The tree as it was materialized. -/
def sampleBaseline : ScratchInventory := ⟨[⟨"a", .regularFile, 1, "f"⟩], 1⟩

/-- The tree behind the command. -/
def sampleChanged : ScratchInventory :=
  ⟨[⟨"a", .regularFile, 2, "g"⟩, ⟨"b", .regularFile, 0, "e"⟩], 2⟩

/-- A start, a second one that is refused, an exec, a snapshot, a stop, and a reset whose first
attempt fails. -/
def sampleLifecycle : List LifecycleCall :=
  [.beginStart, .completeStart (.answered sampleBaseline), .beginStart, .beginExec samplePrepared,
    .completeExec sampleExited (.answered sampleChanged), .beginSnapshot,
    .completeSnapshot (.answered sampleChanged), .beginStop,
    .completeStop (.answered sampleChanged), .beginReset, .completeReset .raised]

/-- The run behind these calls. -/
def sampleResetting : SandboxRunContract :=
  ⟨sampleProfile, profileDigest sampleProfileSha256 sampleProfile, .resetting, some sampleBaseline,
    some sampleChanged, 3⟩

/-- The exec, the snapshot and the stop succeed behind one completed start. -/
theorem afterCalls_sampleLifecycle : afterCalls sampleRun sampleLifecycle = sampleResetting ∧
    succeeded LifecycleCall.starts sampleRun sampleLifecycle = 1 ∧
    succeeded LifecycleCall.counts sampleRun sampleLifecycle = 3 :=
  ⟨rfl, rfl, rfl⟩

/-- The reset to the first tree succeeds. -/
theorem completeReset_sampleResetting : sampleResetting.completeReset (.answered sampleBaseline) =
    .ok (observation (sampleResetting.advance .ready sampleBaseline) sampleBaseline) := by
  have hsame : (diffScratch sampleBaseline sampleBaseline).entries = [] :=
    (diffScratch_entries_eq_nil_iff _ _).mpr fun _ => rfl
  change SandboxRunContract.finishReset sampleResetting sampleBaseline sampleBaseline = _
  rw [SandboxRunContract.finishReset, hsame]
  rfl

/-- The next exec is begun behind the reset. -/
theorem beginExec_sampleReset : SandboxRunContract.beginExec
    (afterCalls sampleRun (sampleLifecycle ++ [.completeReset (.answered sampleBaseline)]))
    samplePrepared =
      .ok { sampleResetting.advance .ready sampleBaseline with state := .executing } := by
  have hreset : stepRun sampleResetting (.completeReset (.answered sampleBaseline)) =
      sampleResetting.advance .ready sampleBaseline := by
    rw [stepRun, LifecycleCall.apply, completeReset_sampleResetting]
    rfl
  have hrun :
      afterCalls sampleRun (sampleLifecycle ++ [.completeReset (.answered sampleBaseline)]) =
        sampleResetting.advance .ready sampleBaseline := by
    rw [← hreset, ← afterCalls_sampleLifecycle.1]
    exact List.foldl_append ..
  rw [hrun]
  rfl

/-- Behind an exec, a snapshot and a stop the run has its profile, its digest, the tree of the
start and three steps; the failed reset and another start change nothing; the next reset finds
the first tree, and an exec is begun behind it under the digest of the run. -/
theorem lifecycle_kept_sample :
    sampleResetting.profile = sampleProfile ∧
      sampleResetting.profileDigest = profileDigest sampleProfileSha256 sampleProfile ∧
      sampleResetting.baseline.isSome = true ∧
      (∀ storage actual, sampleResetting.completeReset storage ≠
        lifecycleTransitionError "reset-without-baseline" actual) ∧
      sampleResetting.revision = Int32.ofNat 3 ∧ sampleResetting.revision.toInt = 3 ∧
      stepRun sampleResetting .beginStart = sampleResetting ∧
      (afterCalls sampleRun
        (sampleLifecycle ++ [.completeReset (.answered sampleBaseline)])).state = .ready ∧
      samplePrepared.profileDigest = profileDigest sampleProfileSha256 sampleProfile ∧
      ∃ baseline inventory, sampleResetting.baseline = some baseline ∧
        (sampleResetting.advance .ready sampleBaseline).latest = some inventory ∧
        (diffScratch baseline inventory).entries = [] := by
  obtain ⟨hrun, hstarts, hsteps⟩ := afterCalls_sampleLifecycle
  obtain ⟨hprofile, hdigest, hbaseline, hreset, hrevision, hsmall, hrefused, -, hrestored⟩ :=
    lifecycle_kept sampleProfileSha256 sampleProfile sampleRun newSandboxRun_sampleProfile
      sampleLifecycle
  obtain ⟨-, hdigestBehind, -, -, -, -, -, hexec, -⟩ :=
    lifecycle_kept sampleProfileSha256 sampleProfile sampleRun newSandboxRun_sampleProfile
      (sampleLifecycle ++ [.completeReset (.answered sampleBaseline)])
  rw [hrun] at hprofile hdigest hbaseline hreset hrevision hsmall hrefused hrestored
  rw [hsteps] at hrevision hsmall
  rw [hstarts] at hbaseline
  obtain ⟨hready, hmatches⟩ := hexec _ _ beginExec_sampleReset
  refine ⟨hprofile, hdigest, hbaseline Nat.one_pos, hreset, hrevision, hsmall (by decide),
    hrefused .beginStart _ rfl, hready, hmatches.trans hdigestBehind, ?_⟩
  exact (hrestored _ _ completeReset_sampleResetting).2

/-- A start, and then a number of snapshots. -/
def startedSnapshots (count : ℕ) : List LifecycleCall :=
  [.beginStart, .completeStart (.answered ⟨[], 0⟩)] ++
    (List.replicate count
      [.beginSnapshot, .completeSnapshot (.answered ⟨[], 0⟩)]).flatten

/-- A snapshot of a ready run succeeds and leaves it ready. -/
theorem succeeded_snapshot (hrun : run.state = .ready)
    (rest : List LifecycleCall) :
    succeeded LifecycleCall.counts run
      (.beginSnapshot :: .completeSnapshot (.answered ⟨[], 0⟩) :: rest) =
      1 + succeeded LifecycleCall.counts (run.advance .ready ⟨[], 0⟩) rest := by
  have hbegin : LifecycleCall.beginSnapshot.apply run =
      .ok { run with state := .snapshottingReady } := by
    rw [LifecycleCall.apply, SandboxRunContract.beginSnapshot, hrun]
  have hcomplete : (LifecycleCall.completeSnapshot (.answered ⟨[], 0⟩)).apply
      { run with state := .snapshottingReady } = .ok (run.advance .ready ⟨[], 0⟩) := rfl
  have hfirst : stepRun run .beginSnapshot = { run with state := .snapshottingReady } := by
    rw [stepRun, hbegin]
  have hsecond : stepRun { run with state := .snapshottingReady }
      (.completeSnapshot (.answered ⟨[], 0⟩)) = run.advance .ready ⟨[], 0⟩ := by
    rw [stepRun, hcomplete]
  rw [succeeded, succeeded, hfirst, hsecond, hcomplete, ← Nat.add_assoc]
  rfl

/-- Snapshots of a ready run all succeed. -/
theorem succeeded_snapshots (count : ℕ) {run : SandboxRunContract} (hrun : run.state = .ready) :
    succeeded LifecycleCall.counts run (List.replicate count
      [.beginSnapshot, .completeSnapshot (.answered ⟨[], 0⟩)]).flatten = count := by
  induction count generalizing run with
  | zero => rfl
  | succ count ih =>
    have hready : (run.advance .ready ⟨[], 0⟩).state = .ready := rfl
    have hrest := ih hready
    have hstep := succeeded_snapshot hrun (List.replicate count
      [.beginSnapshot, .completeSnapshot (.answered ⟨[], 0⟩)]).flatten
    rw [hrest] at hstep
    rw [List.replicate_succ, List.flatten_cons, Nat.add_comm]
    exact hstep

/-- Each of the snapshots succeeds. -/
theorem succeeded_startedSnapshots (count : ℕ) :
    succeeded LifecycleCall.counts sampleRun (startedSnapshots count) = count := by
  rw [startedSnapshots, List.cons_append, List.cons_append, List.nil_append, succeeded, succeeded,
    succeeded_snapshots count rfl]
  simp [LifecycleCall.counts]

/-- After `2 ^ 31` completed snapshots the revision is negative. -/
theorem lifecycle_wrapped_sample :
    newSandboxRun sampleProfileSha256 sampleProfile = .ok sampleRun ∧
      succeeded LifecycleCall.counts sampleRun (startedSnapshots (2 ^ 31)) = 2 ^ 31 ∧
      (afterCalls sampleRun (startedSnapshots (2 ^ 31))).revision.toInt = -2 ^ 31 := by
  have hsteps := succeeded_startedSnapshots (2 ^ 31)
  have hinv := lifecycleInvariant_of_new newSandboxRun_sampleProfile (startedSnapshots (2 ^ 31))
  have hzero : sampleRun.revision = 0 := rfl
  have hrevision := hinv.revision_eq
  rw [hsteps, hzero, Int32.zero_add] at hrevision
  rw [hrevision]
  exact ⟨newSandboxRun_sampleProfile, hsteps, by decide⟩

end Moonfort.Sandbox
