import Mathlib.Data.List.TakeDrop
import Moonfort.Machine
import Moonfort.AenBackend.Exec

/-!
# The guest supervisor

The loop of `guest_supervisor.c` from the start of the target to the supervisor's
own exit, as a machine. The target's process group writes, exits and ends; a signal
may cancel; the supervisor reads the output pipe, reaps the child, observes its
limits, kills the group, drains the pipe and removes the group.
-/

namespace Moonfort.AenGuest

open Machine

/-- The limits of the command line, within the bounds `number_argument` accepts. -/
structure SupervisorLimits where
  /-- Seconds of processor time. -/
  cpu : ℤ
  /-- MiB of scratch disk. -/
  disk : ℤ
  /-- Milliseconds of wall-clock time. -/
  wall : ℤ
  /-- Bytes of output. -/
  outputLimit : ℕ
  cpu_range : 0 < cpu ∧ cpu ≤ 86400
  disk_range : 0 < disk ∧ disk ≤ 1048576
  wall_range : 0 < wall ∧ wall ≤ 86400000
  outputLimit_range : 0 < outputLimit ∧ outputLimit ≤ 67108864

/-- A status of `waitpid`, by `WIFEXITED` and `WIFSIGNALED`. -/
inductive WaitStatus where
  | exited (code : UInt8)
  /-- Linux has 64 signals. -/
  | signaled (signal : Fin 65)
  | other
  deriving DecidableEq

/-- Where the supervisor stands in its program. -/
inductive Phase where
  /-- The inner loop reads the output pipe. -/
  | reading
  /-- `waitpid(child, &status, WNOHANG)`. -/
  | reaping
  /-- The clock and the monitors are read. -/
  | observing
  /-- A limit is set and the group is to be killed. -/
  | limiting
  /-- `waitpid(child, &status, 0)`. -/
  | awaiting
  /-- The loop is over and the group is to be killed. -/
  | finalKill
  /-- The pipe is read to its end. -/
  | draining
  /-- The group is to be removed. -/
  | removing
  | returned (code : ℕ)
  /-- `mf_die` on a group that cannot be removed. -/
  | died
  deriving DecidableEq

/-- What one `read` of the output pipe gives. -/
inductive ReadResult where
  /-- So many bytes; the write of the kept ones to standard output fails after
  `failedAfter` of them, or succeeds. -/
  | data (count : ℕ) (failedAfter : Option ℕ)
  /-- `EAGAIN`. -/
  | again
  /-- No bytes: the end of the output. -/
  | eof
  /-- `EINTR`. -/
  | interrupted
  /-- Any other error. -/
  | failed
  deriving DecidableEq

/-- What the clock, `cpu_usage_usec`, `pids_limit_events` and `overlay_bytes` answer
in one round of the loop; a monitor that cannot be read answers `-1`. -/
structure Observation where
  now : ℤ
  usage : ℤ
  pidsEvents : ℤ
  used : ℤ
  deriving DecidableEq

/-- What happens next: to the target's process group, to the supervisor from outside,
or in the supervisor's own program. -/
inductive Event where
  /-- A process of the group writes to the pipe. -/
  | write (bytes : List UInt8)
  /-- The child exits. -/
  | exits (status : WaitStatus)
  /-- The last process that holds the pipe's write end is gone. -/
  | ends
  /-- `SIGTERM`, `SIGINT` or `SIGHUP`. -/
  | signal
  | read (result : ReadResult)
  | reap
  | observe (observation : Observation)
  /-- `kill_cgroup`, and whether it took effect. -/
  | kill (effective : Bool)
  /-- The blocking `waitpid`, and whether it returned the child. -/
  | await (found : Bool)
  /-- `remove_cgroup`, and whether it succeeded. -/
  | remove (removed : Bool)
  deriving DecidableEq

/-- The pipe, the process group and the supervisor's variables. -/
structure SupervisorState where
  /-- Everything the process group wrote to the pipe. -/
  written : List UInt8
  /-- What of it is still unread. -/
  pipe : List UInt8
  /-- Some process of the group holds the pipe's write end. -/
  alive : Bool
  /-- The child's status, once it has exited. -/
  childStatus : Option WaitStatus
  cancelled : Bool
  /-- What was written to standard output. -/
  forwarded : List UInt8
  emitted : ℕ
  /-- `status`, once `exited` is set. -/
  status : Option WaitStatus
  limitCode : ℕ
  start : ℤ
  nextDisk : ℤ
  phase : Phase
  deriving DecidableEq

/-- The state in which the loop begins. -/
def SupervisorState.initial (now : ℤ) : SupervisorState :=
  ⟨[], [], true, none, false, [], 0, none, 0, now, now, .reading⟩

section Step

variable (limits : SupervisorLimits)

/-- `keep`: how much of a read fits under the output limit. -/
def SupervisorState.keep (s : SupervisorState) (count : ℕ) : ℕ :=
  min count (limits.outputLimit - s.emitted)

/-- What of the kept bytes `mf_write_all` puts out. -/
def putOut (kept : List UInt8) (failedAfter : Option ℕ) : List UInt8 :=
  match failedAfter with
  | none => kept
  | some count => kept.take count

/-- One `read` of the inner loop. A write that fails cancels and keeps nothing; a read
that does not fit sets the limit code and ends the inner loop. -/
def SupervisorState.loopRead (s : SupervisorState) : ReadResult → Option SupervisorState
  | .data count failedAfter =>
    if 0 < count ∧ count ≤ 16384 ∧ count ≤ s.pipe.length then
      let keep := s.keep limits count
      let failed := decide (0 < keep) && failedAfter.isSome
      let emitted := if failed then 0 else keep
      some { s with
        pipe := s.pipe.drop count
        forwarded := s.forwarded ++ putOut (s.pipe.take keep) failedAfter
        cancelled := s.cancelled || failed
        emitted := s.emitted + emitted
        limitCode := if emitted < count then 201 else s.limitCode
        phase := if emitted < count then .reaping else .reading }
    else none
  | .again => if s.pipe = [] then some { s with phase := .reaping } else none
  | .eof => if s.pipe = [] ∧ ¬s.alive then some { s with phase := .reaping } else none
  | .interrupted => some s
  | .failed => some { s with phase := .reaping }

/-- One `read` of the drain. A read that does not fit is cut, and any read without
bytes ends the drain. -/
def SupervisorState.drainRead (s : SupervisorState) : ReadResult → Option SupervisorState
  | .data count failedAfter =>
    if 0 < count ∧ count ≤ 16384 ∧ count ≤ s.pipe.length then
      let keep := s.keep limits count
      some { s with
        pipe := s.pipe.drop count
        forwarded := s.forwarded ++ putOut (s.pipe.take keep) failedAfter
        emitted := s.emitted + keep }
    else none
  | .again => if s.pipe = [] then some { s with phase := .removing } else none
  | .eof => if s.pipe = [] ∧ ¬s.alive then some { s with phase := .removing } else none
  | .interrupted => some { s with phase := .removing }
  | .failed => some { s with phase := .removing }

/-- `if (condition && !limit_code) limit_code = code`. -/
def raise (limitCode : ℕ) (condition : Prop) [Decidable condition] (code : ℕ) : ℕ :=
  if condition ∧ limitCode = 0 then code else limitCode

/-- The limit code after the observations of one round, in the order of the checks. -/
def SupervisorState.observed (s : SupervisorState) (o : Observation) : ℕ :=
  let code := raise s.limitCode (s.cancelled = true) 202
  let code := raise code (limits.wall ≤ o.now - s.start) 202
  let code := raise code (o.usage < 0 ∨ limits.cpu * 1000000 < o.usage) 203
  let code := raise code (o.pidsEvents ≠ 0) 205
  raise code (s.nextDisk ≤ o.now ∧ (o.used < 0 ∨ limits.disk * 1048576 < o.used)) 204

/-- `while (!exited)`. -/
def SupervisorState.loopEnd (s : SupervisorState) : Phase :=
  if s.status.isSome then .finalKill else .reading

/-- The supervisor's exit code once its group is removed. -/
def exitCode (limitCode : ℕ) (status : Option WaitStatus) : ℕ :=
  if limitCode ≠ 0 then limitCode
  else match status with
    | some (.exited code) => if 201 ≤ code ∧ code ≤ 205 then 200 else code.toNat
    | some (.signaled signal) => 128 + signal
    | _ => 125

/-- One step of the target, of the outside or of the supervisor. -/
def supervisorStep (s : SupervisorState) : Event → Option SupervisorState
  | .write bytes =>
    if s.alive then some { s with written := s.written ++ bytes, pipe := s.pipe ++ bytes } else none
  | .exits status =>
    if s.childStatus = none then some { s with childStatus := some status } else none
  | .ends => some { s with alive := false }
  | .signal => some { s with cancelled := true }
  | .read result =>
    match s.phase with
    | .reading => s.loopRead limits result
    | .draining => s.drainRead limits result
    | _ => none
  | .reap =>
    if s.phase = .reaping then some { s with status := s.childStatus, phase := .observing }
    else none
  | .observe o =>
    if s.phase = .observing then
      let code := s.observed limits o
      some { s with
        limitCode := code
        nextDisk := if s.nextDisk ≤ o.now then o.now + 50 else s.nextDisk
        phase := if code ≠ 0 then .limiting else s.loopEnd }
    else none
  | .kill effective =>
    match s.phase with
    | .limiting => some { s with
        alive := s.alive && !effective
        phase := if s.status.isSome then .finalKill else .awaiting }
    | .finalKill => some { s with alive := s.alive && !effective, phase := .draining }
    | _ => none
  | .await found =>
    if s.phase = .awaiting ∧ (found → s.childStatus.isSome) then
      some (if found then { s with status := s.childStatus, phase := .finalKill }
        else { s with phase := .reading })
    else none
  | .remove removed =>
    if s.phase = .removing ∧ (removed → ¬s.alive) then
      some { s with phase := if removed then .returned (exitCode s.limitCode s.status) else .died }
    else none

end Step

/-! ## What a run shows -/

/-- A write to standard output fails. -/
def stdoutFails (_ : SupervisorState) : Event → Bool
  | .read (.data _ failedAfter) => failedAfter.isSome
  | _ => false

/-- The final kill has no effect, or a read of the drain fails. -/
def drainCut (s : SupervisorState) : Event → Bool
  | .kill effective => s.phase == .finalKill && !effective
  | .read .interrupted => s.phase == .draining
  | .read .failed => s.phase == .draining
  | _ => false

/-- A read of the inner loop does not fit under the output limit. -/
def dropsInLoop (limits : SupervisorLimits) (s : SupervisorState) : Event → Bool
  | .read (.data count _) => s.phase == .reading && limits.outputLimit < s.emitted + count
  | _ => false

/-- A limit of the supervisor is seen to be exceeded, or a cancellation is seen. -/
def limitObserved (limits : SupervisorLimits) (s : SupervisorState) : Event → Bool
  | .read result => dropsInLoop limits s (.read result)
  | .observe o =>
    s.cancelled || limits.wall ≤ o.now - s.start || limits.cpu * 1000000 < o.usage ||
      0 < o.pidsEvents || (s.nextDisk ≤ o.now && limits.disk * 1048576 < o.used)
  | _ => false

/-- A monitor cannot be read. -/
def monitorUnreadable (s : SupervisorState) : Event → Bool
  | .observe o => o.usage < 0 || o.pidsEvents < 0 || (s.nextDisk ≤ o.now && o.used < 0)
  | _ => false

/-! ## What a step does -/

section Runs

variable {limits : SupervisorLimits} {s t : SupervisorState} {e : Event}

/-- The phases after the final kill. -/
def Phase.afterKill : Phase → Bool
  | .draining | .removing | .returned _ | .died => true
  | _ => false

/-- The phases after the drain. -/
def Phase.afterDrain : Phase → Bool
  | .removing | .returned _ | .died => true
  | _ => false

/-- What a step does with the bytes of the pipe, where standard output takes what it
is given. -/
inductive PipeStep (limits : SupervisorLimits) (s t : SupervisorState) : Prop
  /-- The process group writes. -/
  | writes (bytes : List UInt8) (hwritten : t.written = s.written ++ bytes)
      (hpipe : t.pipe = s.pipe ++ bytes) (hforwarded : t.forwarded = s.forwarded)
      (hemitted : t.emitted = s.emitted)
  /-- The supervisor reads and forwards what fits. -/
  | takes (count : ℕ) (hcount : count ≤ s.pipe.length) (hwritten : t.written = s.written)
      (hpipe : t.pipe = s.pipe.drop count)
      (hforwarded : t.forwarded = s.forwarded ++ s.pipe.take (s.keep limits count))
      (hemitted : t.emitted = s.emitted + s.keep limits count)
  /-- No byte moves. -/
  | still (hwritten : t.written = s.written) (hpipe : t.pipe = s.pipe)
      (hforwarded : t.forwarded = s.forwarded) (hemitted : t.emitted = s.emitted)

variable {result : ReadResult}

/-- A read of the inner loop treats the pipe as a step may. -/
theorem pipeStep_of_loopRead (hok : ¬stdoutFails s (.read result) = true)
    (h : s.loopRead limits result = some t) : PipeStep limits s t := by
  cases result with
  | data count failedAfter =>
    simp only [stdoutFails, Option.not_isSome_iff_eq_none] at hok
    subst hok
    simp only [SupervisorState.loopRead, Option.isSome_none, Bool.and_false, Bool.or_false,
      Bool.false_eq_true, if_false, putOut, Option.ite_none_right_eq_some, Option.some.injEq] at h
    obtain ⟨⟨-, -, hcount⟩, rfl⟩ := h
    exact .takes count hcount rfl rfl rfl rfl
  | again | eof =>
    simp only [SupervisorState.loopRead, Option.ite_none_right_eq_some, Option.some.injEq] at h
    obtain ⟨-, rfl⟩ := h
    exact .still rfl rfl rfl rfl
  | interrupted | failed =>
    simp only [SupervisorState.loopRead, Option.some.injEq] at h
    subst h
    exact .still rfl rfl rfl rfl

/-- A read of the drain treats the pipe as a step may. -/
theorem pipeStep_of_drainRead (hok : ¬stdoutFails s (.read result) = true)
    (h : s.drainRead limits result = some t) : PipeStep limits s t := by
  cases result with
  | data count failedAfter =>
    simp only [stdoutFails, Option.not_isSome_iff_eq_none] at hok
    subst hok
    simp only [SupervisorState.drainRead, putOut, Option.ite_none_right_eq_some,
      Option.some.injEq] at h
    obtain ⟨⟨-, -, hcount⟩, rfl⟩ := h
    exact .takes count hcount rfl rfl rfl rfl
  | again | eof =>
    simp only [SupervisorState.drainRead, Option.ite_none_right_eq_some, Option.some.injEq] at h
    obtain ⟨-, rfl⟩ := h
    exact .still rfl rfl rfl rfl
  | interrupted | failed =>
    simp only [SupervisorState.drainRead, Option.some.injEq] at h
    subst h
    exact .still rfl rfl rfl rfl

/-- What any step does with the bytes of the pipe. -/
theorem pipeStep_of_step (hok : ¬stdoutFails s e = true) (h : supervisorStep limits s e = some t) :
    PipeStep limits s t := by
  cases e with
  | write bytes =>
    simp only [supervisorStep, Option.ite_none_right_eq_some, Option.some.injEq] at h
    obtain ⟨-, rfl⟩ := h
    exact .writes bytes rfl rfl rfl rfl
  | read result =>
    simp only [supervisorStep] at h
    split at h
    · exact pipeStep_of_loopRead hok h
    · exact pipeStep_of_drainRead hok h
    · cases h
  | ends | signal =>
    simp only [supervisorStep, Option.some.injEq] at h
    subst h
    exact .still rfl rfl rfl rfl
  | exits | reap | observe | remove =>
    simp only [supervisorStep, Option.ite_none_right_eq_some, Option.some.injEq] at h
    obtain ⟨-, rfl⟩ := h
    exact .still rfl rfl rfl rfl
  | kill effective =>
    simp only [supervisorStep] at h
    split at h <;> simp only [Option.some.injEq, reduceCtorEq] at h <;> subst h <;>
      exact .still rfl rfl rfl rfl
  | await found =>
    simp only [supervisorStep, Option.ite_none_right_eq_some, Option.some.injEq] at h
    obtain ⟨-, rfl⟩ := h
    cases found <;> exact .still rfl rfl rfl rfl

/-- What was read so far, and what of it was forwarded. -/
def Forwards (limits : SupervisorLimits) (s : SupervisorState) : Prop :=
  ∃ consumed, s.written = consumed ++ s.pipe ∧
    s.forwarded = consumed.take limits.outputLimit ∧
      s.emitted = min consumed.length limits.outputLimit

/-- A step forwards what it reads, up to the limit. -/
theorem forwards_step (hok : ¬stdoutFails s e = true) (hs : Forwards limits s)
    (h : supervisorStep limits s e = some t) : Forwards limits t := by
  obtain ⟨consumed, hwritten, hforwarded, hemitted⟩ := hs
  cases pipeStep_of_step hok h with
  | writes bytes hw hp hf he =>
    refine ⟨consumed, ?_, by rw [hf, hforwarded], by rw [he, hemitted]⟩
    rw [hw, hp, hwritten, List.append_assoc]
  | takes count hcount hw hp hf he =>
    refine ⟨consumed ++ s.pipe.take count, ?_, ?_, ?_⟩
    · rw [hw, hp, hwritten, List.append_assoc, List.take_append_drop]
    · rw [hf, hforwarded, List.take_append, List.take_take, SupervisorState.keep, hemitted]
      congr 2
      omega
    · rw [he, hemitted, List.length_append, List.length_take, SupervisorState.keep, hemitted]
      omega
  | still hw hp hf he =>
    exact ⟨consumed, by rw [hw, hp, hwritten], by rw [hf, hforwarded], by rw [he, hemitted]⟩

/-- Once the group is killed nobody writes, and once the pipe is drained it is empty. -/
structure Settled (s : SupervisorState) : Prop where
  alive : s.phase.afterKill = true → s.alive = false
  pipe : s.phase.afterDrain = true → s.pipe = []

/-- A read of the inner loop goes on reading or ends the inner loop. -/
theorem phase_loopRead (hphase : s.phase = .reading)
    (h : s.loopRead limits result = some t) : t.phase = .reading ∨ t.phase = .reaping := by
  cases result with
  | data count failedAfter =>
    simp only [SupervisorState.loopRead, Option.ite_none_right_eq_some, Option.some.injEq] at h
    obtain ⟨-, rfl⟩ := h
    exact (ite_eq_or_eq _ _ _).symm
  | again | eof =>
    simp only [SupervisorState.loopRead, Option.ite_none_right_eq_some, Option.some.injEq] at h
    obtain ⟨-, rfl⟩ := h
    exact .inr rfl
  | interrupted =>
    simp only [SupervisorState.loopRead, Option.some.injEq] at h
    exact .inl (h ▸ hphase)
  | failed =>
    simp only [SupervisorState.loopRead, Option.some.injEq] at h
    exact .inr (h ▸ rfl)

/-- A read of the drain goes on draining or ends the drain. -/
theorem phase_drainRead (hphase : s.phase = .draining)
    (h : s.drainRead limits result = some t) : t.phase = .draining ∨ t.phase = .removing := by
  cases result with
  | data count failedAfter =>
    simp only [SupervisorState.drainRead, Option.ite_none_right_eq_some, Option.some.injEq] at h
    obtain ⟨-, rfl⟩ := h
    exact .inl hphase
  | again | eof =>
    simp only [SupervisorState.drainRead, Option.ite_none_right_eq_some, Option.some.injEq] at h
    obtain ⟨-, rfl⟩ := h
    exact .inr rfl
  | interrupted | failed =>
    simp only [SupervisorState.drainRead, Option.some.injEq] at h
    exact .inr (h ▸ rfl)

/-- A read of the inner loop keeps what is settled. -/
theorem settled_loopRead (hphase : s.phase = .reading)
    (h : s.loopRead limits result = some t) : Settled t := by
  rcases phase_loopRead hphase h with hloop | hloop <;> constructor <;> intro hafter <;>
    rw [hloop] at hafter <;> cases hafter

/-- A read of the drain that cuts nothing keeps what is settled. -/
theorem settled_drainRead (hcut : ¬drainCut s (.read result) = true)
    (hphase : s.phase = .draining) (hs : Settled s) (h : s.drainRead limits result = some t) :
    Settled t := by
  have hdead : s.alive = false := hs.alive (by rw [hphase]; rfl)
  cases result with
  | data count failedAfter =>
    simp only [SupervisorState.drainRead, Option.ite_none_right_eq_some, Option.some.injEq] at h
    obtain ⟨-, rfl⟩ := h
    refine ⟨fun _ => hdead, fun hafter => ?_⟩
    rw [hphase] at hafter
    cases hafter
  | again =>
    simp only [SupervisorState.drainRead, Option.ite_none_right_eq_some, Option.some.injEq] at h
    obtain ⟨hempty, rfl⟩ := h
    exact ⟨fun _ => hdead, fun _ => hempty⟩
  | eof =>
    simp only [SupervisorState.drainRead, Option.ite_none_right_eq_some, Option.some.injEq] at h
    obtain ⟨⟨hempty, -⟩, rfl⟩ := h
    exact ⟨fun _ => hdead, fun _ => hempty⟩
  | interrupted | failed => simp [drainCut, hphase] at hcut

/-- A step that cuts nothing keeps what is settled. -/
theorem settled_step (hcut : ¬drainCut s e = true) (hs : Settled s)
    (h : supervisorStep limits s e = some t) : Settled t := by
  cases e with
  | write bytes =>
    simp only [supervisorStep, Option.ite_none_right_eq_some, Option.some.injEq] at h
    obtain ⟨halive, rfl⟩ := h
    refine ⟨hs.alive, fun hafter => ?_⟩
    have hkilled : s.phase.afterKill = true := by
      revert hafter
      dsimp only
      cases s.phase <;> simp [Phase.afterKill, Phase.afterDrain]
    rw [hs.alive hkilled] at halive
    cases halive
  | read result =>
    simp only [supervisorStep] at h
    split at h
    next hphase => exact settled_loopRead hphase h
    next hphase => exact settled_drainRead hcut hphase hs h
    next => cases h
  | exits status =>
    simp only [supervisorStep, Option.ite_none_right_eq_some, Option.some.injEq] at h
    obtain ⟨-, rfl⟩ := h
    exact ⟨hs.alive, hs.pipe⟩
  | ends =>
    simp only [supervisorStep, Option.some.injEq] at h
    subst h
    exact ⟨fun _ => rfl, hs.pipe⟩
  | signal =>
    simp only [supervisorStep, Option.some.injEq] at h
    subst h
    exact ⟨hs.alive, hs.pipe⟩
  | reap =>
    simp only [supervisorStep, Option.ite_none_right_eq_some, Option.some.injEq] at h
    obtain ⟨-, rfl⟩ := h
    exact ⟨nofun, nofun⟩
  | observe o =>
    simp only [supervisorStep, Option.ite_none_right_eq_some, Option.some.injEq] at h
    obtain ⟨-, rfl⟩ := h
    constructor <;> dsimp only [SupervisorState.loopEnd] <;> split <;>
      [skip; split; skip; split] <;> exact nofun
  | kill effective =>
    simp only [supervisorStep] at h
    split at h
    next =>
      simp only [Option.some.injEq] at h
      subst h
      constructor <;> dsimp only <;> split <;> exact nofun
    next hphase =>
      simp only [Option.some.injEq] at h
      subst h
      refine ⟨fun _ => ?_, nofun⟩
      simp only [drainCut, hphase, beq_self_eq_true, Bool.true_and, Bool.not_eq_true,
        Bool.not_eq_false'] at hcut
      simp [hcut]
    next => cases h
  | await found =>
    simp only [supervisorStep, Option.ite_none_right_eq_some, Option.some.injEq] at h
    obtain ⟨-, rfl⟩ := h
    cases found <;> exact ⟨nofun, nofun⟩
  | remove removed =>
    simp only [supervisorStep, Option.ite_none_right_eq_some, Option.some.injEq] at h
    obtain ⟨⟨hphase, -⟩, rfl⟩ := h
    exact ⟨fun _ => hs.alive (by rw [hphase]; rfl), fun _ => hs.pipe (by rw [hphase]; rfl)⟩

/-- What a step does with the limit code. -/
inductive CodeStep (limits : SupervisorLimits) (s t : SupervisorState) : Event → Prop
  | kept {e : Event} (hcode : t.limitCode = s.limitCode) : CodeStep limits s t e
  /-- A read of the inner loop keeps less than it reads. -/
  | dropped {count : ℕ} {failedAfter : Option ℕ} (hphase : s.phase = .reading)
      (hdropped : failedAfter = none → limits.outputLimit < s.emitted + count)
      (hcode : t.limitCode = 201) : CodeStep limits s t (.read (.data count failedAfter))
  | observed {o : Observation} (hcode : t.limitCode = s.observed limits o) :
      CodeStep limits s t (.observe o)

/-- Every step treats the limit code in one of the three ways. -/
theorem codeStep_of_step (h : supervisorStep limits s e = some t) : CodeStep limits s t e := by
  cases e with
  | read result =>
    simp only [supervisorStep] at h
    split at h
    next hphase =>
      cases result with
      | data count failedAfter =>
        simp only [SupervisorState.loopRead, Option.ite_none_right_eq_some, Option.some.injEq] at h
        obtain ⟨⟨hpos, -⟩, rfl⟩ := h
        by_cases hfits : (if (decide (0 < s.keep limits count) && failedAfter.isSome) = true then 0
            else s.keep limits count) < count
        · refine .dropped hphase ?_ (if_pos hfits)
          rintro rfl
          simp only [Option.isSome_none, Bool.and_false, Bool.false_eq_true, if_false,
            SupervisorState.keep] at hfits
          omega
        · exact .kept (if_neg hfits)
      | again | eof =>
        simp only [SupervisorState.loopRead, Option.ite_none_right_eq_some, Option.some.injEq] at h
        obtain ⟨-, rfl⟩ := h
        exact .kept rfl
      | interrupted | failed =>
        simp only [SupervisorState.loopRead, Option.some.injEq] at h
        exact .kept (h ▸ rfl)
    next =>
      cases result with
      | data | again | eof =>
        simp only [SupervisorState.drainRead, Option.ite_none_right_eq_some, Option.some.injEq] at h
        obtain ⟨-, rfl⟩ := h
        exact .kept rfl
      | interrupted | failed =>
        simp only [SupervisorState.drainRead, Option.some.injEq] at h
        exact .kept (h ▸ rfl)
    next => cases h
  | observe o =>
    simp only [supervisorStep, Option.ite_none_right_eq_some, Option.some.injEq] at h
    obtain ⟨-, rfl⟩ := h
    exact .observed rfl
  | ends | signal =>
    simp only [supervisorStep, Option.some.injEq] at h
    exact .kept (h ▸ rfl)
  | write | exits | reap | remove =>
    simp only [supervisorStep, Option.ite_none_right_eq_some, Option.some.injEq] at h
    obtain ⟨-, rfl⟩ := h
    exact .kept rfl
  | kill effective =>
    simp only [supervisorStep] at h
    split at h <;> simp only [Option.some.injEq, reduceCtorEq] at h <;> exact .kept (h ▸ rfl)
  | await found =>
    simp only [supervisorStep, Option.ite_none_right_eq_some, Option.some.injEq] at h
    obtain ⟨-, rfl⟩ := h
    cases found <;> exact .kept rfl

/-- The first limit code stays. -/
theorem observed_of_ne_zero (hcode : s.limitCode ≠ 0) (o : Observation) :
    s.observed limits o = s.limitCode := by
  simp [SupervisorState.observed, raise, hcode]

/-- A limit code is set only by an observation that shows why. -/
theorem observed_of_nothing {o : Observation}
    (hlimit : ¬limitObserved limits s (.observe o) = true)
    (hmonitor : ¬monitorUnreadable s (.observe o) = true) :
    s.observed limits o = s.limitCode := by
  simp only [limitObserved, Bool.or_eq_true, Bool.and_eq_true, decide_eq_true_eq, not_or]
    at hlimit
  simp only [monitorUnreadable, Bool.or_eq_true, Bool.and_eq_true, decide_eq_true_eq, not_or]
    at hmonitor
  obtain ⟨⟨⟨⟨hcancelled, hwall⟩, hcpu⟩, hpids⟩, hdisk⟩ := hlimit
  obtain ⟨⟨husage, hevents⟩, hused⟩ := hmonitor
  have hzero : o.pidsEvents = 0 := by omega
  have hquota : ¬(s.nextDisk ≤ o.now ∧ (o.used < 0 ∨ limits.disk * 1048576 < o.used)) := by
    rintro ⟨hdue, hbad | hbad⟩
    · exact hused ⟨hdue, hbad⟩
    · exact hdisk ⟨hdue, hbad⟩
  simp [SupervisorState.observed, raise, hcancelled, hwall, hcpu, husage, hzero, hquota]

/-- The code 201 stays. -/
theorem outputCode_step (hs : s.limitCode = 201) (h : supervisorStep limits s e = some t) :
    t.limitCode = 201 := by
  cases codeStep_of_step h with
  | kept hcode => rw [hcode, hs]
  | dropped _ _ hcode => exact hcode
  | observed hcode => rw [hcode, observed_of_ne_zero (by omega), hs]

/-- A dropped byte sets the code 201. -/
theorem outputCode_of_drop (h : supervisorStep limits s e = some t)
    (hdrop : dropsInLoop limits s e = true) : t.limitCode = 201 := by
  cases e with
  | read result =>
    cases result with
    | data count failedAfter =>
      simp only [dropsInLoop, Bool.and_eq_true, beq_iff_eq, decide_eq_true_eq] at hdrop
      simp only [supervisorStep, hdrop.1, SupervisorState.loopRead,
        Option.ite_none_right_eq_some, Option.some.injEq] at h
      obtain ⟨⟨hpos, -⟩, rfl⟩ := h
      apply if_pos
      have hkeep : s.keep limits count < count := by
        rw [SupervisorState.keep]
        omega
      split <;> omega
    | _ => cases hdrop
  | _ => cases hdrop

/-- The code of the supervisor's exit follows from the limit code and the status. -/
def Returns (s : SupervisorState) : Prop :=
  ∀ code, s.phase = .returned code → code = exitCode s.limitCode s.status

/-- A step keeps the exit code's relation to the limit code and the status. -/
theorem returns_step (hs : Returns s) (h : supervisorStep limits s e = some t) : Returns t := by
  intro code hcode
  cases e with
  | write | exits =>
    simp only [supervisorStep, Option.ite_none_right_eq_some, Option.some.injEq] at h
    obtain ⟨-, rfl⟩ := h
    exact hs code hcode
  | ends | signal =>
    simp only [supervisorStep, Option.some.injEq] at h
    subst h
    exact hs code hcode
  | read result =>
    simp only [supervisorStep] at h
    split at h
    next hphase => rcases phase_loopRead hphase h with hloop | hloop <;> rw [hloop] at hcode <;>
        cases hcode
    next hphase => rcases phase_drainRead hphase h with hdrain | hdrain <;> rw [hdrain] at hcode <;>
        cases hcode
    next => cases h
  | reap =>
    simp only [supervisorStep, Option.ite_none_right_eq_some, Option.some.injEq] at h
    obtain ⟨-, rfl⟩ := h
    cases hcode
  | observe o =>
    simp only [supervisorStep, Option.ite_none_right_eq_some, Option.some.injEq] at h
    obtain ⟨-, rfl⟩ := h
    revert hcode
    dsimp only [SupervisorState.loopEnd]
    split <;> [skip; split] <;> exact nofun
  | kill effective =>
    simp only [supervisorStep] at h
    split at h <;> simp only [Option.some.injEq, reduceCtorEq] at h <;> subst h
    · revert hcode
      dsimp only
      split <;> exact nofun
    · cases hcode
  | await found =>
    simp only [supervisorStep, Option.ite_none_right_eq_some, Option.some.injEq] at h
    obtain ⟨-, rfl⟩ := h
    cases found <;> cases hcode
  | remove removed =>
    simp only [supervisorStep, Option.ite_none_right_eq_some, Option.some.injEq] at h
    obtain ⟨-, rfl⟩ := h
    cases removed with
    | false => cases hcode
    | true => exact (Phase.returned.inj hcode).symm

/-- Without a limit code the supervisor keeps clear of the codes 201 to 205. -/
theorem exitCode_clear {status : Option WaitStatus} {code : ℕ} (hcode : code = exitCode 0 status) :
    ¬(201 ≤ code ∧ code ≤ 205) := by
  unfold exitCode at hcode
  split at hcode
  next => omega
  next =>
    split at hcode
    next byte =>
      split at hcode
      next => omega
      next hother =>
        rw [UInt8.le_iff_toNat_le, UInt8.le_iff_toNat_le] at hother
        simpa [hcode] using hother
    next signal =>
      have := signal.isLt
      omega
    next => omega

/-- A cancellation is a signal, where standard output takes what it is given. -/
theorem cancelled_step (hok : ¬stdoutFails s e = true) (h : supervisorStep limits s e = some t)
    (hs : s.cancelled = false) (ht : t.cancelled = true) : e = .signal := by
  cases e with
  | signal => rfl
  | write | exits | reap | observe | remove =>
    simp only [supervisorStep, Option.ite_none_right_eq_some, Option.some.injEq] at h
    obtain ⟨-, rfl⟩ := h
    exact absurd ht (by simp [hs])
  | ends =>
    simp only [supervisorStep, Option.some.injEq] at h
    exact absurd ht (by simp [← h, hs])
  | kill effective =>
    simp only [supervisorStep] at h
    split at h <;> simp only [Option.some.injEq, reduceCtorEq] at h <;>
      exact absurd ht (by simp [← h, hs])
  | await found =>
    simp only [supervisorStep, Option.ite_none_right_eq_some, Option.some.injEq] at h
    obtain ⟨-, rfl⟩ := h
    cases found <;> exact absurd ht (by simp [hs])
  | read result =>
    simp only [supervisorStep] at h
    split at h
    next =>
      cases result with
      | data count failedAfter =>
        simp only [stdoutFails, Option.not_isSome_iff_eq_none] at hok
        simp only [SupervisorState.loopRead, Option.ite_none_right_eq_some, Option.some.injEq] at h
        obtain ⟨-, rfl⟩ := h
        exact absurd ht (by simp [hs, hok])
      | again | eof =>
        simp only [SupervisorState.loopRead, Option.ite_none_right_eq_some, Option.some.injEq] at h
        obtain ⟨-, rfl⟩ := h
        exact absurd ht (by simp [hs])
      | interrupted | failed =>
        simp only [SupervisorState.loopRead, Option.some.injEq] at h
        exact absurd ht (by simp [← h, hs])
    next =>
      cases result with
      | data | again | eof =>
        simp only [SupervisorState.drainRead, Option.ite_none_right_eq_some, Option.some.injEq] at h
        obtain ⟨-, rfl⟩ := h
        exact absurd ht (by simp [hs])
      | interrupted | failed =>
        simp only [SupervisorState.drainRead, Option.some.injEq] at h
        exact absurd ht (by simp [← h, hs])
    next => cases h

end Runs

/-! ## Whole runs -/

/-- In every run in which standard output takes what it is given, what is forwarded is
the front of what the process group wrote, and no more than the limit. When the supervisor
returns, it is exactly the front that fits (unless the final kill or a read of the drain
failed), a byte that its loop dropped shows as the code 201, and a code 201 to 205 tells that
a limit, the clock or a signal was observed or a monitor could not be read. -/
theorem guest_output_accounted (limits : SupervisorLimits) (now : ℤ) (events : List Event)
    (s : SupervisorState)
    (hrun : run (supervisorStep limits) (.initial now) events = some s)
    (hstdout : ¬Occurs (supervisorStep limits) (fun s e => stdoutFails s e = true)
      (.initial now) events) :
    s.forwarded <+: s.written ∧ s.forwarded.length ≤ limits.outputLimit ∧
    (s.cancelled = true → Occurs (supervisorStep limits) (fun _ e => e = .signal)
      (.initial now) events) ∧
    ∀ code, s.phase = .returned code →
      (¬Occurs (supervisorStep limits) (fun s e => drainCut s e = true) (.initial now) events →
        s.forwarded = s.written.take limits.outputLimit) ∧
      (Occurs (supervisorStep limits) (fun s e => dropsInLoop limits s e = true)
        (.initial now) events → code = 201) ∧
      (201 ≤ code → code ≤ 205 → Occurs (supervisorStep limits)
        (fun s e => limitObserved limits s e = true ∨ monitorUnreadable s e = true)
        (.initial now) events) := by
  have hforwards : Forwards limits s :=
    run_invariant (fun s e t hok hs h => forwards_step hok hs h) hstdout
      ⟨[], rfl, List.take_nil.symm, by simp [SupervisorState.initial]⟩ hrun
  have hreturns : Returns s :=
    run_stable (fun s e t hs h => returns_step hs h) (nofun : Returns (.initial now)) hrun
  obtain ⟨consumed, hwritten, hforwarded, -⟩ := hforwards
  refine ⟨?_, ?_, ?_, ?_⟩
  · rw [hforwarded, hwritten]
    exact (List.take_prefix _ _).trans (List.prefix_append _ _)
  · rw [hforwarded, List.length_take]
    exact Nat.min_le_left _ _
  · intro hcancelled
    exact occurs_of_changed (Q := fun s => s.cancelled = true)
      (fun s e t hok h hs ht => cancelled_step hok h (Bool.not_eq_true _ ▸ hs) ht)
      hstdout (by simp [SupervisorState.initial]) hrun hcancelled
  · intro code hphase
    have hcode := hreturns code hphase
    refine ⟨?_, ?_, ?_⟩
    · intro hcut
      have hsettled : Settled s :=
        run_invariant (fun s e t hok hs h => settled_step hok hs h) hcut ⟨nofun, nofun⟩ hrun
      have hempty := hsettled.pipe (by rw [hphase]; rfl)
      rw [hforwarded, hwritten, hempty, List.append_nil]
    · intro hdrop
      have hlimit : s.limitCode = 201 :=
        holds_of_occurs (Q := fun s => s.limitCode = 201)
          (fun s e t h hdrop => outputCode_of_drop h hdrop)
          (fun s e t hs h => outputCode_step hs h) hdrop hrun
      rw [hcode, hlimit]
      rfl
    · intro hlow hhigh
      have hlimit : s.limitCode ≠ 0 := by
        intro hzero
        rw [hzero] at hcode
        exact exitCode_clear hcode ⟨hlow, hhigh⟩
      refine occurs_of_changed (Q := fun s => s.limitCode ≠ 0) ?_ hstdout
        (by simp [SupervisorState.initial]) hrun hlimit
      intro s e t hok h hs ht
      by_contra hnothing
      rw [not_or] at hnothing
      apply ht
      rw [not_not] at hs
      cases codeStep_of_step h with
      | kept hcode => rw [hcode, hs]
      | @dropped count failedAfter hphase hdropped hcode =>
        simp only [stdoutFails, Option.not_isSome_iff_eq_none] at hok
        have hover := hdropped hok
        exact absurd (by simp [limitObserved, dropsInLoop, hphase, hover]) hnothing.1
      | observed hcode => rw [hcode, observed_of_nothing hnothing.1 hnothing.2, hs]

/-- One second, one MiB and one byte. -/
def sampleSupervisorLimits : SupervisorLimits where
  cpu := 1
  disk := 1
  wall := 1000
  outputLimit := 1
  cpu_range := by decide
  disk_range := by decide
  wall_range := by decide
  outputLimit_range := by decide

/-- A target that writes one byte and exits. -/
def sampleSupervisorEvents : List Event :=
  [.write [7], .exits (.exited 0), .ends, .read (.data 1 none), .read .eof, .reap,
    .observe ⟨5, 0, 0, 0⟩, .kill true, .read .eof, .remove true]

/-- A target that writes two bytes at once and is killed for it. -/
def sampleCutEvents : List Event :=
  [.write [7, 8], .read (.data 2 none), .reap, .observe ⟨5, 0, 0, 0⟩, .kill true,
    .exits (.signaled 9), .ends, .await true, .kill true, .read .eof, .remove true]

/-- A byte that fits is forwarded and the target's exit code returned; of two bytes the second
is dropped by the loop, which the exit code 201 tells. -/
theorem guest_output_accounted_sample :
    (∃ s, run (supervisorStep sampleSupervisorLimits) (.initial 0) sampleSupervisorEvents =
        some s ∧ s.phase = .returned 0 ∧ s.forwarded = s.written.take 1) ∧
      ∃ s code, run (supervisorStep sampleSupervisorLimits) (.initial 0) sampleCutEvents = some s ∧
        s.written = [7, 8] ∧ s.forwarded = s.written.take 1 ∧ s.phase = .returned code ∧
        code = 201 := by
  constructor
  · have hdone : (run (supervisorStep sampleSupervisorLimits) (.initial 0)
        sampleSupervisorEvents).map SupervisorState.phase = some (.returned 0) := by decide
    obtain ⟨s, hrun, hphase⟩ := Option.map_eq_some_iff.mp hdone
    obtain ⟨-, -, -, hcode⟩ := guest_output_accounted sampleSupervisorLimits 0
      sampleSupervisorEvents s hrun (by decide)
    exact ⟨s, hrun, hphase, (hcode 0 hphase).1 (by decide)⟩
  · have hdone : (run (supervisorStep sampleSupervisorLimits) (.initial 0)
        sampleCutEvents).map (fun s => (s.written, s.phase)) = some ([7, 8], .returned 201) := by
      decide
    obtain ⟨s, hrun, hanswer⟩ := Option.map_eq_some_iff.mp hdone
    obtain ⟨hwritten, hphase⟩ := Prod.mk.inj hanswer
    obtain ⟨-, -, -, hcode⟩ := guest_output_accounted sampleSupervisorLimits 0 sampleCutEvents s
      hrun (by decide)
    obtain ⟨hforwarded, hdropped, -⟩ := hcode _ hphase
    exact ⟨s, _, hrun, hwritten, hforwarded (by decide), hphase, hdropped (by decide)⟩

/-- A target that writes two bytes and exits between the last read of the loop and its
reaping has one of them cut in the drain, and its own exit code is returned. A read of the
drain that is interrupted leaves all that is still in the pipe. And a `cpu.stat` that cannot
be read is returned as the code 203 though nothing was exceeded. -/
theorem guest_output_cut_sample :
    (run (supervisorStep sampleSupervisorLimits) (.initial 0)
      [.read .again, .write [1, 2], .exits (.exited 0), .ends, .reap, .observe ⟨5, 0, 0, 0⟩,
        .kill true, .read (.data 2 none), .read .eof, .remove true]).map
          (fun s => (s.written, s.forwarded, s.phase)) = some ([1, 2], [1], .returned 0) ∧
    (run (supervisorStep sampleSupervisorLimits) (.initial 0)
      [.read .again, .write [1], .exits (.exited 0), .ends, .reap, .observe ⟨5, 0, 0, 0⟩,
        .kill true, .read .interrupted, .remove true]).map
          (fun s => (s.written, s.forwarded, s.phase)) = some ([1], [], .returned 0) ∧
    ((run (supervisorStep sampleSupervisorLimits) (.initial 0)
      [.read .again, .reap, .observe ⟨5, -1, 0, 0⟩, .kill true, .exits (.signaled 9), .await true,
        .kill true, .read .eof, .remove true]).map SupervisorState.phase = some (.returned 203) ∧
      ¬Occurs (supervisorStep sampleSupervisorLimits)
        (fun s e => limitObserved sampleSupervisorLimits s e = true) (.initial 0)
        [.read .again, .reap, .observe ⟨5, -1, 0, 0⟩, .kill true, .exits (.signaled 9),
          .await true, .kill true, .read .eof, .remove true]) := by
  decide

end Moonfort.AenGuest
