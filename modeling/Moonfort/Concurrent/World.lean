import Moonfort.Concurrent.Program
import Mathlib.Logic.Function.Basic
import Mathlib.Logic.Relation

/-!
# Interleaved runs

Threads run programs against one state. A step lets one thread make the call it
is at; what the call does may depend on a choice of the environment. Every order
of steps is a run, and a thread that is not stepped any more has crashed there.
The run keeps a history of its calls.
-/

namespace Concurrent

/-- What the operations do: thread `i` calling `op` in a state, under a choice of
the environment, or `none` where the choice does not apply. -/
structure World (ι Op : Type) (Res : Op → Type) (Choice σ : Type) where
  /-- The effect of a call. -/
  act : ι → (op : Op) → Choice → σ → Option (Res op × σ)

/-- One call of a run. -/
structure Event (ι Op : Type) (Res : Op → Type) (σ : Type) where
  /-- The calling thread. -/
  who : ι
  /-- The operation. -/
  op : Op
  /-- Its result. -/
  result : Res op
  /-- The state in which it was called. -/
  before : σ
  /-- The state it left. -/
  after : σ

/-- The state of a run and the calls that led to it, the latest first. -/
structure History (ι Op : Type) (Res : Op → Type) (σ : Type) where
  /-- The current state. -/
  current : σ
  /-- The calls so far, the latest first. -/
  trace : List (Event ι Op Res σ)

/-- The threads of a run and their common history. -/
structure Config (ι Op : Type) (Res : Op → Type) (σ α : Type) where
  /-- The state and the calls so far. -/
  history : History ι Op Res σ
  /-- What each thread has yet to run. -/
  threads : ι → Program Op Res α

variable {ι Op : Type} {Res : Op → Type} {Choice σ α : Type}

namespace History

/-- The history before the first call. -/
def start (s : σ) : History ι Op Res σ := ⟨s, []⟩

/-- The history after one more call. -/
def record (h : History ι Op Res σ) (i : ι) (op : Op) (result : Res op) (s : σ) :
    History ι Op Res σ :=
  ⟨s, ⟨i, op, result, h.current, s⟩ :: h.trace⟩

/-- A recorded call leads to its state. -/
@[simp] theorem current_record (h : History ι Op Res σ) (i : ι) (op : Op) (result : Res op)
    (s : σ) : (h.record i op result s).current = s := rfl

/-- A recorded call stands in front of the trace. -/
@[simp] theorem trace_record (h : History ι Op Res σ) (i : ι) (op : Op) (result : Res op)
    (s : σ) :
    (h.record i op result s).trace = ⟨i, op, result, h.current, s⟩ :: h.trace := rfl

end History

/-- Every call of a trace satisfies `P`, together with the calls before it. -/
def Always (P : Event ι Op Res σ → List (Event ι Op Res σ) → Prop) :
    List (Event ι Op Res σ) → Prop
  | [] => True
  | e :: older => P e older ∧ Always P older

/-- What always holds, holds of each call of the trace. -/
theorem Always.of_append {P : Event ι Op Res σ → List (Event ι Op Res σ) → Prop}
    {newer older : List (Event ι Op Res σ)} {e : Event ι Op Res σ}
    (h : Always P (newer ++ e :: older)) : P e older := by
  induction newer with
  | nil => exact h.1
  | cons _ newer ih => exact ih h.2

/-- Thread `i` made a call satisfying `p`. -/
def Did (i : ι) (p : Event ι Op Res σ → Prop) (h : History ι Op Res σ) : Prop :=
  ∃ e ∈ h.trace, e.who = i ∧ p e

variable {p : Event ι Op Res σ → Prop}

/-- What a thread did, it did after any further call. -/
theorem Did.record {h : History ι Op Res σ} (hdid : Did i p h)
    (j : ι) (op : Op) (result : Res op) (s : σ) : Did i p (h.record j op result s) := by
  obtain ⟨e, he, hp⟩ := hdid
  exact ⟨e, .tail _ he, hp⟩

/-- A call satisfying `p` came after the last one satisfying `check`. -/
def SinceLast (check : Event ι Op Res σ → Bool) (p : Event ι Op Res σ → Prop)
    (trace : List (Event ι Op Res σ)) : Prop :=
  ∃ e ∈ trace.takeWhile fun e => !check e, p e

variable {trace : List (Event ι Op Res σ)} {check : Event ι Op Res σ → Bool}

/-- It still did as long as no further check comes. -/
theorem SinceLast.cons {latest : Event ι Op Res σ}
    (hsince : SinceLast check p trace) (hcheck : check latest = false) :
    SinceLast check p (latest :: trace) := by
  obtain ⟨e, he, hp⟩ := hsince
  refine ⟨e, ?_, hp⟩
  rw [List.takeWhile_cons_of_pos (by rw [hcheck]; rfl)]
  exact .tail _ he

/-- The latest call is after every check. -/
theorem sinceLast_latest {latest : Event ι Op Res σ} (hcheck : check latest = false)
    (hp : p latest) : SinceLast check p (latest :: trace) := by
  refine ⟨latest, ?_, hp⟩
  rw [List.takeWhile_cons_of_pos (by rw [hcheck]; rfl)]
  exact .head _

/-- A call after the last check is one of the trace. -/
theorem SinceLast.exists_mem (hsince : SinceLast check p trace) : ∃ e ∈ trace, p e := by
  obtain ⟨e, he, hp⟩ := hsince
  exact ⟨e, (List.takeWhile_sublist _).mem he, hp⟩

/-- Two calls of a trace are one, or one of them came before the other. -/
theorem eq_or_older_of_mem {e e' : Event ι Op Res σ}
    (he : e ∈ trace) (he' : e' ∈ trace) :
    e = e' ∨ (∃ newer older, trace = newer ++ e :: older ∧ e' ∈ older) ∨
      ∃ newer older, trace = newer ++ e' :: older ∧ e ∈ older := by
  induction trace with
  | nil => cases he
  | cons latest trace ih =>
    rcases List.mem_cons.mp he with rfl | hmem <;> rcases List.mem_cons.mp he' with rfl | hmem'
    · exact .inl rfl
    · exact .inr (.inl ⟨[], trace, rfl, hmem'⟩)
    · exact .inr (.inr ⟨[], trace, rfl, hmem⟩)
    · rcases ih hmem hmem' with heq | ⟨newer, older, rfl, hold⟩ | ⟨newer, older, rfl, hold⟩
      · exact .inl heq
      · exact .inr (.inl ⟨latest :: newer, older, rfl, hold⟩)
      · exact .inr (.inr ⟨latest :: newer, older, rfl, hold⟩)

namespace World

/-- A call may have this result and leave this state. -/
def Effect (W : World ι Op Res Choice σ) (i : ι) (op : Op) (s : σ) (result : Res op) (s' : σ) :
    Prop :=
  ∃ choice, W.act i op choice s = some (result, s')

end World

namespace Config

variable [DecidableEq ι]

/-- The threads at the start of a run. -/
def start (s : σ) (programs : ι → Program Op Res α) : Config ι Op Res σ α :=
  ⟨.start s, programs⟩

/-- One thread makes the call it is at. -/
inductive Step (W : World ι Op Res Choice σ) :
    Config ι Op Res σ α → Config ι Op Res σ α → Prop
  | call {c : Config ι Op Res σ α} {i : ι} {op : Op} {next : Res op → Program Op Res α}
      {result : Res op} {s' : σ} (hthread : c.threads i = .call op next)
      (heffect : W.Effect i op c.history.current result s') :
      Step W c ⟨c.history.record i op result s',
        Function.update c.threads i (next result)⟩

/-- A configuration that a run from `c₀` passes through. -/
def Reachable (W : World ι Op Res Choice σ) (c₀ c : Config ι Op Res σ α) : Prop :=
  Relation.ReflTransGen (Step W) c₀ c

variable {W : World ι Op Res Choice σ}

/-- Every call of a run has an effect of the world. -/
theorem Reachable.effects {c₀ c : Config ι Op Res σ α}
    (hreach : Reachable W c₀ c) (hstart : c₀.history.trace = []) :
    ∀ e ∈ c.history.trace, W.Effect e.who e.op e.before e.result e.after := by
  induction hreach with
  | refl => simp [hstart]
  | tail _ hstep ih =>
    obtain ⟨hthread, heffect⟩ := hstep
    intro e he
    rcases List.mem_cons.mp he with rfl | he
    · exact heffect
    · exact ih e he

/-- Let thread `i` make its call under a choice, if it can. -/
def step? (W : World ι Op Res Choice σ) (c : Config ι Op Res σ α) (i : ι) (choice : Choice) :
    Option (Config ι Op Res σ α) :=
  match c.threads i with
  | .ret _ => none
  | .call op next =>
    (W.act i op choice c.history.current).map fun (result, s') =>
      ⟨c.history.record i op result s', Function.update c.threads i (next result)⟩

/-- Run a schedule: whose turn it is, and the environment's choice. -/
def run? (W : World ι Op Res Choice σ) (c : Config ι Op Res σ α) :
    List (ι × Choice) → Option (Config ι Op Res σ α)
  | [] => some c
  | (i, choice) :: rest => (c.step? W i choice).bind fun c' => c'.run? W rest

/-- A computed step is a step. -/
theorem step_of_step? {c c' : Config ι Op Res σ α} {i : ι}
    {choice : Choice} (h : c.step? W i choice = some c') : Step W c c' := by
  unfold step? at h
  split at h
  · cases h
  · rename_i op next hthread
    obtain ⟨⟨result, s'⟩, hact, rfl⟩ := Option.map_eq_some_iff.mp h
    exact .call hthread ⟨choice, hact⟩

/-- A computed run reaches its last configuration. -/
theorem reachable_of_run? {c c' : Config ι Op Res σ α}
    {schedule : List (ι × Choice)} (h : c.run? W schedule = some c') : Reachable W c c' := by
  induction schedule generalizing c with
  | nil =>
    cases h
    exact .refl
  | cons turn rest ih =>
    obtain ⟨c₁, hstep, hrest⟩ := Option.bind_eq_some_iff.mp h
    exact .head (step_of_step? hstep) (ih hrest)

/-- A run computed as far as some view of its last configuration reaches one with
that view. -/
theorem exists_reachable_of_run? {γ : Type} {c : Config ι Op Res σ α}
    {schedule : List (ι × Choice)} {view : Config ι Op Res σ α → γ} {value : γ}
    (h : (c.run? W schedule).map view = some value) :
    ∃ c', Reachable W c c' ∧ view c' = value := by
  obtain ⟨c', hrun, hview⟩ := Option.map_eq_some_iff.mp h
  exact ⟨c', reachable_of_run? hrun, hview⟩

end Config

end Concurrent
