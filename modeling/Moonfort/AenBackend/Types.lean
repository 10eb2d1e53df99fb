import Moonfort.MoonBit.Text

/-!
# Values of the AgentENV backend

The errors the backend raises and the events of a guest process. A decoder ends
in a `Fault` when it raises, and also when the program would abort on an index
or a slice, which no caller can catch.
-/

namespace Moonfort.AenBackend

open MoonBit

/-- `AenBackendError`. -/
inductive AenBackendError where
  | invalidConfiguration (message : String)
  | transportFailure (message : String)
  | protocolFailure (message : String)
  deriving DecidableEq

/-- `AenExecEvent`. -/
inductive AenExecEvent where
  | processStarted (pid : Int32)
  | stdout (data : Bytes)
  | stderr (data : Bytes)
  | processExited (exitCode : Int32) (status : String)
  | connectEnded (error : Option String)
  deriving DecidableEq

/-- The ways a decoder ends without a value. -/
inductive Fault where
  /-- An error of the backend is raised. -/
  | raised (error : AenBackendError)
  /-- An index or a slice outside the byte string aborts the program. -/
  | outOfBounds
  /-- The loop is still running when its allowance of rounds is spent. -/
  | unfinished
  deriving DecidableEq

/-- Raise `ProtocolFailure`. -/
def protocolFailure {α : Type} (message : String) : Except Fault α :=
  .error (.raised (.protocolFailure message))

/-- The decoder returns a value or raises `ProtocolFailure`. -/
def ReturnsOrRaises {α : Type} (outcome : Except Fault α) : Prop :=
  (∃ value, outcome = .ok value) ∨ ∃ message, outcome = protocolFailure message

/-- Returning is one of the two accepted endings. -/
@[simp] theorem returnsOrRaises_ok {α : Type} (value : α) :
    ReturnsOrRaises (.ok value : Except Fault α) :=
  .inl ⟨value, rfl⟩

/-- Raising `ProtocolFailure` is the other. -/
@[simp] theorem returnsOrRaises_protocolFailure {α : Type} (message : String) :
    ReturnsOrRaises (protocolFailure message : Except Fault α) :=
  .inr ⟨message, rfl⟩

/-- An abort is neither. -/
@[simp] theorem not_returnsOrRaises_outOfBounds {α : Type} :
    ¬ ReturnsOrRaises (.error .outOfBounds : Except Fault α) := by
  simp [ReturnsOrRaises, protocolFailure]

/-- Running on is neither. -/
@[simp] theorem not_returnsOrRaises_unfinished {α : Type} :
    ¬ ReturnsOrRaises (.error .unfinished : Except Fault α) := by
  simp [ReturnsOrRaises, protocolFailure]

/-- Post-processing a returned value keeps the kind of ending. -/
@[simp] theorem returnsOrRaises_map {α β : Type} {f : α → β} {outcome : Except Fault α} :
    ReturnsOrRaises (outcome.map f) ↔ ReturnsOrRaises outcome := by
  cases outcome <;> simp [ReturnsOrRaises, protocolFailure, Except.map]

end Moonfort.AenBackend
