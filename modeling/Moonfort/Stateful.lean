import Mathlib.Logic.Basic

/-!
# Programs that change a state or fail

Rules for programs over a state that may fail: what a run returns, and what holds of
every outcome of a program.
-/

namespace Stateful

variable {σ ε α β : Type} {s s' : σ}

/-- The program returns this value and this state. -/
def Runs (x : StateT σ (Except ε) α) (s : σ) (value : α) (s' : σ) : Prop :=
  x s = .ok (value, s')

/-- A value is returned in the same state. -/
theorem runs_pure (value : α) : Runs (pure value : StateT σ (Except ε) α) s value s := rfl

/-- Reading the state returns it and keeps it. -/
theorem runs_get : Runs (get : StateT σ (Except ε) σ) s s s := rfl

/-- Setting the state ends in it. -/
theorem runs_set (next : σ) : Runs (set next : StateT σ (Except ε) PUnit) s ⟨⟩ next := rfl

variable {x : StateT σ (Except ε) α}

/-- One program after another. -/
theorem Runs.bind {f : α → StateT σ (Except ε) β} {value : α}
    {result : β} {s'' : σ} (hx : Runs x s value s') (hf : Runs (f value) s' result s'') :
    Runs (x >>= f) s result s'' := by
  have hrun : (x >>= f) s = (x s).bind fun answer => f answer.1 answer.2 := rfl
  rw [Runs, hrun, hx]
  exact hf

/-- Every value that a program returns satisfies `P` with its state, and every fault `E`. -/
def Meets (x : StateT σ (Except ε) α) (s : σ) (P : α → σ → Prop) (E : ε → Prop) : Prop :=
  match x s with
  | .ok (value, s') => P value s'
  | .error fault => E fault

section Rules

variable {P : α → σ → Prop} {Q : β → σ → Prop} {E : ε → Prop}

/-- A value meets what holds of it in the same state. -/
theorem meets_pure {value : α} (h : P value s) :
    Meets (pure value : StateT σ (Except ε) α) s P E := h

/-- A fault meets what is allowed of faults. -/
theorem meets_throw {fault : ε} (h : E fault) :
    Meets (throw fault : StateT σ (Except ε) α) s P E := h

/-- What follows a reading of the state starts from it. -/
theorem meets_get_bind {f : σ → StateT σ (Except ε) β} (h : Meets (f s) s Q E) :
    Meets (get >>= f) s Q E := h

/-- What follows a setting of the state starts from the new one. -/
theorem meets_set_bind {next : σ} {f : PUnit → StateT σ (Except ε) β}
    (h : Meets (f ⟨⟩) next Q E) : Meets (set next >>= f) s Q E := h

/-- A composed computation meets what its second part meets after the first. -/
theorem Meets.bind {f : α → StateT σ (Except ε) β}
    (hx : Meets x s P E) (hf : ∀ value s', P value s' → Meets (f value) s' Q E) :
    Meets (x >>= f) s Q E := by
  have hrun : (x >>= f) s = (x s).bind fun answer => f answer.1 answer.2 := rfl
  unfold Meets at hx ⊢
  rw [hrun]
  cases hanswer : x s with
  | error fault =>
    rw [hanswer] at hx
    exact hx
  | ok answer =>
    rw [hanswer] at hx
    exact hf answer.1 answer.2 hx

/-- What a computation meets may be weakened. -/
theorem Meets.mono {P' : α → σ → Prop} (h : Meets x s P E)
    (hP : ∀ value s', P value s' → P' value s') : Meets x s P' E := by
  unfold Meets at h ⊢
  cases hanswer : x s with
  | error fault =>
    rw [hanswer] at h
    exact h
  | ok answer =>
    rw [hanswer] at h
    exact hP _ _ h

/-- The fault of a run whose state is dropped. -/
theorem Meets.of_run'_eq {fault : ε} (h : Meets x s P E)
    (hx : x.run' s = .error fault) : E fault := by
  have hrun : x.run' s = (x s).map Prod.fst := rfl
  unfold Meets at h
  rw [hrun] at hx
  cases hanswer : x s with
  | error found =>
    rw [hanswer] at h hx
    exact Except.error.inj hx ▸ h
  | ok answer =>
    rw [hanswer] at hx
    cases hx

end Rules

/-- The value of a run whose state is dropped. -/
theorem Runs.run' {value : α} (h : Runs x s value s') :
    x.run' s = .ok value := by
  have hrun : x.run' s = (x s).map Prod.fst := rfl
  rw [hrun, h]
  rfl

end Stateful
