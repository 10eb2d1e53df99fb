import Moonfort.Concurrent.Program

/-!
# Methods of an object

Programs that read and change the fields of an object, call operations on a world
outside, and may raise an error. A change of a field stays when an error is raised.
What holds after every run of a method is its weakest precondition, computed along
the method.
-/

namespace Moonfort.Methods

open Concurrent

/-- How a world answers an operation, and the world after it. -/
abbrev World (Op : Type) (Res : Op → Type) (W : Type) : Type :=
  W → (op : Op) → Res op → W → Prop

/-- The methods of an object with the fields `σ`. -/
abbrev Method (Op : Type) (Res : Op → Type) (σ ε α : Type) : Type :=
  ExceptT ε (StateT σ (Program Op Res)) α

variable {Op : Type} {Res : Op → Type} {W σ ε α β : Type} (world : World Op Res W)

/-! ## Runs of programs -/

/-- A program runs from a world to a value and a world. -/
inductive Runs : Program Op Res α → W → α → W → Prop
  | ret (value : α) (w : W) : Runs (.ret value) w value w
  | call {op : Op} {next : Res op → Program Op Res α} {w w' w'' : W} {result : Res op} {value : α}
      (hstep : world w op result w') (hrest : Runs (next result) w' value w'') :
      Runs (.call op next) w value w''

/-- All runs of a program end in `Q`. -/
def Leads : Program Op Res α → (α → W → Prop) → W → Prop
  | .ret value, Q, w => Q value w
  | .call op next, Q, w => ∀ result w', world w op result w' → Leads (next result) Q w'

variable {world} {p : Program Op Res α}

/-- A program leads to a postcondition exactly when all its runs end in it. -/
theorem leads_iff {Q : α → W → Prop} {w : W} :
    Leads world p Q w ↔ ∀ value w', Runs world p w value w' → Q value w' := by
  constructor
  · intro h value w' hrun
    induction hrun with
    | ret value w => exact h
    | call hstep hrest ih => exact ih (h _ _ hstep)
  · intro h
    induction p generalizing w with
    | ret value => exact h _ _ (.ret value w)
    | call op next ih =>
      intro result w' hstep
      apply ih
      intro value w'' hrest
      exact h _ _ (.call hstep hrest)

/-- A composed program leads where its second part leads from every end of the first. -/
theorem leads_bind {f : α → Program Op Res β} {Q : β → W → Prop} {w : W} :
    Leads world (p.bind f) Q w ↔ Leads world p (fun value w' => Leads world (f value) Q w') w := by
  induction p generalizing w with
  | ret value => exact Iff.rfl
  | call op next ih =>
    constructor
    · intro h result w' hstep
      exact (ih result).mp (h result w' hstep)
    · intro h result w' hstep
      exact (ih result).mpr (h result w' hstep)

/-- A postcondition may be weakened. -/
theorem Leads.mono {Q Q' : α → W → Prop} {w : W} (h : Leads world p Q w)
    (hQ : ∀ value w', Q value w' → Q' value w') : Leads world p Q' w := by
  induction p generalizing w with
  | ret value => exact hQ _ _ h
  | call op next ih =>
    intro result w' hstep
    exact ih result (h result w' hstep)

/-- Two postconditions hold together. -/
theorem Leads.and {Q Q' : α → W → Prop} {w : W} (h : Leads world p Q w)
    (h' : Leads world p Q' w) : Leads world p (fun value w' => Q value w' ∧ Q' value w') w := by
  induction p generalizing w with
  | ret value => exact ⟨h, h'⟩
  | call op next ih =>
    intro result w' hstep
    exact ih result (h result w' hstep) (h' result w' hstep)

/-- The world answers every operation. -/
def Answering (world : World Op Res W) : Prop := ∀ w op, ∃ result w', world w op result w'

/-- In a world that answers every call, a postcondition that is led to is reached. -/
theorem Leads.exists (hworld : Answering world) {p : Program Op Res α} {Q : α → W → Prop} {w : W}
    (h : Leads world p Q w) : ∃ value w', Q value w' := by
  induction p generalizing w with
  | ret value => exact ⟨value, w, h⟩
  | call op next ih =>
    obtain ⟨result, w', hstep⟩ := hworld w op
    exact ih result (h result w' hstep)

/-! ## Methods -/

/-- Call one operation. -/
def perform (op : Op) : Method Op Res σ ε (Res op) :=
  ExceptT.lift (StateT.lift (Program.perform op))

variable (world) in
/-- All runs of a method end in `Q`, which is told how the method ends, the fields and
the world. -/
def Ensures (x : Method Op Res σ ε α) (Q : Except ε α → σ → W → Prop) (s : σ) (w : W) : Prop :=
  Leads world (x.run.run s) (fun outcome w' => Q outcome.1 outcome.2 w') w

/-- What is shown of a method after another: an error passes it by. -/
def onValue (Q : Except ε β → σ → W → Prop) (next : α → σ → W → Prop) :
    Except ε α → σ → W → Prop
  | .ok value, s, w => next value s w
  | .error error, s, w => Q (.error error) s w

/-- What is shown of a handler: a value passes it by. -/
def onError (Q : Except ε α → σ → W → Prop) (handler : ε → σ → W → Prop) :
    Except ε α → σ → W → Prop
  | .ok value, s, w => Q (.ok value) s w
  | .error error, s, w => handler error s w

variable {R : Except ε β → σ → W → Prop} {x : Method Op Res σ ε α}

section Rules

variable {Q : Except ε α → σ → W → Prop} {s : σ} {w : W}

/-- After a value the next part decides. -/
@[simp]
theorem onValue_ok {next : α → σ → W → Prop} {value : α} :
    onValue R next (.ok value) s w = next value s w := rfl

/-- After an error the postcondition decides. -/
@[simp]
theorem onValue_error {next : α → σ → W → Prop} {error : ε} :
    onValue R next (.error error) s w = R (.error error) s w := rfl

/-- After a value the postcondition decides, and the handler does not run. -/
@[simp]
theorem onError_ok {handler : ε → σ → W → Prop} {value : α} :
    onError Q handler (.ok value) s w = Q (.ok value) s w := rfl

/-- After an error the handler decides. -/
@[simp]
theorem onError_error {handler : ε → σ → W → Prop} {error : ε} :
    onError Q handler (.error error) s w = handler error s w := rfl

variable {f : α → Method Op Res σ ε β}

/-- A composed method ensures what its second part ensures after every value of the first. -/
theorem ensures_bind :
    Ensures world (x >>= f) R s w ↔
      Ensures world x (onValue R fun value s' w' => Ensures world (f value) R s' w') s w := by
  have hrun : (x >>= f).run.run s = (x.run.run s).bind fun outcome =>
      (ExceptT.bindCont f outcome.1).run outcome.2 := rfl
  rw [Ensures, hrun, leads_bind, Ensures]
  apply iff_of_eq
  congr 1
  funext outcome w'
  obtain ⟨result, s'⟩ := outcome
  cases result <;> rfl

/-- A method with a handler ensures what the handler ensures after every error. -/
theorem ensures_tryCatch {handler : ε → Method Op Res σ ε α} :
    Ensures world (tryCatch x handler) Q s w ↔
      Ensures world x (onError Q fun error s' w' => Ensures world (handler error) Q s' w') s w := by
  have hrun : (tryCatch x handler).run.run s = (x.run.run s).bind fun outcome =>
      (match outcome.1 with
        | .ok value => (pure (.ok value) : StateT σ (Program Op Res) (Except ε α))
        | .error error => (handler error).run).run outcome.2 := rfl
  rw [Ensures, hrun, leads_bind, Ensures]
  apply iff_of_eq
  congr 1
  funext outcome w'
  obtain ⟨result, s'⟩ := outcome
  cases result <;> rfl

/-- Reading the state returns the state and keeps it. -/
theorem ensures_get {R : Except ε σ → σ → W → Prop} :
    Ensures world (get : Method Op Res σ ε σ) R s w ↔ R (.ok s) s w := Iff.rfl

/-- What a method ensures may be weakened. -/
theorem Ensures.mono {Q' : Except ε α → σ → W → Prop}
    (h : Ensures world x Q s w) (hQ : ∀ outcome s' w', Q outcome s' w' → Q' outcome s' w') :
    Ensures world x Q' s w :=
  Leads.mono h fun outcome w' => hQ outcome.1 outcome.2 w'

/-- What follows a reading of the state starts from that state. -/
theorem ensures_get_bind {f : σ → Method Op Res σ ε β} :
    Ensures world (get >>= f) R s w ↔ Ensures world (f s) R s w :=
  ensures_bind.trans Iff.rfl

/-- What follows a change of the state starts from the changed state. -/
theorem ensures_modify_bind {g : σ → σ} {f : Unit → Method Op Res σ ε β} :
    Ensures world (modify g >>= f) R s w ↔ Ensures world (f ()) R (g s) w :=
  ensures_bind.trans Iff.rfl

/-- What follows a value starts from that value. -/
theorem ensures_pure_bind {value : α} :
    Ensures world (pure value >>= f) R s w ↔ Ensures world (f value) R s w :=
  ensures_bind.trans Iff.rfl

/-- What follows a call starts from every answer the world allows. -/
theorem ensures_perform_bind {op : Op} {f : Res op → Method Op Res σ ε β} :
    Ensures world (perform op >>= f) R s w ↔
      ∀ result w', world w op result w' → Ensures world (f result) R s w' :=
  ensures_bind.trans Iff.rfl

/-- The parts of a method can be grouped either way. -/
theorem ensures_bind_assoc {γ : Type}
    {g : β → Method Op Res σ ε γ} {R : Except ε γ → σ → W → Prop} :
    Ensures world (x >>= f >>= g) R s w ↔
      Ensures world (x >>= fun value => f value >>= g) R s w := by
  rw [ensures_bind, ensures_bind, ensures_bind]
  apply iff_of_eq
  congr 1
  funext outcome s' w'
  cases outcome with
  | ok value => exact propext ensures_bind.symm
  | error error => rfl

/-- Two guarantees hold together. -/
theorem Ensures.and {Q' : Except ε α → σ → W → Prop}
    (h : Ensures world x Q s w) (h' : Ensures world x Q' s w) :
    Ensures world x (fun outcome s' w' => Q outcome s' w' ∧ Q' outcome s' w') s w :=
  Leads.and h h'

/-- In a world that answers every call, what a method ensures is reached by some run. -/
theorem Ensures.exists (hworld : Answering world) {x : Method Op Res σ ε α}
    (h : Ensures world x Q s w) : ∃ outcome s' w', Q outcome s' w' := by
  obtain ⟨outcome, w', hQ⟩ := Leads.exists hworld h
  exact ⟨outcome.1, outcome.2, w', hQ⟩

/-! ## The values of a method -/

variable (world) in
/-- All values that a method returns satisfy `P`; it may also raise an error. -/
def Returns (x : Method Op Res σ ε α) (P : α → σ → W → Prop) (s : σ) (w : W) : Prop :=
  Ensures world x (fun outcome s' w' => ∀ value, outcome = .ok value → P value s' w') s w

/-- A value is returned as it is. -/
theorem returns_pure {P : α → σ → W → Prop} {value : α} (h : P value s w) :
    Returns world (pure value : Method Op Res σ ε α) P s w := by
  intro other hother
  cases hother
  exact h

/-- A method that raises returns nothing, so whatever it returns is fine. -/
theorem returns_throw {P : α → σ → W → Prop} (error : ε) :
    Returns world (throw error : Method Op Res σ ε α) P s w := by
  intro value hvalue
  cases hvalue

/-- What the second part returns after every returned value of the first holds of the whole. -/
theorem Returns.bind {P : α → σ → W → Prop} {R : β → σ → W → Prop} (hx : Returns world x P s w)
    (hf : ∀ value s' w', P value s' w' → Returns world (f value) R s' w') :
    Returns world (x >>= f) R s w := by
  rw [Returns, ensures_bind]
  apply Ensures.mono hx
  intro outcome s' w' h
  cases outcome with
  | ok value => exact hf value s' w' (h value rfl)
  | error error =>
    intro value hvalue
    cases hvalue

/-- Nothing is claimed of what any method returns. -/
theorem returns_any (x : Method Op Res σ ε α) : Returns world x (fun _ _ _ => True) s w := by
  rw [Returns, Ensures, leads_iff]
  exact fun _ _ _ _ _ => trivial

/-- Whatever a method returns, the next one goes on from there. -/
theorem returns_bind {R : β → σ → W → Prop} (hf : ∀ value s' w', Returns world (f value) R s' w') :
    Returns world (x >>= f) R s w :=
  (returns_any x).bind fun value s' w' _ => hf value s' w'

/-- A method returns what some run of it ends in. -/
theorem returns_runs (x : Method Op Res σ ε α) :
    Returns world x (fun value s' w' => Runs world (x.run.run s) w (.ok value, s') w') s w := by
  rw [Returns, Ensures, leads_iff]
  rintro ⟨outcome, s'⟩ w' hrun value rfl
  exact hrun

/-- A run that returns a value ends in what the method returns. -/
theorem Returns.of_runs {P : α → σ → W → Prop} (h : Returns world x P s w) {value : α} {s' : σ}
    {w' : W} (hrun : Runs world (x.run.run s) w (.ok value, s') w') : P value s' w' := by
  rw [Returns, Ensures, leads_iff] at h
  exact h _ _ hrun value rfl

/-- What holds of the returned values may be weakened. -/
theorem Returns.mono {P P' : α → σ → W → Prop}
    (h : Returns world x P s w) (hP : ∀ value s' w', P value s' w' → P' value s' w') :
    Returns world x P' s w :=
  Ensures.mono h fun _ s' w' hvalue value heq => hP value s' w' (hvalue value heq)

end Rules

end Moonfort.Methods
