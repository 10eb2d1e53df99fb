import Mathlib.Data.List.Basic
import Mathlib.Tactic.Common

/-!
# Machines that take one event at a time

A machine is a partial step function: a state and an event give the next state,
or nothing where the event cannot happen. A run takes the events in order. What
one step preserves holds in every state a run reaches.
-/

namespace Machine

variable {σ ε : Type*} (step : σ → ε → Option σ)

/-- Run the machine over the events, in order. -/
def run (s : σ) (events : List ε) : Option σ := events.foldlM step s

/-- Without events a machine stays in its state. -/
@[simp] theorem run_nil (s : σ) : run step s [] = some s := rfl

/-- A run takes its first step and goes on from there. -/
@[simp] theorem run_cons (s : σ) (e : ε) (events : List ε) :
    run step s (e :: events) = (step s e).bind fun t => run step t events := rfl

/-- A run over two stretches of events runs the one and then the other. -/
theorem run_append (s : σ) (before after : List ε) :
    run step s (before ++ after) = (run step s before).bind fun t => run step t after :=
  List.foldlM_append

/-- Some step of the run happens in a state and with an event that satisfy `P`. -/
def Occurs (P : σ → ε → Prop) : σ → List ε → Prop
  | _, [] => False
  | s, e :: events =>
    P s e ∨ match step s e with
      | some t => Occurs P t events
      | none => False

instance Occurs.decide {P : σ → ε → Prop} [∀ s e, Decidable (P s e)] :
    ∀ (s : σ) (events : List ε), Decidable (Occurs step P s events)
  | _, [] => inferInstanceAs (Decidable False)
  | s, e :: events =>
    match h : step s e with
    | some t =>
      have := Occurs.decide (P := P) t events
      decidable_of_iff (P s e ∨ Occurs step P t events) (by simp [Occurs, h])
    | none => decidable_of_iff (P s e) (by simp [Occurs, h])

variable {step}

/-- Something that occurs along a run occurs at one of its steps. -/
theorem Occurs.split {P : σ → ε → Prop} {s : σ} {events : List ε} (h : Occurs step P s events) :
    ∃ before e after t, events = before ++ e :: after ∧ run step s before = some t ∧ P t e := by
  induction events generalizing s with
  | nil => exact h.elim
  | cons e events ih =>
    rcases h with h | h
    · exact ⟨[], e, events, s, rfl, rfl, h⟩
    · cases hstep : step s e with
      | none => simp [hstep] at h
      | some t =>
        have hrest : Occurs step P t events := by simpa [hstep] using h
        obtain ⟨before, e', after, t', rfl, hrun, hp⟩ := ih hrest
        exact ⟨e :: before, e', after, t', rfl, by simpa [hstep] using hrun, hp⟩

/-- What holds at the start and is preserved by every step that is not bad holds in
every state a run without bad steps reaches. -/
theorem run_invariant {Inv : σ → Prop} {Bad : σ → ε → Prop}
    (hstep : ∀ s e t, ¬Bad s e → Inv s → step s e = some t → Inv t) {events : List ε} {s t : σ}
    (hgood : ¬Occurs step Bad s events) (hstart : Inv s) (hrun : run step s events = some t) :
    Inv t := by
  induction events generalizing s with
  | nil =>
    obtain rfl : s = t := by simpa using hrun
    exact hstart
  | cons e events ih =>
    obtain ⟨u, hu, hrest⟩ := Option.bind_eq_some_iff.mp hrun
    simp only [Occurs, hu, not_or] at hgood
    have hinv := hstep s e u hgood.1 hstart hu
    exact ih hgood.2 hinv hrest

/-- What is preserved by every step holds from then on. -/
theorem run_stable {Inv : σ → Prop} (hstep : ∀ s e t, Inv s → step s e = some t → Inv t)
    {events : List ε} {s t : σ} (hstart : Inv s) (hrun : run step s events = some t) : Inv t := by
  induction events generalizing s with
  | nil =>
    obtain rfl : s = t := by simpa using hrun
    exact hstart
  | cons e events ih =>
    obtain ⟨u, hu, hrest⟩ := Option.bind_eq_some_iff.mp hrun
    exact ih (hstep s e u hstart hu) hrest

/-- A property that ends up true was made true by one of the steps. -/
theorem occurs_of_changed {Q : σ → Prop} {P Bad : σ → ε → Prop}
    (hstep : ∀ s e t, ¬Bad s e → step s e = some t → ¬Q s → Q t → P s e) {events : List ε} {s t : σ}
    (hgood : ¬Occurs step Bad s events) (hstart : ¬Q s) (hrun : run step s events = some t)
    (hend : Q t) : Occurs step P s events := by
  induction events generalizing s with
  | nil =>
    obtain rfl : s = t := by simpa using hrun
    exact absurd hend hstart
  | cons e events ih =>
    obtain ⟨u, hu, hrest⟩ := Option.bind_eq_some_iff.mp hrun
    simp only [Occurs, hu, not_or] at hgood
    by_cases hq : Q u
    · exact .inl (hstep s e u hgood.1 hu hstart hq)
    · have h := ih hgood.2 hq hrest
      exact .inr (by simpa [hu] using h)

/-- What a step at which `P` holds makes true, and no later step undoes, is true at
the end. -/
theorem holds_of_occurs {Q : σ → Prop} {P : σ → ε → Prop}
    (hmakes : ∀ s e t, step s e = some t → P s e → Q t)
    (hkeeps : ∀ s e t, Q s → step s e = some t → Q t) {events : List ε} {s t : σ}
    (hoccurs : Occurs step P s events) (hrun : run step s events = some t) : Q t := by
  obtain ⟨before, e, after, u, rfl, hbefore, hp⟩ := hoccurs.split
  rw [run_append, hbefore, Option.bind_some] at hrun
  obtain ⟨v, hv, hafter⟩ := Option.bind_eq_some_iff.mp hrun
  exact run_stable hkeeps (hmakes u e v hv hp) hafter

end Machine
