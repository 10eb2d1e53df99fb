import Mathlib.Logic.Basic
import Mathlib.Tactic.Common

/-!
# Programs over shared operations

A program is a tree of operations on state it shares with others: every call
names an operation and continues with its result. Between two calls anything may
happen elsewhere, and a program may stop at any call for ever.
-/

namespace Concurrent

/-- A sequential program over the operations `Op`, with results `Res`. -/
inductive Program (Op : Type) (Res : Op → Type) (α : Type) where
  /-- The program is done. -/
  | ret (value : α)
  /-- The program calls an operation and goes on with its result. -/
  | call (op : Op) (next : Res op → Program Op Res α)

namespace Program

variable {Op : Type} {Res : Op → Type} {α β : Type}

/-- Run one program after another. -/
def bind : Program Op Res α → (α → Program Op Res β) → Program Op Res β
  | ret value, f => f value
  | call op next, f => call op fun result => (next result).bind f

instance : Monad (Program Op Res) where
  pure := ret
  bind := bind

/-- Call one operation. -/
def perform (op : Op) : Program Op Res (Res op) := call op ret

/-- A program that may end in a raised error. -/
abbrev Raising (Op : Type) (Res : Op → Type) (ε α : Type) := ExceptT ε (Program Op Res) α

/-- Call one operation in a program that may raise. -/
def attempt {ε : Type} (op : Op) : Raising Op Res ε (Res op) := ExceptT.lift (perform op)

/-- `guard condition else { fail(error) }`. -/
def ensure {ε : Type} (condition : Bool) (error : ε) : Raising Op Res ε Unit :=
  if condition then pure () else throw error

/-- Every operation a program may call satisfies `Q`. -/
def AllOps (Q : Op → Prop) : Program Op Res α → Prop
  | ret _ => True
  | call op next => Q op ∧ ∀ result, (next result).AllOps Q

/-- Running one after the other calls the operations of both. -/
theorem AllOps.bind {Q : Op → Prop} {p : Program Op Res α} {f : α → Program Op Res β}
    (hp : p.AllOps Q) (hf : ∀ value, (f value).AllOps Q) : (p.bind f).AllOps Q := by
  induction p with
  | ret value => exact hf value
  | call op next ih => exact ⟨hp.1, fun result => ih result (hp.2 result)⟩

/-- Every value a program may return satisfies `Q`, whatever its calls answer. -/
def AllRets (Q : α → Prop) : Program Op Res α → Prop
  | ret value => Q value
  | call _ next => ∀ result, (next result).AllRets Q

/-- Running one after the other returns what the other returns. -/
theorem AllRets.bind {Q : α → Prop} {R : β → Prop} {p : Program Op Res α}
    {f : α → Program Op Res β} (hp : p.AllRets Q) (hf : ∀ value, Q value → (f value).AllRets R) :
    (p.bind f).AllRets R := by
  induction p with
  | ret value => exact hf value hp
  | call op next ih => exact fun result => ih result (hp result)

/-- Less may be said of the values. -/
theorem AllRets.mono {Q Q' : α → Prop} {p : Program Op Res α} (hp : p.AllRets Q)
    (hQ : ∀ value, Q value → Q' value) : p.AllRets Q' := by
  induction p with
  | ret value => exact hQ value hp
  | call op next ih => exact fun result => ih result (hp result)

/-- Every program returns some value. -/
theorem allRets_true (p : Program Op Res α) : p.AllRets fun _ => True := by
  induction p with
  | ret value => trivial
  | call op next ih => exact fun result => ih result

/-- Every operation a program that may raise may call satisfies `ok`. -/
def Calls {ε : Type} (p : Raising Op Res ε α) (ok : Op → Prop) : Prop := p.run.AllOps ok

/-- Running one after the other calls the operations of both. -/
theorem Calls.bind {ε : Type} {ok : Op → Prop} {p : Raising Op Res ε α}
    {f : α → Raising Op Res ε β} (hp : Calls p ok) (hf : ∀ value, Calls (f value) ok) :
    Calls (p >>= f) ok :=
  AllOps.bind hp fun outcome => by
    cases outcome with
    | ok value => exact hf value
    | error error => trivial

/-- Catching every error. -/
theorem Calls.catch {ε : Type} {ok : Op → Prop} {p : Raising Op Res ε α}
    {f : ε → Raising Op Res ε α} (hp : Calls p ok) (hf : ∀ error, Calls (f error) ok) :
    Calls (tryCatch p f) ok :=
  AllOps.bind hp fun outcome => by
    cases outcome with
    | ok value => trivial
    | error error => exact hf error

/-- Every value a program returns satisfies `Q`; it may also raise. -/
def Returns {ε : Type} (p : Raising Op Res ε α) (Q : α → Prop) : Prop :=
  p.run.AllRets fun
    | .ok value => Q value
    | .error _ => True

/-- Every program that returns, returns some value. -/
theorem returns_true {ε : Type} (p : Raising Op Res ε α) : Returns p fun _ => True := by
  refine (allRets_true p.run).mono fun outcome _ => ?_
  cases outcome <;> trivial

/-- Running one after any other, unless that raises. -/
theorem returns_bind {ε : Type} {R : β → Prop} {p : Raising Op Res ε α}
    {f : α → Raising Op Res ε β} (hf : ∀ value, Returns (f value) R) : Returns (p >>= f) R :=
  AllRets.bind (allRets_true p.run) fun outcome _ => by
    cases outcome with
    | ok value => exact hf value
    | error error => trivial

/-- Catching every error. -/
theorem Returns.catch {ε : Type} {Q : α → Prop} {p : Raising Op Res ε α}
    {f : ε → Raising Op Res ε α} (hp : Returns p Q) (hf : ∀ error, Returns (f error) Q) :
    Returns (tryCatch p f) Q :=
  AllRets.bind hp fun outcome h => by
    cases outcome with
    | ok value => exact h
    | error error => exact hf error

/-- The value of a program whose calls are all answered in one way. -/
def answered (answer : (op : Op) → Res op) : Program Op Res α → α
  | ret value => value
  | call op next => (next (answer op)).answered answer

/-- Running one after another that does not raise. -/
theorem answered_bind {ε : Type} {p : Raising Op Res ε α} {f : α → Raising Op Res ε β}
    {answer : (op : Op) → Res op} (value : α) (hp : p.run.answered answer = .ok value) :
    (p >>= f).run.answered answer = (f value).run.answered answer := by
  have hbind (q : Program Op Res (Except ε α)) (g : Except ε α → Program Op Res (Except ε β)) :
      (q.bind g).answered answer = (g (q.answered answer)).answered answer := by
    induction q with
    | ret value => rfl
    | call op next ih => exact ih (answer op)
  exact (hbind p.run _).trans (by rw [hp]; rfl)

/-- What holds of every value holds of the one under some answers. -/
theorem AllRets.answered {Q : α → Prop} {p : Program Op Res α} (hp : p.AllRets Q)
    (answer : (op : Op) → Res op) : Q (p.answered answer) := by
  induction p with
  | ret value => exact hp
  | call op next ih => exact ih (answer op) (hp (answer op))

/-- What holds of every value that is returned holds of the one under some answers. -/
theorem Returns.answered {ε : Type} {Q : α → Prop} {p : Raising Op Res ε α} (hp : Returns p Q)
    {answer : (op : Op) → Res op} {value : α} (hvalue : p.run.answered answer = .ok value) :
    Q value := by
  have h := AllRets.answered hp answer
  rwa [hvalue] at h

/-- Embed a program over some operations into one over more. -/
def embed {Op' : Type} {Res' : Op' → Type} (f : Op → Op')
    (back : (op : Op) → Res' (f op) → Res op) : Program Op Res α → Program Op' Res' α
  | ret value => ret value
  | call op next => call (f op) fun result => (next (back op result)).embed f back

/-- An embedded program calls embedded operations. -/
theorem AllOps.embed {Op' : Type} {Res' : Op' → Type} {f : Op → Op'}
    {back : (op : Op) → Res' (f op) → Res op} {ok : Op → Prop} {ok' : Op' → Prop}
    {p : Program Op Res α} (hp : p.AllOps ok) (hf : ∀ op, ok op → ok' (f op)) :
    (p.embed f back).AllOps ok' := by
  induction p with
  | ret value => trivial
  | call op next ih => exact ⟨hf op hp.1, fun result => ih (back op result) (hp.2 _)⟩

/-- An embedded program returns the same values. -/
theorem AllRets.embed {Op' : Type} {Res' : Op' → Type} {f : Op → Op'}
    {back : (op : Op) → Res' (f op) → Res op} {Q : α → Prop} {p : Program Op Res α}
    (hp : p.AllRets Q) : (p.embed f back).AllRets Q := by
  induction p with
  | ret value => exact hp
  | call op next ih => exact fun result => ih (back op result) (hp _)

/-- Every program calls some operations. -/
theorem allOps_true (p : Program Op Res α) : p.AllOps fun _ => True := by
  induction p with
  | ret value => trivial
  | call op next ih => exact ⟨trivial, fun result => ih result⟩

end Program

end Concurrent
