import Moonfort.Concurrent.World

/-!
# Disciplines

A discipline says which calls each thread may make in which histories, so that
an invariant is kept whatever the order of calls. A thread obeys it when, with
only such calls of the others between its own, each of its calls is permitted.
Programs are shown to obey by triples, whose assertions must be stable under the
permitted calls of the other threads.
-/

namespace Concurrent

variable {ι Op : Type} {Res : Op → Type} {Choice σ α β ε : Type}

/-- An invariant and the calls that keep it. -/
structure Discipline (W : World ι Op Res Choice σ) where
  /-- What holds between any two calls. -/
  Inv : History ι Op Res σ → Prop
  /-- The calls a thread may make. -/
  Permitted : ι → Op → History ι Op Res σ → Prop
  /-- A permitted call keeps the invariant. -/
  preserved {h : History ι Op Res σ} {i : ι} {op : Op} {result : Res op} {s' : σ}
    (hinv : Inv h) (hpermitted : Permitted i op h)
    (heffect : W.Effect i op h.current result s') : Inv (h.record i op result s')

variable {p : Program Op Res α} {Q' : α → History ι Op Res σ → Prop}

namespace Discipline

variable {W : World ι Op Res Choice σ} (D : Discipline W)

/-- Another thread than `i` makes one permitted call. -/
def Interferes (i : ι) (h h' : History ι Op Res σ) : Prop :=
  ∃ (j : ι) (op : Op) (result : Res op) (s' : σ), j ≠ i ∧ D.Inv h ∧ D.Permitted j op h ∧
    W.Effect j op h.current result s' ∧ h' = h.record j op result s'

/-- Other threads than `i` make permitted calls. -/
def Interference (i : ι) : History ι Op Res σ → History ι Op Res σ → Prop :=
  Relation.ReflTransGen (D.Interferes i)

/-- An assertion of thread `i` that the calls of others do not falsify. -/
def Stable (i : ι) (P : History ι Op Res σ → Prop) : Prop :=
  ∀ h h', D.Interferes i h h' → P h → P h'

/-- Thread `i`, running a program in a history, makes permitted calls only, and a
value it returns satisfies `Q` from then on. -/
def Obeys (i : ι) (Q : α → History ι Op Res σ → Prop) :
    Program Op Res α → History ι Op Res σ → Prop
  | .ret value, h => ∀ h₁, D.Interference i h h₁ → D.Inv h₁ → Q value h₁
  | .call op next, h => ∀ h₁, D.Interference i h h₁ → D.Inv h₁ → D.Permitted i op h₁ ∧
      ∀ result s', W.Effect i op h₁.current result s' →
        Obeys i Q (next result) (h₁.record i op result s')

variable {D} {i : ι} {P : History ι Op Res σ → Prop} {Q : α → History ι Op Res σ → Prop}
  {R : β → History ι Op Res σ → Prop}

/-- A stable assertion survives any number of calls of others. -/
theorem Stable.interference (hP : D.Stable i P) {h h' : History ι Op Res σ}
    (hinterference : D.Interference i h h') (h₀ : P h) : P h' := by
  induction hinterference with
  | refl => exact h₀
  | tail _ hstep ih => exact hP _ _ hstep ih

/-- Stable assertions are closed under conjunction. -/
theorem Stable.and {P' : History ι Op Res σ → Prop} (hP : D.Stable i P) (hP' : D.Stable i P') :
    D.Stable i fun h => P h ∧ P' h :=
  fun _ _ hstep h => ⟨hP _ _ hstep h.1, hP' _ _ hstep h.2⟩

/-- Stable assertions are closed under conditions that do not look at the history. -/
theorem Stable.imp (p : Prop) (hP : D.Stable i P) : D.Stable i fun h => p → P h :=
  fun _ _ hstep h hp => hP _ _ hstep (h hp)

/-- What is asserted without looking at the history is stable. -/
theorem stable_const (p : Prop) : D.Stable i fun _ => p := fun _ _ _ h => h

/-- Stable assertions are closed under universal quantification. -/
theorem Stable.forall {γ : Type} {P : γ → History ι Op Res σ → Prop}
    (hP : ∀ x, D.Stable i (P x)) : D.Stable i fun h => ∀ x, P x h :=
  fun _ _ hstep h x => hP x _ _ hstep (h x)

/-- Stable assertions are closed under existential quantification. -/
theorem Stable.exists {γ : Type} {P : γ → History ι Op Res σ → Prop}
    (hP : ∀ x, D.Stable i (P x)) : D.Stable i fun h => ∃ x, P x h :=
  fun _ _ hstep ⟨x, h⟩ => ⟨x, hP x _ _ hstep h⟩

/-- Other threads' calls before a program starts do not matter. -/
theorem Obeys.interference {h h' : History ι Op Res σ}
    (hobeys : D.Obeys i Q p h) (hinterference : D.Interference i h h') : D.Obeys i Q p h' := by
  cases p with
  | ret value => exact fun h₁ hafter => hobeys h₁ (hinterference.trans hafter)
  | call op next => exact fun h₁ hafter => hobeys h₁ (hinterference.trans hafter)

/-- Running one program after another. -/
theorem Obeys.bind {f : α → Program Op Res β} {h : History ι Op Res σ}
    (hinv : D.Inv h) (hp : D.Obeys i Q p h)
    (hf : ∀ value h', D.Inv h' → Q value h' → D.Obeys i R (f value) h') :
    D.Obeys i R (p.bind f) h := by
  induction p generalizing h with
  | ret value => exact hf value h hinv (hp h .refl hinv)
  | call op next ih =>
    intro h₁ hinterference hinv₁
    obtain ⟨hpermitted, hnext⟩ := hp h₁ hinterference hinv₁
    refine ⟨hpermitted, fun result s' heffect => ?_⟩
    exact ih result (D.preserved hinv₁ hpermitted heffect) (hnext result s' heffect)

/-- Weaken what is known of the returned value. -/
theorem Obeys.conseq {h : History ι Op Res σ} (hp : D.Obeys i Q p h)
    (hQ : ∀ value h', D.Inv h' → Q value h' → Q' value h') : D.Obeys i Q' p h := by
  induction p generalizing h with
  | ret value => exact fun h₁ hafter hinv => hQ value h₁ hinv (hp h₁ hafter hinv)
  | call op next ih =>
    intro h₁ hafter hinv
    obtain ⟨hpermitted, hnext⟩ := hp h₁ hafter hinv
    exact ⟨hpermitted, fun result s' heffect => ih result (hnext result s' heffect)⟩

/-! ## Triples -/

/-- From any history with `P`, the program obeys and returns values with `Q`. -/
def Triple (D : Discipline W) (i : ι) (P : History ι Op Res σ → Prop) (p : Program Op Res α)
    (Q : α → History ι Op Res σ → Prop) : Prop :=
  ∀ h, D.Inv h → P h → D.Obeys i Q p h

/-- Returning a value of which the stable `Q` holds. -/
theorem triple_ret {value : α} (hstable : D.Stable i (Q value))
    (hQ : ∀ h, D.Inv h → P h → Q value h) : D.Triple i P (.ret value) Q :=
  fun h hinv hP _ hafter _ => hstable.interference hafter (hQ h hinv hP)

/-- Running one program after another. -/
theorem Triple.bind {f : α → Program Op Res β} (hp : D.Triple i P p Q)
    (hf : ∀ value, D.Triple i (Q value) (f value) R) : D.Triple i P (p.bind f) R :=
  fun h hinv hP => (hp h hinv hP).bind hinv fun value h' => hf value h'

/-- Strengthen what is known before and weaken what is known after. -/
theorem Triple.conseq {P' : History ι Op Res σ → Prop} (hp : D.Triple i P p Q)
    (hP : ∀ h, D.Inv h → P' h → P h)
    (hQ : ∀ value h, D.Inv h → Q value h → Q' value h) : D.Triple i P' p Q' :=
  fun h hinv hP' => (hp h hinv (hP h hinv hP')).conseq hQ

/-- What is known without looking at the history may be assumed. -/
theorem triple_of_const {known : Prop}
    (hp : known → D.Triple i P p Q) : D.Triple i (fun h => known ∧ P h) p Q :=
  fun h hinv hP => hp hP.1 h hinv hP.2

/-- One call: it is permitted wherever the stable `P` holds, and what it leaves
is described by a stable assertion. -/
theorem triple_perform {op : Op} {Q : Res op → History ι Op Res σ → Prop} (hP : D.Stable i P)
    (hQ : ∀ result, D.Stable i (Q result))
    (hpermitted : ∀ h, D.Inv h → P h → D.Permitted i op h)
    (heffect : ∀ h result s', D.Inv h → P h → W.Effect i op h.current result s' →
      Q result (h.record i op result s')) : D.Triple i P (.perform op) Q := by
  intro h _ h₀ h₁ hinterference hinv₁
  have hP₁ := hP.interference hinterference h₀
  refine ⟨hpermitted h₁ hinv₁ hP₁, fun result s' he h₂ hafter _ => ?_⟩
  exact (hQ result).interference hafter (heffect h₁ result s' hinv₁ hP₁ he)

/-- A program all of whose calls are permitted under an assertion they keep, with
what is known of the values it returns. -/
theorem triple_of_allOps {ok : Op → Prop} {Q : α → Prop} (hP : D.Stable i P)
    {p : Program Op Res α} (hp : p.AllOps ok) (hq : p.AllRets Q)
    (hpermitted : ∀ op h, ok op → D.Inv h → P h → D.Permitted i op h)
    (heffect : ∀ op h result s', ok op → D.Inv h → P h → W.Effect i op h.current result s' →
      P (h.record i op result s')) : D.Triple i P p fun value h => Q value ∧ P h := by
  intro h _ h₀
  induction p generalizing h with
  | ret value => exact fun h₁ hafter _ => ⟨hq, hP.interference hafter h₀⟩
  | call op next ih =>
    intro h₁ hinterference hinv₁
    have hP₁ := hP.interference hinterference h₀
    have hpermitted₁ := hpermitted op h₁ hp.1 hinv₁ hP₁
    refine ⟨hpermitted₁, fun result s' he => ?_⟩
    exact ih result (hp.2 result) (hq result) _ (D.preserved hinv₁ hpermitted₁ he)
      (heffect op h₁ result s' hp.1 hinv₁ hP₁ he)

/-! ## Looking -/

/-- The calls in `look` are open to thread `i` at any time. -/
structure Looks (D : Discipline W) (i : ι) (look : Op → Prop) : Prop where
  /-- They are always permitted. -/
  permitted {op : Op} (h : History ι Op Res σ) (hlook : look op) : D.Permitted i op h

/-- The assertion `P` of thread `i` survives the calls of others and its own calls
in `look`. -/
structure Robust (D : Discipline W) (look : Op → Prop) (i : ι) (P : History ι Op Res σ → Prop) :
    Prop where
  /-- The calls of others do not falsify the assertion. -/
  stable : D.Stable i P
  /-- Looking does not either. -/
  looks {op : Op} {h : History ι Op Res σ} {result : Res op} {s' : σ} (hlook : look op)
    (heffect : W.Effect i op h.current result s') (hP : P h) : P (h.record i op result s')

variable {look : Op → Prop} {P' : History ι Op Res σ → Prop}

/-- Where looking leaves the state as it is, only the trace matters. -/
theorem robust_of_unchanged (hunchanged : ∀ {op : Op} {result : Res op} {s s' : σ}, look op →
      W.Effect i op s result s' → s' = s)
    (hstable : D.Stable i P) (hlooks : ∀ {op : Op} {h : History ι Op Res σ} (result : Res op),
      look op → P h → P (h.record i op result h.current)) : D.Robust look i P where
  stable := hstable
  looks hlook heffect hP := by
    obtain rfl := hunchanged hlook heffect
    exact hlooks _ hlook hP

/-- Robust assertions are closed under conjunction. -/
theorem Robust.and (hP : D.Robust look i P) (hP' : D.Robust look i P') :
    D.Robust look i fun h => P h ∧ P' h :=
  ⟨hP.stable.and hP'.stable, fun hlook heffect h =>
    ⟨hP.looks hlook heffect h.1, hP'.looks hlook heffect h.2⟩⟩

/-- What is asserted without looking at the history is robust. -/
theorem robust_const (p : Prop) : D.Robust look i fun _ => p :=
  ⟨stable_const p, fun _ _ h => h⟩

/-- Robust assertions are closed under existential quantification. -/
theorem Robust.exists {γ : Type} {P : γ → History ι Op Res σ → Prop}
    (hP : ∀ x, D.Robust look i (P x)) : D.Robust look i fun h => ∃ x, P x h :=
  ⟨.exists fun x => (hP x).stable, fun hlook heffect ⟨x, h⟩ =>
    ⟨x, (hP x).looks hlook heffect h⟩⟩

/-- Robust assertions are closed under conditions that do not look at the history. -/
theorem Robust.imp (p : Prop) (hP : D.Robust look i P) : D.Robust look i fun h => p → P h :=
  ⟨hP.stable.imp p, fun hlook heffect h hp => hP.looks hlook heffect (h hp)⟩

/-- What thread `i` did stays done. -/
theorem stable_did (p : Event ι Op Res σ → Prop) : D.Stable i (Did i p) := by
  rintro h _ ⟨j, op, result, s', _, _, _, _, rfl⟩ hdid
  exact hdid.record j op result s'

/-- Looking does not undo it. -/
theorem robust_did (p : Event ι Op Res σ → Prop) : D.Robust look i (Did i p) :=
  ⟨stable_did p, fun _ _ hdid => hdid.record i _ _ _⟩

/-- Looking keeps a robust assertion. -/
theorem Robust.triple_perform {op : Op} (hP : D.Robust look i P) (hlooks : D.Looks i look)
    (hlook : look op) : D.Triple i P (.perform op) fun _ => P :=
  Discipline.triple_perform hP.stable (fun _ => hP.stable)
    (fun h _ _ => hlooks.permitted h hlook) fun _ _ _ _ h₀ heffect => hP.looks hlook heffect h₀

/-- A program that only looks keeps a robust assertion, and returns what it may. -/
theorem Robust.triple_of_allRets {Q : α → Prop} (hP : D.Robust look i P)
    (hlooks : D.Looks i look) (hp : p.AllOps look) (hq : p.AllRets Q) :
    D.Triple i P p fun value h => Q value ∧ P h :=
  Discipline.triple_of_allOps hP.stable hp hq (fun _ h hlook _ _ => hlooks.permitted h hlook)
    fun _ _ _ _ hlook _ h₀ heffect => hP.looks hlook heffect h₀

/-- What a look shows holds next to a robust assertion. -/
theorem Robust.triple_perform_and {op : Op} {Q : Res op → Prop} (hP : D.Robust look i P)
    (hlooks : D.Looks i look) (hlook : look op)
    (hQ : ∀ h result s', D.Inv h → P h → W.Effect i op h.current result s' → Q result) :
    D.Triple i P (.perform op) fun result h => Q result ∧ P h :=
  Discipline.triple_perform hP.stable (fun _ => (stable_const _).and hP.stable)
    (fun h _ _ => hlooks.permitted h hlook) fun h result s' hinv h₀ heffect =>
      ⟨hQ h result s' hinv h₀ heffect, hP.looks hlook heffect h₀⟩

/-! ## Programs that may raise -/

/-- A triple for a program that may raise, with what holds after a value and what
holds after an error. -/
def Raises (D : Discipline W) (i : ι) (P : History ι Op Res σ → Prop)
    (p : Program.Raising Op Res ε α) (Q : α → History ι Op Res σ → Prop)
    (E : ε → History ι Op Res σ → Prop) : Prop :=
  D.Triple i P p.run fun
    | .ok value => Q value
    | .error error => E error

variable {E : ε → History ι Op Res σ → Prop}

/-- Returning normally. -/
theorem raises_pure {value : α} (hstable : D.Stable i (Q value))
    (hQ : ∀ h, D.Inv h → P h → Q value h) :
    D.Raises i P (pure value : Program.Raising Op Res ε α) Q E :=
  triple_ret hstable hQ

/-- Raising an error. -/
theorem raises_throw {error : ε} (hstable : D.Stable i (E error))
    (hE : ∀ h, D.Inv h → P h → E error h) :
    D.Raises i P (throw error : Program.Raising Op Res ε α) Q E :=
  triple_ret hstable hE

/-- Running one after the other, unless the first raises. -/
theorem Raises.bind {p : Program.Raising Op Res ε α} {f : α → Program.Raising Op Res ε β}
    (hp : D.Raises i P p Q E) (hE : ∀ error, D.Stable i (E error))
    (hf : ∀ value, D.Raises i (Q value) (f value) R E) : D.Raises i P (p >>= f) R E := by
  refine Triple.bind hp fun outcome => ?_
  cases outcome with
  | ok value => exact hf value
  | error error => exact triple_ret (hE error) fun _ _ h => h

/-- Catching every error. -/
theorem Raises.catch {E' : ε → History ι Op Res σ → Prop} {p : Program.Raising Op Res ε α}
    {f : ε → Program.Raising Op Res ε α} (hp : D.Raises i P p Q E)
    (hQ : ∀ value, D.Stable i (Q value)) (hf : ∀ error, D.Raises i (E error) (f error) Q E') :
    D.Raises i P (tryCatch p f) Q E' := by
  refine Triple.bind hp fun outcome => ?_
  cases outcome with
  | ok value => exact triple_ret (hQ value) fun _ _ h => h
  | error error => exact hf error

/-- Strengthen what is known before and weaken what is known after. -/
theorem Raises.conseq {P' : History ι Op Res σ → Prop}
    {E' : ε → History ι Op Res σ → Prop} {p : Program.Raising Op Res ε α}
    (hp : D.Raises i P p Q E) (hP : ∀ h, D.Inv h → P' h → P h)
    (hQ : ∀ value h, D.Inv h → Q value h → Q' value h)
    (hE : ∀ error h, D.Inv h → E error h → E' error h) : D.Raises i P' p Q' E' := by
  refine Triple.conseq hp hP fun outcome h hinv => ?_
  cases outcome with
  | ok value => exact hQ value h hinv
  | error error => exact hE error h hinv

/-- One call in a program that may raise. -/
theorem raises_attempt {op : Op} {Q : Res op → History ι Op Res σ → Prop} (hP : D.Stable i P)
    (hQ : ∀ result, D.Stable i (Q result))
    (hpermitted : ∀ h, D.Inv h → P h → D.Permitted i op h)
    (heffect : ∀ h result s', D.Inv h → P h → W.Effect i op h.current result s' →
      Q result (h.record i op result s')) :
    D.Raises i P (Program.attempt op : Program.Raising Op Res ε (Res op)) Q E :=
  Triple.bind (triple_perform hP hQ hpermitted heffect) fun result =>
    triple_ret (hQ result) fun _ _ h => h

/-- A check in a program that may raise. -/
theorem raises_ensure {condition : Bool} {error : ε} (hP : D.Stable i P)
    (hE : D.Stable i (E error)) (herror : ∀ h, D.Inv h → P h → E error h) :
    D.Raises i P (Program.ensure condition error)
      (fun _ h => condition = true ∧ P h) E := by
  unfold Program.ensure
  cases condition with
  | true => exact raises_pure ((stable_const _).and hP) fun _ _ h => ⟨rfl, h⟩
  | false => exact raises_throw hE herror

/-- A check keeps a robust assertion. -/
theorem Robust.raises_ensure {condition : Bool} {error : ε} (hP : D.Robust look i P)
    (hE : D.Stable i (E error)) (hPE : ∀ h, P h → E error h) :
    D.Raises i P (Program.ensure condition error : Program.Raising Op Res ε Unit)
      (fun _ h => condition = true ∧ P h) E :=
  Discipline.raises_ensure hP.stable hE fun h _ => hPE h

/-- A program that may raise and only looks keeps a robust assertion. -/
theorem Robust.raises_of_calls {p : Program.Raising Op Res ε α} {Q : α → Prop}
    (hP : D.Robust look i P) (hlooks : D.Looks i look) (hp : Program.Calls p look)
    (hq : Program.Returns p Q) : D.Raises i P p (fun value h => Q value ∧ P h) fun _ => P :=
  (hP.triple_of_allRets hlooks hp hq).conseq (fun _ _ h => h) fun outcome _ _ h => by
    cases outcome with
    | ok value => exact h
    | error error => exact h.2

/-- It keeps the assertion whether it raises or not. -/
theorem Robust.raises_looking {p : Program.Raising Op Res ε α} (hP : D.Robust look i P)
    (hlooks : D.Looks i look) (hp : Program.Calls p look) :
    D.Raises i P p (fun _ => P) fun _ => P :=
  (hP.raises_of_calls hlooks hp (Program.returns_true p)).conseq (fun _ _ h => h)
    (fun _ _ _ h => h.2) fun _ _ _ h => h

/-- Looking keeps a robust assertion. -/
theorem Robust.raises_attempt {op : Op} (hP : D.Robust look i P) (hlooks : D.Looks i look)
    (hlook : look op) :
    D.Raises i P (Program.attempt op : Program.Raising Op Res ε (Res op)) (fun _ => P) E :=
  Triple.bind (hP.triple_perform hlooks hlook) fun _ => triple_ret hP.stable fun _ _ h => h

/-! ## Soundness -/

/-- One step of a run: the invariant is kept, and every thread still obeys. -/
theorem step_sound [DecidableEq ι] {Q : ι → α → History ι Op Res σ → Prop}
    {c c' : Config ι Op Res σ α} (hstep : Config.Step W c c') (hinv : D.Inv c.history)
    (hobeys : ∀ i, D.Obeys i (Q i) (c.threads i) c.history) :
    D.Inv c'.history ∧ ∀ i, D.Obeys i (Q i) (c'.threads i) c'.history := by
  obtain @⟨j, op, next, result, s', hthread, heffect⟩ := hstep
  have hj := hobeys j
  rw [hthread] at hj
  obtain ⟨hpermitted, hnext⟩ := hj c.history .refl hinv
  refine ⟨D.preserved hinv hpermitted heffect, fun i => ?_⟩
  by_cases hij : i = j
  · subst hij
    simpa only [Function.update_self] using hnext result s' heffect
  · simp only [Function.update_of_ne hij]
    exact (hobeys i).interference (.single ⟨j, op, result, s', Ne.symm hij, hinv, hpermitted,
      heffect, rfl⟩)

/-- Every configuration of a run: the invariant holds, and every thread obeys. -/
theorem reachable_sound [DecidableEq ι] {Q : ι → α → History ι Op Res σ → Prop}
    {c₀ c : Config ι Op Res σ α} (hreach : Config.Reachable W c₀ c) (hinv : D.Inv c₀.history)
    (hobeys : ∀ i, D.Obeys i (Q i) (c₀.threads i) c₀.history) :
    D.Inv c.history ∧ ∀ i, D.Obeys i (Q i) (c.threads i) c.history := by
  induction hreach with
  | refl => exact ⟨hinv, hobeys⟩
  | tail _ hstep ih => exact step_sound hstep ih.1 ih.2

/-- A value that a thread has returned satisfies its postcondition. -/
theorem returned_of_obeys {c : Config ι Op Res σ α} {i : ι} {value : α} (hinv : D.Inv c.history)
    (hobeys : D.Obeys i Q (c.threads i) c.history) (hret : c.threads i = .ret value) :
    Q value c.history := by
  rw [hret] at hobeys
  exact hobeys c.history .refl hinv

end Discipline

end Concurrent
