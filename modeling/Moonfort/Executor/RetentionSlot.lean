import Moonfort.Executor.FileStore

/-!
# One retention

What the store keeps of one retention, and what the steps of promotions and
sweeps do to it: an exclusive claim, the record that the holder of the claim
renames, the way back, and the way out. A renamed record is always under a claim
of the one who renamed it, so it has one user.
-/

namespace Moonfort.Executor

/-- What the store keeps of one retention. -/
structure Slot (ι τ : Type) where
  /-- The record as it can be promoted. -/
  available : Option (Entry ι τ)
  /-- The record as it is being promoted. -/
  promoting : Option (Entry ι τ)
  /-- The claim of a promotion. -/
  claim : Option (Entry ι τ)
  /-- Who last renamed the record for a promotion. -/
  mover : Option ι

namespace Slot

variable {ι τ : Type}

/-- Thread `i` has a claim of this content on a record that is not renamed. -/
def ClaimHeld (s : Slot ι τ) (i : ι) (text : τ) : Prop :=
  s.claim = some ⟨text, i⟩ ∧ s.promoting = none

/-- Thread `i` holds the claim and the record it renamed. -/
def HoldsBoth (s : Slot ι τ) (i : ι) : Prop :=
  (∃ text, s.claim = some ⟨text, i⟩) ∧ s.promoting.isSome ∧ s.mover = some i

/-- Thread `i` renamed the record, and it did not come back. -/
def Spent (s : Slot ι τ) (i : ι) : Prop := s.available = none ∧ s.mover = some i

/-- A step of thread `i`. Those who may claim satisfy `promotes`, and a record is
renamed under a claim that `fits` it. -/
inductive Change (promotes : ι → Prop) (fits : τ → τ → Prop) (i : ι) (claims : Prop)
    (s : Slot ι τ) : Slot ι τ → Prop
  | same : Change promotes fits i claims s s
  | claimed {text : τ} (hclaims : claims) (hpromotes : promotes i) (hfree : s.claim = none) :
      Change promotes fits i claims s { s with claim := some ⟨text, i⟩ }
  | written {text text' : τ} (hheld : s.ClaimHeld i text) :
      Change promotes fits i claims s { s with claim := some ⟨text', i⟩ }
  | unclaimed {text : τ} (hheld : s.ClaimHeld i text) :
      Change promotes fits i claims s { s with claim := none }
  | locked {text : τ} {entry : Entry ι τ} (hheld : s.ClaimHeld i text)
      (hentry : s.available = some entry) (hfits : fits entry.text text) :
      Change promotes fits i claims s
        { s with available := none, promoting := some entry, mover := some i }
  | restored {entry : Entry ι τ} (hboth : s.HoldsBoth i) (hentry : s.promoting = some entry) :
      Change promotes fits i claims s { s with available := some entry, promoting := none }
  | consumed (hboth : s.HoldsBoth i) : Change promotes fits i claims s { s with promoting := none }
  | swept : Change promotes fits i claims s { s with available := none }

/-- What holds of a retention between any two steps. -/
structure Inv (promotes : ι → Prop) (fits : τ → τ → Prop) (retained : Option (Entry ι τ))
    (s : Slot ι τ) : Prop where
  /-- The record is the retained one. -/
  original (entry : Entry ι τ) (hentry : s.available = some entry) : retained = some entry
  /-- A claim is one of a promotion. -/
  claimed (entry : Entry ι τ) (hentry : s.claim = some entry) : promotes entry.writer
  /-- A renamed record is the retained one, under a fitting claim of its mover. -/
  locked (entry : Entry ι τ) (hentry : s.promoting = some entry) :
    retained = some entry ∧ s.available = none ∧
      ∃ text i, s.claim = some ⟨text, i⟩ ∧ s.mover = some i ∧ fits entry.text text

variable {promotes : ι → Prop} {fits : τ → τ → Prop} {retained : Option (Entry ι τ)} {i j : ι}
  {claims : Prop} {s s' : Slot ι τ}

/-- A step keeps the invariant. -/
theorem Inv.change (hinv : Inv promotes fits retained s)
    (hchange : Change promotes fits i claims s s') : Inv promotes fits retained s' := by
  have hnone {entry : Entry ι τ} {p : Prop} (h : none = some entry) : p := by cases h
  -- A claim on a record that is not renamed changes under no renamed record.
  have hfree {entry : Entry ι τ} {text : τ} {p : Prop} (hheld : s.ClaimHeld i text)
      (hentry : s.promoting = some entry) : p := hnone (hheld.2.symm.trans hentry)
  cases hchange with
  | same => exact hinv
  | claimed _ hpromotes hfree' =>
    refine ⟨hinv.original, fun entry hentry => ?_, fun entry hentry => ?_⟩
    · cases hentry
      exact hpromotes
    · obtain ⟨_, _, text, i, hclaim, _⟩ := hinv.locked entry hentry
      exact hnone (hfree'.symm.trans hclaim)
  | @written text _ hheld =>
    refine ⟨hinv.original, fun entry hentry => ?_, fun entry => hfree hheld⟩
    cases hentry
    exact hinv.claimed ⟨text, i⟩ hheld.1
  | unclaimed hheld => exact ⟨hinv.original, fun _ => hnone, fun entry => hfree hheld⟩
  | @locked text entry hheld hentry hfits =>
    refine ⟨fun _ => hnone, hinv.claimed, fun entry' hentry' => ?_⟩
    cases hentry'
    exact ⟨hinv.original entry hentry, rfl, text, i, hheld.1, rfl, hfits⟩
  | @restored entry hboth hentry =>
    refine ⟨fun entry' hentry' => ?_, hinv.claimed, fun _ => hnone⟩
    cases hentry'
    exact (hinv.locked entry hentry).1
  | consumed hboth => exact ⟨hinv.original, hinv.claimed, fun _ => hnone⟩
  | swept =>
    refine ⟨fun _ => hnone, hinv.claimed, fun entry hentry => ?_⟩
    obtain ⟨hretained, _, hclaim⟩ := hinv.locked entry hentry
    exact ⟨hretained, rfl, hclaim⟩

/-- Without a claim no record is renamed. -/
theorem Inv.promoting_none (hinv : Inv promotes fits retained s) (hfree : s.claim = none) :
    s.promoting = none := by
  refine Option.eq_none_iff_forall_not_mem.mpr fun entry hentry => ?_
  obtain ⟨_, _, text, i, hclaim, _⟩ := hinv.locked entry hentry
  cases hfree.symm.trans hclaim

/-- A claim appears only in a step that claims. -/
theorem Change.claim_none (hchange : Change promotes fits i claims s s') (hnone : s.claim = none) :
    s'.claim = none ∨ claims := by
  cases hchange with
  | claimed hclaims => exact .inr hclaims
  | written hheld => exact .inl (by cases hnone.symm.trans hheld.1)
  | unclaimed => exact .inl rfl
  | _ => exact .inl hnone

/-- No other thread touches a claim or renames the record under it. -/
theorem ClaimHeld.change {text : τ} (hheld : s.ClaimHeld i text) (hij : j ≠ i)
    (hchange : Change promotes fits j claims s s') : s'.ClaimHeld i text := by
  have hother {text' : τ} (h : s.claim = some ⟨text', j⟩) : False := by
    cases hheld.1.symm.trans h
    exact hij rfl
  cases hchange with
  | claimed _ _ hfree => cases hheld.1.symm.trans hfree
  | written hother' => exact (hother hother'.1).elim
  | unclaimed hother' => exact (hother hother'.1).elim
  | locked hother' => exact (hother hother'.1).elim
  | restored hboth => exact (hother hboth.1.choose_spec).elim
  | consumed => exact ⟨hheld.1, rfl⟩
  | same | swept => exact hheld

/-- No other thread touches a renamed record or its claim. -/
theorem HoldsBoth.change (hboth : s.HoldsBoth i) (hij : j ≠ i)
    (hchange : Change promotes fits j claims s s') : s'.HoldsBoth i := by
  obtain ⟨⟨text, hclaim⟩, hpromoting, hmover⟩ := hboth
  have hother {text' : τ} (h : s.claim = some ⟨text', j⟩) : False := by
    cases hclaim.symm.trans h
    exact hij rfl
  cases hchange with
  | claimed _ _ hfree => cases hclaim.symm.trans hfree
  | written hother' => exact (hother hother'.1).elim
  | unclaimed hother' => exact (hother hother'.1).elim
  | locked hother' => exact (hother hother'.1).elim
  | restored hother' => exact (hother hother'.1.choose_spec).elim
  | consumed hother' => exact (hother hother'.1.choose_spec).elim
  | same | swept => exact ⟨⟨text, hclaim⟩, hpromoting, hmover⟩

/-- Once its mover is done with it, a renamed record never comes back. -/
theorem Spent.change (hspent : s.Spent i) (hij : j ≠ i)
    (hchange : Change promotes fits j claims s s') : s'.Spent i := by
  cases hchange with
  | locked _ hentry => cases hspent.1.symm.trans hentry
  | restored hboth =>
    cases hspent.2.symm.trans hboth.2.2
    exact (hij rfl).elim
  | swept => exact ⟨rfl, hspent.2⟩
  | _ => exact hspent

/-- Who holds both can spend the retention. -/
theorem HoldsBoth.spent (hboth : s.HoldsBoth i) (hinv : Inv promotes fits retained s) :
    s.Spent i := by
  obtain ⟨entry, hentry⟩ := Option.isSome_iff_exists.mp hboth.2.1
  exact ⟨(hinv.locked entry hentry).2.1, hboth.2.2⟩

/-- Two threads that spent the retention are one. -/
theorem Spent.eq (hi : s.Spent i) (hj : s.Spent j) : i = j :=
  Option.some.inj (hi.2.symm.trans hj.2)

end Slot

end Moonfort.Executor
