import Moonfort.Executor.GrantStore

/-!
# Single use of grants

The discipline that `consume_grant` and `publish_grant` obey on one store. A name
under `consumed/` is taken once and kept, so one call gets the grant moved there;
a name under `pending/` only ever holds a grant that its publisher validated.
Publication is exclusive as long as no grant is consumed between a publisher's
existence checks and its rename.
-/

namespace Moonfort.Executor

open Concurrent Concurrent.Discipline

variable {ι τ : Type}

/-! ## The steps of a run -/

/-- The identity that a step publishes: it moves a staged grant under `pending/`. -/
def publicationOf : GrantEvent ι τ → Option String
  | ⟨_, .rename (.staging _) (.pending approvalId), renamed, _, _⟩ =>
    if renamed then some approvalId else none
  | _ => none

/-- The identity that a step consumes: it moves a pending grant under `consumed/`. -/
def consumptionOf : GrantEvent ι τ → Option String
  | ⟨_, .rename (.pending approvalId) (.consumed _), renamed, _, _⟩ =>
    if renamed then some approvalId else none
  | _ => none

/-- The identity that a step finds unconsumed. -/
def unconsumedCheckOf : GrantEvent ι τ → Option String
  | ⟨_, .pathExists (.consumed approvalId), present, _, _⟩ =>
    if present = some false then some approvalId else none
  | _ => none

/-- The time that a step reads from the clock. -/
def clockOf : GrantEvent ι τ → Option ℤ
  | ⟨_, .now, ms, _, _⟩ => some ms
  | _ => none

section Discipline

variable [DecidableEq ι]

/-- Thread `i` finds the identity unconsumed in this step. -/
def checksUnconsumed (i : ι) (approvalId : String) (e : GrantEvent ι τ) : Bool :=
  e.who = i && unconsumedCheckOf e = some approvalId

/-- Since thread `i` last found the identity unconsumed, it was consumed. -/
def ConsumedSinceCheck (i : ι) (approvalId : String) (trace : List (GrantEvent ι τ)) : Prop :=
  SinceLast (checksUnconsumed i approvalId) (consumptionOf · = some approvalId) trace

/-- Nothing consumed the identity, or something did since thread `i` last looked. -/
def Unconsumed (i : ι) (approvalId : String) (h : GrantHistory ι τ) : Prop :=
  h.current.files (.consumed approvalId) = none ∨ ConsumedSinceCheck i approvalId h.trace

variable (texts : Texts τ) (lib : GrantLibrary τ) (config : ExecutorConfig) (calls : ι → GrantCall)

/-- The file holds the grant of a publisher of the identity, who validated it at a
time it read. -/
def PublishedFor (trace : List (GrantEvent ι τ)) (approvalId : String) (entry : Entry ι τ) :
    Prop :=
  ∃ request now, calls entry.writer = .publish request ∧
    request.grant.approvalId = approvalId ∧
    entry.text = lib.grants.stringify request.grant ∧
    (∃ e ∈ trace, e.who = entry.writer ∧ clockOf e = some now) ∧
    publicationRefusal now request config = ""

/-- Thread `i` may move its staged file under `pending/`. -/
def MayPublish (i : ι) (random : ℕ) (approvalId : String) (h : GrantHistory ι τ) : Prop :=
  h.current.drawnBy random = some i ∧
  (∀ entry, h.current.files (.staging random) = some entry →
    PublishedFor lib config calls h.trace approvalId entry) ∧
  Unconsumed i approvalId h

/-- The steps that the calls on the store take. -/
def GrantPermitted (i : ι) : GrantOp τ → GrantHistory ι τ → Prop
  | .create path, h | .write path _, h | .remove path, h =>
    ∃ random, path = .staging random ∧ h.current.drawnBy random = some i
  | .rename source destination, h =>
    (∃ random approvalId, source = .staging random ∧ destination = .pending approvalId ∧
      MayPublish lib config calls i random approvalId h) ∨
    ∃ approvalId, source = .pending approvalId ∧ destination = .consumed approvalId
  | _, _ => True

/-- What a permitted step of thread `i` does to the store, with the identity it
publishes and the one it consumes. -/
inductive GrantChange (i : ι) (h : GrantHistory ι τ) :
    (publication consumption : Option String) → GrantState ι τ → Prop
  | same : GrantChange i h none none h.current
  | drawn {random : ℕ} (hrandom : h.current.drawnBy random = none) :
      GrantChange i h none none (h.current.draw i random)
  | staged {random : ℕ} {text : τ} (hrandom : h.current.drawnBy random = some i) :
      GrantChange i h none none (h.current.put (.staging random) ⟨text, i⟩)
  | dropped {random : ℕ} (hrandom : h.current.drawnBy random = some i) :
      GrantChange i h none none (h.current.erase (.staging random))
  | published {random : ℕ} {approvalId : String} {entry : Entry ι τ}
      (hmay : MayPublish lib config calls i random approvalId h)
      (hentry : h.current.files (.staging random) = some entry)
      (hfree : h.current.files (.pending approvalId) = none) :
      GrantChange i h (some approvalId) none
        (h.current.move i (.staging random) (.pending approvalId) entry)
  | consumed {approvalId : String} {entry : Entry ι τ}
      (hentry : h.current.files (.pending approvalId) = some entry)
      (hfree : h.current.files (.consumed approvalId) = none) :
      GrantChange i h none (some approvalId)
        (h.current.move i (.pending approvalId) (.consumed approvalId) entry)

variable {texts lib config calls} {i : ι} {h : GrantHistory ι τ} {op : GrantOp τ}
  {result : GrantOp.Res op} {s' : GrantState ι τ}

/-- A permitted step makes one of the changes. -/
theorem grantChange_of_effect (hpermitted : GrantPermitted lib config calls i op h)
    (heffect : (grantWorld texts).Effect i op h.current result s') :
    GrantChange lib config calls i h (publicationOf ⟨i, op, result, h.current, s'⟩)
      (consumptionOf ⟨i, op, result, h.current, s'⟩) s' := by
  cases op with
  | rand =>
    rcases effect_rand heffect with ⟨random, _, hrandom, rfl⟩ | ⟨_, rfl⟩
    · exact .drawn hrandom
    · exact .same
  | create path =>
    obtain ⟨random, rfl, hrandom⟩ := hpermitted
    rcases effect_create heffect with ⟨_, _, rfl⟩ | ⟨_, rfl⟩
    · exact .staged hrandom
    · exact .same
  | write path text =>
    obtain ⟨random, rfl, hrandom⟩ := hpermitted
    rcases effect_write heffect with ⟨_, text', _, _, _, rfl⟩ | ⟨_, rfl⟩
    · exact .staged hrandom
    · exact .same
  | remove path =>
    obtain ⟨random, rfl, hrandom⟩ := hpermitted
    rcases effect_remove heffect with ⟨_, _, rfl⟩ | ⟨_, rfl⟩
    · exact .dropped hrandom
    · exact .same
  | rename source destination =>
    rcases hpermitted with ⟨random, approvalId, rfl, rfl, hmay⟩ | ⟨approvalId, rfl, rfl⟩
    · rcases effect_rename heffect with ⟨rfl, entry, hentry, hfree, rfl⟩ | ⟨rfl, rfl⟩
      · exact .published hmay hentry hfree
      · exact .same
    · rcases effect_rename heffect with ⟨rfl, entry, hentry, hfree, rfl⟩ | ⟨rfl, rfl⟩
      · exact .consumed hentry hfree
      · exact .same
  | elsewhere op => exact op.elim
  | _ =>
    obtain rfl := FileOp.LooksOnly.state_eq (by trivial) heffect
    exact .same

variable {approvalId : String}

omit [DecidableEq ι] in
/-- A file stays published for its identity as the trace grows. -/
theorem PublishedFor.cons {e : GrantEvent ι τ} {trace : List (GrantEvent ι τ)} {entry : Entry ι τ}
    (hpublished : PublishedFor lib config calls trace approvalId entry) :
    PublishedFor lib config calls (e :: trace) approvalId entry := by
  obtain ⟨request, now, hcall, hid, htext, ⟨clock, hclock, hnow⟩, haccepted⟩ := hpublished
  exact ⟨request, now, hcall, hid, htext, ⟨clock, .tail _ hclock, hnow⟩, haccepted⟩

variable {publication consumption : Option String}

/-- A consumption since the check stays one as long as the thread does not look
again, and a consumption after the check becomes one. -/
theorem Unconsumed.record {j : ι} (hunconsumed : Unconsumed i approvalId h)
    (hcheck : checksUnconsumed i approvalId ⟨j, op, result, h.current, s'⟩ = false)
    (hconsumption : consumptionOf ⟨j, op, result, h.current, s'⟩ = consumption)
    (hchange : GrantChange lib config calls j h publication consumption s') :
    Unconsumed i approvalId (h.record j op result s') := by
  rcases hunconsumed with habsent | hsince
  case inr => exact .inr (hsince.cons hcheck)
  cases hchange with
  | same => exact .inl habsent
  | drawn => exact .inl habsent
  | staged => exact .inl (by simp [FileState.files_put, habsent])
  | dropped => exact .inl (by simp [FileState.files_erase, habsent])
  | published => exact .inl (by simp [FileState.files_move, habsent])
  | @consumed consumedId entry hentry hfree =>
    by_cases hid : consumedId = approvalId
    · subst hid
      exact .inr (sinceLast_latest hcheck hconsumption)
    · exact .inl (by simp [FileState.files_move, habsent, Ne.symm hid])

/-- What holds of a publication, together with the steps before it: the identity
was not pending, nothing had consumed it or something did since its publisher
looked, and an identity published earlier was still there. -/
def PublicationSound (e : GrantEvent ι τ) (older : List (GrantEvent ι τ)) : Prop :=
  ∀ approvalId, publicationOf e = some approvalId →
    e.before.files (.pending approvalId) = none ∧
    Unconsumed e.who approvalId ⟨e.before, older⟩ ∧
    ((∃ e' ∈ older, publicationOf e' = some approvalId) →
      (e.before.files (.pending approvalId)).isSome ∨
        (e.before.files (.consumed approvalId)).isSome)

variable (lib config calls) in
/-- What holds of the store between any two steps. -/
structure GrantInv (h : GrantHistory ι τ) : Prop where
  /-- A pending file holds a grant validated for its identity. -/
  pending (approvalId : String) (entry : Entry ι τ)
    (hentry : h.current.files (.pending approvalId) = some entry) :
    PublishedFor lib config calls h.trace approvalId entry
  /-- So does a consumed file. -/
  consumed (approvalId : String) (entry : Entry ι τ)
    (hentry : h.current.files (.consumed approvalId) = some entry) :
    PublishedFor lib config calls h.trace approvalId entry
  /-- A published identity is pending or consumed from then on. -/
  kept (approvalId : String) (hpublished : ∃ e ∈ h.trace, publicationOf e = some approvalId) :
    (h.current.files (.pending approvalId)).isSome ∨
      (h.current.files (.consumed approvalId)).isSome
  /-- Every publication was sound. -/
  sound : Always PublicationSound h.trace

/-- A step of a call keeps the invariant. -/
theorem GrantInv.record (hinv : GrantInv lib config calls h)
    (hchange : GrantChange lib config calls i h
      (publicationOf ⟨i, op, result, h.current, s'⟩)
      (consumptionOf ⟨i, op, result, h.current, s'⟩) s') :
    GrantInv lib config calls (h.record i op result s') := by
  generalize hpublication : publicationOf ⟨i, op, result, h.current, s'⟩ = publication at hchange
  generalize consumptionOf ⟨i, op, result, h.current, s'⟩ = consumption at hchange
  have hsound : Always PublicationSound (h.record i op result s').trace := by
    refine ⟨fun approvalId hid => ?_, hinv.sound⟩
    rw [hpublication] at hid
    subst hid
    cases hchange with
    | published hmay _ hfree => exact ⟨hfree, hmay.2.2, hinv.kept approvalId⟩
  have hkept {approvalId : String}
      (hlater :
        (s'.files (.pending approvalId)).isSome = (h.current.files (.pending approvalId)).isSome ∧
        (s'.files (.consumed approvalId)).isSome = (h.current.files (.consumed approvalId)).isSome)
      (hnew : publication ≠ some approvalId)
      (hpublished : ∃ e ∈ (h.record i op result s').trace, publicationOf e = some approvalId) :
      (s'.files (.pending approvalId)).isSome ∨ (s'.files (.consumed approvalId)).isSome := by
    obtain ⟨e, he, hid⟩ := hpublished
    rcases List.mem_cons.mp he with rfl | he
    · exact absurd (hpublication.symm.trans hid) hnew
    · rw [hlater.1, hlater.2]
      exact hinv.kept approvalId ⟨e, he, hid⟩
  cases hchange with
  | same =>
    exact ⟨fun id entry he => (hinv.pending id entry he).cons,
      fun id entry he => (hinv.consumed id entry he).cons,
      fun id => hkept ⟨rfl, rfl⟩ (by simp), hsound⟩
  | drawn =>
    exact ⟨fun id entry he => (hinv.pending id entry he).cons,
      fun id entry he => (hinv.consumed id entry he).cons,
      fun id => hkept ⟨rfl, rfl⟩ (by simp), hsound⟩
  | staged =>
    refine ⟨fun id entry he => (hinv.pending id entry ?_).cons,
      fun id entry he => (hinv.consumed id entry ?_).cons,
      fun id => hkept ?_ (by simp), hsound⟩
    all_goals simp_all [FileState.files_put]
  | dropped =>
    refine ⟨fun id entry he => (hinv.pending id entry ?_).cons,
      fun id entry he => (hinv.consumed id entry ?_).cons,
      fun id => hkept ?_ (by simp), hsound⟩
    all_goals simp_all [FileState.files_erase]
  | @published random approvalId entry hmay hentry hfree =>
    refine ⟨fun id entry' he => ?_, fun id entry' he => (hinv.consumed id entry' ?_).cons,
      fun id hpublished => ?_, hsound⟩
    · by_cases hid : id = approvalId
      · subst hid
        simp only [History.current_record, FileState.files_move, if_true, Option.some.injEq] at he
        subst he
        exact (hmay.2.1 entry hentry).cons
      · simp only [History.current_record, FileState.files_move, GrantName.pending.injEq, hid,
          reduceCtorEq, if_false] at he
        exact (hinv.pending id entry' he).cons
    · simpa [FileState.files_move] using he
    · by_cases hid : id = approvalId
      · subst hid
        simp [FileState.files_move]
      · exact hkept (by simp [FileState.files_move, hid]) (by simpa using Ne.symm hid) hpublished
  | @consumed approvalId entry hentry hfree =>
    refine ⟨fun id entry' he => ?_, fun id entry' he => ?_, fun id hpublished => ?_, hsound⟩
    · by_cases hid : id = approvalId
      · simp [FileState.files_move, hid] at he
      · simp only [History.current_record, FileState.files_move, GrantName.pending.injEq, hid,
          reduceCtorEq, if_false] at he
        exact (hinv.pending id entry' he).cons
    · by_cases hid : id = approvalId
      · subst hid
        simp only [History.current_record, FileState.files_move, if_true, Option.some.injEq] at he
        subst he
        exact (hinv.pending id entry hentry).cons
      · simp only [History.current_record, FileState.files_move, GrantName.consumed.injEq, hid,
          reduceCtorEq, if_false] at he
        exact (hinv.consumed id entry' he).cons
    · by_cases hid : id = approvalId
      · subst hid
        simp [FileState.files_move]
      · exact hkept (by simp [FileState.files_move, hid]) (by simp) hpublished

variable (texts lib config calls) in
/-- The discipline of the calls on the grant store. -/
def grantDiscipline : Discipline (grantWorld texts : World ι (GrantOp τ) GrantOp.Res
    (FileChoice GrantName τ Unit) (GrantState ι τ)) where
  Inv := GrantInv lib config calls
  Permitted := GrantPermitted lib config calls
  preserved hinv hpermitted heffect := hinv.record (grantChange_of_effect hpermitted heffect)

/-! ## Assertions of a call -/

/-- The steps that look at the store, but not whether an identity is consumed. -/
def GrantLook (op : GrantOp τ) : Prop :=
  op.LooksOnly ∧ ∀ approvalId, op ≠ .pathExists (.consumed approvalId)

/-- Every thread may look at the store. -/
theorem grant_looks : (grantDiscipline texts lib config calls).Looks i GrantLook where
  permitted {op} h hlook := by
    cases op <;> first | exact hlook.1.elim | trivial

/-- Looking leaves the store as it is. -/
theorem grantLook_unchanged {s : GrantState ι τ} (hlook : GrantLook op)
    (heffect : (grantWorld texts).Effect i op s result s') : s' = s :=
  hlook.1.state_eq heffect

/-- What no change by another thread falsifies is stable. -/
theorem grant_stable {P : GrantHistory ι τ → Prop}
    (hP : ∀ {j : ι} {op : GrantOp τ} {result : GrantOp.Res op} {h : GrantHistory ι τ}
      {s' : GrantState ι τ}, j ≠ i →
      GrantChange lib config calls j h (publicationOf ⟨j, op, result, h.current, s'⟩)
        (consumptionOf ⟨j, op, result, h.current, s'⟩) s' →
      P h → P (h.record j op result s')) :
    (grantDiscipline texts lib config calls).Stable i P := by
  rintro h _ ⟨j, op, result, s', hj, _, hpermitted, heffect, rfl⟩ h₀
  exact hP hj (grantChange_of_effect hpermitted heffect) h₀

/-- A random identity stays with the thread that drew it. -/
theorem GrantChange.drawnBy {j : ι} {random : ℕ}
    (hchange : GrantChange lib config calls j h publication consumption s')
    (hdrawn : h.current.drawnBy random = some i) : s'.drawnBy random = some i := by
  cases hchange with
  | @drawn random' hrandom =>
    have hne : random ≠ random' := by
      rintro rfl
      simp [hrandom] at hdrawn
    simpa [FileState.draw, Function.update_of_ne hne] using hdrawn
  | _ => simpa using hdrawn

/-- A staged file is only changed by the thread that drew its identity. -/
theorem GrantChange.staging {j : ι} {random : ℕ}
    (hchange : GrantChange lib config calls j h publication consumption s')
    (hdrawn : h.current.drawnBy random ≠ some j) :
    s'.files (.staging random) = h.current.files (.staging random) := by
  have hne {random' : ℕ} (hrandom : h.current.drawnBy random' = some j) : random ≠ random' := by
    rintro rfl
    exact hdrawn hrandom
  cases hchange with
  | same => rfl
  | drawn => rfl
  | staged hrandom => simp [FileState.files_put, hne hrandom]
  | dropped hrandom => simp [FileState.files_erase, hne hrandom]
  | published hmay => simp [FileState.files_move, hne hmay.1]
  | consumed => simp [FileState.files_move]

/-- A consumed file is never changed, nor is the note who moved it. -/
theorem GrantChange.consumed_kept {j : ι} {entry : Entry ι τ}
    (hchange : GrantChange lib config calls j h publication consumption s')
    (hentry : h.current.files (.consumed approvalId) = some entry) :
    s'.files (.consumed approvalId) = some entry ∧
      s'.movedBy (.consumed approvalId) = h.current.movedBy (.consumed approvalId) := by
  cases hchange with
  | same => exact ⟨hentry, rfl⟩
  | drawn => exact ⟨hentry, rfl⟩
  | staged => exact ⟨by simp [FileState.files_put, hentry], rfl⟩
  | dropped => exact ⟨by simp [FileState.files_erase, hentry], rfl⟩
  | published => exact ⟨by simp [FileState.files_move, hentry], by simp [FileState.movedBy_move]⟩
  | @consumed consumedId _ _ hfree =>
    have hne : approvalId ≠ consumedId := by
      rintro rfl
      simp [hfree] at hentry
    exact ⟨by simp [FileState.files_move, hentry, hne], by simp [FileState.movedBy_move, hne]⟩

variable (texts lib config calls i) in
/-- An assertion of thread `i` about the store, kept between its steps as long as
it does not look whether an identity is consumed. -/
abbrev GrantRobust (P : GrantHistory ι τ → Prop) : Prop :=
  (grantDiscipline texts lib config calls).Robust GrantLook i P

/-- The identity stays unconsumed, or consumed since the check. -/
theorem robust_unconsumed (approvalId : String) :
    GrantRobust texts lib config calls i (Unconsumed i approvalId) := by
  refine robust_of_unchanged grantLook_unchanged (grant_stable fun hj hchange hunconsumed => ?_)
    fun {op h} result hlook hP => ?_
  · exact hunconsumed.record (by simp [checksUnconsumed, hj]) rfl hchange
  · have hcheck : unconsumedCheckOf ⟨i, op, result, h.current, h.current⟩ ≠ some approvalId := by
      intro heq
      cases op with
      | pathExists path =>
        cases path with
        | consumed id => exact hlook.2 id rfl
        | _ => cases heq
      | _ => cases heq
    have hconsumption : consumptionOf ⟨i, op, result, h.current, h.current⟩ = none := by
      cases op <;> first | exact hlook.1.elim | rfl
    exact hP.record (by simp [checksUnconsumed, hcheck]) hconsumption
      (.same : GrantChange lib config calls i h none none h.current)

/-- A drawn identity stays drawn. -/
theorem robust_drawnBy (random : ℕ) :
    GrantRobust texts lib config calls i fun h => h.current.drawnBy random = some i :=
  robust_of_unchanged grantLook_unchanged
    (grant_stable fun _ hchange hdrawn => hchange.drawnBy hdrawn) fun _ _ hdrawn => hdrawn

/-- A staged file stays as its thread left it. -/
theorem robust_staged (random : ℕ) (entry : Entry ι τ) :
    GrantRobust texts lib config calls i fun h => h.current.drawnBy random = some i ∧
      h.current.files (.staging random) = some entry := by
  refine robust_of_unchanged grantLook_unchanged
    (grant_stable fun hj hchange hstaged => ⟨hchange.drawnBy hstaged.1, ?_⟩)
    fun _ _ hstaged => hstaged
  have hother : some i ≠ some _ := fun heq => hj (Option.some.inj heq).symm
  exact (hchange.staging (hstaged.1 ▸ hother)).trans hstaged.2

/-- A file that a thread consumed stays, and stays its. -/
theorem robust_consumed (approvalId : String) (entry : Entry ι τ) :
    GrantRobust texts lib config calls i fun h =>
      h.current.files (.consumed approvalId) = some entry ∧
        h.current.movedBy (.consumed approvalId) = some i := by
  refine robust_of_unchanged grantLook_unchanged (grant_stable fun _ hchange hconsumed => ?_)
    fun _ _ hconsumed => hconsumed
  obtain ⟨hentry, hmoved⟩ := hchange.consumed_kept hconsumed.1
  exact ⟨hentry, hmoved.trans hconsumed.2⟩

/-! ## `consume_grant` -/

/-- A consumer that gets a grant moved its file, and the grant is what the file
holds. -/
def ConsumedGrant (lib : GrantLibrary τ) (i : ι) (approvalId : String) (grant : ExecutionGrant)
    (h : GrantHistory ι τ) : Prop :=
  ∃ entry, lib.grants.parse entry.text = some grant ∧
    h.current.files (.consumed approvalId) = some entry ∧
    h.current.movedBy (.consumed approvalId) = some i

/-- The rename of `consume_grant` takes the identity for its thread. -/
theorem renameConsumed_raises (approvalId : String) :
    (grantDiscipline texts lib config calls).Raises i (fun _ => True)
      (Fs.rename (.pending approvalId) (.consumed approvalId) : GrantProgram τ Unit)
      (fun _ h => ∃ entry, h.current.files (.consumed approvalId) = some entry ∧
        h.current.movedBy (.consumed approvalId) = some i)
      fun _ _ => True := by
  have hmoved : GrantRobust texts lib config calls i fun h =>
      ∃ entry, h.current.files (.consumed approvalId) = some entry ∧
        h.current.movedBy (.consumed approvalId) = some i :=
    .exists fun entry => robust_consumed approvalId entry
  refine raises_done (fun _ => stable_const True) hmoved.stable
    (raises_attempt (stable_const True) (answered_stable hmoved.stable (stable_const True))
      (fun _ _ _ => .inr ⟨approvalId, rfl, rfl⟩) ?_)
  intro h renamed s' _ _ heffect
  rcases effect_rename heffect with ⟨rfl, entry, _, _, rfl⟩ | ⟨rfl, _⟩
  · exact ⟨entry, by simp [FileState.files_move], by simp [FileState.movedBy_move]⟩
  · trivial

/-- Reading the consumed file gives what it holds. -/
theorem readConsumed_raises (approvalId : String) (limit : ℤ) :
    (grantDiscipline texts lib config calls).Raises i
      (fun h => ∃ entry, h.current.files (.consumed approvalId) = some entry ∧
        h.current.movedBy (.consumed approvalId) = some i)
      (Fs.boundedRegularFile (.consumed approvalId) limit : GrantProgram τ τ)
      (fun text h => ∃ entry : Entry ι τ, entry.text = text ∧
        h.current.files (.consumed approvalId) = some entry ∧
        h.current.movedBy (.consumed approvalId) = some i)
      fun _ _ => True := by
  have hread (read : Option τ) : GrantRobust texts lib config calls i fun h =>
      ∃ entry : Entry ι τ, (∀ text, read = some text → entry.text = text) ∧
        h.current.files (.consumed approvalId) = some entry ∧
        h.current.movedBy (.consumed approvalId) = some i :=
    .exists fun entry => (robust_const _).and (robust_consumed approvalId entry)
  have hmoved : GrantRobust texts lib config calls i fun h =>
      ∃ entry, h.current.files (.consumed approvalId) = some entry ∧
        h.current.movedBy (.consumed approvalId) = some i :=
    .exists fun entry => robust_consumed approvalId entry
  refine Raises.bind (raises_attempt hmoved.stable (fun read => (hread read).stable)
    (fun _ _ _ => trivial) ?_) (fun _ => stable_const True) fun read => ?_
  · rintro h read s' _ ⟨entry, hentry, hmovedBy⟩ heffect
    obtain rfl := FileOp.LooksOnly.state_eq (by trivial) heffect
    refine ⟨entry, fun text htext => ?_, hentry, hmovedBy⟩
    obtain ⟨entry', hentry', htext', _⟩ := effect_boundedRegularFile (htext ▸ heffect)
    rw [hentry, Option.some.injEq] at hentry'
    rw [hentry', htext']
  · refine (raises_orRaise (hread read) (stable_const True) fun _ _ => trivial).conseq
      (fun _ _ h => h) (fun text _ _ h => ?_) fun _ _ _ h => h
    obtain ⟨hsome, entry, htext, hrest⟩ := h
    exact ⟨entry, htext text hsome, hrest⟩

/-- `consume_grant` obeys the discipline, and the grant it returns is the one its
own rename took. -/
theorem consumeGrant_raises (invocation : SandboxInvocation) :
    (grantDiscipline texts lib config calls).Raises i (fun _ => True)
      (consumeGrant lib config invocation) (ConsumedGrant lib i invocation.approvalId)
      fun _ _ => True := by
  have htrue : GrantRobust texts lib config calls i fun _ => True := robust_const True
  have hF (error : Failure) : (grantDiscipline texts lib config calls).Stable i fun _ => True :=
    stable_const True
  have hensure (condition : Bool) (error : Failure) :
      (grantDiscipline texts lib config calls).Raises i (fun _ => True)
        (Program.ensure condition error : GrantProgram τ Unit) (fun _ _ => True)
        fun _ _ => True :=
    (htrue.raises_ensure (stable_const True) fun _ _ => trivial).conseq (fun _ _ h => h)
      (fun _ _ _ _ => trivial) fun _ _ _ h => h
  unfold consumeGrant
  refine (hensure _ _).bind hF fun _ => ?_
  refine Raises.bind (htrue.raises_attempt grant_looks (by simp [GrantLook, FileOp.LooksOnly])) hF
    fun _ => ?_
  refine (hensure _ _).bind hF fun _ => ?_
  refine Raises.bind (raises_attempt_orRaise htrue grant_looks
    (by simp [GrantLook, FileOp.LooksOnly]) hF fun _ _ _ => trivial) hF fun _ => ?_
  refine (hensure _ _).bind hF fun _ => ?_
  refine Raises.bind (Raises.catch (renameConsumed_raises invocation.approvalId)
    (fun _ => (Robust.exists fun entry => robust_consumed _ entry).stable)
    fun _ => raises_throw (stable_const True) fun _ _ _ => trivial) hF fun _ => ?_
  refine (readConsumed_raises invocation.approvalId _).bind hF fun text => ?_
  have hholds : GrantRobust texts lib config calls i fun h => ∃ entry : Entry ι τ,
      entry.text = text ∧ h.current.files (.consumed invocation.approvalId) = some entry ∧
        h.current.movedBy (.consumed invocation.approvalId) = some i :=
    .exists fun entry => (robust_const _).and (robust_consumed _ entry)
  refine (raises_orRaise hholds (stable_const True) fun _ _ => trivial).conseq (fun _ _ h => h)
    (fun grant _ _ h => ?_) fun _ _ _ h => h
  obtain ⟨hgrant, entry, rfl, hrest⟩ := h
  exact ⟨entry, hgrant, hrest⟩

/-! ## `publish_grant` -/

/-- A publisher between its checks and its rename: it read the clock, and the
identity is unconsumed or consumed since. -/
def ReadyToPublish (i : ι) (now : ℤ) (approvalId : String) (h : GrantHistory ι τ) : Prop :=
  Did i (clockOf · = some now) h ∧ Unconsumed i approvalId h

/-- What a publisher has checked is kept. -/
theorem robust_readyToPublish (now : ℤ) (approvalId : String) :
    GrantRobust texts lib config calls i (ReadyToPublish i now approvalId) :=
  (robust_did _).and (robust_unconsumed approvalId)

/-- A publisher with an identity for its staged file. -/
def HoldsStaging (i : ι) (now : ℤ) (approvalId : String) (random : ℕ) (h : GrantHistory ι τ) :
    Prop :=
  ReadyToPublish i now approvalId h ∧ h.current.drawnBy random = some i

/-- A publisher with a staged file of this content. -/
def HoldsStaged (i : ι) (now : ℤ) (approvalId : String) (random : ℕ) (text : τ)
    (h : GrantHistory ι τ) : Prop :=
  ReadyToPublish i now approvalId h ∧ h.current.drawnBy random = some i ∧
    h.current.files (.staging random) = some ⟨text, i⟩

/-- A drawn identity is kept. -/
theorem robust_holdsStaging (now : ℤ) (approvalId : String) (random : ℕ) :
    GrantRobust texts lib config calls i (HoldsStaging i now approvalId random) :=
  (robust_readyToPublish now approvalId).and (robust_drawnBy random)

/-- A staged file is kept. -/
theorem robust_holdsStaged (now : ℤ) (approvalId : String) (random : ℕ) (text : τ) :
    GrantRobust texts lib config calls i (HoldsStaged i now approvalId random text) :=
  (robust_readyToPublish now approvalId).and (robust_staged random ⟨text, i⟩)

/-- A publisher's own further steps keep what it has checked. -/
theorem ReadyToPublish.record {now : ℤ} (hready : ReadyToPublish i now approvalId h)
    (hcheck : unconsumedCheckOf ⟨i, op, result, h.current, s'⟩ = none)
    (hpermitted : GrantPermitted lib config calls i op h)
    (heffect : (grantWorld texts).Effect i op h.current result s') :
    ReadyToPublish i now approvalId (h.record i op result s') := by
  obtain ⟨⟨e, he, hclock⟩, hunconsumed⟩ := hready
  exact ⟨⟨e, .tail _ he, hclock⟩, hunconsumed.record (by simp [checksUnconsumed, hcheck]) rfl
    (grantChange_of_effect hpermitted heffect)⟩

/-- They keep its identity for the staged file too. -/
theorem HoldsStaging.record {now : ℤ} {random : ℕ}
    (hholds : HoldsStaging i now approvalId random h)
    (hcheck : unconsumedCheckOf ⟨i, op, result, h.current, s'⟩ = none)
    (hpermitted : GrantPermitted lib config calls i op h)
    (heffect : (grantWorld texts).Effect i op h.current result s') :
    HoldsStaging i now approvalId random (h.record i op result s') :=
  ⟨hholds.1.record hcheck hpermitted heffect,
    (grantChange_of_effect hpermitted heffect).drawnBy hholds.2⟩

/-- Creating the staged file. -/
theorem createStaging_raises (now : ℤ) (approvalId : String) (random : ℕ) :
    (grantDiscipline texts lib config calls).Raises i (HoldsStaging i now approvalId random)
      (Fs.done (Program.attempt (FileOp.create (.staging random))) : GrantProgram τ Unit)
      (fun _ => HoldsStaged i now approvalId random texts.empty)
      fun _ h => h.current.drawnBy random = some i := by
  refine raises_done (fun _ => (robust_drawnBy random).stable)
    (robust_holdsStaged now approvalId random texts.empty).stable
    (raises_attempt (robust_holdsStaging now approvalId random).stable
      (answered_stable (robust_holdsStaged now approvalId random texts.empty).stable
        (robust_drawnBy random).stable) (fun h _ hholds => ⟨random, rfl, hholds.2⟩) ?_)
  intro h created s' _ hholds heffect
  have hpermitted : GrantPermitted lib config calls i (.create (.staging random)) h :=
    ⟨random, rfl, hholds.2⟩
  have hafter := hholds.record rfl hpermitted heffect
  rcases effect_create heffect with ⟨rfl, _, rfl⟩ | ⟨rfl, _⟩
  · exact ⟨hafter.1, hafter.2, by simp [FileState.files_put]⟩
  · exact hafter.2

/-- Writing the staged file. -/
theorem writeStaging_raises (now : ℤ) (approvalId : String) (random : ℕ) (text : τ) :
    (grantDiscipline texts lib config calls).Raises i
      (HoldsStaged i now approvalId random texts.empty)
      (Fs.done (Program.attempt (FileOp.write (.staging random) text)) : GrantProgram τ Unit)
      (fun _ => HoldsStaged i now approvalId random text)
      fun _ h => h.current.drawnBy random = some i := by
  refine raises_done (fun _ => (robust_drawnBy random).stable)
    (robust_holdsStaged now approvalId random text).stable
    (raises_attempt (robust_holdsStaged now approvalId random texts.empty).stable
      (answered_stable (robust_holdsStaged now approvalId random text).stable
        (robust_drawnBy random).stable) (fun h _ hholds => ⟨random, rfl, hholds.2.1⟩) ?_)
  rintro h written s' _ ⟨hready, hdrawn, hfile⟩ heffect
  have hpermitted : GrantPermitted lib config calls i (.write (.staging random) text) h :=
    ⟨random, rfl, hdrawn⟩
  have hafter := HoldsStaging.record ⟨hready, hdrawn⟩ rfl hpermitted heffect
  rcases effect_write heffect with ⟨_, text', _, _, htext, rfl⟩ | ⟨hother, _⟩
  · cases written with
    | true =>
      obtain rfl := htext rfl
      exact ⟨hafter.1, hafter.2, by simp [FileState.files_put]⟩
    | false => exact hafter.2
  · exact absurd rfl (hother _ hfile)

variable {request : GrantPublicationRequest}

/-- The rename of `publish_grant` moves the grant that its thread validated. -/
theorem renameStaged_raises {now : ℤ} (random : ℕ)
    (hcall : calls i = .publish request) (haccepted : publicationRefusal now request config = "") :
    (grantDiscipline texts lib config calls).Raises i
      (HoldsStaged i now request.grant.approvalId random (lib.grants.stringify request.grant))
      (Fs.rename (.staging random) (.pending request.grant.approvalId) : GrantProgram τ Unit)
      (fun _ => Did i (publicationOf · = some request.grant.approvalId))
      fun _ h => h.current.drawnBy random = some i := by
  have hmay (h : GrantHistory ι τ) (hstaged : HoldsStaged i now request.grant.approvalId random
      (lib.grants.stringify request.grant) h) :
      MayPublish lib config calls i random request.grant.approvalId h := by
    obtain ⟨⟨hclock, hunconsumed⟩, hdrawn, hfile⟩ := hstaged
    refine ⟨hdrawn, fun entry hentry => ?_, hunconsumed⟩
    obtain rfl := Option.some.inj (hfile.symm.trans hentry)
    exact ⟨request, now, hcall, rfl, rfl, hclock, haccepted⟩
  refine raises_done (fun _ => (robust_drawnBy random).stable) (stable_did _)
    (raises_attempt (robust_holdsStaged now request.grant.approvalId random _).stable
      (answered_stable (stable_did _) (robust_drawnBy random).stable)
      (fun h _ hstaged => .inl ⟨random, _, rfl, rfl, hmay h hstaged⟩) ?_)
  intro h renamed s' _ hstaged heffect
  rcases effect_rename heffect with ⟨rfl, entry, _, _, rfl⟩ | ⟨rfl, rfl⟩
  · exact ⟨_, .head _, rfl, rfl⟩
  · exact hstaged.2.1

/-- What the response of a publisher says: a publication it reports is one it made. -/
def Reported (i : ι) (approvalId : String) (response : GrantPublicationResponse)
    (h : GrantHistory ι τ) : Prop :=
  response.published = true → Did i (publicationOf · = some approvalId) h

/-- What a response says stays true. -/
theorem robust_reported (approvalId : String) (response : GrantPublicationResponse) :
    GrantRobust texts lib config calls i (Reported i approvalId response) :=
  (robust_did _).imp _

/-- A refusal reports nothing. -/
theorem refused_raises {P : GrantHistory ι τ → Prop} (approvalId refusedId code message : String) :
    (grantDiscipline texts lib config calls).Raises i P
      (pure (refusedPublication refusedId code message) : GrantProgram τ GrantPublicationResponse)
      (Reported i approvalId) fun _ _ => True :=
  Discipline.raises_pure (robust_reported _ _).stable fun _ _ _ => Bool.noConfusion

/-- The `try` block of `publish_grant`. -/
theorem stageAndPublish_raises {now : ℤ} (random : ℕ)
    (hcall : calls i = .publish request) (haccepted : publicationRefusal now request config = "") :
    (grantDiscipline texts lib config calls).Raises i
      (HoldsStaging i now request.grant.approvalId random)
      (stageAndPublish lib request.grant (.staging random))
      (Reported i request.grant.approvalId)
      fun _ h => h.current.drawnBy random = some i := by
  have hF (error : Failure) : (grantDiscipline texts lib config calls).Stable i
      fun h => h.current.drawnBy random = some i := (robust_drawnBy random).stable
  have hstaged : GrantRobust texts lib config calls i
      (HoldsStaged i now request.grant.approvalId random (lib.grants.stringify request.grant)) :=
    robust_holdsStaged _ _ _ _
  have hensure (condition : Bool) (error : Failure) :
      (grantDiscipline texts lib config calls).Raises i
        (HoldsStaged i now request.grant.approvalId random (lib.grants.stringify request.grant))
        (Program.ensure condition error : GrantProgram τ Unit)
        (fun _ => HoldsStaged i now request.grant.approvalId random
          (lib.grants.stringify request.grant))
        fun _ h => h.current.drawnBy random = some i :=
    (hstaged.raises_ensure (hF error) fun _ h => h.2.1).conseq (fun _ _ h => h)
      (fun _ _ _ h => h.2) fun _ _ _ h => h
  unfold stageAndPublish
  refine Raises.bind (Raises.bind (createStaging_raises _ _ _) hF fun _ =>
    writeStaging_raises _ _ _ _) hF fun _ => ?_
  refine Raises.bind (raises_attempt_orRaise hstaged grant_looks
    (by simp [GrantLook, FileOp.LooksOnly]) hF fun _ _ h => h.2.1) hF fun _ => ?_
  refine (hensure _ _).bind hF fun _ => ?_
  refine Raises.bind (raises_attempt_orRaise hstaged grant_looks
    (by simp [GrantLook, FileOp.LooksOnly]) hF fun _ _ h => h.2.1) hF fun _ => ?_
  refine (hensure _ _).bind hF fun _ => ?_
  refine (renameStaged_raises random hcall haccepted).bind hF fun _ => ?_
  exact Discipline.raises_pure (robust_reported _ _).stable fun _ _ hdid _ => hdid

/-- The `catch` block of `publish_grant`. -/
theorem abandonStaging_raises (approvalId : String) (grant : ExecutionGrant) (random : ℕ) :
    (grantDiscipline texts lib config calls).Raises i (fun h => h.current.drawnBy random = some i)
      (abandonStaging grant (.staging random)) (Reported i approvalId) fun _ _ => True := by
  have htrue (error : Failure) : (grantDiscipline texts lib config calls).Stable i fun _ => True :=
    stable_const True
  have hremove : (grantDiscipline texts lib config calls).Raises i
      (fun h => h.current.drawnBy random = some i)
      (Fs.remove (.staging random) : GrantProgram τ Unit) (fun _ _ => True) fun _ _ => True :=
    raises_done htrue (stable_const True) (raises_attempt (robust_drawnBy random).stable
      (answered_stable (stable_const True) (stable_const True))
      (fun _ _ hdrawn => ⟨random, rfl, hdrawn⟩)
      fun _ removed _ _ _ _ => by cases removed <;> trivial)
  unfold abandonStaging
  refine Raises.bind (hremove.catch (fun _ => stable_const True) fun _ =>
    Discipline.raises_pure (stable_const True) fun _ _ _ => trivial) htrue fun _ => ?_
  exact refused_raises _ _ _ _

/-- Drawing the identity of the staged file. -/
theorem drawStaging_raises (now : ℤ) (approvalId : String) :
    (grantDiscipline texts lib config calls).Raises i (ReadyToPublish i now approvalId)
      (Fs.rand : GrantProgram τ (Option ℕ))
      (fun drawn h => ∀ random, drawn = some random → HoldsStaging i now approvalId random h)
      fun _ _ => True := by
  have hdrawn (drawn : Option ℕ) : (grantDiscipline texts lib config calls).Stable i
      fun h => ∀ random, drawn = some random → HoldsStaging i now approvalId random h :=
    .forall fun random => (robust_holdsStaging now approvalId random).stable.imp _
  refine raises_attempt (robust_readyToPublish now approvalId).stable hdrawn
    (fun _ _ _ => trivial) ?_
  rintro h drawn s' _ hready heffect random rfl
  have hpermitted : GrantPermitted lib config calls i .rand h := trivial
  have hafter := hready.record rfl hpermitted heffect
  rcases effect_rand heffect with ⟨_, hrandom, _, rfl⟩ | ⟨hnone, _⟩
  · cases hrandom
    exact ⟨hafter, by simp [FileState.draw]⟩
  · cases hnone

/-- `publish_grant` after the identity is found unused. -/
theorem publishUnused_raises {now : ℤ}
    (hcall : calls i = .publish request) (haccepted : publicationRefusal now request config = "") :
    (grantDiscipline texts lib config calls).Raises i
      (ReadyToPublish i now request.grant.approvalId) (publishUnused lib request.grant)
      (Reported i request.grant.approvalId) fun _ _ => True := by
  unfold publishUnused
  refine (drawStaging_raises now _).bind (fun _ => stable_const True) fun drawn => ?_
  cases drawn with
  | none => exact refused_raises _ _ _ _
  | some random =>
    have hstage : (grantDiscipline texts lib config calls).Raises i
        (HoldsStaging i now request.grant.approvalId random)
        (stageAndPublish lib request.grant (.staging random))
        (Reported i request.grant.approvalId) fun _ h => h.current.drawnBy random = some i :=
      stageAndPublish_raises random hcall haccepted
    exact (hstage.conseq (fun _ _ h => h random rfl) (fun _ _ _ h => h) fun _ _ _ h => h).catch
      (fun _ => (robust_reported _ _).stable) fun _ => abandonStaging_raises _ _ _

/-- Looking whether the identity is consumed. -/
theorem checkConsumed_raises (now : ℤ) (approvalId : String) :
    (grantDiscipline texts lib config calls).Raises i (Did i (clockOf · = some now))
      (Fs.pathExists (.consumed approvalId) : GrantProgram τ Bool)
      (fun present h => present = false → ReadyToPublish i now approvalId h)
      fun _ _ => True := by
  have hlooked (answer : Option Bool) : (grantDiscipline texts lib config calls).Stable i
      fun h => answer = some false → ReadyToPublish i now approvalId h :=
    (robust_readyToPublish now approvalId).stable.imp _
  refine Raises.bind (raises_attempt (stable_did _) hlooked (fun _ _ _ => trivial) ?_)
    (fun _ => stable_const True) fun answer => ?_
  · rintro h answer s' _ ⟨e, he, hclock⟩ heffect rfl
    obtain rfl := FileOp.LooksOnly.state_eq (by trivial) heffect
    have habsent := effect_pathExists heffect
    refine ⟨⟨e, .tail _ he, hclock⟩, .inl ?_⟩
    simpa using habsent.symm
  · cases answer with
    | none => exact raises_throw (stable_const True) fun _ _ _ => trivial
    | some present =>
      exact Discipline.raises_pure ((robust_readyToPublish now approvalId).stable.imp _)
        fun _ _ hlook hfalse => hlook (congrArg some hfalse)

/-- `publish_grant` after the request is accepted. -/
theorem publishAccepted_raises {now : ℤ}
    (hcall : calls i = .publish request) (haccepted : publicationRefusal now request config = "") :
    (grantDiscipline texts lib config calls).Raises i (Did i (clockOf · = some now))
      (publishAccepted lib request.grant) (Reported i request.grant.approvalId)
      fun _ _ => True := by
  have hF (error : Failure) : (grantDiscipline texts lib config calls).Stable i fun _ => True :=
    stable_const True
  have hclock : GrantRobust texts lib config calls i (Did i (clockOf · = some now)) :=
    robust_did _
  unfold publishAccepted
  refine Raises.bind (hclock.raises_attempt grant_looks (by simp [GrantLook, FileOp.LooksOnly])) hF
    fun available => ?_
  cases available with
  | false => exact refused_raises _ _ _ _
  | true =>
    refine Raises.bind (raises_attempt_orRaise hclock grant_looks
      (by simp [GrantLook, FileOp.LooksOnly]) hF fun _ _ _ => trivial) hF fun pendingExists => ?_
    cases pendingExists with
    | true => exact refused_raises _ _ _ _
    | false =>
      refine (checkConsumed_raises now _).bind hF fun consumedExists => ?_
      cases consumedExists with
      | true => exact refused_raises _ _ _ _
      | false =>
        exact (publishUnused_raises hcall haccepted).conseq (fun _ _ h => h rfl)
          (fun _ _ _ h => h) fun _ _ _ h => h

/-- `publish_grant` obeys the discipline, and a publication it reports is one it
made. -/
theorem publishGrant_raises (hcall : calls i = .publish request) :
    (grantDiscipline texts lib config calls).Raises i (fun _ => True)
      (publishGrant lib config request) (Reported i request.grant.approvalId)
      fun _ _ => True := by
  have hread : (grantDiscipline texts lib config calls).Raises i (fun _ => True)
      (Fs.now : GrantProgram τ ℤ) (fun now => Did i (clockOf · = some now)) fun _ _ => True :=
    raises_attempt (stable_const True) (fun _ => (stable_did _)) (fun _ _ _ => trivial)
      fun _ _ _ _ _ _ => ⟨_, .head _, rfl, rfl⟩
  unfold publishGrant
  refine hread.bind (fun _ => stable_const True) fun now => ?_
  by_cases haccepted : publicationRefusal now request config = ""
  · rw [if_neg (not_not.mpr haccepted)]
    exact publishAccepted_raises hcall haccepted
  · rw [if_pos haccepted]
    exact refused_raises _ _ _ _

/-! ## Calls -/

/-- What a call has done when it ends. -/
def CallPost (lib : GrantLibrary τ) (i : ι) : GrantCall → GrantOutcome → GrantHistory ι τ → Prop
  | .consume invocation, .consumed (.ok grant), h =>
    ConsumedGrant lib i invocation.approvalId grant h
  | .publish request, .published (.ok response), h => Reported i request.grant.approvalId response h
  | _, _, _ => True

/-- Every call obeys the discipline. -/
theorem program_triple {call : GrantCall} (hcall : calls i = call) :
    (grantDiscipline texts lib config calls).Triple i (fun _ => True) (call.program lib config)
      (CallPost lib i call) := by
  cases call with
  | consume invocation =>
    refine Triple.bind (consumeGrant_raises invocation) fun outcome => ?_
    cases outcome with
    | error error => exact triple_ret (stable_const True) fun _ _ _ => trivial
    | ok grant =>
      have hpost : GrantRobust texts lib config calls i
          (ConsumedGrant lib i invocation.approvalId grant) :=
        .exists fun entry => (robust_const _).and (robust_consumed _ entry)
      exact triple_ret hpost.stable fun _ _ h => h
  | publish request =>
    refine Triple.bind (publishGrant_raises hcall) fun outcome => ?_
    cases outcome with
    | error error => exact triple_ret (stable_const True) fun _ _ _ => trivial
    | ok response => exact triple_ret (robust_reported _ response).stable fun _ _ h => h

/-- The invariant holds of the empty store. -/
theorem grantInv_start : GrantInv lib config calls (grantStart lib config calls).history where
  pending _ _ hentry := by cases hentry
  consumed _ _ hentry := by cases hentry
  kept _ hpublished := by
    obtain ⟨e, he, _⟩ := hpublished
    cases he
  sound := trivial

/-- In every run, the invariant holds and every call that ended did what it says. -/
theorem grantStart_sound {c : GrantConfig ι τ}
    (hreach : Config.Reachable (grantWorld texts) (grantStart lib config calls) c) :
    GrantInv lib config calls c.history ∧
      ∀ i outcome, c.threads i = .ret outcome → CallPost lib i (calls i) outcome c.history := by
  have hsound : GrantInv lib config calls c.history ∧
      ∀ i, (grantDiscipline texts lib config calls).Obeys i (CallPost lib i (calls i))
        (c.threads i) c.history :=
    reachable_sound hreach grantInv_start fun i => program_triple rfl _ grantInv_start trivial
  refine ⟨hsound.1, fun i outcome hret => ?_⟩
  exact returned_of_obeys hsound.1 (hsound.2 i) hret

end Discipline

end Moonfort.Executor
