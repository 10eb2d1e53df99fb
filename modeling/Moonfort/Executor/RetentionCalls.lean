import Moonfort.Executor.RetentionStoreSafety

/-!
# Promotions and sweeps of one store

`promote_retention` and `sweep_expired_retentions` obey the discipline of the
store. A promotion that reports its destination as applied has spent its
retention; a sweep discards only what it found unclaimed.
-/

namespace Moonfort.Executor

open Concurrent Concurrent.Discipline MoonBit Sandbox

variable {ι τ XC S : Type} [DecidableEq ι] {texts : Texts τ} {lib : RetentionLibrary τ}
  {config : ExecutorConfig} {calls : ι → RetentionCall} {retained : String → Option (Entry ι τ)}
  {E : World ι SandboxOp SandboxOp.Res XC S} {i : ι}
  {request : RetentionPromotionRequest} {record : RetentionRecord}
  {item : SandboxPromotionItem} {retentionId : String}

/-! ## Loading -/

/-- What a look that may raise shows, where it does not. -/
theorem raises_look {α : Type} {op : RetentionOp τ} {f : RetentionOp.Res op → Option α}
    {Q : α → Prop} (hlook : RetentionLook op)
    (hQ : ∀ {h : RetentionHistory ι τ S} {result s' value},
      RetentionInv texts lib config calls retained h →
      (fileWorld texts E).Effect i op h.current result s' → f result = some value → Q value) :
    (retentionDiscipline texts lib config calls retained E).Raises i (fun _ => True)
      (Program.attempt op >>= fun result => orRaise (f result) : RetentionProgram τ α)
      (fun value _ => Q value ∧ True) Anything := by
  have htrue : RetentionRobust texts lib config calls retained E i fun _ => True :=
    robust_const True
  have hshown : (retentionDiscipline texts lib config calls retained E).Triple i (fun _ => True)
      (.perform op) fun result _ => (∀ value, f result = some value → Q value) ∧ True :=
    htrue.triple_perform_and retention_looks hlook fun _ _ _ hinv _ heffect _ hvalue =>
      hQ hinv heffect hvalue
  refine Raises.bind (Triple.bind hshown fun result => triple_ret (stable_const _) fun _ _ h => h)
    stable_anything fun result => triple_of_const fun hknown => ?_
  exact (raises_orRaise htrue (stable_const True) fun _ _ => trivial).conseq (fun _ _ h => h)
    (fun value _ _ h => ⟨hknown value h.1, trivial⟩) fun _ _ _ h => h

/-- A bounded read of a record gives the retained one. -/
theorem readAvailable_raises (retentionId : String) (limit : ℤ) :
    (retentionDiscipline texts lib config calls retained E).Raises i (fun _ => True)
      (Fs.boundedRegularFile (.available retentionId) limit : RetentionProgram τ τ)
      (fun text _ => (∃ entry, retained retentionId = some entry ∧ entry.text = text ∧ 0 < limit ∧
        (texts.byteLength text : ℤ) ≤ limit) ∧ True) Anything := by
  refine raises_look (by trivial) ?_
  rintro h read s' text hinv heffect rfl
  obtain ⟨entry, hentry, htext, hbound⟩ := effect_boundedRegularFile heffect
  exact ⟨entry, (hinv.slots retentionId).original entry hentry, htext, hbound⟩

/-- `load_retention_record` returns the retained record. -/
theorem loadRetentionRecord_raises (retentionId : String) :
    (retentionDiscipline texts lib config calls retained E).Raises i (fun _ => True)
      (loadRetentionRecord lib retentionId config)
      (fun record _ => Loaded texts lib config retained retentionId record ∧ True) Anything := by
  have htrue : RetentionRobust texts lib config calls retained E i fun _ => True :=
    robust_const True
  have hensure (condition : Bool) (error : Failure) :
      (retentionDiscipline texts lib config calls retained E).Raises i (fun _ => True)
        (Program.ensure condition error : RetentionProgram τ Unit)
        (fun _ _ => condition = true ∧ True) Anything :=
    htrue.raises_ensure (stable_const True) fun _ _ => trivial
  unfold loadRetentionRecord
  refine (hensure _ _).bind stable_anything fun _ => triple_of_const fun hidentifier => ?_
  refine (htrue.raises_looking retention_looks (protectedRegular_calls _)).bind stable_anything
    fun isProtected => ?_
  refine (hensure _ _).bind stable_anything fun _ => triple_of_const fun _ => ?_
  refine (readAvailable_raises _ _).bind stable_anything fun text => triple_of_const fun hread => ?_
  obtain ⟨entry, hentry, rfl, hbounded, hfits⟩ := hread
  refine (raises_orRaise htrue (stable_const True) fun _ _ => trivial).bind stable_anything
    fun record => triple_of_const fun hparsed => ?_
  refine (hensure _ _).bind stable_anything fun _ => triple_of_const fun hconsistent => ?_
  refine (htrue.raises_looking retention_looks (recordIsLive_calls _)).bind stable_anything
    fun live => ?_
  refine (hensure _ _).bind stable_anything fun _ => triple_of_const fun _ => ?_
  exact Discipline.raises_pure ((stable_const _).and (stable_const True)) fun _ _ _ =>
    ⟨⟨entry, hentry, hidentifier, hbounded, hfits, hparsed, hconsistent⟩, trivial⟩

/-! ## Applying -/

/-- While it holds both, a promoter may take any step outside the directory. -/
theorem inSandbox_raises {α : Type} (hpromotes : Promotes calls retentionId i)
    (p : SandboxProgram α) :
    (retentionDiscipline texts lib config calls retained E).Raises i
      (fun h => (slot h.current retentionId).HoldsBoth i) (inSandbox p : RetentionProgram τ α)
      (fun _ h => (slot h.current retentionId).HoldsBoth i)
      fun _ h => (slot h.current retentionId).HoldsBoth i := by
  have hcalls : Program.Calls (inSandbox p : RetentionProgram τ α)
      fun op => ∃ op', op = .elsewhere op' :=
    inSandbox_calls p.run.allOps_true fun op _ => ⟨op, rfl⟩
  refine (triple_of_allOps (robust_holdsBoth retentionId).stable hcalls
    (Program.allRets_true _) ?_ ?_).conseq (fun _ _ h => h) fun outcome _ _ h => ?_
  · rintro _ h ⟨op, rfl⟩ _ hboth
    exact .inr (.inl ⟨retentionId, hpromotes, hboth⟩)
  · rintro _ h result s' ⟨op, rfl⟩ _ hboth heffect
    obtain ⟨rest, _, rfl⟩ := effect_elsewhere heffect
    exact hboth
  · cases outcome <;> exact h.2

/-- Restoring the record. -/
theorem renamePromoting_raises (retentionId : String) :
    (retentionDiscipline texts lib config calls retained E).Raises i
      (fun h => (slot h.current retentionId).HoldsBoth i)
      (Fs.rename (.promoting retentionId) (.available retentionId) : RetentionProgram τ Unit)
      (fun _ h => ∃ text, (slot h.current retentionId).ClaimHeld i text) Anything := by
  have hheld : RetentionRobust texts lib config calls retained E i fun h =>
      ∃ text, (slot h.current retentionId).ClaimHeld i text :=
    .exists fun text => robust_claimHeld retentionId text
  refine raises_done stable_anything hheld.stable
    (raises_attempt (robust_holdsBoth retentionId).stable
      (answered_stable hheld.stable (stable_const True))
      (fun h _ hboth => ⟨retentionId, .inr ⟨rfl, rfl, hboth⟩⟩) ?_)
  intro h renamed s' _ hboth heffect
  rcases effect_rename heffect with ⟨rfl, entry, _, _, rfl⟩ | ⟨rfl, rfl⟩
  · obtain ⟨text, hclaim⟩ := hboth.1
    simp only [Answered, History.current_record, slot_move_available, if_true]
    exact ⟨text, hclaim, rfl⟩
  · trivial

/-- A held claim on a record that is not renamed may be removed. -/
theorem removeHeldClaim_raises (retentionId : String) :
    (retentionDiscipline texts lib config calls retained E).Raises i
      (fun h => ∃ text, (slot h.current retentionId).ClaimHeld i text)
      (Fs.remove (.claim retentionId) : RetentionProgram τ Unit) (fun _ _ => True) Anything :=
  raises_done stable_anything (stable_const True) (raises_attempt
    (Robust.exists fun text => robust_claimHeld retentionId text).stable
    (answered_stable (stable_const True) (stable_const True)) (fun _ _ h => h)
    fun _ removed _ _ _ _ => by cases removed <;> trivial)

/-- `restore_claimed_retention`. -/
theorem restoreClaimedRetention_raises (retentionId : String) :
    (retentionDiscipline texts lib config calls retained E).Raises i
      (fun h => (slot h.current retentionId).HoldsBoth i) (restoreClaimedRetention retentionId)
      (fun _ _ => True) Anything := by
  have htrue : RetentionRobust texts lib config calls retained E i fun _ => True :=
    robust_const True
  have hheld (restored : Bool) : RetentionRobust texts lib config calls retained E i fun h =>
      restored = true → ∃ text, (slot h.current retentionId).ClaimHeld i text :=
    .imp _ (.exists fun text => robust_claimHeld retentionId text)
  have hsync : RetentionRobust texts lib config calls retained E i fun h =>
      ∃ text, (slot h.current retentionId).ClaimHeld i text :=
    .exists fun text => robust_claimHeld retentionId text
  have hreturn (value : Bool) (P : RetentionHistory ι τ S → Prop) :
      (retentionDiscipline texts lib config calls retained E).Raises i P
        (pure value : RetentionProgram τ Bool) (fun _ _ => True) Anything :=
    Discipline.raises_pure (stable_const True) fun _ _ _ => trivial
  unfold restoreClaimedRetention
  refine Raises.bind (Raises.catch (E := Anything) (Q := fun restored h => restored = true →
      ∃ text, (slot h.current retentionId).ClaimHeld i text) ?_ (fun restored =>
    (hheld restored).stable) fun _ => Discipline.raises_pure (hheld false).stable
      fun _ _ _ h => by cases h) stable_anything fun restored => ?_
  · refine (renamePromoting_raises retentionId).bind stable_anything fun _ => ?_
    have hlook : RetentionLook (FileOp.sync : RetentionOp τ) := trivial
    exact (hsync.raises_attempt retention_looks hlook).conseq (fun _ _ h => h)
      (fun _ _ _ h _ => h) fun _ _ _ h => h
  · cases restored with
    | false => exact hreturn _ _
    | true =>
      refine Raises.bind (Raises.catch (E := Anything) (Q := fun _ _ => True) ?_
        (fun _ => stable_const True) fun _ => hreturn _ _) stable_anything fun removed => ?_
      · refine Raises.bind ((removeHeldClaim_raises retentionId).conseq (fun _ _ h => h rfl)
          (fun _ _ _ h => h) fun _ _ _ h => h) stable_anything fun _ => hreturn _ _
      · split
        · exact htrue.raises_attempt retention_looks trivial
        · exact hreturn _ _

/-- What a response says of the store: an applied promotion spent its retention. -/
def PromotedPost (i : ι) (retentionId : String) (response : RetentionPromotionResponse)
    (h : RetentionHistory ι τ S) : Prop :=
  response.destinationOutcome = "applied-durable" → (slot h.current retentionId).Spent i

/-- It stays true. -/
theorem robust_promotedPost (retentionId : String) (response : RetentionPromotionResponse) :
    RetentionRobust texts lib config calls retained E i (PromotedPost i retentionId response) :=
  (robust_spent retentionId).imp _

/-- A response that reports no applied promotion. -/
theorem unapplied_raises {P : RetentionHistory ι τ S → Prop}
    {response : RetentionPromotionResponse}
    (hresponse : response.destinationOutcome ≠ "applied-durable") :
    (retentionDiscipline texts lib config calls retained E).Raises i P
      (pure response : RetentionProgram τ RetentionPromotionResponse)
      (PromotedPost i retentionId) Anything :=
  Discipline.raises_pure (robust_promotedPost _ _).stable fun _ _ _ h => absurd h hresponse

/-- A refused promotion is not an applied one. -/
theorem refused_ne (retentionId message : String) :
    (refusedPromotion retentionId message).destinationOutcome ≠ "applied-durable" := by
  simp [refusedPromotion]

/-- Removing the renamed record spends the retention. -/
theorem removePromoting_raises (retentionId : String) :
    (retentionDiscipline texts lib config calls retained E).Raises i
      (fun h => (slot h.current retentionId).HoldsBoth i)
      (Fs.remove (.promoting retentionId) : RetentionProgram τ Unit)
      (fun _ h => (∃ text, (slot h.current retentionId).ClaimHeld i text) ∧
        (slot h.current retentionId).Spent i)
      fun _ h => (slot h.current retentionId).Spent i := by
  have hafter : RetentionRobust texts lib config calls retained E i fun h =>
      (∃ text, (slot h.current retentionId).ClaimHeld i text) ∧
        (slot h.current retentionId).Spent i :=
    (Robust.exists fun text => robust_claimHeld retentionId text).and (robust_spent retentionId)
  refine raises_done (fun _ => (robust_spent retentionId).stable) hafter.stable
    (raises_attempt (robust_holdsBoth retentionId).stable
      (answered_stable hafter.stable (robust_spent retentionId).stable)
      (fun _ _ hboth => hboth) ?_)
  intro h removed s' hinv hboth heffect
  have hspent := hboth.spent (hinv.slots retentionId)
  rcases effect_remove heffect with ⟨rfl, _, rfl⟩ | ⟨rfl, rfl⟩
  · obtain ⟨text, hclaim⟩ := hboth.1
    simp only [Answered, History.current_record, slot_erase_promoting, if_true]
    exact ⟨⟨text, hclaim, rfl⟩, hspent⟩
  · exact hspent

/-- Removing the claim of a spent retention. -/
theorem removeSpentClaim_raises (retentionId : String) :
    (retentionDiscipline texts lib config calls retained E).Raises i
      (fun h => (∃ text, (slot h.current retentionId).ClaimHeld i text) ∧
        (slot h.current retentionId).Spent i)
      (Fs.remove (.claim retentionId) : RetentionProgram τ Unit)
      (fun _ h => (slot h.current retentionId).Spent i)
      fun _ h => (slot h.current retentionId).Spent i := by
  have hspent : RetentionRobust texts lib config calls retained E i fun h =>
      (slot h.current retentionId).Spent i := robust_spent retentionId
  refine raises_done (fun _ => hspent.stable) hspent.stable (raises_attempt
    ((Robust.exists fun text => robust_claimHeld retentionId text).and hspent).stable
    (answered_stable hspent.stable hspent.stable) (fun _ _ h => h.1) ?_)
  rintro h removed s' _ ⟨_, h₀⟩ heffect
  have hafter : (slot s' retentionId).Spent i := by
    rcases effect_remove heffect with ⟨_, _, rfl⟩ | ⟨_, rfl⟩
    · simp only [slot_erase_claim, if_true]
      exact h₀
    · exact h₀
  cases removed <;> exact hafter

/-- The cleanup after an applied promotion spends the retention. -/
theorem finishPromotion_raises (hpromotes : Promotes calls retentionId i)
    (hrequest : request.retentionId = retentionId) (hrecord : record.retentionId = retentionId)
    (promotedPaths : List String) :
    (retentionDiscipline texts lib config calls retained E).Raises i
      (fun h => (slot h.current retentionId).HoldsBoth i)
      (finishPromotion request record promotedPaths) (PromotedPost i retentionId) Anything := by
  have hspent : RetentionRobust texts lib config calls retained E i fun h =>
      (slot h.current retentionId).Spent i := robust_spent retentionId
  have hrespond (response : RetentionPromotionResponse) :
      (retentionDiscipline texts lib config calls retained E).Raises i
        (fun h => (slot h.current retentionId).Spent i)
        (pure response : RetentionProgram τ RetentionPromotionResponse)
        (PromotedPost i retentionId) Anything :=
    Discipline.raises_pure (robust_promotedPost _ _).stable fun _ _ h _ => h
  have hremove : (retentionDiscipline texts lib config calls retained E).Raises i
      (fun h => (slot h.current retentionId).HoldsBoth i) (removeRecords request record)
      (fun _ h => (slot h.current retentionId).Spent i)
      fun _ h => (slot h.current retentionId).Spent i := by
    unfold removeRecords
    rw [hrequest, hrecord]
    refine (removePromoting_raises retentionId).bind (fun _ => hspent.stable) fun _ => ?_
    refine (removeSpentClaim_raises retentionId).bind (fun _ => hspent.stable) fun _ => ?_
    exact hspent.raises_attempt retention_looks trivial
  unfold finishPromotion
  refine Raises.bind ((inSandbox_raises hpromotes _).conseq (fun _ _ h => h) (fun _ _ _ h => h)
    fun _ _ _ _ => trivial) stable_anything fun scratchRemoved => ?_
  dsimp only
  split
  · exact (hrespond _).conseq (fun _ hinv hboth => hboth.spent (hinv.slots retentionId))
      (fun _ _ _ h => h) fun _ _ _ h => h
  · have hcaught : (retentionDiscipline texts lib config calls retained E).Raises i
        (fun h => (slot h.current retentionId).HoldsBoth i)
        (tryCatch (removeRecords request record) fun _ => pure false)
        (fun _ h => (slot h.current retentionId).Spent i) Anything :=
      hremove.catch (fun _ => hspent.stable) fun _ =>
        Discipline.raises_pure hspent.stable fun _ _ h => h
    exact hcaught.bind stable_anything fun _ => hrespond _

/-- What follows a promotion that was not applied. -/
theorem undoPromotion_raises (hrecord : record.retentionId = retentionId)
    (reason : SandboxPromotionRefusal) :
    (retentionDiscipline texts lib config calls retained E).Raises i
      (fun h => (slot h.current retentionId).HoldsBoth i) (undoPromotion request record reason)
      (PromotedPost i retentionId) Anything := by
  unfold undoPromotion
  rw [hrecord]
  refine (restoreClaimedRetention_raises retentionId).bind stable_anything fun restored => ?_
  cases restored with
  | true => exact unapplied_raises (refused_ne _ _)
  | false => exact unapplied_raises (by simp [triedPromotion])

/-- The part of `promote_retention` that is protected from cancellation. -/
theorem promotePlanned_raises {plan : SandboxPromotionPlan} {total : ℤ}
    (hpromotes : Promotes calls retentionId i) (hrequest : request.retentionId = retentionId)
    (hrecord : record.retentionId = retentionId)
    (hloaded : Loaded texts lib config retained retentionId record)
    (hplanned : PlannedFrom ⟨record.reviewableFiles, total⟩ item) (workspaceRoot : String) :
    (retentionDiscipline texts lib config calls retained E).Raises i (fun _ => True)
      (promotePlanned texts lib request record plan item workspaceRoot config)
      (PromotedPost i retentionId) Anything := by
  have hclaimed (claimed : Bool) : RetentionRobust texts lib config calls retained E i fun h =>
      claimed = true → (slot h.current retentionId).HoldsBoth i :=
    (robust_holdsBoth retentionId).imp _
  have hclaim : (retentionDiscipline texts lib config calls retained E).Raises i (fun _ => True)
      (claimRetentionForPromotion texts lib record item workspaceRoot config)
      (fun _ h => (slot h.current retentionId).HoldsBoth i) Anything := by
    subst hrecord
    exact claimRetentionForPromotion_raises hpromotes hloaded hplanned workspaceRoot
  unfold promotePlanned
  refine Raises.bind (Raises.catch (E := Anything) (Q := fun claimed h => claimed = true →
      (slot h.current retentionId).HoldsBoth i) ?_ (fun claimed => (hclaimed claimed).stable)
    fun _ => Discipline.raises_pure (hclaimed false).stable fun _ _ _ h => by cases h)
    stable_anything fun claimed => ?_
  · exact hclaim.bind stable_anything fun _ =>
      Discipline.raises_pure (hclaimed true).stable fun _ _ h _ => h
  · cases claimed with
    | false => exact unapplied_raises (refused_ne _ _)
    | true =>
      refine Raises.bind ((inSandbox_raises hpromotes _).conseq (fun _ _ h => h rfl)
        (fun _ _ _ h => h) fun _ _ _ _ => trivial) stable_anything fun outcome => ?_
      cases outcome with
      | appliedDurable promotedPaths =>
        exact finishPromotion_raises hpromotes hrequest hrecord promotedPaths
      | notApplied reason => exact undoPromotion_raises hrecord reason
      | recoveryRequired destinationPath nativeStatus =>
        exact unapplied_raises (by simp [triedPromotion])

omit [DecidableEq ι] in
/-- A loaded record names its retention. -/
theorem Loaded.retentionId_eq (hloaded : Loaded texts lib config retained retentionId record) :
    record.retentionId = retentionId := by
  obtain ⟨_, _, hfrom⟩ := hloaded
  have hconsistent := hfrom.consistent
  simp only [recordIsConsistent, Bool.and_eq_true, beq_iff_eq] at hconsistent
  exact hconsistent.1.1.1.1.1.1

/-- The part of `promote_retention` after the record is loaded. -/
theorem promoteRecord_raises (hcall : calls i = .promote request)
    (hloaded : Loaded texts lib config retained request.retentionId record)
    (workspace : WorkspacePolicy) :
    (retentionDiscipline texts lib config calls retained E).Raises i (fun _ => True)
      (promoteRecord texts lib request record workspace config)
      (PromotedPost i request.retentionId) Anything := by
  have htrue : RetentionRobust texts lib config calls retained E i fun _ => True :=
    robust_const True
  unfold promoteRecord
  dsimp only
  split
  · exact unapplied_raises (refused_ne _ _)
  refine Raises.bind (htrue.raises_looking retention_looks
    (inSandbox_looks (attempt_orThrow_calls trivial))) stable_anything fun inventoried => ?_
  cases inventoried with
  | error code => exact unapplied_raises (refused_ne _ _)
  | ok inventory =>
    dsimp only
    split
    · exact unapplied_raises (refused_ne _ _)
    refine Raises.bind (htrue.raises_of_calls retention_looks (inSandbox_looks
      (planSandboxPromotion_calls _ _ _)) (inSandbox_returns
      (planSandboxPromotion_returns _ _ _))) (fun _ => stable_const True)
      fun planned => triple_of_const fun hplan => ?_
    cases planned with
    | error reason => exact unapplied_raises (refused_ne _ _)
    | ok plan =>
      dsimp only
      split
      · rename_i planItem hitems
        exact promotePlanned_raises ⟨request, hcall, rfl⟩ rfl hloaded.retentionId_eq hloaded
          (hplan planItem (hitems ▸ List.mem_singleton_self planItem)) _
      · exact unapplied_raises (refused_ne _ _)

/-- `promote_retention` obeys the discipline, and a promotion that it reports as
applied has spent its retention. -/
theorem promoteRetention_raises (hcall : calls i = .promote request) :
    (retentionDiscipline texts lib config calls retained E).Raises i (fun _ => True)
      (promoteRetention texts lib request config) (PromotedPost i request.retentionId)
      Anything := by
  have hloaded (loaded : Option RetentionRecord) :
      (retentionDiscipline texts lib config calls retained E).Stable i fun _ => (∀ record,
        loaded = some record → Loaded texts lib config retained request.retentionId record) ∧
          True :=
    (stable_const _).and (stable_const True)
  unfold promoteRetention
  dsimp only
  split
  · exact unapplied_raises (refused_ne _ _)
  split
  · exact unapplied_raises (refused_ne _ _)
  rename_i workspace _
  refine Raises.bind (Raises.catch (E := Anything) (Q := fun loaded _ => (∀ record,
      loaded = some record → Loaded texts lib config retained request.retentionId record) ∧ True)
    ?_ hloaded fun _ => Discipline.raises_pure (hloaded none) fun _ _ _ => ⟨nofun, trivial⟩)
    stable_anything fun loaded => triple_of_const fun hrecord => ?_
  · refine (loadRetentionRecord_raises _).bind stable_anything fun record =>
      triple_of_const fun hfrom => ?_
    exact Discipline.raises_pure (hloaded (some record)) fun _ _ _ =>
      ⟨fun _ hsome => Option.some.inj hsome ▸ hfrom, trivial⟩
  · cases loaded with
    | none => exact unapplied_raises (refused_ne _ _)
    | some record => exact promoteRecord_raises hcall (hrecord record rfl) workspace

/-! ## Sweeping -/

/-- Looking whether a retention is claimed. -/
theorem checkClaim_raises (retentionId : String) :
    (retentionDiscipline texts lib config calls retained E).Raises i (fun _ => True)
      (existsRegular (.claim retentionId) : RetentionProgram τ Bool)
      (fun claimed h => claimed = false → Unclaimed i retentionId h) Anything := by
  have hunclaimed (p : Prop) : (retentionDiscipline texts lib config calls retained E).Stable i
      fun h => p → Unclaimed i retentionId h := (robust_unclaimed retentionId).stable.imp p
  have hkind : (retentionDiscipline texts lib config calls retained E).Raises i (fun _ => True)
      (Fs.kind (.claim retentionId) : RetentionProgram τ FileKind)
      (fun kind _ => kind = .regular ∧ True) Anything := by
    refine raises_look (by trivial) ?_
    rintro h answer s' kind _ heffect rfl
    exact effect_kind heffect
  unfold existsRegular
  refine Raises.bind (Q := fun isPresent h => isPresent = false → Unclaimed i retentionId h)
    (Raises.bind (Q := fun answer h => answer = some false → Unclaimed i retentionId h)
      (raises_attempt (stable_const True) (fun answer => hunclaimed _) (fun _ _ _ => trivial) ?_)
      stable_anything fun answer => ?_) stable_anything fun isPresent => ?_
  · rintro h answer s' _ _ heffect rfl
    obtain rfl := FileOp.LooksOnly.state_eq (by trivial) heffect
    have habsent := effect_pathExists heffect
    exact .inl (Option.not_isSome_iff_eq_none.mp (by simpa [slot] using habsent.symm))
  · cases answer with
    | none => exact raises_throw (stable_const True) fun _ _ _ => trivial
    | some isPresent =>
      exact Discipline.raises_pure (hunclaimed _) fun _ _ hlook hfalse =>
        hlook (congrArg some hfalse)
  · cases isPresent with
    | false => exact Discipline.raises_pure (hunclaimed _) fun _ _ hlook _ => hlook rfl
    | true =>
      refine Raises.bind (hkind.conseq (fun _ _ _ => trivial) (fun _ _ _ h => h)
        fun _ _ _ h => h) stable_anything fun kind => triple_of_const fun hregular => ?_
      subst hregular
      exact Discipline.raises_pure (hunclaimed _) fun _ _ _ h => by simp at h

/-- Looking whether a retention is held for a promotion. -/
theorem heldForPromotion_raises (retentionId : String) :
    (retentionDiscipline texts lib config calls retained E).Raises i (fun _ => True)
      (heldForPromotion retentionId : RetentionProgram τ Bool)
      (fun held h => held = false → Unclaimed i retentionId h) Anything := by
  have htrue : RetentionRobust texts lib config calls retained E i fun _ => True :=
    robust_const True
  have hpromoting : Program.Calls (existsRegular (.promoting retentionId) : RetentionProgram τ Bool)
      RetentionLook := by
    unfold existsRegular
    refine Program.Calls.bind (attempt_orRaise_calls trivial) fun isPresent => ?_
    split
    · exact Program.Calls.bind (attempt_orRaise_calls trivial) fun kind => trivial
    · trivial
  unfold heldForPromotion
  refine (htrue.raises_looking retention_looks hpromoting).bind stable_anything
    fun promoting => ?_
  split
  · exact Discipline.raises_pure ((robust_unclaimed retentionId).stable.imp _) fun _ _ _ h => by
      cases h
  · exact checkClaim_raises retentionId

/-- The discard of a scratch tree, which may be taken while the retention is
unclaimed or claimed since the check. -/
theorem discardSwept_raises (hcall : calls i = .sweep) (retentionId : String) :
    (retentionDiscipline texts lib config calls retained E).Raises i (Unclaimed i retentionId)
      (inSandbox (discardScratchTree (scratchPathOf config retentionId)) : RetentionProgram τ Bool)
      (fun _ => Unclaimed i retentionId) Anything := by
  have hcalls : Program.Calls (inSandbox (discardScratchTree (scratchPathOf config retentionId)) :
      RetentionProgram τ Bool)
      fun op => ∃ op', op = .elsewhere op' ∧ op'.Discards (scratchPathOf config retentionId) :=
    inSandbox_calls (discardScratchTree_calls _) fun op hop => ⟨op, rfl, hop⟩
  have hpermitted {op : SandboxOp} {h : RetentionHistory ι τ S}
      (hop : op.Discards (scratchPathOf config retentionId)) (h₀ : Unclaimed i retentionId h) :
      RetentionPermitted texts lib config calls i (.elsewhere op) h :=
    .inr (.inr ⟨hcall, retentionId, hop, h₀⟩)
  refine (triple_of_allOps (robust_unclaimed retentionId).stable hcalls
    (Program.allRets_true _) ?_ ?_).conseq (fun _ _ h => h) fun outcome _ _ h => ?_
  · rintro _ h ⟨op, rfl, hop⟩ _ h₀
    exact hpermitted hop h₀
  · rintro _ h result s' ⟨op, rfl, hop⟩ _ h₀ heffect
    exact h₀.record (by simp [checksUnclaimed, unclaimedCheckOf])
      (slotChange_of_effect (hpermitted hop h₀) heffect retentionId)
  · cases outcome with
    | ok value => exact h.2
    | error error => trivial

/-- The round of `sweep_expired_retentions` for a record. -/
theorem sweepRetention_raises (hcall : calls i = .sweep) (retentionId : String) (now : ℤ) :
    (retentionDiscipline texts lib config calls retained E).Raises i (fun _ => True)
      (sweepRetention lib retentionId now config) (fun _ _ => True) Anything := by
  have hunclaimed : (retentionDiscipline texts lib config calls retained E).Robust SweepLook i
      (Unclaimed i retentionId) := robust_unclaimed retentionId
  have hreturn (value : Bool) (P : RetentionHistory ι τ S → Prop) :
      (retentionDiscipline texts lib config calls retained E).Raises i P
        (pure value : RetentionProgram τ Bool) (fun _ _ => True) Anything :=
    Discipline.raises_pure (stable_const True) fun _ _ _ => trivial
  have hremove : (retentionDiscipline texts lib config calls retained E).Raises i
      (Unclaimed i retentionId) (Fs.remove (.available retentionId) : RetentionProgram τ Unit)
      (fun _ _ => True) Anything :=
    raises_done stable_anything (stable_const True) (raises_attempt hunclaimed.stable
      (answered_stable (stable_const True) (stable_const True)) (fun _ _ h => ⟨hcall, h⟩)
      fun _ removed _ _ _ _ => by cases removed <;> trivial)
  unfold sweepRetention
  split
  · exact hreturn _ _
  refine (heldForPromotion_raises retentionId).bind stable_anything fun held => ?_
  cases held with
  | true => exact hreturn _ _
  | false =>
    refine Raises.bind ((hunclaimed.raises_looking sweep_looks (readSwept_calls retentionId)).conseq
      (fun _ _ h => h rfl) (fun _ _ _ h => h) fun _ _ _ _ => trivial) stable_anything
      fun swept => ?_
    cases swept with
    | none => exact hreturn _ _
    | some record =>
      dsimp only
      split
      · exact hreturn _ _
      rename_i hconsistent
      have hpath : record.scratchPath = scratchPathOf config retentionId := by
        simp only [recordIsConsistent, Bool.not_eq_true', not_or, Bool.not_eq_false,
          Bool.and_eq_true, beq_iff_eq] at hconsistent
        exact hconsistent.1.1.1.1.1.1.2
      rw [hpath]
      refine (discardSwept_raises hcall retentionId).bind stable_anything fun discarded => ?_
      split
      · exact hreturn _ _
      · exact hremove.bind stable_anything fun _ => hreturn _ _

/-- The loop of `sweep_expired_retentions`. -/
theorem sweepNames_raises (hcall : calls i = .sweep) (now : ℤ) (names : List RetentionName)
    (removed : ℤ) :
    (retentionDiscipline texts lib config calls retained E).Raises i (fun _ => True)
      (sweepNames lib now config names removed) (fun _ _ => True) Anything := by
  induction names generalizing removed with
  | nil => exact Discipline.raises_pure (stable_const True) fun _ _ _ => trivial
  | cons name rest ih =>
    cases name with
    | available retentionId =>
      exact (sweepRetention_raises hcall retentionId now).bind stable_anything fun _ => ih _
    | promoting retentionId => exact ih removed
    | claim retentionId => exact ih removed

/-- `sweep_expired_retentions` obeys the discipline. -/
theorem sweepExpiredRetentions_raises (hcall : calls i = .sweep) :
    (retentionDiscipline texts lib config calls retained E).Raises i (fun _ => True)
      (sweepExpiredRetentions lib config) (fun _ _ => True) Anything := by
  have htrue : RetentionRobust texts lib config calls retained E i fun _ => True :=
    robust_const True
  unfold sweepExpiredRetentions
  refine Raises.bind (htrue.raises_attempt retention_looks trivial) stable_anything fun now => ?_
  refine Raises.bind (raises_attempt_orRaise htrue retention_looks trivial stable_anything
    fun _ _ _ => trivial) stable_anything fun names => ?_
  exact sweepNames_raises hcall now names 0

/-! ## Calls -/

/-- What a call has done when it ends. -/
def RetentionPost (i : ι) : RetentionCall → RetentionOutcome → RetentionHistory ι τ S → Prop
  | .promote request, .promoted (.ok response), h => PromotedPost i request.retentionId response h
  | _, _, _ => True

/-- Every call obeys the discipline. -/
theorem retentionProgram_triple {call : RetentionCall} (hcall : calls i = call) :
    (retentionDiscipline texts lib config calls retained E).Triple i (fun _ => True)
      (call.program texts lib config) (RetentionPost i call) := by
  cases call with
  | promote request =>
    refine Triple.bind (promoteRetention_raises hcall) fun outcome => ?_
    cases outcome with
    | ok response => exact triple_ret (robust_promotedPost _ response).stable fun _ _ h => h
    | error error => exact triple_ret (stable_const True) fun _ _ _ => trivial
  | sweep =>
    exact Triple.bind (sweepExpiredRetentions_raises hcall) fun outcome =>
      triple_ret (stable_const True) fun _ _ _ => trivial

/-- The invariant holds of a store that only keeps records. -/
theorem retentionInv_start (outside : S) : RetentionInv texts lib config calls retained
    (retentionStart texts lib config calls retained outside).history where
  slots _ := ⟨fun _ hentry => hentry, nofun, nofun⟩
  sound := trivial

/-- In every run, the invariant holds and every call that ended did what it says. -/
theorem retentionStart_sound {outside : S} {c : RetentionConfig ι τ S}
    (hreach : Config.Reachable (fileWorld texts E)
      (retentionStart texts lib config calls retained outside) c) :
    RetentionInv texts lib config calls retained c.history ∧
      ∀ i outcome, c.threads i = .ret outcome → RetentionPost i (calls i) outcome c.history := by
  have hsound : RetentionInv texts lib config calls retained c.history ∧
      ∀ i, (retentionDiscipline texts lib config calls retained E).Obeys i
        (RetentionPost i (calls i)) (c.threads i) c.history :=
    reachable_sound hreach (retentionInv_start outside) fun i =>
      retentionProgram_triple rfl _ (retentionInv_start outside) trivial
  exact ⟨hsound.1, fun i outcome hret => returned_of_obeys hsound.1 (hsound.2 i) hret⟩

end Moonfort.Executor
