import Moonfort.Executor.RetentionSlot
import Moonfort.Executor.RetentionStore

/-!
# The discipline of the retention store

What the steps of `promote_retention` and `sweep_expired_retentions` may do. Each
of them is one of the steps of a slot for every retention. A promoter leaves the
directory for the workspace only while it holds the claim and the record it
renamed; a sweeper discards a retention only after it looked and found no claim.
The claiming steps of a promotion obey it.
-/

namespace Moonfort.Executor

open Concurrent Concurrent.Discipline MoonBit Sandbox

variable {ι τ XC S : Type}

/-! ## Records and claims that fit -/

/-- `load_locked_promotion_claim` accepts the pair. -/
structure PairConsistent (texts : Texts τ) (lib : RetentionLibrary τ) (config : ExecutorConfig)
    (retentionId : String) (promoting claimText : τ) : Prop where
  identifier : safeIdentifier retentionId = true
  bounded : 0 < config.limits.maxProtocolBytes
  recordFits : (texts.byteLength promoting : ℤ) ≤ config.limits.maxProtocolBytes
  claimFits : (texts.byteLength claimText : ℤ) ≤ config.limits.maxProtocolBytes
  bound : ∃ claim, lib.records.parse promoting = some claim.record ∧
    lib.claims.parse claimText = some claim ∧ claim.record.retentionId = retentionId ∧
    claimItemIsBound lib claim config = true

/-- A record that `load_retention_record` accepts. -/
structure LoadedFrom (texts : Texts τ) (lib : RetentionLibrary τ) (config : ExecutorConfig)
    (retentionId : String) (text : τ) (record : RetentionRecord) : Prop where
  identifier : safeIdentifier retentionId = true
  bounded : 0 < config.limits.maxProtocolBytes
  fits : (texts.byteLength text : ℤ) ≤ config.limits.maxProtocolBytes
  parsed : lib.records.parse text = some record
  consistent : recordIsConsistent lib record retentionId config = true

section Pair

variable {texts : Texts τ} {lib : RetentionLibrary τ} {config : ExecutorConfig}

/-- The entries of a valid manifest have sizes and fingerprints. -/
theorem entry_of_manifestEntriesValid {byteLimit total : ℤ} {seen : List String}
    {files : List ScratchEntry} (hvalid : manifestEntriesValid byteLimit seen total files = true)
    {entry : ScratchEntry} (hentry : entry ∈ files) :
    0 ≤ entry.sizeBytes ∧ sha256Digest entry.fingerprint = true := by
  induction files generalizing seen total with
  | nil => cases hentry
  | cons first rest ih =>
    simp only [manifestEntriesValid, Bool.and_eq_true, decide_eq_true_eq] at hvalid
    rcases List.mem_cons.mp hentry with rfl | hrest
    · exact ⟨hvalid.1.1.1.2, hvalid.1.1.2⟩
    · exact ih hvalid.2 hrest

/-- A safe identifier is not empty. -/
theorem ne_empty_of_safeIdentifier {value : String} (hsafe : safeIdentifier value = true) :
    value ≠ "" := by
  rintro rfl
  exact absurd hsafe (by decide)

/-- The claim on a loaded record of a planned item is bound. -/
theorem claimItemIsBound_of_planned {retentionId : String} {text : τ} {record : RetentionRecord}
    {item : SandboxPromotionItem} {total : ℤ} {rootBinding : Option String}
    (hloaded : LoadedFrom texts lib config retentionId text record)
    (hplanned : PlannedFrom ⟨record.reviewableFiles, total⟩ item) :
    claimItemIsBound lib ⟨record, item, "prepared", rootBinding⟩ config = true := by
  have hconsistent := hloaded.consistent
  have hid : record.retentionId = retentionId := by
    simp only [recordIsConsistent, Bool.and_eq_true, beq_iff_eq] at hconsistent
    exact hconsistent.1.1.1.1.1.1
  have hmanifest : retentionManifestIsValid lib record.reviewableFiles config = true := by
    simp only [recordIsConsistent, Bool.and_eq_true] at hconsistent
    exact hconsistent.2
  obtain ⟨entry, hentry, hkind, hpath, hsize, hfingerprint⟩ := hplanned.source
  have hvalid : 0 ≤ entry.sizeBytes ∧ sha256Digest entry.fingerprint = true := by
    simp only [retentionManifestIsValid, Bool.and_eq_true] at hmanifest
    exact entry_of_manifestEntriesValid hmanifest.2 hentry
  rw [hsize, hfingerprint] at hvalid
  have hsource : (record.reviewableFiles.any fun entry =>
      entry.kind == .regularFile && entry.relativePath == item.sourceRelativePath &&
        entry.sizeBytes == item.sizeBytes &&
        entry.fingerprint == item.expectedSourceFingerprint) = true :=
    List.any_eq_true.mpr ⟨entry, hentry, by simp [hkind, hpath, hsize, hfingerprint]⟩
  have hnonempty := ne_empty_of_safeIdentifier hloaded.identifier
  unfold claimItemIsBound
  simp only [Bool.and_eq_true, bne_iff_ne, decide_eq_true_eq]
  refine ⟨⟨⟨⟨⟨⟨⟨⟨⟨rfl, hid ▸ hnonempty⟩, hid ▸ hloaded.identifier⟩, hid ▸ hconsistent⟩,
    hplanned.sourceSafe⟩, hplanned.destinationSafe⟩, hvalid.1⟩, hvalid.2⟩, hsource⟩, ?_⟩
  cases hstate : item.expectedDestinationState with
  | reviewedDestinationAbsent => rfl
  | reviewedDestinationRegular size fingerprint =>
    have hreviewed := hplanned.reviewed size fingerprint hstate
    simpa using hreviewed

end Pair

/-! ## The steps of a run -/

/-- The retention that a step claims: it creates the claim. -/
def claimOf : RetentionEvent ι τ S → Option String
  | ⟨_, .create (.claim retentionId), created, _, _⟩ =>
    if created then some retentionId else none
  | _ => none

/-- The retention that a step finds unclaimed. -/
def unclaimedCheckOf : RetentionEvent ι τ S → Option String
  | ⟨_, .pathExists (.claim retentionId), present, _, _⟩ =>
    if present = some false then some retentionId else none
  | _ => none

/-- What the store keeps of a retention. -/
def slot (s : RetentionState ι τ S) (retentionId : String) : Slot ι τ where
  available := s.files (.available retentionId)
  promoting := s.files (.promoting retentionId)
  claim := s.files (.claim retentionId)
  mover := s.movedBy (.promoting retentionId)

section Slots

variable (s : RetentionState ι τ S) (i : ι) (entry : Entry ι τ) (changed retentionId : String)

/-- What lies elsewhere is not part of a slot. -/
@[simp] theorem slot_outside (rest : S) :
    slot { s with elsewhere := rest } retentionId = slot s retentionId := rfl

/-- Putting a claim changes its retention. -/
theorem slot_put_claim : slot (s.put (.claim changed) entry) retentionId =
    if retentionId = changed then { slot s retentionId with claim := some entry }
    else slot s retentionId := by
  split <;> simp_all [slot, FileState.files_put]

/-- Removing a claim changes its retention. -/
theorem slot_erase_claim : slot (s.erase (.claim changed)) retentionId =
    if retentionId = changed then { slot s retentionId with claim := none }
    else slot s retentionId := by
  split <;> simp_all [slot, FileState.files_erase]

/-- Removing a renamed record changes its retention. -/
theorem slot_erase_promoting : slot (s.erase (.promoting changed)) retentionId =
    if retentionId = changed then { slot s retentionId with promoting := none }
    else slot s retentionId := by
  split <;> simp_all [slot, FileState.files_erase]

/-- Removing a record changes its retention. -/
theorem slot_erase_available : slot (s.erase (.available changed)) retentionId =
    if retentionId = changed then { slot s retentionId with available := none }
    else slot s retentionId := by
  split <;> simp_all [slot, FileState.files_erase]

/-- Renaming a record for a promotion changes its retention. -/
theorem slot_move_promoting :
    slot (s.move i (.available changed) (.promoting changed) entry) retentionId =
      if retentionId = changed then
        { slot s retentionId with available := none, promoting := some entry, mover := some i }
      else slot s retentionId := by
  split <;> simp_all [slot, FileState.files_move, FileState.movedBy_move]

/-- Renaming it back does too. -/
theorem slot_move_available :
    slot (s.move i (.promoting changed) (.available changed) entry) retentionId =
      if retentionId = changed then
        { slot s retentionId with available := some entry, promoting := none }
      else slot s retentionId := by
  split <;> simp_all [slot, FileState.files_move, FileState.movedBy_move]

end Slots

section Discipline

variable [DecidableEq ι]

/-- Thread `i` finds the retention unclaimed in this step. -/
def checksUnclaimed (i : ι) (retentionId : String) (e : RetentionEvent ι τ S) : Bool :=
  e.who = i && unclaimedCheckOf e = some retentionId

/-- Since thread `i` last found the retention unclaimed, it was claimed. -/
def ClaimedSinceCheck (i : ι) (retentionId : String) (trace : List (RetentionEvent ι τ S)) :
    Prop :=
  SinceLast (checksUnclaimed i retentionId) (claimOf · = some retentionId) trace

/-- Nobody has a claim on the retention, or it was claimed since thread `i` last
looked. -/
def Unclaimed (i : ι) (retentionId : String) (h : RetentionHistory ι τ S) : Prop :=
  (slot h.current retentionId).claim = none ∨ ClaimedSinceCheck i retentionId h.trace

variable (texts : Texts τ) (lib : RetentionLibrary τ) (config : ExecutorConfig)
  (calls : ι → RetentionCall) (retained : String → Option (Entry ι τ))

/-- The calls that may claim a retention. -/
def Promotes (retentionId : String) (i : ι) : Prop :=
  ∃ request, calls i = .promote request ∧ request.retentionId = retentionId

/-- The steps that the calls on the store take. -/
def RetentionPermitted (i : ι) : RetentionOp τ → RetentionHistory ι τ S → Prop
  | .rand, _ => False
  | .create path, _ => ∃ retentionId, path = .claim retentionId ∧ Promotes calls retentionId i
  | .write path _, h => ∃ retentionId text, path = .claim retentionId ∧
      (slot h.current retentionId).ClaimHeld i text
  | .remove (.claim retentionId), h => ∃ text, (slot h.current retentionId).ClaimHeld i text
  | .remove (.promoting retentionId), h => (slot h.current retentionId).HoldsBoth i
  | .remove (.available retentionId), h => calls i = .sweep ∧ Unclaimed i retentionId h
  | .rename source destination, h => ∃ retentionId,
      (source = .available retentionId ∧ destination = .promoting retentionId ∧
        ∃ text, (slot h.current retentionId).ClaimHeld i text ∧
          ∀ entry, (slot h.current retentionId).available = some entry →
            PairConsistent texts lib config retentionId entry.text text) ∨
      source = .promoting retentionId ∧ destination = .available retentionId ∧
        (slot h.current retentionId).HoldsBoth i
  | .elsewhere op, h => op.LooksOnly ∨
      (∃ retentionId, Promotes calls retentionId i ∧
        (slot h.current retentionId).HoldsBoth i) ∨
      calls i = .sweep ∧ ∃ retentionId, op.Discards (scratchPathOf config retentionId) ∧
        Unclaimed i retentionId h
  | _, _ => True

/-- A step of a slot of the store. -/
abbrev RetentionChange (i : ι) (retentionId : String) : Prop → Slot ι τ → Slot ι τ → Prop :=
  Slot.Change (Promotes calls retentionId) (PairConsistent texts lib config retentionId) i

variable {texts lib config calls retained} {E : World ι SandboxOp SandboxOp.Res XC S} {i : ι}
  {h : RetentionHistory ι τ S} {op : RetentionOp τ} {result : RetentionOp.Res op}
  {s' : RetentionState ι τ S}

/-- A permitted step is a step of every slot. -/
theorem slotChange_of_effect (hpermitted : RetentionPermitted texts lib config calls i op h)
    (heffect : (fileWorld texts E).Effect i op h.current result s') (retentionId : String) :
    RetentionChange texts lib config calls i retentionId
      (claimOf ⟨i, op, result, h.current, s'⟩ = some retentionId) (slot h.current retentionId)
      (slot s' retentionId) := by
  cases op with
  | rand => exact hpermitted.elim
  | create path =>
    obtain ⟨changed, rfl, hpromotes⟩ := hpermitted
    rcases effect_create heffect with ⟨rfl, hfree, rfl⟩ | ⟨_, rfl⟩
    · rw [slot_put_claim]
      split
      · subst retentionId
        exact .claimed rfl hpromotes hfree
      · exact .same
    · exact .same
  | write path text =>
    obtain ⟨changed, held, rfl, hheld⟩ := hpermitted
    rcases effect_write heffect with ⟨_, text', _, _, _, rfl⟩ | ⟨_, rfl⟩
    · rw [slot_put_claim]
      split
      · subst retentionId
        exact .written hheld
      · exact .same
    · exact .same
  | remove path =>
    rcases effect_remove heffect with ⟨_, _, rfl⟩ | ⟨_, rfl⟩
    case inr => exact .same
    cases path with
    | claim changed =>
      obtain ⟨text, hheld⟩ := hpermitted
      rw [slot_erase_claim]
      split
      · subst retentionId
        exact .unclaimed hheld
      · exact .same
    | promoting changed =>
      rw [slot_erase_promoting]
      split
      · subst retentionId
        exact .consumed hpermitted
      · exact .same
    | available changed =>
      rw [slot_erase_available]
      split
      · exact .swept
      · exact .same
  | rename source destination =>
    obtain ⟨changed, ⟨rfl, rfl, text, hheld, hfits⟩ | ⟨rfl, rfl, hboth⟩⟩ := hpermitted
    · rcases effect_rename heffect with ⟨_, entry, hentry, _, rfl⟩ | ⟨_, rfl⟩
      · rw [slot_move_promoting]
        split
        · subst retentionId
          exact .locked hheld hentry (hfits entry hentry)
        · exact .same
      · exact .same
    · rcases effect_rename heffect with ⟨_, entry, hentry, _, rfl⟩ | ⟨_, rfl⟩
      · rw [slot_move_available]
        split
        · subst retentionId
          exact .restored hboth hentry
        · exact .same
      · exact .same
  | elsewhere op =>
    obtain ⟨rest, _, rfl⟩ := effect_elsewhere heffect
    exact .same
  | _ =>
    obtain rfl := FileOp.LooksOnly.state_eq (by trivial) heffect
    exact .same

/-- A claim since the check stays one as long as the thread does not look again,
and a claim after the check becomes one. -/
theorem Unclaimed.record {j : ι} {retentionId : String} (hunclaimed : Unclaimed i retentionId h)
    (hcheck : checksUnclaimed i retentionId ⟨j, op, result, h.current, s'⟩ = false)
    (hchange : RetentionChange texts lib config calls j retentionId
      (claimOf ⟨j, op, result, h.current, s'⟩ = some retentionId) (slot h.current retentionId)
      (slot s' retentionId)) : Unclaimed i retentionId (h.record j op result s') := by
  rcases hunclaimed with habsent | hsince
  · rcases hchange.claim_none habsent with habsent | hclaims
    · exact .inl habsent
    · exact .inr (sinceLast_latest hcheck hclaims)
  · exact .inr (hsince.cons hcheck)

variable (texts lib config calls retained) in
/-- What holds of the store between any two steps: every retention is in order,
and every step was permitted. -/
structure RetentionInv (h : RetentionHistory ι τ S) : Prop where
  slots (retentionId : String) : Slot.Inv (Promotes calls retentionId)
    (PairConsistent texts lib config retentionId) (retained retentionId)
    (slot h.current retentionId)
  sound : Always (fun e older => RetentionPermitted texts lib config calls e.who e.op
    ⟨e.before, older⟩) h.trace

variable (texts lib config calls retained E) in
/-- The discipline of the calls on the retention store. -/
def retentionDiscipline : FileDiscipline RetentionName texts E where
  Inv := RetentionInv texts lib config calls retained
  Permitted := RetentionPermitted texts lib config calls
  preserved hinv hpermitted heffect :=
    ⟨fun retentionId => (hinv.slots retentionId).change
      (slotChange_of_effect hpermitted heffect retentionId), hpermitted, hinv.sound⟩

/-! ## Assertions of a call -/

/-- The steps that look, in the directory or outside it. -/
def RetentionLook : RetentionOp τ → Prop
  | .elsewhere op => op.LooksOnly
  | op => op.LooksOnly

/-- The steps that look at anything but claims. -/
def SweepLook (op : RetentionOp τ) : Prop :=
  RetentionLook op ∧ ∀ retentionId, op ≠ .pathExists (.claim retentionId)

/-- Every thread may look. -/
theorem retention_looks :
    (retentionDiscipline texts lib config calls retained E).Looks i RetentionLook where
  permitted {op} h hlook := by
    cases op <;> first | exact hlook.elim | trivial | exact .inl hlook

/-- Every thread may look at anything but claims. -/
theorem sweep_looks :
    (retentionDiscipline texts lib config calls retained E).Looks i SweepLook where
  permitted h hlook := retention_looks.permitted h hlook.1

/-- Looking changes no retention. -/
theorem slot_of_look (hlook : RetentionLook op)
    (heffect : (fileWorld texts E).Effect i op h.current result s') (retentionId : String) :
    slot s' retentionId = slot h.current retentionId := by
  cases op with
  | elsewhere op =>
    obtain ⟨rest, _, rfl⟩ := effect_elsewhere heffect
    rfl
  | _ => rw [FileOp.LooksOnly.state_eq (by exact hlook) heffect]

/-- What no step of another thread falsifies is stable. -/
theorem retention_stable {P : RetentionHistory ι τ S → Prop}
    (hP : ∀ {j : ι} {op : RetentionOp τ} {result : RetentionOp.Res op}
      {h : RetentionHistory ι τ S} {s' : RetentionState ι τ S}, j ≠ i →
      (∀ retentionId, RetentionChange texts lib config calls j retentionId
        (claimOf ⟨j, op, result, h.current, s'⟩ = some retentionId) (slot h.current retentionId)
        (slot s' retentionId)) → P h → P (h.record j op result s')) :
    (retentionDiscipline texts lib config calls retained E).Stable i P := by
  rintro h _ ⟨j, op, result, s', hj, _, hpermitted, heffect, rfl⟩ h₀
  exact hP hj (slotChange_of_effect hpermitted heffect) h₀

variable (texts lib config calls retained E i) in
/-- An assertion of thread `i` about the store that its own looking keeps. -/
abbrev RetentionRobust (P : RetentionHistory ι τ S → Prop) : Prop :=
  (retentionDiscipline texts lib config calls retained E).Robust RetentionLook i P

/-- What no step of another thread falsifies about a retention is robust. -/
theorem robust_slot (p : Slot ι τ → Prop) (retentionId : String)
    (hp : ∀ {j : ι} {claims : Prop} {s s' : Slot ι τ}, j ≠ i →
      RetentionChange texts lib config calls j retentionId claims s s' → p s → p s') :
    RetentionRobust texts lib config calls retained E i fun h => p (slot h.current retentionId) :=
  ⟨retention_stable fun hj hchange h₀ => hp hj (hchange retentionId) h₀,
    fun {_ h _ s'} hlook heffect h₀ => by
      rw [History.current_record, slot_of_look (h := h) hlook heffect]
      exact h₀⟩

/-- A claim stays. -/
theorem robust_claimHeld (retentionId : String) (text : τ) :
    RetentionRobust texts lib config calls retained E i fun h =>
      (slot h.current retentionId).ClaimHeld i text :=
  robust_slot (·.ClaimHeld i text) _ fun hj hchange hheld => hheld.change hj hchange

/-- A renamed record stays, with its claim. -/
theorem robust_holdsBoth (retentionId : String) :
    RetentionRobust texts lib config calls retained E i fun h =>
      (slot h.current retentionId).HoldsBoth i :=
  robust_slot (·.HoldsBoth i) _ fun hj hchange hboth => hboth.change hj hchange

/-- A spent retention stays spent. -/
theorem robust_spent (retentionId : String) :
    RetentionRobust texts lib config calls retained E i fun h =>
      (slot h.current retentionId).Spent i :=
  robust_slot (·.Spent i) _ fun hj hchange hspent => hspent.change hj hchange

/-- A retention stays unclaimed, or claimed since the check. -/
theorem robust_unclaimed (retentionId : String) :
    (retentionDiscipline texts lib config calls retained E).Robust SweepLook i
      (Unclaimed i retentionId) := by
  refine ⟨retention_stable fun hj hchange hunclaimed =>
    hunclaimed.record (by simp [checksUnclaimed, hj]) (hchange retentionId),
    fun {op h result s'} hlook heffect hunclaimed => ?_⟩
  have hcheck : unclaimedCheckOf ⟨i, op, result, h.current, s'⟩ ≠ some retentionId := by
    intro heq
    cases op with
    | pathExists path =>
      cases path with
      | claim id => exact hlook.2 id rfl
      | _ => cases heq
    | _ => cases heq
  have hlooks : (retentionDiscipline texts lib config calls retained E).Looks i RetentionLook :=
    retention_looks
  have hpermitted : RetentionPermitted texts lib config calls i op h := hlooks.permitted h hlook.1
  exact hunclaimed.record (by simp [checksUnclaimed, hcheck])
    (slotChange_of_effect hpermitted heffect retentionId)

/-! ## Programs that look -/

omit [DecidableEq ι] in
/-- Passing on the result of a library call calls nothing. -/
theorem orRaise_calls {α : Type} {ok : RetentionOp τ → Prop} (result : Option α) :
    Program.Calls (orRaise result : RetentionProgram τ α) ok := by
  cases result <;> trivial

/-- A look that may raise calls itself. -/
theorem attempt_orRaise_calls {α : Type} {ok : RetentionOp τ → Prop} {op : RetentionOp τ}
    {f : RetentionOp.Res op → Option α} (hop : ok op) :
    Program.Calls (Program.attempt op >>= fun result => orRaise (f result) :
      RetentionProgram τ α) ok :=
  Program.Calls.bind ⟨hop, fun _ => trivial⟩ fun _ => orRaise_calls _

/-- A program of the sandbox takes its steps outside the directory. -/
theorem inSandbox_calls {α : Type} {ok : SandboxOp → Prop} {ok' : RetentionOp τ → Prop}
    {p : SandboxProgram α} (hp : Program.Calls p ok) (hok : ∀ op, ok op → ok' (.elsewhere op)) :
    Program.Calls (inSandbox p : RetentionProgram τ α) ok' :=
  Program.AllOps.bind (Program.AllOps.embed hp hok) fun _ => trivial

/-- A program of the sandbox that looks, looks. -/
theorem inSandbox_looks {α : Type} {p : SandboxProgram α}
    (hp : Program.Calls p SandboxOp.LooksOnly) :
    Program.Calls (inSandbox p : RetentionProgram τ α) RetentionLook :=
  inSandbox_calls hp fun _ hop => hop

/-- It returns what it returns in the sandbox. -/
theorem inSandbox_returns {α : Type} {Q : α → Prop} {p : SandboxProgram α}
    (hp : Program.Returns p Q) : Program.Returns (inSandbox p : RetentionProgram τ α) Q :=
  Program.AllRets.bind (Program.AllRets.embed hp) fun outcome h => by
    cases outcome with
    | ok value => exact h
    | error error => trivial

/-- Checking that a file is protected only looks. -/
theorem protectedRegular_calls (path : RetentionName) :
    Program.Calls (protectedRegular path : RetentionProgram τ Bool) RetentionLook := by
  unfold protectedRegular
  refine Program.Calls.bind (attempt_orRaise_calls trivial) fun kind => ?_
  split
  · exact ⟨trivial, fun _ => trivial⟩
  · trivial

/-- Checking that a record is live only looks. -/
theorem recordIsLive_calls (record : RetentionRecord) :
    Program.Calls (recordIsLive record : RetentionProgram τ Bool) RetentionLook := by
  unfold recordIsLive
  refine Program.Calls.bind ⟨trivial, fun _ => trivial⟩ fun now => ?_
  split
  · trivial
  refine Program.Calls.bind (inSandbox_looks (attempt_orThrow_calls trivial)) fun scratch => ?_
  split
  · trivial
  exact Program.Calls.bind (inSandbox_looks (attempt_orThrow_calls trivial)) fun _ => trivial

/-- Proving that no rename happened only looks. -/
theorem provenPreRename_calls (retentionId : String) :
    Program.Calls (provenPreRename retentionId : RetentionProgram τ Bool) RetentionLook := by
  unfold provenPreRename
  refine Program.Calls.bind (protectedRegular_calls _) fun isProtected => ?_
  split
  · exact Program.Calls.bind (attempt_orRaise_calls trivial) fun renamed => trivial
  · trivial

/-- Verifying a claim only looks. -/
theorem claimVerified_calls (retentionId : String) :
    Program.Calls (claimVerified retentionId : RetentionProgram τ Bool) RetentionLook := by
  unfold claimVerified
  refine Program.Calls.bind (protectedRegular_calls _) fun isProtected => ?_
  split
  · exact ⟨trivial, fun _ => trivial⟩
  · trivial

/-- Reading a record to sweep looks at no claim. -/
theorem readSwept_calls (retentionId : String) :
    Program.Calls (readSwept lib retentionId config : RetentionProgram τ _) SweepLook := by
  unfold readSwept
  refine Program.Calls.catch ?_ fun _ => trivial
  refine Program.Calls.bind (attempt_orRaise_calls ⟨trivial, fun _ => by simp⟩) fun text => ?_
  exact Program.Calls.bind (orRaise_calls _) fun record => trivial

/-! ## Claiming -/

variable {request : RetentionPromotionRequest} {record : RetentionRecord}
  {item : SandboxPromotionItem} {retentionId : String} {text : τ}

/-- The record that a promoter loads is the retained one. -/
def Loaded (texts : Texts τ) (lib : RetentionLibrary τ) (config : ExecutorConfig)
    (retained : String → Option (Entry ι τ)) (retentionId : String) (record : RetentionRecord) :
    Prop :=
  ∃ entry, retained retentionId = some entry ∧
    LoadedFrom texts lib config retentionId entry.text record

/-- What raises in a call need not leave anything. -/
abbrev Anything (_ : Failure) (_ : RetentionHistory ι τ S) : Prop := True

/-- It is stable. -/
theorem stable_anything (error : Failure) :
    (retentionDiscipline texts lib config calls retained E).Stable i (Anything error) :=
  stable_const True

/-- Creating the claim. -/
theorem createClaim_raises (hpromotes : Promotes calls retentionId i) :
    (retentionDiscipline texts lib config calls retained E).Raises i (fun _ => True)
      (Fs.done (Program.attempt (FileOp.create (.claim retentionId))) : RetentionProgram τ Unit)
      (fun _ h => (slot h.current retentionId).ClaimHeld i texts.empty) Anything := by
  refine raises_done stable_anything (robust_claimHeld retentionId texts.empty).stable
    (raises_attempt (stable_const True)
      (answered_stable (robust_claimHeld retentionId texts.empty).stable (stable_const True))
      (fun _ _ _ => ⟨retentionId, rfl, hpromotes⟩) ?_)
  intro h created s' hinv _ heffect
  rcases effect_create heffect with ⟨rfl, hfree, rfl⟩ | ⟨rfl, _⟩
  · have hpromoting := (hinv.slots retentionId).promoting_none hfree
    simp only [Answered, History.current_record, slot_put_claim, if_true]
    exact ⟨rfl, hpromoting⟩
  · trivial

/-- Writing the claim. -/
theorem writeClaim_raises (retentionId : String) (text : τ) :
    (retentionDiscipline texts lib config calls retained E).Raises i
      (fun h => (slot h.current retentionId).ClaimHeld i texts.empty)
      (Fs.done (Program.attempt (FileOp.write (.claim retentionId) text)) :
        RetentionProgram τ Unit)
      (fun _ h => (slot h.current retentionId).ClaimHeld i text) Anything := by
  refine raises_done stable_anything (robust_claimHeld retentionId text).stable
    (raises_attempt (robust_claimHeld retentionId texts.empty).stable
      (answered_stable (robust_claimHeld retentionId text).stable (stable_const True))
      (fun h _ hheld => ⟨retentionId, texts.empty, rfl, hheld⟩) ?_)
  intro h written s' _ hheld heffect
  rcases effect_write heffect with ⟨_, text', _, _, htext, rfl⟩ | ⟨hother, _⟩
  · cases written with
    | true =>
      obtain rfl := htext rfl
      simp only [Answered, History.current_record, slot_put_claim, if_true]
      exact ⟨rfl, hheld.2⟩
    | false => trivial
  · exact absurd rfl (hother _ hheld.1)

/-- The rollback removes the claim of its own thread at most. -/
theorem rollbackPreRenameClaim_raises (retentionId : String) (text : τ) :
    (retentionDiscipline texts lib config calls retained E).Raises i
      (fun h => (slot h.current retentionId).ClaimHeld i text)
      (rollbackPreRenameClaim retentionId) (fun _ _ => True) Anything := by
  have hheld : RetentionRobust texts lib config calls retained E i fun h =>
      (slot h.current retentionId).ClaimHeld i text := robust_claimHeld retentionId text
  have htrue : RetentionRobust texts lib config calls retained E i fun _ => True :=
    robust_const True
  have hreturn (value : Bool) (P : RetentionHistory ι τ S → Prop) :
      (retentionDiscipline texts lib config calls retained E).Raises i P
        (pure value : RetentionProgram τ Bool) (fun _ _ => True) Anything :=
    Discipline.raises_pure (stable_const True) fun _ _ _ => trivial
  have hremove : (retentionDiscipline texts lib config calls retained E).Raises i
      (fun h => (slot h.current retentionId).ClaimHeld i text)
      (Fs.remove (.claim retentionId) : RetentionProgram τ Unit) (fun _ _ => True) Anything :=
    raises_done stable_anything (stable_const True) (raises_attempt hheld.stable
      (answered_stable (stable_const True) (stable_const True)) (fun _ _ h => ⟨text, h⟩)
      fun _ removed _ _ _ _ => by cases removed <;> trivial)
  have hsync : (retentionDiscipline texts lib config calls retained E).Raises i (fun _ => True)
      (Fs.sync : RetentionProgram τ Bool) (fun _ _ => True) Anything :=
    htrue.raises_attempt retention_looks trivial
  unfold rollbackPreRenameClaim
  refine Raises.bind (Raises.catch (hheld.raises_looking retention_looks
    (provenPreRename_calls retentionId)) (fun _ => hheld.stable) fun _ =>
    Discipline.raises_pure hheld.stable fun _ _ h => h) stable_anything fun proven => ?_
  split
  · exact hreturn _ _
  refine Raises.catch (E := Anything) ?_ (fun _ => stable_const True) fun _ => hreturn _ _
  unfold removeClaim
  refine Raises.bind (raises_attempt_orRaise hheld retention_looks trivial stable_anything
    fun _ _ _ => trivial) stable_anything fun isPresent => ?_
  split
  · refine Raises.bind (raises_attempt_orRaise hheld retention_looks trivial stable_anything
      fun _ _ _ => trivial) stable_anything fun kind => ?_
    split
    · exact hreturn _ _
    · exact hremove.bind stable_anything fun _ => hsync
  · exact hsync.conseq (fun _ _ _ => trivial) (fun _ _ _ h => h) fun _ _ _ h => h

/-- The rename gives its thread the record, under a claim that fits it. -/
theorem renameAvailable_raises
    (hfits : ∀ entry, retained retentionId = some entry →
      PairConsistent texts lib config retentionId entry.text text) :
    (retentionDiscipline texts lib config calls retained E).Raises i
      (fun h => (slot h.current retentionId).ClaimHeld i text)
      (Fs.rename (.available retentionId) (.promoting retentionId) : RetentionProgram τ Unit)
      (fun _ h => (slot h.current retentionId).HoldsBoth i)
      fun _ h => (slot h.current retentionId).ClaimHeld i text := by
  have hheld : RetentionRobust texts lib config calls retained E i fun h =>
      (slot h.current retentionId).ClaimHeld i text := robust_claimHeld retentionId text
  refine raises_done (fun _ => hheld.stable) (robust_holdsBoth retentionId).stable
    (raises_attempt hheld.stable
      (answered_stable (robust_holdsBoth retentionId).stable hheld.stable)
      (fun h hinv h₀ => ⟨retentionId, .inl ⟨rfl, rfl, text, h₀, fun entry hentry =>
        hfits entry ((hinv.slots retentionId).original entry hentry)⟩⟩) ?_)
  intro h renamed s' _ h₀ heffect
  rcases effect_rename heffect with ⟨rfl, entry, _, _, rfl⟩ | ⟨rfl, rfl⟩
  · simp only [Answered, History.current_record, slot_move_promoting, if_true]
    exact ⟨⟨text, h₀.1⟩, rfl, rfl⟩
  · exact h₀

/-- The part of `claim_retention_for_promotion` after the claim is written. -/
theorem lockRetention_raises
    (hfits : ∀ entry, retained retentionId = some entry →
      PairConsistent texts lib config retentionId entry.text text) :
    (retentionDiscipline texts lib config calls retained E).Raises i
      (fun h => (slot h.current retentionId).ClaimHeld i text) (lockRetention retentionId)
      (fun _ h => (slot h.current retentionId).HoldsBoth i) Anything := by
  have hheld : RetentionRobust texts lib config calls retained E i fun h =>
      (slot h.current retentionId).ClaimHeld i text := robust_claimHeld retentionId text
  have hboth : RetentionRobust texts lib config calls retained E i fun h =>
      (slot h.current retentionId).HoldsBoth i := robust_holdsBoth retentionId
  have hfail (error : Failure) : (retentionDiscipline texts lib config calls retained E).Raises i
      (fun h => (slot h.current retentionId).ClaimHeld i text)
      (do
        let _ ← rollbackPreRenameClaim retentionId
        throw error : RetentionProgram τ Unit)
      (fun _ h => (slot h.current retentionId).HoldsBoth i) Anything :=
    (rollbackPreRenameClaim_raises retentionId text).bind stable_anything fun _ =>
      raises_throw (stable_const True) fun _ _ _ => trivial
  unfold lockRetention
  refine Raises.bind (Raises.catch (hheld.raises_looking retention_looks
    (claimVerified_calls retentionId)) (fun _ => hheld.stable) fun _ =>
    Discipline.raises_pure hheld.stable fun _ _ h => h) stable_anything fun verified => ?_
  split
  · exact hfail _
  · refine Raises.bind ((renameAvailable_raises hfits).catch (fun _ => hboth.stable)
      fun _ => hfail _) stable_anything fun _ => ?_
    refine Raises.bind (hboth.raises_attempt retention_looks trivial) stable_anything
      fun synced => ?_
    exact (hboth.raises_ensure (stable_const True) fun _ _ => trivial).conseq (fun _ _ h => h)
      (fun _ _ _ h => h.2) fun _ _ _ h => h

/-- `claim_retention_for_promotion` ends with the record renamed under its claim. -/
theorem claimRetentionForPromotion_raises {total : ℤ}
    (hpromotes : Promotes calls record.retentionId i)
    (hloaded : Loaded texts lib config retained record.retentionId record)
    (hplanned : PlannedFrom ⟨record.reviewableFiles, total⟩ item) (workspaceRoot : String) :
    (retentionDiscipline texts lib config calls retained E).Raises i (fun _ => True)
      (claimRetentionForPromotion texts lib record item workspaceRoot config)
      (fun _ h => (slot h.current record.retentionId).HoldsBoth i) Anything := by
  have htrue : RetentionRobust texts lib config calls retained E i fun _ => True :=
    robust_const True
  unfold claimRetentionForPromotion
  refine Raises.bind (htrue.raises_looking retention_looks
    (inSandbox_looks ⟨trivial, fun _ => trivial⟩)) stable_anything fun rootBinding => ?_
  cases rootBinding with
  | none => exact raises_throw (stable_const True) fun _ _ _ => trivial
  | some rootBinding =>
    refine Raises.bind (htrue.raises_ensure (stable_const True) fun _ _ => trivial)
      stable_anything fun _ => triple_of_const fun hbound => ?_
    have hfits (entry : Entry ι τ) (hentry : retained record.retentionId = some entry) :
        PairConsistent texts lib config record.retentionId entry.text
          (lib.claims.stringify ⟨record, item, "prepared", some rootBinding.hex⟩) := by
      obtain ⟨entry', hentry', hfrom⟩ := hloaded
      obtain rfl := Option.some.inj (hentry'.symm.trans hentry)
      exact ⟨hfrom.identifier, hfrom.bounded, hfrom.fits, of_decide_eq_true hbound, _,
        hfrom.parsed, lib.claims.parse_stringify _, rfl,
        claimItemIsBound_of_planned hfrom hplanned⟩
    refine Raises.bind (Raises.catch (Raises.bind (createClaim_raises hpromotes) stable_anything
      fun _ => writeClaim_raises _ _) (fun _ => (robust_claimHeld _ _).stable) fun _ =>
      raises_throw (stable_const True) fun _ _ _ => trivial) stable_anything fun _ => ?_
    exact lockRetention_raises hfits

end Discipline

end Moonfort.Executor
