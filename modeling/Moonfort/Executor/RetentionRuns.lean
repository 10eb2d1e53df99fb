import Moonfort.Executor.RetentionCalls

/-!
# Retentions in every run

What promotions and sweeps of one store have done and what they leave, in
whatever order their steps were taken and wherever some of them stopped.
-/

namespace Moonfort.Executor

open Concurrent Concurrent.Discipline MoonBit Sandbox

variable {ι τ XC S : Type} [DecidableEq ι] {texts : Texts τ} {lib : RetentionLibrary τ}
  {config : ExecutorConfig} {calls : ι → RetentionCall} {retained : String → Option (Entry ι τ)}
  {E : World ι SandboxOp SandboxOp.Res XC S} {outside : S} {c : RetentionConfig ι τ S}

/-! ## A store to run -/

/-- Files that hold a record, a claim or nothing. -/
abbrev SampleText := Option (RetentionRecord ⊕ PromotionClaim)

/-- Their sizes. -/
def sampleRetentionTexts : Texts SampleText := ⟨none, fun text => text.elim 0 fun _ => 512⟩

/-- A digest made of one digit. -/
def digitDigest (c : Char) (h : sha256Digest (String.ofList (List.replicate 64 c)) = true) :
    Digest :=
  ⟨String.ofList (List.replicate 64 c), h⟩

/-- Records and claims that stand in files as they are. -/
def sampleRetentionLibrary : RetentionLibrary SampleText where
  records := ⟨fun record => some (.inl record), fun text => text.bind Sum.getLeft?, fun _ => rfl⟩
  claims := ⟨fun claim => some (.inr claim), fun text => text.bind Sum.getRight?, fun _ => rfl⟩
  sortedByPath := fun entries => entries
  sha256 := fun _ => digitDigest '0' (sha256Digest_replicate (by decide))
  pid := 7

/-- A deployment with one workspace. -/
def sampleRetentionConfig : ExecutorConfig where
  scratchRoot := "/scratch"
  workspaces := [("w", ⟨"/work", [.localOs], [.deny], [], ["cc"], false⟩)]
  localTools := [("cc", "/bin/cc")]
  aenBackends := []
  limits := ⟨65536, 1000, 10, 64, 64, 4, 4096, 8, 256, 16⟩

/-- An empty file that a run left in its scratch tree. -/
def sampleScratchEntry : ScratchEntry :=
  ⟨"out", .regularFile, 0, (digitDigest '0' (sha256Digest_replicate (by decide))).hex⟩

/-- The record of that run, until the time 100. -/
def sampleRecord : RetentionRecord where
  retentionId := "r"
  scratchPath := "/scratch/r"
  expiresAtMs := 100
  workspaceId := "w"
  profileDigest := (digitDigest '1' (sha256Digest_replicate (by decide))).hex
  approvalDigest := (digitDigest '2' (sha256Digest_replicate (by decide))).hex
  commandDigest := (digitDigest '3' (sha256Digest_replicate (by decide))).hex
  reviewableFiles := [sampleScratchEntry]

/-- A promotion of the file. -/
def sampleRequest : RetentionPromotionRequest where
  protocolVersion := 4
  retentionId := "r"
  workspaceId := "w"
  approvalDigest := sampleRecord.approvalDigest
  commandDigest := sampleRecord.commandDigest
  items := [⟨"out", "out"⟩]

/-- System calls that all go well on a source without content and a destination
that does not exist. -/
def sampleNativeAnswer : (op : NativeOp) → op.Res
  | .openRoots | .openSourceParent | .openDestinationParent | .restatSource | .writeOutput _ _
  | .syncOutput | .syncDirectory => true
  | .openSource => some 0
  | .readSource => .eof
  | .fstatat _ => .absent
  | .openat _ => none
  | .hashRegularDescriptor _ _ => none
  | .nextNonce => 0
  | .createTemporary _ => .created 10
  | .renameNoReplace _ _ | .exchange _ _ | .exchangeBack _ _ => .done
  | .unlinkat _ => .done
  | .replace _ => ()

/-- Steps outside the directory that all go well. -/
def sampleAnswer : (op : SandboxOp) → op.Res
  | .realpath path => .ok path
  | .kind _ => .ok .directory
  | .readdir _ => .ok []
  | .inventoryScratch _ _ => .ok (.ok ⟨[sampleScratchEntry], 0⟩)
  | .secureDestinationState _ _ => .absent
  | .native op => sampleNativeAnswer op
  | .workspaceRootBindingDigest _ _ => some (digitDigest '4' (by decide))
  | .openTree _ => some 1
  | .removeEntry _ => true

/-- They go on outside the directory, where the native calls are counted. -/
def sampleOutside : World (Fin 2) SandboxOp SandboxOp.Res Unit ℕ where
  act _ op _ s := some (sampleAnswer op, match op with
    | .native _ => s + 1
    | _ => s)

/-- A promoter and a sweeper. -/
def sampleRetentionCalls : Fin 2 → RetentionCall
  | 0 => .promote sampleRequest
  | 1 => .sweep

/-- A store with the one retention. -/
def sampleRetained (retentionId : String) : Option (Entry (Fin 2) SampleText) :=
  if retentionId = "r" then some ⟨some (.inl sampleRecord), 0⟩ else none

/-- The calls on this store. -/
abbrev sampleRetentionStart : RetentionConfig (Fin 2) SampleText ℕ :=
  retentionStart sampleRetentionTexts sampleRetentionLibrary sampleRetentionConfig
    sampleRetentionCalls sampleRetained 0

/-- A choice of the environment for the sample runs. -/
abbrev SampleChoice := FileChoice RetentionName SampleText Unit

/-- The steps of one thread. -/
def stepsOf (i : Fin 2) (choices : List SampleChoice) : List (Fin 2 × SampleChoice) :=
  choices.map fun choice => (i, choice)

/-- The promoter up to its claim. -/
def loadSteps : List (Fin 2 × SampleChoice) :=
  stepsOf 0 ([.ok, .ok, .ok, .clock 7] ++ List.replicate 8 (.elsewhere ()))

/-- The promoter claims the retention. -/
def claimSteps : List (Fin 2 × SampleChoice) :=
  stepsOf 0 [.ok, .ok, .ok, .ok, .ok, .ok, .ok]

/-- The promoter applies the promotion and cleans up. -/
def applySteps : List (Fin 2 × SampleChoice) :=
  stepsOf 0 (List.replicate 18 (.elsewhere ()) ++ [.ok, .ok, .ok])

/-- The sweeper up to its discard, after the retention expired. -/
def checkSteps : List (Fin 2 × SampleChoice) :=
  stepsOf 1 [.clock 200, .names [.available "r"], .ok, .ok, .ok]

/-- The sweeper discards the scratch tree and removes the record. -/
def discardSteps : List (Fin 2 × SampleChoice) :=
  stepsOf 1 [.elsewhere (), .elsewhere (), .ok]

/-! ## Promotion at most once -/

/-- Only native calls change what `destination` shows of the outside. -/
def ChangedByNative {γ : Type} (E : World ι SandboxOp SandboxOp.Res XC S) (destination : S → γ) :
    Prop :=
  ∀ i op s result s', (∀ native, op ≠ .native native) → E.Effect i op s result s' →
    destination s' = destination s

/-- Only a promoter that holds its claim and its renamed record makes native calls. -/
theorem holdsBoth_of_native {h : RetentionHistory ι τ S}
    (hinv : RetentionInv texts lib config calls retained h) {e : RetentionEvent ι τ S}
    (he : e ∈ h.trace) {native : NativeOp} (hop : e.op = .elsewhere (.native native)) :
    ∃ request, calls e.who = .promote request ∧
      (slot e.before request.retentionId).HoldsBoth e.who := by
  obtain ⟨newer, older, htrace⟩ := List.append_of_mem he
  have hpermitted := (htrace ▸ hinv.sound).of_append
  rw [hop] at hpermitted
  rcases hpermitted with hlook | ⟨_, ⟨request, hcall, rfl⟩, hboth⟩ | ⟨_, _, hdiscards, _⟩
  · exact hlook.elim
  · exact ⟨request, hcall, hboth⟩
  · rcases hdiscards with hdiscards | hdiscards <;> cases hdiscards

/-- In every run of promotions and sweeps, cut anywhere: of the promotions of one
retention at most one ends with an applied destination, and what only native
calls change outside the store changes only in a step of a promoter that holds
the claim and the renamed record of its retention. -/
theorem promoted_once
    (hreach : Config.Reachable (fileWorld texts E)
      (retentionStart texts lib config calls retained outside) c) :
    (∀ i j request request' response response', calls i = .promote request →
      calls j = .promote request' → request'.retentionId = request.retentionId →
      c.threads i = .ret (.promoted (.ok response)) →
      response.destinationOutcome = "applied-durable" →
      c.threads j = .ret (.promoted (.ok response')) →
      response'.destinationOutcome = "applied-durable" → i = j) ∧
    ∀ {γ : Type} (destination : S → γ), ChangedByNative E destination →
      ∀ e ∈ c.history.trace, destination e.after.elsewhere ≠ destination e.before.elsewhere →
        ∃ request, calls e.who = .promote request ∧
          (slot e.before request.retentionId).HoldsBoth e.who := by
  obtain ⟨hinv, hended⟩ := retentionStart_sound hreach
  refine ⟨fun i j request request' response response' hi hj hid hreti happlied hretj happlied' =>
    ?_, fun destination hdestination e he hchanged => ?_⟩
  · have hposti := hended i _ hreti
    have hpostj := hended j _ hretj
    rw [hi] at hposti
    rw [hj] at hpostj
    have hspent : (slot c.history.current request'.retentionId).Spent j := hpostj happlied'
    rw [hid] at hspent
    exact (hposti happlied).eq hspent
  · have heffect := hreach.effects rfl e he
    obtain ⟨who, op, result, before, after⟩ := e
    cases op with
    | elsewhere op =>
      by_cases hnative : ∃ native, op = .native native
      · obtain ⟨native, rfl⟩ := hnative
        exact holdsBoth_of_native hinv he rfl
      · obtain ⟨rest, houtside, hafter⟩ := effect_elsewhere heffect
        have hkept : destination rest = destination before.elsewhere :=
          hdestination who op _ result rest (fun native heq => hnative ⟨native, heq⟩) houtside
        rw [hafter] at hchanged
        exact absurd hkept hchanged
    | _ => exact absurd (congrArg destination (elsewhere_of_effect heffect nofun)) hchanged

/-- A promotion that nothing comes between. -/
theorem promoted_once_sample : ∃ c : RetentionConfig (Fin 2) SampleText ℕ,
    (∃ response, c.threads 0 = .ret (.promoted (.ok response)) ∧
      response.destinationOutcome = "applied-durable" ∧
      ∀ j request' response', sampleRetentionCalls j = .promote request' →
        request'.retentionId = "r" → c.threads j = .ret (.promoted (.ok response')) →
        response'.destinationOutcome = "applied-durable" → 0 = j) ∧
    c.history.current.elsewhere = 12 ∧
    ∀ e ∈ c.history.trace, e.after.elsewhere ≠ e.before.elsewhere →
      ∃ request, sampleRetentionCalls e.who = .promote request ∧
        (slot e.before request.retentionId).HoldsBoth e.who := by
  have hrun : (sampleRetentionStart.run? (fileWorld sampleRetentionTexts sampleOutside)
      (loadSteps ++ claimSteps ++ applySteps)).map (fun c =>
        (c.threads 0, c.history.current.elsewhere)) =
      some (.ret (.promoted (.ok (triedPromotion "r" sampleRecord ["out"] "applied-durable" []
        none))), 12) := rfl
  obtain ⟨c, hreach, hview⟩ := Config.exists_reachable_of_run? hrun
  rw [Prod.mk.injEq] at hview
  obtain ⟨honce, hheld⟩ := promoted_once hreach
  refine ⟨c, ⟨_, hview.1, rfl, fun j request' response' hcall hid hret happlied =>
    honce 0 j sampleRequest request' _ response' rfl hcall hid hview.1 rfl hret happlied⟩,
    hview.2, hheld id ?_⟩
  rintro i op s result s' hop ⟨_, hact⟩
  cases op with
  | native op => exact absurd rfl (hop op)
  | _ => cases hact; rfl

/-! ## What a run leaves -/

/-- The files as a reader finds them. -/
def contents (s : RetentionState ι τ S) (name : RetentionName) : Option τ :=
  (s.files name).map (·.text)

/-- The record is there, and nobody has claimed it. -/
def Promotable (retained : String → Option (Entry ι τ)) (s : RetentionState ι τ S)
    (retentionId : String) : Prop :=
  (∃ entry, retained retentionId = some entry ∧ s.files (.available retentionId) = some entry) ∧
    s.files (.promoting retentionId) = none ∧ s.files (.claim retentionId) = none

/-- Recovery inspection accepts what is there. -/
def Inspectable (texts : Texts τ) (lib : RetentionLibrary τ) (config : ExecutorConfig)
    (s : RetentionState ι τ S) (retentionId : String) : Prop :=
  (loadLockedPromotionClaim texts lib (contents s) retentionId config).isSome = true

/-- Nothing is left of the retention. -/
def Finished (s : RetentionState ι τ S) (retentionId : String) : Prop :=
  s.files (.available retentionId) = none ∧ s.files (.promoting retentionId) = none ∧
    s.files (.claim retentionId) = none

/-- The claim of a promotion locks the retention for an operator: its record is not
renamed, and is the retained one or gone. -/
def LockedByClaim (calls : ι → RetentionCall) (retained : String → Option (Entry ι τ))
    (s : RetentionState ι τ S) (retentionId : String) : Prop :=
  (∃ entry, s.files (.claim retentionId) = some entry ∧
    Promotes calls retentionId entry.writer) ∧
  s.files (.promoting retentionId) = none ∧
  ∀ entry, s.files (.available retentionId) = some entry → retained retentionId = some entry

omit [DecidableEq ι] in
/-- A consistent pair is one that recovery inspection accepts. -/
theorem inspectable_of_pair {s : RetentionState ι τ S} {retentionId : String}
    {promoting claim : Entry ι τ} (hpromoting : s.files (.promoting retentionId) = some promoting)
    (hclaim : s.files (.claim retentionId) = some claim)
    (havailable : s.files (.available retentionId) = none)
    (hpair : PairConsistent texts lib config retentionId promoting.text claim.text) :
    Inspectable texts lib config s retentionId := by
  obtain ⟨bound, hrecord, hparsed, hid, hbound⟩ := hpair.bound
  have hloaded : loadLockedPromotionClaim texts lib (contents s) retentionId config =
      some bound := by
    simp [loadLockedPromotionClaim, contents, hpromoting, hclaim, havailable, hpair.identifier,
      hpair.bounded, hpair.recordFits, hpair.claimFits, hrecord, hparsed, hid, hbound, guard]
  rw [Inspectable, hloaded]
  rfl

/-- In every run, cut anywhere, every retention is promotable, inspectable, finished
or locked by the claim of a promotion. -/
theorem left_recoverable
    (hreach : Config.Reachable (fileWorld texts E)
      (retentionStart texts lib config calls retained outside) c) (retentionId : String) :
    Promotable retained c.history.current retentionId ∨
      Inspectable texts lib config c.history.current retentionId ∨
      Finished c.history.current retentionId ∨
      LockedByClaim calls retained c.history.current retentionId := by
  have hinv := (retentionStart_sound hreach).1.slots retentionId
  cases hpromoting : c.history.current.files (.promoting retentionId) with
  | some promoting =>
    obtain ⟨_, havailable, text, i, hclaim, _, hpair⟩ := hinv.locked promoting hpromoting
    exact .inr (.inl (inspectable_of_pair hpromoting hclaim havailable hpair))
  | none =>
    cases hclaim : c.history.current.files (.claim retentionId) with
    | some claim =>
      exact .inr (.inr (.inr ⟨⟨claim, hclaim, hinv.claimed claim hclaim⟩, hpromoting,
        hinv.original⟩))
    | none =>
      cases havailable : c.history.current.files (.available retentionId) with
      | some entry =>
        exact .inl ⟨⟨entry, hinv.original entry havailable, havailable⟩, hpromoting, hclaim⟩
      | none => exact .inr (.inr (.inl ⟨havailable, hpromoting, hclaim⟩))

/-- A promoter that stops with the record renamed leaves it to inspection. -/
theorem left_recoverable_sample : ∃ c : RetentionConfig (Fin 2) SampleText ℕ,
    (slot c.history.current "r").HoldsBoth 0 ∧
    (Promotable sampleRetained c.history.current "r" ∨
      Inspectable sampleRetentionTexts sampleRetentionLibrary sampleRetentionConfig
        c.history.current "r" ∨
      Finished c.history.current "r" ∨
      LockedByClaim sampleRetentionCalls sampleRetained c.history.current "r") := by
  have hrun : (sampleRetentionStart.run? (fileWorld sampleRetentionTexts sampleOutside)
      (loadSteps ++ claimSteps)).map (fun c =>
        ((slot c.history.current "r").claim.map (·.writer),
          (slot c.history.current "r").promoting.isSome, (slot c.history.current "r").mover)) =
      some (some 0, true, some 0) := rfl
  obtain ⟨c, hreach, hview⟩ := Config.exists_reachable_of_run? hrun
  rw [Prod.mk.injEq, Prod.mk.injEq] at hview
  obtain ⟨⟨text, writer⟩, hclaim, rfl⟩ := Option.map_eq_some_iff.mp hview.1
  exact ⟨c, ⟨⟨text, hclaim⟩, hview.2.1, hview.2.2⟩, left_recoverable hreach "r"⟩

/-- A promoter that stops right after it created its claim leaves the retention
neither promotable nor inspectable nor finished. -/
theorem left_unrecoverable_sample : ∃ c : RetentionConfig (Fin 2) SampleText ℕ,
    Config.Reachable (fileWorld sampleRetentionTexts sampleOutside) sampleRetentionStart c ∧
    ¬Promotable sampleRetained c.history.current "r" ∧
    ¬Inspectable sampleRetentionTexts sampleRetentionLibrary sampleRetentionConfig
      c.history.current "r" ∧
    ¬Finished c.history.current "r" := by
  have hrun : (sampleRetentionStart.run? (fileWorld sampleRetentionTexts sampleOutside)
      (loadSteps ++ [(0, .ok)])).map (fun c => ((c.history.current.files (.claim "r")).isSome,
        loadLockedPromotionClaim sampleRetentionTexts sampleRetentionLibrary
          (contents c.history.current) "r" sampleRetentionConfig)) =
      some (true, none) := rfl
  obtain ⟨c, hreach, hview⟩ := Config.exists_reachable_of_run? hrun
  rw [Prod.mk.injEq] at hview
  refine ⟨c, hreach, fun hpromotable => ?_, fun hinspectable => ?_, fun hfinished => ?_⟩
  · simp [hpromotable.2.2] at hview
  · simp [Inspectable, hview.2] at hinspectable
  · simp [hfinished.2.2] at hview

/-! ## Sweeps and claims -/

/-- The scratch tree that a step opens for its discard or removes an entry of. -/
def discardedTree : RetentionEvent ι τ S → Option String
  | ⟨_, .elsewhere (.openTree path), _, _, _⟩ => some path
  | ⟨_, .elsewhere (.removeEntry path), _, _, _⟩ => some path
  | _ => none

/-- The retention whose record a step removes. -/
def removedRecord : RetentionEvent ι τ S → Option String
  | ⟨_, .remove (.available retentionId), removed, _, _⟩ =>
    if removed then some retentionId else none
  | _ => none

/-- A sweeper discards the scratch tree of the retention or removes its record. -/
def Sweeps (config : ExecutorConfig) (calls : ι → RetentionCall) (retentionId : String)
    (e : RetentionEvent ι τ S) : Prop :=
  calls e.who = .sweep ∧
    (discardedTree e = some (scratchPathOf config retentionId) ∨
      removedRecord e = some retentionId)

/-- No retention is claimed between a sweeper's look at its claim and the steps that
discard its scratch tree and remove its record. -/
def ClaimsApart (config : ExecutorConfig) (calls : ι → RetentionCall)
    (trace : List (RetentionEvent ι τ S)) : Prop :=
  Always (fun e older => ∀ retentionId, Sweeps config calls retentionId e →
    ¬ClaimedSinceCheck e.who retentionId older) trace

/-- Different retentions have different scratch trees. -/
theorem scratchPathOf_injective : Function.Injective (scratchPathOf config) := by
  intro a b h
  simp only [scratchPathOf] at h
  have hlist := congrArg String.toList h
  simp only [String.toList_append, List.append_assoc, List.append_cancel_left_eq] at hlist
  exact String.toList_inj.mp hlist

/-- A sweeper sweeps what nobody has claimed, or what was claimed since it looked. -/
theorem unclaimed_of_sweeps {e : RetentionEvent ι τ S} {older : List (RetentionEvent ι τ S)}
    {retentionId : String} (hsweeps : Sweeps config calls retentionId e)
    (hpermitted : RetentionPermitted texts lib config calls e.who e.op ⟨e.before, older⟩) :
    Unclaimed e.who retentionId ⟨e.before, older⟩ := by
  obtain ⟨who, op, result, before, after⟩ := e
  obtain ⟨hcall, hwhat⟩ := hsweeps
  have hdiscard {op : SandboxOp} (hop : op.Discards (scratchPathOf config retentionId))
      (hpermitted : RetentionPermitted texts lib config calls who (.elsewhere op)
        ⟨before, older⟩) : Unclaimed who retentionId ⟨before, older⟩ := by
    rcases hpermitted with hlook | ⟨_, ⟨_, hpromote, _⟩, _⟩ | ⟨_, swept, hdiscards, hunclaimed⟩
    · rcases hop with rfl | rfl <;> exact hlook.elim
    · cases hcall.symm.trans hpromote
    · have hpath : scratchPathOf config retentionId = scratchPathOf config swept := by
        rcases hop with rfl | rfl <;> rcases hdiscards with h | h
        · exact SandboxOp.openTree.inj h
        · cases h
        · cases h
        · exact SandboxOp.removeEntry.inj h
      rw [scratchPathOf_injective hpath]
      exact hunclaimed
  cases op with
  | remove path =>
    cases path with
    | available swept =>
      rcases hwhat with hwhat | hwhat
      · cases hwhat
      · obtain rfl : swept = retentionId := by
          simp only [removedRecord] at hwhat
          split at hwhat <;> cases hwhat
          rfl
        exact hpermitted.2
    | _ => rcases hwhat with hwhat | hwhat <;> cases hwhat
  | elsewhere op =>
    cases op with
    | openTree path =>
      rcases hwhat with hwhat | hwhat
      · cases hwhat
        exact hdiscard (.inl rfl) hpermitted
      · cases hwhat
    | removeEntry path =>
      rcases hwhat with hwhat | hwhat
      · cases hwhat
        exact hdiscard (.inr rfl) hpermitted
      · cases hwhat
    | _ => rcases hwhat with hwhat | hwhat <;> cases hwhat
  | _ => rcases hwhat with hwhat | hwhat <;> cases hwhat

/-- In every run in which no retention is claimed between a sweeper's look and its
discard, a sweeper only discards and removes what nobody has claimed. -/
theorem swept_unclaimed_of_apart
    (hreach : Config.Reachable (fileWorld texts E)
      (retentionStart texts lib config calls retained outside) c)
    (hapart : ClaimsApart config calls c.history.trace) :
    ∀ e ∈ c.history.trace, ∀ retentionId, Sweeps config calls retentionId e →
      e.before.files (.claim retentionId) = none := by
  intro e he retentionId hsweeps
  obtain ⟨newer, older, htrace⟩ := List.append_of_mem he
  have hinv := (retentionStart_sound hreach).1
  have hpermitted := (htrace ▸ hinv.sound).of_append
  have hnot := (htrace ▸ hapart).of_append retentionId hsweeps
  exact (unclaimed_of_sweeps hsweeps hpermitted).resolve_right hnot

omit [DecidableEq ι] in
/-- Where nothing is claimed before the last step of a sweep, nothing is claimed in between. -/
theorem ClaimsApart.of_pairwise [DecidableEq ι] {trace : List (RetentionEvent ι τ S)}
    (h : trace.Pairwise fun e older =>
      (discardedTree e = none ∧ removedRecord e = none) ∨ claimOf older = none) :
    ClaimsApart config calls trace := by
  induction h with
  | nil => trivial
  | @cons e older holder _ ih =>
    refine ⟨fun retentionId hsweeps hsince => ?_, ih⟩
    obtain ⟨e', he', hclaimed⟩ := hsince.exists_mem
    rcases holder e' he' with ⟨htree, hrecord⟩ | hnone
    · have hwhat := hsweeps.2
      rw [htree, hrecord] at hwhat
      rcases hwhat with hwhat | hwhat <;> cases hwhat
    · rw [hclaimed] at hnone
      cases hnone

/-- The promoter loads the record just before it expires, and claims it once the sweeper has
discarded its scratch tree and removed it. -/
theorem swept_unclaimed_of_apart_sample : ∃ c : RetentionConfig (Fin 2) SampleText ℕ,
    c.threads 1 = .ret (.swept (.ok 1)) ∧ (∃ e ∈ c.history.trace, claimOf e = some "r") ∧
    (∃ e ∈ c.history.trace, Sweeps sampleRetentionConfig sampleRetentionCalls "r" e) ∧
    ∀ e ∈ c.history.trace, ∀ retentionId,
      Sweeps sampleRetentionConfig sampleRetentionCalls retentionId e →
        e.before.files (.claim retentionId) = none := by
  have hrun : (sampleRetentionStart.run? (fileWorld sampleRetentionTexts sampleOutside)
      (loadSteps ++ checkSteps ++ discardSteps ++ claimSteps)).map (fun c => (c.threads 1,
        c.history.trace.any fun e => decide (claimOf e = some "r"),
        c.history.trace.any fun e => decide (e.who = 1 ∧ removedRecord e = some "r"),
        decide (c.history.trace.Pairwise fun e older =>
          (discardedTree e = none ∧ removedRecord e = none) ∨ claimOf older = none))) =
      some (.ret (.swept (.ok 1)), true, true, true) := rfl
  obtain ⟨c, hreach, hview⟩ := Config.exists_reachable_of_run? hrun
  simp only [Prod.mk.injEq] at hview
  obtain ⟨hswept, hclaim, hsweep, hapart⟩ := hview
  obtain ⟨e, he, hclaimed⟩ := List.any_eq_true.mp hclaim
  obtain ⟨e', he', hremoved⟩ := List.any_eq_true.mp hsweep
  obtain ⟨hwho, hrecord⟩ := of_decide_eq_true hremoved
  have hcall : sampleRetentionCalls e'.who = .sweep := by
    rw [hwho]
    rfl
  exact ⟨c, hswept, ⟨e, he, of_decide_eq_true hclaimed⟩, ⟨e', he', hcall, .inr hrecord⟩,
    swept_unclaimed_of_apart hreach (.of_pairwise (of_decide_eq_true hapart))⟩

/-- The sweep of a claimed retention in a step of the sample runs. -/
def sweepsClaimed (e : RetentionEvent (Fin 2) SampleText ℕ) : Bool :=
  e.who = 1 && (discardedTree e = some "/scratch/r" || removedRecord e = some "r") &&
    (e.before.files (.claim "r")).isSome

/-- The promoter loads the record just before it expires and claims it after the
sweeper has looked: the sweeper discards the scratch tree of the claimed retention. -/
theorem swept_claimed_sample : ∃ c : RetentionConfig (Fin 2) SampleText ℕ,
    Config.Reachable (fileWorld sampleRetentionTexts sampleOutside) sampleRetentionStart c ∧
    ∃ e ∈ c.history.trace, Sweeps sampleRetentionConfig sampleRetentionCalls "r" e ∧
      (e.before.files (.claim "r")).isSome = true := by
  have hrun : (sampleRetentionStart.run? (fileWorld sampleRetentionTexts sampleOutside)
      (loadSteps ++ checkSteps ++ claimSteps ++ discardSteps.take 2)).map (fun c =>
        c.history.trace.any sweepsClaimed) = some true := rfl
  obtain ⟨c, hreach, hview⟩ := Config.exists_reachable_of_run? hrun
  obtain ⟨e, he, hsweeps⟩ := List.any_eq_true.mp hview
  simp only [sweepsClaimed, Bool.and_eq_true, Bool.or_eq_true, decide_eq_true_eq] at hsweeps
  refine ⟨c, hreach, e, he, ⟨?_, hsweeps.1.2⟩, hsweeps.2⟩
  rw [hsweeps.1.1]
  rfl

end Moonfort.Executor
