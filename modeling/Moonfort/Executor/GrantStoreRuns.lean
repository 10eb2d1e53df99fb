import Moonfort.Executor.GrantStoreSafety

/-!
# Grants in every run

What the calls on one store have done when they end, in whatever order their
steps were taken and wherever some of them stopped.
-/

namespace Moonfort.Executor

open Concurrent Concurrent.Discipline Sandbox

variable {ι τ : Type} [DecidableEq ι] {texts : Texts τ} {lib : GrantLibrary τ}
  {config : ExecutorConfig} {calls : ι → GrantCall}

/-! ## A store to run -/

/-- Files that hold a grant or nothing. -/
def sampleTexts : Texts (Option ExecutionGrant) := ⟨none, fun text => text.elim 0 fun _ => 512⟩

/-- Grants that stand in files as they are. -/
def sampleLibrary : GrantLibrary (Option ExecutionGrant) where
  grants := ⟨some, id, fun _ => rfl⟩
  sorted := fun values => values
  sha256Hex := fun _ => ""

/-- A deployment with one workspace and one local tool. -/
def sampleConfig : ExecutorConfig where
  scratchRoot := "/scratch"
  workspaces := [("w", ⟨"/work", [.localOs], [.deny], [], ["cc"], false⟩)]
  localTools := [("cc", "/bin/cc")]
  aenBackends := []
  limits := ⟨65536, 1000, 10, 64, 64, 4, 4096, 8, 256, 16⟩

/-- A grant for that deployment. -/
def sampleGrant : ExecutionGrant where
  protocolVersion := 3
  approvalId := "a"
  requestId := "r"
  workspaceId := "w"
  backend := .localOs
  enforcementRequirement := .requireEnforced
  network := .deny
  allowedEgress := []
  allowedCommands := ["cc"]
  limits := ⟨1000, 1, 64, 64, 1, 4096⟩
  workingDirectory := ""
  command := .exec "cc" []
  backendConfigId := "local"
  expiresAtMs := 100

/-- Two publishers of the grant and a consumer. -/
def sampleCalls : Fin 3 → GrantCall
  | 0 => .publish ⟨3, sampleGrant⟩
  | 1 => .publish ⟨3, sampleGrant⟩
  | 2 => .consume ⟨3, "a"⟩

/-- The calls on the empty store. -/
abbrev sampleStart : GrantConfig (Fin 3) (Option ExecutionGrant) :=
  grantStart sampleLibrary sampleConfig sampleCalls

/-- The steps of a publisher that nothing goes wrong for. -/
def publishSteps (i : Fin 3) (random : ℕ) :
    List (Fin 3 × FileChoice GrantName (Option ExecutionGrant) Unit) :=
  [.clock 7, .ok, .ok, .ok, .nonce random, .ok, .ok, .ok, .ok, .ok].map fun choice => (i, choice)

/-- The steps of a consumer that nothing goes wrong for. -/
def consumeSteps (i : Fin 3) :
    List (Fin 3 × FileChoice GrantName (Option ExecutionGrant) Unit) :=
  [.ok, .ok, .ok, .ok].map fun choice => (i, choice)

example : publicationRefusal 7 ⟨3, sampleGrant⟩ sampleConfig = "" := by decide

/-! ## Single use -/

/-- An accepted publication carries a valid grant. -/
theorem validateGrant_of_accepted {now : ℤ} {request : GrantPublicationRequest}
    (haccepted : publicationRefusal now request config = "") :
    validateGrant now request.grant ⟨3, request.grant.approvalId⟩ config = "" := by
  unfold publicationRefusal at haccepted
  split at haccepted
  · exact absurd haccepted (by decide)
  · split at haccepted
    · exact absurd haccepted (by decide)
    · exact haccepted

/-- The consumed file of the identity holds this grant, written there by a
publisher that found it valid at a time it read from the clock. -/
def WrittenByPublisher (lib : GrantLibrary τ) (config : ExecutorConfig) (calls : ι → GrantCall)
    (h : GrantHistory ι τ) (approvalId : String) (grant : ExecutionGrant) : Prop :=
  ∃ publisher request now, calls publisher = .publish request ∧ request.grant = grant ∧
    grant.approvalId = approvalId ∧
    (∃ e ∈ h.trace, e.who = publisher ∧ clockOf e = some now) ∧
    validateGrant now grant ⟨3, approvalId⟩ config = "" ∧
    h.current.files (.consumed approvalId) = some ⟨lib.grants.stringify grant, publisher⟩

/-- In every run, a grant is returned to one consumer, and it is a grant that a
publisher wrote for the identity after finding it valid. -/
theorem consumed_once {c : GrantConfig ι τ}
    (hreach : Config.Reachable (grantWorld texts) (grantStart lib config calls) c) {i : ι}
    {invocation : SandboxInvocation} {grant : ExecutionGrant}
    (hcall : calls i = .consume invocation)
    (hret : c.threads i = .ret (.consumed (.ok grant))) :
    (∀ j invocation' grant', calls j = .consume invocation' →
      invocation'.approvalId = invocation.approvalId →
      c.threads j = .ret (.consumed (.ok grant')) → j = i) ∧
    WrittenByPublisher lib config calls c.history invocation.approvalId grant := by
  obtain ⟨hinv, hended⟩ := grantStart_sound hreach
  have hpost := hended i _ hret
  rw [hcall] at hpost
  obtain ⟨entry, hgrant, hentry, hmoved⟩ := hpost
  refine ⟨fun j invocation' grant' hcall' hid hret' => ?_, ?_⟩
  · have hpost' := hended j _ hret'
    rw [hcall'] at hpost'
    obtain ⟨_, _, _, hmoved'⟩ := hpost'
    rw [hid, hmoved] at hmoved'
    exact (Option.some.inj hmoved').symm
  · obtain ⟨request, now, hpublisher, hid, htext, hclock, haccepted⟩ := hinv.consumed _ _ hentry
    rw [htext, lib.grants.parse_stringify, Option.some.injEq] at hgrant
    subst hgrant
    have hvalid := validateGrant_of_accepted haccepted
    rw [hid] at hvalid
    refine ⟨entry.writer, request, now, hpublisher, rfl, hid, hclock, hvalid, ?_⟩
    rw [hentry, ← htext]

/-- A grant published by the first call and consumed by the third. -/
theorem consumed_once_sample : ∃ c : GrantConfig (Fin 3) (Option ExecutionGrant),
    c.threads 2 = .ret (.consumed (.ok sampleGrant)) ∧
    (∀ j invocation' grant', sampleCalls j = .consume invocation' →
      invocation'.approvalId = "a" → c.threads j = .ret (.consumed (.ok grant')) → j = 2) ∧
    WrittenByPublisher sampleLibrary sampleConfig sampleCalls c.history "a" sampleGrant := by
  have hrun : (sampleStart.run? (grantWorld sampleTexts)
      (publishSteps 0 1 ++ consumeSteps 2)).map (fun c => c.threads 2) =
      some (.ret (.consumed (.ok sampleGrant))) := rfl
  obtain ⟨c, hreach, hret⟩ := Config.exists_reachable_of_run? hrun
  exact ⟨c, hret, consumed_once hreach rfl hret⟩

/-! ## Unique publication -/

/-- No identity is consumed between a publisher's look at `consumed/` and its
publication. -/
def ConsumptionsApart (trace : List (GrantEvent ι τ)) : Prop :=
  Always (fun e older => ∀ approvalId, publicationOf e = some approvalId →
    ¬ConsumedSinceCheck e.who approvalId older) trace

/-- Thread `i` published the identity at a time when nothing had consumed it. -/
def PublishedUnconsumed (i : ι) (approvalId : String) (h : GrantHistory ι τ) : Prop :=
  ∃ newer e older, h.trace = newer ++ e :: older ∧ e.who = i ∧
    publicationOf e = some approvalId ∧ e.before.files (.consumed approvalId) = none

/-- Where no consumption comes between look and publication, an identity is
published before it is consumed. -/
theorem consumed_none_of_apart {h : GrantHistory ι τ} (hinv : GrantInv lib config calls h)
    (hapart : ConsumptionsApart h.trace) {newer older : List (GrantEvent ι τ)} {e : GrantEvent ι τ}
    {approvalId : String} (htrace : h.trace = newer ++ e :: older)
    (hpublication : publicationOf e = some approvalId) :
    e.before.files (.consumed approvalId) = none := by
  have hsound := (htrace ▸ hinv.sound).of_append approvalId hpublication
  have hnot := (htrace ▸ hapart).of_append approvalId hpublication
  exact hsound.2.1.resolve_right hnot

/-- Where no consumption comes between look and publication, an identity is
published once. -/
theorem publication_unique {h : GrantHistory ι τ} (hinv : GrantInv lib config calls h)
    (hapart : ConsumptionsApart h.trace) {e e' : GrantEvent ι τ} {approvalId : String}
    (he : e ∈ h.trace) (he' : e' ∈ h.trace) (hpublication : publicationOf e = some approvalId)
    (hpublication' : publicationOf e' = some approvalId) : e = e' := by
  have hlatest {newer older : List (GrantEvent ι τ)} {e e' : GrantEvent ι τ}
      (htrace : h.trace = newer ++ e :: older) (hold : e' ∈ older)
      (hpublication : publicationOf e = some approvalId)
      (hpublication' : publicationOf e' = some approvalId) : False := by
    have hsound := (htrace ▸ hinv.sound).of_append approvalId hpublication
    have hconsumed := consumed_none_of_apart hinv hapart htrace hpublication
    rcases hsound.2.2 ⟨e', hold, hpublication'⟩ with hpending | hkept
    · simp [hsound.1] at hpending
    · simp [hconsumed] at hkept
  rcases eq_or_older_of_mem he he' with heq | ⟨_, _, htrace, hold⟩ | ⟨_, _, htrace, hold⟩
  · exact heq
  · exact (hlatest htrace hold hpublication hpublication').elim
  · exact (hlatest htrace hold hpublication' hpublication).elim

/-- In every run in which no identity is consumed between a publisher's look at
`consumed/` and its publication, one call reports an identity as published, and
it published it before anything consumed it. -/
theorem published_once_of_apart {c : GrantConfig ι τ}
    (hreach : Config.Reachable (grantWorld texts) (grantStart lib config calls) c)
    (hapart : ConsumptionsApart c.history.trace) {i : ι} {request : GrantPublicationRequest}
    {response : GrantPublicationResponse} (hcall : calls i = .publish request)
    (hret : c.threads i = .ret (.published (.ok response))) (hreport : response.published = true) :
    (∀ j request' response', calls j = .publish request' →
      request'.grant.approvalId = request.grant.approvalId →
      c.threads j = .ret (.published (.ok response')) → response'.published = true → j = i) ∧
    PublishedUnconsumed i request.grant.approvalId c.history := by
  obtain ⟨hinv, hended⟩ := grantStart_sound hreach
  have hpost := hended i _ hret
  rw [hcall] at hpost
  obtain ⟨e, he, hwho, hpublication⟩ := hpost hreport
  refine ⟨fun j request' response' hcall' hid hret' hreport' => ?_, ?_⟩
  · have hpost' := hended j _ hret'
    rw [hcall'] at hpost'
    obtain ⟨e', he', hwho', hpublication'⟩ := hpost' hreport'
    rw [hid] at hpublication'
    rw [← hwho, ← hwho', publication_unique hinv hapart he he' hpublication hpublication']
  · obtain ⟨newer, older, htrace⟩ := List.append_of_mem he
    exact ⟨newer, e, older, htrace, hwho, hpublication,
      consumed_none_of_apart hinv hapart htrace hpublication⟩

/-- Where nothing is consumed before the last publication, nothing is consumed in between. -/
theorem ConsumptionsApart.of_pairwise {trace : List (GrantEvent ι τ)}
    (h : trace.Pairwise fun e older => publicationOf e = none ∨ consumptionOf older = none) :
    ConsumptionsApart trace := by
  induction h with
  | nil => trivial
  | @cons e older holder _ ih =>
    refine ⟨fun approvalId hpublication hsince => ?_, ih⟩
    obtain ⟨e', he', hconsumed⟩ := hsince.exists_mem
    rcases holder e' he' with hnone | hnone
    · rw [hpublication] at hnone
      cases hnone
    · rw [hconsumed] at hnone
      cases hnone

/-- The first publisher publishes while the second one stands behind its checks. The second one
ends without a publication, and the grant is consumed once. -/
theorem published_once_of_apart_sample : ∃ c : GrantConfig (Fin 3) (Option ExecutionGrant),
    c.threads 0 = .ret (.published (.ok ⟨3, "a", "", true, none⟩)) ∧
    c.threads 1 = .ret (.published (.ok (refusedPublication "a" "publication-refused"
      "grant could not be published atomically"))) ∧
    c.threads 2 = .ret (.consumed (.ok sampleGrant)) ∧
    (∀ j request' response', sampleCalls j = .publish request' →
      request'.grant.approvalId = "a" → c.threads j = .ret (.published (.ok response')) →
      response'.published = true → j = 0) ∧
    PublishedUnconsumed 0 "a" c.history := by
  have hrun : (sampleStart.run? (grantWorld sampleTexts)
      ((publishSteps 1 2).take 4 ++ publishSteps 0 1 ++ (publishSteps 1 2).drop 4 ++ [(1, .ok)] ++
        consumeSteps 2)).map (fun c => (c.threads 0, c.threads 1, c.threads 2,
      decide (c.history.trace.Pairwise fun e older =>
        publicationOf e = none ∨ consumptionOf older = none))) =
      some (.ret (.published (.ok ⟨3, "a", "", true, none⟩)),
        .ret (.published (.ok (refusedPublication "a" "publication-refused"
          "grant could not be published atomically"))),
        .ret (.consumed (.ok sampleGrant)), true) := rfl
  obtain ⟨c, hreach, hview⟩ := Config.exists_reachable_of_run? hrun
  rw [Prod.mk.injEq, Prod.mk.injEq, Prod.mk.injEq] at hview
  obtain ⟨hfirst, hsecond, hconsumer, hapart⟩ := hview
  exact ⟨c, hfirst, hsecond, hconsumer,
    published_once_of_apart hreach (.of_pairwise (of_decide_eq_true hapart)) rfl hfirst rfl⟩

/-- The second publisher checks, publishes and is consumed from while the first
stands between its checks and its rename: both report the identity as published,
the first one after the consumption. -/
theorem published_twice_sample : ∃ c : GrantConfig (Fin 3) (Option ExecutionGrant),
    Config.Reachable (grantWorld sampleTexts) sampleStart c ∧
    c.threads 0 = .ret (.published (.ok ⟨3, "a", "", true, none⟩)) ∧
    c.threads 1 = .ret (.published (.ok ⟨3, "a", "", true, none⟩)) ∧
    c.threads 2 = .ret (.consumed (.ok sampleGrant)) := by
  have hrun : (sampleStart.run? (grantWorld sampleTexts)
      ((publishSteps 0 1).take 4 ++ publishSteps 1 2 ++ consumeSteps 2 ++
        (publishSteps 0 1).drop 4)).map (fun c => (c.threads 0, c.threads 1, c.threads 2)) =
      some (.ret (.published (.ok ⟨3, "a", "", true, none⟩)),
        .ret (.published (.ok ⟨3, "a", "", true, none⟩)), .ret (.consumed (.ok sampleGrant))) := rfl
  obtain ⟨c, hreach, hret⟩ := Config.exists_reachable_of_run? hrun
  rw [Prod.mk.injEq, Prod.mk.injEq] at hret
  exact ⟨c, hreach, hret⟩

end Moonfort.Executor
