import Moonfort.Executor.CommandOutputRead
import Moonfort.Executor.GrantAdmission
import Mathlib.Logic.Relation

/-!
# The writer of a live output

One run begins its stream, appends to the blob, signs the blob that it leaves and
publishes that reference. What holds of the two files at any moment, and what
stays between two moments, is what a reader may rely on.
-/

namespace Moonfort.Executor

open MoonBit Sandbox

/-- How far the writer of a stream is. -/
inductive WriterPhase where
  | idle
  | appending (record : LiveOutputRecord)
  | signed (record : LiveOutputRecord)
  | finished

/-- The two files of a stream, the clock, and the progress of their writer. -/
structure WriterState where
  now : ℤ
  blob : Option (List UInt8)
  manifest : Option LiveOutputRecord
  phase : WriterPhase

/-- The bytes of the blob; a blob that does not exist has none. -/
def WriterState.bytes (w : WriterState) : List UInt8 := w.blob.getD []

/-- The host answers what the blob holds, where it answers. -/
structure FinalizeReading.Truthful (host : FinalizeReading) (w : WriterState) : Prop where
  blobExists : host.blobExists = true → w.blob.isSome = true
  creates : host.creates = true → w.blob = none
  size : ∀ size ∈ host.size, size = w.bytes.length
  complete : ∀ chunks ∈ host.complete.chunks, chunks.flatten = w.bytes

variable {crypto : Crypto} {config : Deployment} {approvalId : String}

/-- One step of the writer, or of the clock. -/
inductive WriterStep (crypto : Crypto) (config : Deployment) (approvalId : String) :
    WriterState → WriterState → Prop
  /-- Time passes. -/
  | tick {w : WriterState} (now : ℤ) (hnow : w.now ≤ now) :
      WriterStep crypto config approvalId w { w with now := now }
  /-- `begin_live_output`. -/
  | start {w : WriterState} (runId approvalDigest : String) (reference : LiveOutputReference)
      (hphase : w.phase = .idle)
      (hreference : beginLiveOutput crypto runId approvalId approvalDigest w.now config =
        some reference)
      (hwritable : liveOutputRecordWritable crypto ⟨reference, approvalId, approvalDigest⟩ config =
        true) :
      WriterStep crypto config approvalId w
        { w with
          manifest := some ⟨reference, approvalId, approvalDigest⟩
          phase := .appending ⟨reference, approvalId, approvalDigest⟩ }
  /-- The run opens its spool. -/
  | create {w : WriterState} {record : LiveOutputRecord} (hphase : w.phase = .appending record)
      (hblob : w.blob = none) :
      WriterStep crypto config approvalId w { w with blob := some [] }
  /-- The run writes a chunk of its output. -/
  | append {w : WriterState} {record : LiveOutputRecord} {bytes : List UInt8} (chunk : List UInt8)
      (hphase : w.phase = .appending record) (hblob : w.blob = some bytes) :
      WriterStep crypto config approvalId w { w with blob := some (bytes ++ chunk) }
  /-- `finalize_live_output`, up to its signature. -/
  | sign {w : WriterState} {record : LiveOutputRecord} (host : FinalizeReading)
      (status : SandboxRunStatus) (reference : LiveOutputReference)
      (hphase : w.phase = .appending record) (htruthful : host.Truthful w)
      (hreference : finalizeLiveOutput crypto host record.reference record.approvalId
        record.approvalDigest status config = some reference) :
      WriterStep crypto config approvalId w
        { w with
          blob := some w.bytes
          phase := .signed ⟨reference, record.approvalId, record.approvalDigest⟩ }
  /-- `finalize_live_output`, the replacement of the record. -/
  | publish {w : WriterState} {record : LiveOutputRecord} (hphase : w.phase = .signed record)
      (hwritable : liveOutputRecordWritable crypto record config = true) :
      WriterStep crypto config approvalId w { w with manifest := some record, phase := .finished }

/-- A record of this approval that its reader accepts. -/
structure PublishedRecord (crypto : Crypto) (config : Deployment) (approvalId : String)
    (record : LiveOutputRecord) : Prop where
  valid : liveOutputReferenceValid crypto record config = true
  approvalId_eq : record.approvalId = approvalId
  safe : safeIdentifier approvalId = true

/-- A record that is signed for all bytes of a blob. -/
structure SignedFor (crypto : Crypto) (record : LiveOutputRecord) (blob : Option (List UInt8)) :
    Prop where
  ended : record.reference.status ≠ "running"
  whole : ∃ bytes, blob = some bytes ∧ record.reference.sizeBytes = bytes.length ∧
    record.reference.sha256 = crypto.digest bytes

/-- What holds of a stream in each phase of its writer. -/
def WriterState.Consistent (crypto : Crypto) (config : Deployment) (approvalId : String)
    (w : WriterState) : Prop :=
  match w.phase with
  | .idle => w.manifest = none ∧ w.blob = none
  | .appending record =>
    w.manifest = some record ∧ PublishedRecord crypto config approvalId record ∧
      record.reference.status = "running"
  | .signed record =>
    ∃ started, w.manifest = some started ∧ PublishedRecord crypto config approvalId started ∧
      started.reference.status = "running" ∧ record.approvalId = approvalId ∧
      record.reference.expiresAtMs = started.reference.expiresAtMs ∧
      SignedFor crypto record w.blob
  | .finished =>
    ∃ record, w.manifest = some record ∧ PublishedRecord crypto config approvalId record ∧
      SignedFor crypto record w.blob

/-- What stays of a stream from one moment to a later one. -/
structure WriterState.Later (w w' : WriterState) : Prop where
  now : w.now ≤ w'.now
  bytes : w.bytes <+: w'.bytes
  blob : w.blob.isSome = true → w'.blob.isSome = true
  manifest : ∀ record ∈ w.manifest, ∃ record' ∈ w'.manifest,
    record'.reference.expiresAtMs = record.reference.expiresAtMs
  frozen : w.phase = .finished → w'.phase = .finished ∧ w'.manifest = w.manifest ∧ w'.blob = w.blob

namespace WriterState

/-- A state is as late as itself. -/
theorem Later.refl (w : WriterState) : w.Later w where
  now := le_refl _
  bytes := List.prefix_refl _
  blob h := h
  manifest record h := ⟨record, h, rfl⟩
  frozen h := ⟨h, rfl, rfl⟩

/-- Later than later is later. -/
theorem Later.trans {w₁ w₂ w₃ : WriterState} (h : w₁.Later w₂) (h' : w₂.Later w₃) :
    w₁.Later w₃ where
  now := h.now.trans h'.now
  bytes := h.bytes.trans h'.bytes
  blob hblob := h'.blob (h.blob hblob)
  manifest record hrecord := by
    obtain ⟨middle, hmiddle, hexpires⟩ := h.manifest record hrecord
    obtain ⟨last, hlast, hexpires'⟩ := h'.manifest middle hmiddle
    exact ⟨last, hlast, hexpires'.trans hexpires⟩
  frozen hphase := by
    obtain ⟨hphase', hmanifest, hblob⟩ := h.frozen hphase
    obtain ⟨hphase'', hmanifest', hblob'⟩ := h'.frozen hphase'
    exact ⟨hphase'', hmanifest'.trans hmanifest, hblob'.trans hblob⟩

/-- Every record that is published is accepted by its reader. -/
theorem Consistent.published {w : WriterState} (h : w.Consistent crypto config approvalId)
    {record : LiveOutputRecord} (hrecord : w.manifest = some record) :
    PublishedRecord crypto config approvalId record := by
  unfold Consistent at h
  split at h
  next =>
    rw [h.1] at hrecord
    cases hrecord
  next =>
    rw [h.1] at hrecord
    cases hrecord
    exact h.2.1
  next =>
    obtain ⟨started, hmanifest, hpublished, -⟩ := h
    rw [hmanifest] at hrecord
    cases hrecord
    exact hpublished
  next =>
    obtain ⟨final, hmanifest, hpublished, -⟩ := h
    rw [hmanifest] at hrecord
    cases hrecord
    exact hpublished

/-- A record of a run that has ended is only published over the blob it is signed for. -/
theorem Consistent.final {w : WriterState} (h : w.Consistent crypto config approvalId)
    {record : LiveOutputRecord} (hrecord : w.manifest = some record)
    (hended : record.reference.status ≠ "running") :
    w.phase = .finished ∧ SignedFor crypto record w.blob := by
  unfold Consistent at h
  split at h
  next =>
    rw [h.1] at hrecord
    cases hrecord
  next =>
    rw [h.1] at hrecord
    cases hrecord
    exact absurd h.2.2 hended
  next =>
    obtain ⟨started, hmanifest, -, hrunning, -⟩ := h
    rw [hmanifest] at hrecord
    cases hrecord
    exact absurd hrunning hended
  next hphase =>
    obtain ⟨final, hmanifest, -, hsigned⟩ := h
    rw [hmanifest] at hrecord
    cases hrecord
    exact ⟨hphase, hsigned⟩

end WriterState

/-- What `begin_live_output` has checked and signed. -/
theorem beginLiveOutput_eq_some {runId approvalDigest : String} {now : ℤ}
    {reference : LiveOutputReference}
    (h : beginLiveOutput crypto runId approvalId approvalDigest now config = some reference) :
    safeIdentifier approvalId = true ∧ reference.status = "running" := by
  unfold beginLiveOutput at h
  repeat' split at h
  all_goals cases h
  next hguard _ =>
    simp only [Bool.not_eq_true', Bool.not_eq_false, Bool.and_eq_true] at hguard
    exact ⟨hguard.1.1.2, rfl⟩

/-- A terminal status is not the running one. -/
theorem liveOutputTerminalStatus_ne (status : SandboxRunStatus) :
    liveOutputTerminalStatus status ≠ "running" := by
  cases status <;> decide

/-- `finalize_live_output` signs for all bytes of the blob that it reads. -/
theorem finalizeLiveOutput_eq_some {w : WriterState} {host : FinalizeReading}
    {started reference : LiveOutputReference} {approvalDigest : String} {status : SandboxRunStatus}
    (hhost : host.Truthful w)
    (h : finalizeLiveOutput crypto host started approvalId approvalDigest status config =
      some reference) :
    reference.expiresAtMs = started.expiresAtMs ∧
      SignedFor crypto ⟨reference, approvalId, approvalDigest⟩ (some w.bytes) := by
  unfold finalizeLiveOutput at h
  split at h
  next => cases h
  next =>
    split at h
    next => cases h
    next =>
      split at h
      next => cases h
      next size hsize =>
        split at h
        next => cases h
        next bytes hread =>
          cases h
          obtain ⟨chunks, hchunks, hbytes⟩ :=
            Option.map_eq_some_iff.mp (boundedOutputArtifactBytes_ok hread).2
          have hwhole : bytes = w.bytes := hbytes.symm.trans (hhost.complete chunks hchunks)
          refine ⟨rfl, liveOutputTerminalStatus_ne status, w.bytes, rfl, ?_, ?_⟩
          · exact hhost.size size hsize
          · exact congrArg crypto.digest hwhole

/-! ## Signed records can be written -/

/-- A tag is written like a digest. -/
theorem sha256Digest_tag (hcrypto : crypto.Sized) (key text : String) :
    sha256Digest (crypto.tag key text) = true :=
  sha256Digest_bytesToHexString (hcrypto.hmac _ _)

/-- What an accepted record consists of. -/
theorem liveOutputReferenceValid_iff {record : LiveOutputRecord} :
    liveOutputReferenceValid crypto record config = true ↔
      record.reference.streamId = liveOutputStreamId crypto record.approvalId config ∧
      safeIdentifier record.reference.runId = true ∧
      record.reference.status ∈ ["running", "exited", "killed", "failed"] ∧
      0 ≤ record.reference.sizeBytes ∧
      record.reference.sizeBytes ≤ config.limits.maxOutputBytes ∧
      sha256Digest record.reference.sha256 = true ∧ 0 < record.reference.expiresAtMs ∧
      record.reference.keyId = config.artifactKeyId ∧ sha256Digest record.approvalDigest = true ∧
      record.reference.signature = crypto.tag config.artifactSigningKey
        (liveOutputSignaturePayload record.reference record.approvalId record.approvalDigest) := by
  simp only [liveOutputReferenceValid, Bool.and_eq_true, decide_eq_true_eq, beq_iff_eq,
    List.contains_iff_mem, constantTimeStringEqual_iff, and_assoc]
  rfl

/-- The text of an accepted record is short enough for every deployment that allows
4096 bytes. -/
theorem liveOutputRecordWritable_of_valid (hcrypto : crypto.Sized) {files : HostFiles}
    (hloaded : deploymentError files config = "")
    (hprotocol : 4096 ≤ config.limits.maxProtocolBytes) {record : LiveOutputRecord}
    (hvalid : liveOutputReferenceValid crypto record config = true)
    (hid : safeIdentifier record.approvalId = true)
    (hexpires : record.reference.expiresAtMs < 2 ^ 63) :
    liveOutputRecordWritable crypto record config = true := by
  obtain ⟨hkey, -, hlimit⟩ := loaded_of_deploymentError hloaded
  rw [liveOutputRecordWritable, hvalid, Bool.true_and, decide_eq_true_eq, utf8Length_stringify]
  obtain ⟨hstream, hrun, hstatus, hsize, hsize', hsha, hexpires', hkeyId, hdigest, hsignature⟩ :=
    liveOutputReferenceValid_iff.mp hvalid
  have hid' := quotedSize_le_of_safeIdentifier hid
  have hrun' := quotedSize_le_of_safeIdentifier hrun
  have hkey' := quotedSize_le_of_safeIdentifier hkey
  have hsha' := quotedSize_le_of_sha256Digest hsha
  have hdigest' := quotedSize_le_of_sha256Digest hdigest
  have hstream' : quotedSize record.reference.streamId ≤ 66 := by
    rw [hstream]
    exact quotedSize_le_of_sha256Digest (sha256Digest_tag hcrypto _ _)
  have hsignature' : quotedSize record.reference.signature ≤ 66 := by
    rw [hsignature]
    exact quotedSize_le_of_sha256Digest (sha256Digest_tag hcrypto _ _)
  have hstatus' : quotedSize record.reference.status ≤ 9 := by
    have hall : ∀ status ∈ ["running", "exited", "killed", "failed"], quotedSize status ≤ 9 := by
      decide
    exact hall _ hstatus
  have hsizeText : quotedSize (intText record.reference.sizeBytes) ≤ 10 + 2 :=
    quotedSize_intText_le (by decide) hsize (by omega)
  have hexpiresText : quotedSize (intText record.reference.expiresAtMs) ≤ 19 + 2 :=
    quotedSize_intText_le (by decide) hexpires'.le (by omega)
  have hkeys : (["stream_id", "run_id", "status", "size_bytes", "sha256", "expires_at_ms",
      "key_id", "signature", "reference", "approval_id", "approval_digest"].map quotedSize) =
      [11, 8, 8, 12, 8, 15, 8, 11, 11, 13, 17] := by decide
  simp only [List.map_cons, List.map_nil, List.cons.injEq, and_true] at hkeys
  rw [LiveOutputRecord.toJson, LiveOutputReference.toJson, Json.size_object]
  simp only [membersSize_cons, membersSize_nil, Json.size_object, Json.size_string, hkeyId]
  omega

/-- What `begin_live_output` signs can be written. -/
theorem beginLiveOutput_writable (hcrypto : crypto.Sized) {files : HostFiles}
    (hloaded : deploymentError files config = "")
    (hprotocol : 4096 ≤ config.limits.maxProtocolBytes) {runId approvalDigest : String} {now : ℤ}
    {reference : LiveOutputReference}
    (h : beginLiveOutput crypto runId approvalId approvalDigest now config = some reference) :
    liveOutputRecordWritable crypto ⟨reference, approvalId, approvalDigest⟩ config = true := by
  have hmax := (loaded_of_deploymentError hloaded).2.1
  unfold beginLiveOutput at h
  repeat' split at h
  all_goals cases h
  next hguard htime =>
    simp only [Bool.not_eq_true', Bool.not_eq_false, Bool.and_eq_true, decide_eq_true_eq,
      retentionWindowIsValid] at hguard htime
    obtain ⟨⟨⟨hrun, hid⟩, hdigest⟩, hretention⟩ := hguard
    have hpositive : 0 < now + config.limits.retentionMs := by omega
    have hexpires : now + config.limits.retentionMs < 2 ^ 63 := by omega
    refine liveOutputRecordWritable_of_valid hcrypto hloaded hprotocol ?_ hid hexpires
    exact liveOutputReferenceValid_iff.mpr ⟨rfl, hrun, List.mem_cons_self, le_refl _, hmax.le,
      sha256Digest_digest hcrypto.sha256 [], hpositive, rfl, hdigest, rfl⟩

/-- What `finalize_live_output` signs for an accepted record can be written. -/
theorem finalizeLiveOutput_writable (hcrypto : crypto.Sized) {files : HostFiles}
    (hloaded : deploymentError files config = "")
    (hprotocol : 4096 ≤ config.limits.maxProtocolBytes) {host : FinalizeReading}
    {started reference : LiveOutputReference} {approvalDigest : String} {status : SandboxRunStatus}
    (hstarted : liveOutputReferenceValid crypto ⟨started, approvalId, approvalDigest⟩ config = true)
    (hid : safeIdentifier approvalId = true) (hexpires : started.expiresAtMs < 2 ^ 63)
    (h : finalizeLiveOutput crypto host started approvalId approvalDigest status config =
      some reference) :
    liveOutputRecordWritable crypto ⟨reference, approvalId, approvalDigest⟩ config = true := by
  obtain ⟨hstream, hrun, -, -, -, -, hpositive, hkeyId, hdigest, -⟩ :=
    liveOutputReferenceValid_iff.mp hstarted
  have hstatus : liveOutputTerminalStatus status ∈ ["running", "exited", "killed", "failed"] := by
    cases status <;> decide
  unfold finalizeLiveOutput at h
  split at h
  next => cases h
  next =>
    split at h
    next => cases h
    next =>
      split at h
      next => cases h
      next size hsize =>
        split at h
        next => cases h
        next bytes hread =>
          cases h
          have hlength := (boundedOutputArtifactBytes_ok hread).1
          have hlimit := boundedOutputArtifactBytes_le hread
          refine liveOutputRecordWritable_of_valid hcrypto hloaded hprotocol ?_ hid hexpires
          exact liveOutputReferenceValid_iff.mpr ⟨hstream, hrun, hstatus,
            hlength ▸ Int.natCast_nonneg _, hlimit, sha256Digest_digest hcrypto.sha256 bytes,
            hpositive, hkeyId, hdigest, rfl⟩

/-- A record that is written is accepted by its reader. -/
theorem publishedRecord_of_writable {record : LiveOutputRecord}
    (h : liveOutputRecordWritable crypto record config = true)
    (hid : record.approvalId = approvalId) (hsafe : safeIdentifier approvalId = true) :
    PublishedRecord crypto config approvalId record := by
  rw [liveOutputRecordWritable, Bool.and_eq_true] at h
  exact ⟨h.1, hid, hsafe⟩

/-- A step keeps the stream consistent, and is a step forward. -/
theorem WriterStep.keeps {w w' : WriterState} (hstep : WriterStep crypto config approvalId w w')
    (h : w.Consistent crypto config approvalId) :
    w'.Consistent crypto config approvalId ∧ w.Later w' := by
  cases hstep with
  | tick now hnow =>
    refine ⟨h, ?_⟩
    exact { WriterState.Later.refl w with now := hnow }
  | start runId approvalDigest reference hphase hreference hwritable =>
    obtain ⟨hsafe, hrunning⟩ := beginLiveOutput_eq_some hreference
    simp only [WriterState.Consistent, hphase] at h
    refine ⟨⟨rfl, publishedRecord_of_writable hwritable rfl hsafe, hrunning⟩, ?_⟩
    refine { WriterState.Later.refl w with manifest := ?_, frozen := ?_ }
    · intro record hrecord
      rw [h.1] at hrecord
      cases hrecord
    · intro hfinished
      rw [hphase] at hfinished
      cases hfinished
  | create hphase hblob =>
    simp only [WriterState.Consistent, hphase] at h ⊢
    refine ⟨h, ?_⟩
    refine { WriterState.Later.refl w with bytes := ?_, blob := fun _ => rfl, frozen := ?_ }
    · rw [WriterState.bytes, hblob]
      exact List.nil_prefix
    · intro hfinished
      rw [hphase] at hfinished
      cases hfinished
  | append chunk hphase hblob =>
    simp only [WriterState.Consistent, hphase] at h ⊢
    refine ⟨h, ?_⟩
    refine { WriterState.Later.refl w with bytes := ?_, blob := fun _ => rfl, frozen := ?_ }
    · rw [WriterState.bytes, hblob]
      exact List.prefix_append _ _
    · intro hfinished
      rw [hphase] at hfinished
      cases hfinished
  | @sign record host status reference hphase htruthful hreference =>
    simp only [WriterState.Consistent, hphase] at h
    obtain ⟨hmanifest, hpublished, hrunning⟩ := h
    obtain ⟨hexpires, hsigned⟩ := finalizeLiveOutput_eq_some htruthful hreference
    refine ⟨⟨record, hmanifest, hpublished, hrunning, hpublished.approvalId_eq, hexpires,
      hsigned.ended, hsigned.whole⟩, ?_⟩
    refine { WriterState.Later.refl w with blob := fun _ => rfl, frozen := ?_ }
    intro hfinished
    rw [hphase] at hfinished
    cases hfinished
  | @publish record hphase hwritable =>
    simp only [WriterState.Consistent, hphase] at h
    obtain ⟨started, hmanifest, hpublished, -, hid, hexpires, hsigned⟩ := h
    refine ⟨⟨record, rfl, publishedRecord_of_writable hwritable hid hpublished.safe, hsigned⟩, ?_⟩
    refine { WriterState.Later.refl w with manifest := ?_, frozen := ?_ }
    · intro before hbefore
      rw [hmanifest] at hbefore
      cases hbefore
      exact ⟨record, rfl, hexpires⟩
    · intro hfinished
      rw [hphase] at hfinished
      cases hfinished

/-- The writer from one moment to a later one. -/
abbrev Writes (crypto : Crypto) (config : Deployment) (approvalId : String) :
    WriterState → WriterState → Prop :=
  Relation.ReflTransGen (WriterStep crypto config approvalId)

/-- The writer's runs keep the store consistent and only add to it. -/
theorem Writes.keeps {w w' : WriterState} (hrun : Writes crypto config approvalId w w')
    (h : w.Consistent crypto config approvalId) :
    w'.Consistent crypto config approvalId ∧ w.Later w' := by
  induction hrun with
  | refl => exact ⟨h, .refl w⟩
  | tail _ hstep ih =>
    obtain ⟨hkept, hlater⟩ := hstep.keeps ih.1
    exact ⟨hkept, ih.2.trans hlater⟩

end Moonfort.Executor
