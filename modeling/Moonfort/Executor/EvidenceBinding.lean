import Moonfort.Executor.LiveOutput

/-!
# What an authentication tag binds

Three kinds of evidence share one key: the reference of a command's output, the
record of a live output, and the stream of an approval. Each is signed as lines
of text. The lines of one piece of evidence are never those of another, so
without collisions of the hash functions a tag belongs to one piece of evidence.
-/

namespace Moonfort.Executor

open MoonBit Sandbox

/-- A piece of evidence that is authenticated under the deployment's key. -/
inductive Evidence where
  | outputArtifact (reference : CommandOutputArtifactRef) (approvalDigest commandDigest : String)
  | liveOutput (record : LiveOutputRecord)
  | stream (approvalId : String)

namespace Evidence

/-- The text that the tag authenticates. -/
def payload : Evidence → String
  | outputArtifact reference approvalDigest commandDigest =>
    outputArtifactPayload reference approvalDigest commandDigest
  | liveOutput record =>
    liveOutputSignaturePayload record.reference record.approvalId record.approvalDigest
  | stream approvalId => streamIdPayload approvalId

/-- The tag that a piece of evidence carries. -/
def tag (crypto : Crypto) (config : Deployment) : Evidence → String
  | outputArtifact reference _ _ => reference.signature
  | liveOutput record => record.reference.signature
  | stream approvalId => liveOutputStreamId crypto approvalId config

/-- The readers accept a piece of evidence. -/
def Accepted (crypto : Crypto) (config : Deployment) : Evidence → Prop
  | outputArtifact reference approvalDigest commandDigest =>
    outputReferenceIsWellFormed reference config = true ∧ sha256Digest approvalDigest = true ∧
      sha256Digest commandDigest = true ∧
      constantTimeStringEqual reference.signature (outputArtifactSignature crypto reference
        approvalDigest commandDigest config.artifactSigningKey) = true
  | liveOutput record => liveOutputReferenceValid crypto record config = true
  | stream approvalId => safeIdentifier approvalId = true

/-- What a piece of evidence binds: everything but the tag. -/
def bound : Evidence → Evidence
  | outputArtifact reference approvalDigest commandDigest =>
    outputArtifact { reference with signature := "" } approvalDigest commandDigest
  | liveOutput record =>
    liveOutput { record with reference := { record.reference with signature := "" } }
  | stream approvalId => stream approvalId

end Evidence

/-- A text of one line. -/
def OneLine (value : String) : Prop := '\n' ∉ value.toList

instance (value : String) : Decidable (OneLine value) := inferInstanceAs (Decidable (¬ _))

/-- A text whose characters pass a test that refuses line feeds has one line. -/
theorem oneLine_of_all {value : String} {test : Char → Bool} (h : allChars value test = true)
    (htest : test '\n' = false) : OneLine value := by
  intro hmem
  rw [allChars, List.all_eq_true] at h
  rw [h _ hmem] at htest
  cases htest

/-- A safe identifier has one line. -/
theorem oneLine_of_safeIdentifier {value : String} (h : safeIdentifier value = true) :
    OneLine value := by
  rw [safeIdentifier, Bool.and_eq_true] at h
  exact oneLine_of_all h.2 (by decide)

/-- A digest has one line. -/
theorem oneLine_of_sha256Digest {value : String} (h : sha256Digest value = true) :
    OneLine value := by
  rw [sha256Digest, Bool.and_eq_true] at h
  exact oneLine_of_all h.2 (by decide)

/-- A hexadecimal text has one line. -/
theorem oneLine_bytesToHexString (bytes : List UInt8) : OneLine (bytesToHexString bytes) := by
  have hdigit : ∀ n < 16, Nat.digitChar n ≠ '\n' := by decide
  rw [OneLine, bytesToHexString, String.toList_ofList, List.mem_flatMap]
  rintro ⟨byte, -, hmem⟩
  have hbyte := byte.toNat_lt
  rw [hexPair, List.mem_cons, List.mem_singleton] at hmem
  rcases hmem with hmem | hmem
  · exact hdigit _ (by omega) hmem.symm
  · exact hdigit _ (by omega) hmem.symm

/-- A decimal number has one line. -/
theorem oneLine_intText (n : ℤ) : OneLine (intText n) := by
  have hdigits : '\n' ∉ Nat.toDigits 10 n.natAbs := fun hmem =>
    absurd (toDigits_isDigit _ hmem) (by decide)
  rw [OneLine, intText, String.toList_ofList, intChars]
  split
  · intro hmem
    rcases List.mem_cons.mp hmem with hmem | hmem
    · exact absurd hmem (by decide)
    · exact hdigits hmem
  · exact hdigits

/-- Characters up to the first line break can be read in one way only. -/
theorem lineBreak_inj {a b s t : List Char} (ha : '\n' ∉ a) (hb : '\n' ∉ b)
    (h : a ++ '\n' :: s = b ++ '\n' :: t) : a = b ∧ s = t := by
  induction a generalizing b with
  | nil =>
    cases b with
    | nil => exact ⟨rfl, (List.cons.inj h).2⟩
    | cons d b =>
      have hd : '\n' = d := (List.cons.inj h).1
      exact absurd (hd ▸ List.mem_cons_self) hb
  | cons c a ih =>
    cases b with
    | nil =>
      have hc : c = '\n' := (List.cons.inj h).1
      exact absurd (hc ▸ List.mem_cons_self) ha
    | cons d b =>
      obtain ⟨hcd, hrest⟩ := List.cons.inj h
      obtain ⟨hab, hst⟩ := ih (fun hmem => ha (List.mem_cons_of_mem _ hmem))
        (fun hmem => hb (List.mem_cons_of_mem _ hmem)) hrest
      exact ⟨by rw [hcd, hab], hst⟩

/-- A first line is followed by the rest in one way only. -/
theorem joinLines_inj {x y : String} {xs ys : List String} (hx : OneLine x) (hy : OneLine y)
    (hxs : xs ≠ []) (hys : ys ≠ []) (h : joinLines (x :: xs) = joinLines (y :: ys)) :
    x = y ∧ joinLines xs = joinLines ys := by
  have hchars := congrArg String.toList h
  rw [joinLines, joinLines, String.intercalate_cons_of_ne_nil hxs,
    String.intercalate_cons_of_ne_nil hys, String.toList_append, String.toList_append,
    String.toList_append, String.toList_append, List.append_assoc, List.append_assoc] at hchars
  obtain ⟨hline, hrest⟩ := lineBreak_inj hx hy hchars
  exact ⟨String.toList_inj.mp hline, String.toList_inj.mp hrest⟩

/-- Equal first lines are followed by equal rests. -/
theorem joinLines_tail {x : String} {xs ys : List String} (hxs : xs ≠ []) (hys : ys ≠ [])
    (h : joinLines (x :: xs) = joinLines (x :: ys)) : joinLines xs = joinLines ys := by
  have hchars := congrArg String.toList h
  rw [joinLines, joinLines, String.intercalate_cons_of_ne_nil hxs,
    String.intercalate_cons_of_ne_nil hys, String.toList_append, String.toList_append,
    String.toList_append, String.toList_append] at hchars
  exact String.toList_inj.mp (List.append_cancel_left hchars)

/-- One line joins to itself. -/
@[simp] theorem joinLines_singleton (x : String) : joinLines [x] = x := String.intercalate_singleton

/-- The fields of an output reference as its signature covers them. -/
structure OutputLines (config : Deployment) (reference : CommandOutputArtifactRef)
    (approvalDigest : String) : Prop where
  artifactId : OneLine reference.artifactId
  runId : OneLine reference.runId
  sha256 : OneLine reference.sha256
  mediaType : OneLine reference.mediaType
  keyId : reference.keyId = config.artifactKeyId
  approvalDigest : OneLine approvalDigest

/-- The fields of a live output as its signature covers them. -/
structure LiveLines (crypto : Crypto) (config : Deployment) (record : LiveOutputRecord) :
    Prop where
  streamId : record.reference.streamId = liveOutputStreamId crypto record.approvalId config
  runId : OneLine record.reference.runId
  status : OneLine record.reference.status
  sha256 : OneLine record.reference.sha256
  keyId : record.reference.keyId = config.artifactKeyId

/-- The lines of a piece of evidence can be told apart. -/
def Evidence.Lines (crypto : Crypto) (config : Deployment) : Evidence → Prop
  | .outputArtifact reference approvalDigest _ => OutputLines config reference approvalDigest
  | .liveOutput record => LiveLines crypto config record
  | .stream _ => True

variable {config : Deployment}

/-- The payload of an output artifact determines what it binds. -/
theorem outputArtifact_bound_eq {a b : CommandOutputArtifactRef}
    {approval approval' command command' : String} (ha : OutputLines config a approval)
    (hb : OutputLines config b approval')
    (h : outputArtifactPayload a approval command = outputArtifactPayload b approval' command') :
    Evidence.bound (.outputArtifact a approval command) =
      Evidence.bound (.outputArtifact b approval' command') := by
  have hartifact := joinLines_inj ha.artifactId hb.artifactId (by simp) (by simp)
    (joinLines_tail (by simp) (by simp) h)
  have hrun := joinLines_inj ha.runId hb.runId (by simp) (by simp) hartifact.2
  have hsha := joinLines_inj ha.sha256 hb.sha256 (by simp) (by simp) hrun.2
  have hsize := joinLines_inj (oneLine_intText _) (oneLine_intText _) (by simp) (by simp) hsha.2
  have hmedia := joinLines_inj ha.mediaType hb.mediaType (by simp) (by simp) hsize.2
  have hexpires := joinLines_inj (oneLine_intText _) (oneLine_intText _) (by simp) (by simp)
    hmedia.2
  have hrest := hexpires.2
  rw [ha.keyId, hb.keyId] at hrest
  have happroval := joinLines_inj ha.approvalDigest hb.approvalDigest (by simp) (by simp)
    (joinLines_tail (by simp) (by simp) hrest)
  have hcommand := happroval.2
  rw [joinLines_singleton, joinLines_singleton] at hcommand
  simp only [Evidence.bound, hartifact.1, hrun.1, hsha.1, intText_inj hsize.1, hmedia.1,
    intText_inj hexpires.1, ha.keyId, hb.keyId, happroval.1, hcommand]

variable {crypto : Crypto}

/-- Without collisions a stream belongs to one approval. -/
theorem approvalId_eq_of_stream (hcrypto : crypto.Ideal) {config : Deployment}
    {a b : String} (h : liveOutputStreamId crypto a config = liveOutputStreamId crypto b config) :
    a = b := by
  have hchars := congrArg String.toList (hcrypto.tag_inj h)
  rw [streamIdPayload, streamIdPayload, String.toList_append,
    String.toList_append (t := b)] at hchars
  exact String.toList_inj.mp (List.append_cancel_left hchars)

/-- The identifier of a live output has one line. -/
theorem oneLine_streamId {record : LiveOutputRecord}
    (h : LiveLines crypto config record) : OneLine record.reference.streamId := by
  rw [h.streamId]
  exact oneLine_bytesToHexString _

/-- The payload of a live output determines what it binds. -/
theorem liveOutput_bound_eq (hcrypto : crypto.Ideal) {config : Deployment}
    {a b : LiveOutputRecord} (ha : LiveLines crypto config a) (hb : LiveLines crypto config b)
    (h : Evidence.payload (.liveOutput a) = Evidence.payload (.liveOutput b)) :
    Evidence.bound (.liveOutput a) = Evidence.bound (.liveOutput b) := by
  have hstream := joinLines_inj (oneLine_streamId ha) (oneLine_streamId hb) (by simp) (by simp)
    (joinLines_tail (by simp) (by simp) h)
  have hrun := joinLines_inj ha.runId hb.runId (by simp) (by simp) hstream.2
  have hstatus := joinLines_inj ha.status hb.status (by simp) (by simp) hrun.2
  have hsize := joinLines_inj (oneLine_intText _) (oneLine_intText _) (by simp) (by simp) hstatus.2
  have hsha := joinLines_inj ha.sha256 hb.sha256 (by simp) (by simp) hsize.2
  have hexpires := joinLines_inj (oneLine_intText _) (oneLine_intText _) (by simp) (by simp)
    hsha.2
  have hstreams : liveOutputStreamId crypto a.approvalId config =
      liveOutputStreamId crypto b.approvalId config := by
    rw [← ha.streamId, ← hb.streamId, hstream.1]
  have hid := approvalId_eq_of_stream hcrypto hstreams
  have hrest := hexpires.2
  rw [ha.keyId, hb.keyId, hid] at hrest
  have hdigest := joinLines_tail (by simp) (by simp) (joinLines_tail (by simp) (by simp) hrest)
  rw [joinLines_singleton, joinLines_singleton] at hdigest
  simp only [Evidence.bound, hstream.1, hrun.1, hstatus.1, intText_inj hsize.1, hsha.1,
    intText_inj hexpires.1, ha.keyId, hb.keyId, hid, hdigest]

/-- The signed lines of an output artifact are never those of a live output. -/
theorem outputArtifactPayload_ne_live {a : CommandOutputArtifactRef} {b : LiveOutputReference}
    {approval approval' command id : String} :
    outputArtifactPayload a approval command ≠ liveOutputSignaturePayload b id approval' := by
  intro h
  have hfirst := joinLines_inj (by decide) (by decide) (by simp) (by simp) h
  exact absurd hfirst.1 (by decide)

/-- The text of a stream, line by line. -/
theorem streamIdPayload_eq (approvalId : String) :
    streamIdPayload approvalId = joinLines [liveOutputContract, "approval", approvalId] := by
  rw [streamIdPayload, joinLines, String.intercalate_cons_cons, String.intercalate_cons_cons,
    String.intercalate_singleton, ← String.append_assoc, ← String.append_assoc]
  rfl

/-- The signed lines of an output artifact are never those of a stream. -/
theorem outputArtifactPayload_ne_stream {a : CommandOutputArtifactRef}
    {approval command id : String} :
    outputArtifactPayload a approval command ≠ streamIdPayload id := by
  intro h
  rw [streamIdPayload_eq] at h
  have hfirst := joinLines_inj (by decide) (by decide) (by simp) (by simp) h
  exact absurd hfirst.1 (by decide)

/-- The signed lines of a live output are never those of a stream: a stream identifier has
only hexadecimal digits. -/
theorem liveOutputPayload_ne_stream
    {a : LiveOutputRecord} {id : String} (ha : LiveLines crypto config a) :
    Evidence.payload (.liveOutput a) ≠ Evidence.payload (.stream id) := by
  intro h
  rw [Evidence.payload, Evidence.payload, streamIdPayload_eq] at h
  have hstream := joinLines_inj (oneLine_streamId ha) (by decide) (by simp) (by simp)
    (joinLines_tail (by simp) (by simp) h)
  have hhex : ∀ bytes, bytesToHexString bytes ≠ "approval" := by
    intro bytes heq
    have hdigit : ∀ n < 16, Nat.digitChar n ≠ 'p' := by decide
    have hmem : 'p' ∈ (bytesToHexString bytes).toList := by
      rw [heq]
      decide
    rw [bytesToHexString, String.toList_ofList, List.mem_flatMap] at hmem
    obtain ⟨byte, -, hmem⟩ := hmem
    have hbyte := byte.toNat_lt
    rw [hexPair, List.mem_cons, List.mem_singleton] at hmem
    rcases hmem with hmem | hmem
    · exact hdigit _ (by omega) hmem.symm
    · exact hdigit _ (by omega) hmem.symm
  apply hhex (crypto.hmac (utf8Encode config.artifactSigningKey)
    (utf8Encode (streamIdPayload a.approvalId)))
  rw [← hstream.1, ha.streamId]
  rfl

/-- Without collisions equal payloads bind the same. -/
theorem bound_eq_of_payload (hcrypto : crypto.Ideal) {config : Deployment}
    {a b : Evidence} (ha : a.Lines crypto config) (hb : b.Lines crypto config)
    (h : a.payload = b.payload) : a.bound = b.bound := by
  cases a with
  | outputArtifact reference approval command =>
    cases b with
    | outputArtifact reference' approval' command' => exact outputArtifact_bound_eq ha hb h
    | liveOutput record => exact absurd h outputArtifactPayload_ne_live
    | stream id => exact absurd h outputArtifactPayload_ne_stream
  | liveOutput record =>
    cases b with
    | outputArtifact reference approval command =>
      exact absurd h.symm outputArtifactPayload_ne_live
    | liveOutput record' => exact liveOutput_bound_eq hcrypto ha hb h
    | stream id => exact absurd h (liveOutputPayload_ne_stream ha)
  | stream id =>
    cases b with
    | outputArtifact reference approval command =>
      exact absurd h.symm outputArtifactPayload_ne_stream
    | liveOutput record => exact absurd h.symm (liveOutputPayload_ne_stream hb)
    | stream id' =>
      have hchars := congrArg String.toList h
      rw [Evidence.payload, Evidence.payload, streamIdPayload, streamIdPayload,
        String.toList_append, String.toList_append (t := id')] at hchars
      rw [String.toList_inj.mp (List.append_cancel_left hchars)]

/-- Accepted evidence carries the tag of its payload, and its lines can be told apart. -/
theorem Evidence.Accepted.signed {e : Evidence}
    (h : e.Accepted crypto config) :
    e.tag crypto config = crypto.tag config.artifactSigningKey e.payload ∧
      e.Lines crypto config := by
  cases e with
  | outputArtifact reference approval command =>
    obtain ⟨hreference, happroval, -, hsignature⟩ := h
    simp only [outputReferenceIsWellFormed, Bool.and_eq_true, Bool.or_eq_true, beq_iff_eq]
      at hreference
    obtain ⟨⟨⟨⟨⟨⟨⟨⟨hartifact, hrun⟩, hsha⟩, -⟩, -⟩, hmedia⟩, -⟩, hkey⟩, -⟩ := hreference
    refine ⟨(constantTimeStringEqual_iff _ _).mp hsignature, ?_⟩
    exact
      { artifactId := oneLine_of_safeIdentifier hartifact
        runId := oneLine_of_safeIdentifier hrun
        sha256 := oneLine_of_sha256Digest hsha
        mediaType := by
          rcases hmedia with hmedia | hmedia
          · rw [hmedia]
            decide
          · rw [hmedia]
            decide
        keyId := hkey
        approvalDigest := oneLine_of_sha256Digest happroval }
  | liveOutput record =>
    simp only [Accepted, liveOutputReferenceValid, Bool.and_eq_true, beq_iff_eq] at h
    obtain ⟨⟨⟨⟨⟨⟨⟨⟨⟨hstream, hrun⟩, hstatus⟩, -⟩, -⟩, hsha⟩, -⟩, hkey⟩, -⟩, hsignature⟩ := h
    refine ⟨(constantTimeStringEqual_iff _ _).mp hsignature, ?_⟩
    exact
      { streamId := hstream
        runId := oneLine_of_safeIdentifier hrun
        status := by
          have hall : ∀ status ∈ ["running", "exited", "killed", "failed"], OneLine status := by
            decide
          exact hall _ (List.contains_iff_mem.mp hstatus)
        sha256 := oneLine_of_sha256Digest hsha
        keyId := hkey }
  | stream id => exact ⟨rfl, trivial⟩

/-- Evidence is what it binds and its tag. -/
theorem Evidence.eq_of_bound {a b : Evidence}
    (hbound : a.bound = b.bound) (htag : a.tag crypto config = b.tag crypto config) : a = b := by
  cases a with
  | outputArtifact reference approval command =>
    cases b with
    | outputArtifact reference' approval' command' =>
      obtain ⟨⟩ := reference
      obtain ⟨⟩ := reference'
      simp only [bound, tag, outputArtifact.injEq, CommandOutputArtifactRef.mk.injEq,
        and_true] at hbound htag ⊢
      tauto
    | liveOutput record => cases hbound
    | stream id => cases hbound
  | liveOutput record =>
    cases b with
    | outputArtifact reference approval command => cases hbound
    | liveOutput record' =>
      obtain ⟨⟨⟩⟩ := record
      obtain ⟨⟨⟩⟩ := record'
      simp only [bound, tag, liveOutput.injEq, LiveOutputRecord.mk.injEq,
        LiveOutputReference.mk.injEq, and_true] at hbound htag ⊢
      tauto
    | stream id => cases hbound
  | stream id =>
    cases b with
    | outputArtifact reference approval command => cases hbound
    | liveOutput record => cases hbound
    | stream id' => exact hbound

/-- Without collisions a tag belongs to one accepted piece of evidence. -/
theorem evidence_eq_of_tag (hcrypto : crypto.Ideal) {config : Deployment}
    {a b : Evidence} (ha : a.Accepted crypto config) (hb : b.Accepted crypto config)
    (h : a.tag crypto config = b.tag crypto config) : a = b := by
  obtain ⟨htag, hlines⟩ := ha.signed
  obtain ⟨htag', hlines'⟩ := hb.signed
  have hpayload : a.payload = b.payload := by
    rw [htag, htag'] at h
    exact hcrypto.tag_inj h
  exact Evidence.eq_of_bound (bound_eq_of_payload hcrypto hlines hlines' hpayload) h

/-- A reference that `retain_command_output_bytes` signed. -/
structure SignedOutput (crypto : Crypto) (config : Deployment) (runId : String)
    (bytes : List UInt8) (approvalDigest commandDigest : String)
    (reference : CommandOutputArtifactRef) : Prop where
  lines : OutputLines config reference approvalDigest
  runId_eq : reference.runId = runId
  sha256 : reference.sha256 = crypto.digest bytes
  signature : reference.signature = outputArtifactSignature crypto reference approvalDigest
    commandDigest config.artifactSigningKey

/-- A retained output is signed as it is bound. -/
theorem signedOutput_of_retained {runId : String} {bytes random : List UInt8}
    {now outputLimit : ℤ} {approvalDigest commandDigest : String}
    {reference : CommandOutputArtifactRef}
    (h : retainedOutputReference crypto runId bytes random now outputLimit approvalDigest
      commandDigest config = .ok reference) :
    SignedOutput crypto config runId bytes approvalDigest commandDigest reference := by
  unfold retainedOutputReference at h
  split at h
  next => cases h
  next hguard =>
    split at h
    next => cases h
    next =>
      simp only [Bool.not_eq_true', Bool.not_eq_false, Bool.and_eq_true] at hguard
      obtain ⟨⟨⟨⟨⟨⟨hrun, happroval⟩, -⟩, -⟩, -⟩, -⟩, -⟩ := hguard
      cases h
      exact
        { lines :=
            { artifactId := oneLine_bytesToHexString random
              runId := oneLine_of_safeIdentifier hrun
              sha256 := oneLine_bytesToHexString _
              mediaType := by
                dsimp only
                split <;> decide
              keyId := rfl
              approvalDigest := oneLine_of_sha256Digest happroval }
          runId_eq := rfl
          sha256 := rfl
          signature := rfl }

/-- Bytes are read under a tag only by the run, approval and command that it was signed for. -/
theorem artifactRead_of_signed (hcrypto : crypto.Ideal) {config : Deployment}
    {runId runId' approval approval' command command' : String} {bytes bytes' : List UInt8}
    {signed reference : CommandOutputArtifactRef} {host : ArtifactReading}
    (hsigned : SignedOutput crypto config runId bytes approval command signed)
    (hread : ArtifactRead crypto host reference runId' approval' command' config bytes')
    (htag : reference.signature = signed.signature) :
    runId' = runId ∧ approval' = approval ∧ command' = command ∧ bytes' = bytes := by
  have haccepted : Evidence.Accepted crypto config (.outputArtifact reference approval' command') :=
    ⟨hread.wellFormed, hread.approval_hex, hread.command_hex,
      (constantTimeStringEqual_iff _ _).mpr hread.signature⟩
  have hpayload : Evidence.payload (.outputArtifact reference approval' command') =
      Evidence.payload (.outputArtifact signed approval command) := by
    rw [hread.signature, hsigned.signature] at htag
    exact hcrypto.tag_inj htag
  have hlines : Evidence.Lines crypto config (.outputArtifact signed approval command) :=
    hsigned.lines
  have hbound := bound_eq_of_payload hcrypto haccepted.signed.2 hlines hpayload
  simp only [Evidence.bound, Evidence.outputArtifact.injEq, CommandOutputArtifactRef.mk.injEq]
    at hbound
  obtain ⟨⟨-, hrun, hsha, -⟩, happroval, hcommand⟩ := hbound
  refine ⟨?_, happroval, hcommand, ?_⟩
  · rw [← hread.runId_eq, hrun, hsigned.runId_eq]
  · apply hcrypto.digest_inj
    rw [hread.digest, hsha, hsigned.sha256]

/-- A reference of a live output that the executor signed, and the bytes whose
digest it carries once the run has ended. -/
inductive SignedLive (crypto : Crypto) (config : Deployment)
    (runId approvalId approvalDigest : String) :
    LiveOutputReference → Option (List UInt8) → Prop where
  | begun {now : ℤ} {started : LiveOutputReference}
    (h : beginLiveOutput crypto runId approvalId approvalDigest now config = some started) :
    SignedLive crypto config runId approvalId approvalDigest started none
  | finalized {now : ℤ} {started final : LiveOutputReference} {host : FinalizeReading}
    {status : SandboxRunStatus}
    (hbegun : beginLiveOutput crypto runId approvalId approvalDigest now config = some started)
    (h : finalizeLiveOutput crypto host started approvalId approvalDigest status config =
      some final) :
    SignedLive crypto config runId approvalId approvalDigest final
      (host.complete.chunks.map List.flatten)

/-- What the executor put into a reference of a live output. -/
structure LiveSigned (crypto : Crypto) (config : Deployment)
    (runId approvalId approvalDigest : String) (reference : LiveOutputReference)
    (bytes : Option (List UInt8)) : Prop where
  lines : LiveLines crypto config ⟨reference, approvalId, approvalDigest⟩
  runId_eq : reference.runId = runId
  signature : reference.signature = crypto.tag config.artifactSigningKey
    (liveOutputSignaturePayload reference approvalId approvalDigest)
  sha256 : ∀ content ∈ bytes, reference.status ≠ "running" ∧
    reference.sha256 = crypto.digest content

/-- A live output that has begun is signed as it is bound. -/
theorem liveSigned_of_begun
    {runId approvalId approvalDigest : String} {now : ℤ} {started : LiveOutputReference}
    (h : beginLiveOutput crypto runId approvalId approvalDigest now config = some started) :
    LiveSigned crypto config runId approvalId approvalDigest started none := by
  unfold beginLiveOutput at h
  split at h
  next => cases h
  next hguard =>
    split at h
    next => cases h
    next =>
      simp only [Bool.not_eq_true', Bool.not_eq_false, Bool.and_eq_true] at hguard
      cases h
      exact
        { lines :=
            { streamId := rfl
              runId := oneLine_of_safeIdentifier hguard.1.1.1
              status := show OneLine "running" by decide
              sha256 := oneLine_bytesToHexString _
              keyId := rfl }
          runId_eq := rfl
          signature := rfl
          sha256 := fun content hmem => by cases hmem }

/-- Every live output the executor signed is signed as it is bound. -/
theorem SignedLive.spec {runId approvalId approvalDigest : String} {reference : LiveOutputReference}
    {bytes : Option (List UInt8)}
    (h : SignedLive crypto config runId approvalId approvalDigest reference bytes) :
    LiveSigned crypto config runId approvalId approvalDigest reference bytes := by
  cases h with
  | begun h => exact liveSigned_of_begun h
  | @finalized now started final host status hbegun h =>
    have hstarted := liveSigned_of_begun hbegun
    have hstatus : OneLine (liveOutputTerminalStatus status) ∧
        liveOutputTerminalStatus status ≠ "running" := by
      cases status <;> decide
    unfold finalizeLiveOutput at h
    split at h
    next => cases h
    next =>
      split at h
      next => cases h
      next =>
        split at h
        next => cases h
        next size =>
          split at h
          next => cases h
          next complete hread =>
            cases h
            exact
              { lines :=
                  { streamId := hstarted.lines.streamId
                    runId := hstarted.lines.runId
                    status := hstatus.1
                    sha256 := oneLine_bytesToHexString _
                    keyId := hstarted.lines.keyId }
                runId_eq := hstarted.runId_eq
                signature := rfl
                sha256 := fun content hmem => by
                  rw [(boundedOutputArtifactBytes_ok hread).2] at hmem
                  cases hmem
                  exact ⟨hstatus.2, rfl⟩ }

/-- A stream is read under a tag only by the approval that it was signed for, and
once the run has ended only when the blob holds the signed bytes. -/
theorem livePage_of_signed (hcrypto : crypto.Ideal) {config : Deployment}
    {runId approvalId approvalDigest : String} {signed : LiveOutputReference}
    {bytes : Option (List UInt8)} {host : LiveOutputReading} {request : LiveOutputReadRequest}
    {response : LiveOutputReadResponse} {record : LiveOutputRecord}
    (hsigned : LiveSigned crypto config runId approvalId approvalDigest signed bytes)
    (hread : readLiveOutput crypto host request config = some response)
    (herror : response.error = none) (hmanifest : host.manifest = some record)
    (htag : record.reference.signature = signed.signature) :
    request.approvalId = approvalId ∧ record.approvalDigest = approvalDigest ∧
      response.runId = runId ∧
      ∀ content ∈ bytes, host.complete.chunks.map List.flatten = some content := by
  obtain ⟨record', available, hpage⟩ := readLiveOutput_page hread herror
  have hrecord : record' = record := Option.some.inj (hpage.manifest.symm.trans hmanifest)
  subst hrecord
  have haccepted : Evidence.Accepted crypto config (.liveOutput record') := hpage.valid
  have hpayload : Evidence.payload (.liveOutput record') =
      Evidence.payload (.liveOutput ⟨signed, approvalId, approvalDigest⟩) := by
    have htag' := haccepted.signed.1
    rw [Evidence.tag, htag, hsigned.signature] at htag'
    exact (hcrypto.tag_inj htag').symm
  have hlines : Evidence.Lines crypto config (.liveOutput ⟨signed, approvalId, approvalDigest⟩) :=
    hsigned.lines
  have hbound := bound_eq_of_payload hcrypto haccepted.signed.2 hlines hpayload
  simp only [Evidence.bound, Evidence.liveOutput.injEq, LiveOutputRecord.mk.injEq,
    LiveOutputReference.mk.injEq] at hbound
  obtain ⟨⟨-, hrun, hstatus, -, hsha, -⟩, hid, hdigest⟩ := hbound
  have hresponse : response.runId = record'.reference.runId := by
    have hanswer := hpage.page
    unfold liveOutputPage at hanswer
    dsimp only at hanswer
    split at hanswer
    next => cases hanswer
    next =>
      cases hanswer
      rfl
  refine ⟨hpage.approvalId.symm.trans hid, hdigest, ?_, ?_⟩
  · rw [hresponse, hrun, hsigned.runId_eq]
  · intro content hmem
    obtain ⟨hended, hsha'⟩ := hsigned.sha256 content hmem
    obtain ⟨-, complete, hcomplete, hdigest'⟩ :=
      terminalBlobError_eq_empty (hpage.whole (hstatus ▸ hended))
    have hcontent : complete = content := by
      apply hcrypto.digest_inj
      rw [hdigest', hsha, hsha']
    rw [(boundedOutputArtifactBytes_ok hcomplete).2, hcontent]

/-- Without collisions of the hash functions, an authentication tag belongs to
one accepted piece of evidence; the bytes of a command's output are returned
under a tag only for the run, approval and command that it was signed for, and
are the signed bytes; and a live output is returned under a tag only for the
approval and run that it was signed for, once the run has ended only while its
blob holds the signed bytes. -/
theorem evidence_not_transplanted (crypto : Crypto) (hcrypto : crypto.Ideal)
    (config : Deployment) :
    (∀ a b : Evidence, a.Accepted crypto config → b.Accepted crypto config →
      a.tag crypto config = b.tag crypto config → a = b) ∧
    (∀ runId bytes random now outputLimit approval command signed host reference runId' approval'
        command' bytes',
      retainedOutputReference crypto runId bytes random now outputLimit approval command config =
        .ok signed →
      readCommandOutputArtifact crypto host reference runId' approval' command' config =
        .ok bytes' →
      reference.signature = signed.signature →
      runId' = runId ∧ approval' = approval ∧ command' = command ∧ bytes' = bytes) ∧
    (∀ runId approvalId approvalDigest signed bytes host request response record,
      SignedLive crypto config runId approvalId approvalDigest signed bytes →
      readLiveOutput crypto host request config = some response → response.error = none →
      host.manifest = some record → record.reference.signature = signed.signature →
      request.approvalId = approvalId ∧ record.approvalDigest = approvalDigest ∧
        response.runId = runId ∧
        ∀ content ∈ bytes, host.complete.chunks.map List.flatten = some content) := by
  refine ⟨?_, ?_, ?_⟩
  · intro a b ha hb h
    exact evidence_eq_of_tag hcrypto ha hb h
  · intro runId bytes random now outputLimit approval command signed host reference runId'
      approval' command' bytes' hsigned hread htag
    exact artifactRead_of_signed hcrypto (signedOutput_of_retained hsigned)
      (readCommandOutputArtifact_ok hread) htag
  · intro runId approvalId approvalDigest signed bytes host request response record hsigned hread
      herror hmanifest htag
    exact livePage_of_signed hcrypto hsigned.spec hread herror hmanifest htag

/-- The reference of the output "ok" with a line break, signed for two digests. -/
def sampleEvidence : Evidence :=
  .outputArtifact
    { artifactId := "00000000000000000000000000000000"
      runId := "run-1"
      sha256 := "dc51b8c96c2d745df3bd5590d990230a482fd247123599548e0632fdbf97fc22"
      sizeBytes := 3
      mediaType := commandOutputMediaType
      expiresAtMs := 60000
      keyId := "key-1"
      signature := "e3083453bb22a9004cd06a5bd369137027b383cf3d237096b2fdbdaa669a5a49" }
    (String.ofList (List.replicate 64 'a')) (String.ofList (List.replicate 64 'b'))

/-- HMAC on the lines of the sample evidence. -/
def sampleTags : List (List UInt8 × List UInt8) :=
  [(utf8Encode sampleEvidence.payload,
    [227, 8, 52, 83, 187, 34, 169, 0, 76, 208, 106, 91, 211, 105, 19, 112, 39, 179, 131, 207, 61,
      35, 112, 150, 178, 253, 189, 170, 102, 154, 90, 73])]

/-- HMAC on the lines of the sample evidence, SHA-256 on its output, and no collisions
elsewhere. -/
def sampleEvidenceCrypto : Crypto where
  sha256 := Crypto.tabled [([111, 107, 10],
    [220, 81, 184, 201, 108, 45, 116, 93, 243, 189, 85, 144, 217, 144, 35, 10, 72, 47, 210, 71, 18,
      53, 153, 84, 142, 6, 50, 253, 191, 151, 252, 34])]
  hmac _ := Crypto.tabled sampleTags

/-- The sample functions are injective. -/
theorem sampleEvidenceCrypto_ideal : sampleEvidenceCrypto.Ideal where
  sha256 := Crypto.tabled_injective (List.forall_mem_singleton.mpr rfl) (List.nodup_singleton _)
  hmac _ := Crypto.tabled_injective (List.forall_mem_singleton.mpr rfl) (List.nodup_singleton _)

/-- The readers accept the sample evidence. -/
theorem sampleEvidence_accepted :
    sampleEvidence.Accepted sampleEvidenceCrypto sampleDeployment := by
  refine ⟨by decide, by decide, by decide, ?_⟩
  have htag : sampleEvidenceCrypto.tag sampleDeployment.artifactSigningKey sampleEvidence.payload =
      "e3083453bb22a9004cd06a5bd369137027b383cf3d237096b2fdbdaa669a5a49" := by
    rw [Crypto.tag]
    dsimp only [sampleEvidenceCrypto]
    rw [sampleTags, Crypto.tabled_head]
    decide
  exact (constantTimeStringEqual_iff _ _).mpr htag.symm

/-- An accepted output reference, whose tag no other evidence has. -/
theorem evidence_not_transplanted_sample :
    sampleEvidence.Accepted sampleEvidenceCrypto sampleDeployment ∧
      ∀ b : Evidence, b.Accepted sampleEvidenceCrypto sampleDeployment →
        sampleEvidence.tag sampleEvidenceCrypto sampleDeployment =
          b.tag sampleEvidenceCrypto sampleDeployment → sampleEvidence = b :=
  ⟨sampleEvidence_accepted, fun b hb =>
    (evidence_not_transplanted sampleEvidenceCrypto sampleEvidenceCrypto_ideal
      sampleDeployment).1 sampleEvidence b sampleEvidence_accepted hb⟩

end Moonfort.Executor
