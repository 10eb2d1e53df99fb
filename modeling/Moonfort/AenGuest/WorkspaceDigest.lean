import Mathlib
import Moonfort.AenGuest.WorkspaceWalk
import Moonfort.AenProvisioner.LayerTar
import Moonfort.Sha256

/-!
# One digest for host and guest

The guest's walk of a workspace feeds SHA-256 with the manifest of the provisioner, and
different workspaces have different manifests.
-/

namespace Moonfort.AenGuest

open AenProvisioner DirectoryTree MoonBit Separated Sha256

/-! ## The lines of a manifest -/

/-- A line of a manifest without its end. -/
def lineBody (crypto : Crypto) (item : Item) : List UInt8 :=
  match item.kind with
  | .regular content => 70 :: 9 :: (item.path ++ 9 :: (utf8Encode (intText content.length) ++
      9 :: fileDigest crypto content))
  | _ => 68 :: 9 :: (item.path ++ 9 :: (utf8Encode (intText 0) ++ 9 :: [45]))

/-- The line of an item is its body and a line feed. -/
theorem itemLine_eq (crypto : Crypto) (item : Item) :
    itemLine crypto item = lineBody crypto item ++ [10] := by
  obtain ⟨parent, name, kind⟩ := item
  cases kind <;> simp [itemLine, lineBody, manifestText]

/-- A path without control bytes. -/
def Readable (item : Item) : Prop := ∀ byte ∈ item.path, isControl byte = false

/-- Bytes without control bytes lack each of them. -/
theorem notMem_of_isControl {bytes : List UInt8} (h : ∀ byte ∈ bytes, isControl byte = false)
    {control : UInt8} (hcontrol : isControl control = true) : control ∉ bytes := by
  intro hmem
  rw [h control hmem] at hcontrol
  cases hcontrol

/-- The body of a line holds no line feed. -/
theorem newline_notMem_lineBody {crypto : Crypto} {item : Item} (h : Readable item) :
    10 ∉ lineBody crypto item := by
  have hpath : 10 ∉ item.path := notMem_of_isControl h rfl
  have hsize : ∀ n : ℕ, 10 ∉ utf8Encode (intText n) := fun n =>
    notMem_of_isControl (utf8Encode_of_plain (plain_intText (Int.natCast_nonneg n))).1 rfl
  have hdigest : ∀ content, 10 ∉ fileDigest crypto content := fun content =>
    notMem_of_isControl (utf8Encode_of_plain (plain_bytesToHexString _)).1 rfl
  unfold lineBody
  split
  · simp [hpath, hsize, hdigest]
  · have hzero := hsize 0
    rw [Nat.cast_zero] at hzero
    simp [hpath, hzero]

/-- The line of an item says its path and its kind, with the content of a file. -/
theorem lineBody_inj {crypto : Crypto} {item item' : Item} (h : Readable item)
    (h' : Readable item') (hplain : item.kind.IsPlain) (hplain' : item'.kind.IsPlain)
    (hinj : crypto.sha256 item.kind.content = crypto.sha256 item'.kind.content →
      item.kind.content = item'.kind.content)
    (heq : lineBody crypto item = lineBody crypto item') :
    item.path = item'.path ∧ item.kind = item'.kind := by
  have hpath : 9 ∉ item.path := notMem_of_isControl h rfl
  have hpath' : 9 ∉ item'.path := notMem_of_isControl h' rfl
  have hsize : ∀ n : ℕ, 9 ∉ utf8Encode (intText n) := fun n =>
    notMem_of_isControl (utf8Encode_of_plain (plain_intText (Int.natCast_nonneg n))).1 rfl
  obtain ⟨parent, name, kind⟩ := item
  obtain ⟨parent', name', kind'⟩ := item'
  cases kind with
  | regular content =>
    cases kind' with
    | regular content' =>
      simp only [lineBody, List.cons.injEq, true_and] at heq
      obtain ⟨hpaths, hrest⟩ := append_cons_inj hpath hpath' heq
      obtain ⟨_, hdigests⟩ := append_cons_inj (hsize _) (hsize _) hrest
      have hcontents := hinj (bytesToHexString_inj (utf8Encode_inj hdigests))
      exact ⟨hpaths, congrArg Kind.regular hcontents⟩
    | directory => simp [lineBody] at heq
    | symlink target => exact hplain'.elim
    | special => exact hplain'.elim
  | directory =>
    cases kind' with
    | regular content' => simp [lineBody] at heq
    | directory =>
      simp only [lineBody, List.cons.injEq, true_and] at heq
      exact ⟨(append_cons_inj hpath hpath' heq).1, rfl⟩
    | symlink target => exact hplain'.elim
    | special => exact hplain'.elim
  | symlink target => exact hplain.elim
  | special => exact hplain.elim

/-! ## The two walks -/

section Walks

variable {crypto : Crypto} {host : SnapshotHost} {limits : SnapshotLimits} {system : GuestSystem}

/-- What an accepted run of items adds to the manifest. -/
theorem manifest_of_visitItems {items : List Item} {s s' : Snapshot}
    (h : (snapshotWalker crypto host limits).visitItems items s = .ok s') :
    s'.manifest = s.manifest ++ items.flatMap (itemLine crypto) ∧ s.entryCount ≤ s'.entryCount ∧
      ∀ item ∈ items, item.kind.IsPlain := by
  induction items generalizing s with
  | nil =>
    cases h
    simp
  | cons item rest ih =>
    rw [Walker.visitItems_cons, Walker.bind_eq_ok] at h
    obtain ⟨first, hfirst, hrest⟩ := h
    obtain ⟨_, _, hplain, _, _, _, rfl⟩ := snapshotEntry_eq_ok hfirst
    obtain ⟨hmanifest, hcount, hall⟩ := ih hrest
    dsimp only at hmanifest hcount
    refine ⟨?_, by omega, List.forall_mem_cons.mpr ⟨hplain, hall⟩⟩
    rw [hmanifest, List.flatMap_cons, List.append_assoc]

/-- Each item adds a line of bounded length to the manifest. -/
theorem length_manifest_of_visitItems (hsized : crypto.Sized) {items : List Item}
    {s s' : Snapshot} (h : (snapshotWalker crypto host limits).visitItems items s = .ok s')
    (hstart : 0 ≤ s.totalBytes) (hbytes : s.totalBytes ≤ limits.maxBytes) :
    (s'.manifest.length : ℤ) - s.manifest.length ≤ 4224 * (s'.entryCount - s.entryCount) := by
  induction items generalizing s with
  | nil =>
    cases h
    omega
  | cons item rest ih =>
    rw [Walker.visitItems_cons, Walker.bind_eq_ok] at h
    obtain ⟨first, hfirst, hrest⟩ := h
    obtain ⟨_, _, _, hpath, _, hmax, rfl⟩ := snapshotEntry_eq_ok hfirst
    have hlt := limits.maxBytes_lt
    have hmax' := hmax hbytes
    dsimp only at hmax'
    have hline := length_itemLine_lt hsized hpath (by omega)
    have hlater := ih hrest (by
      dsimp only
      omega) hmax'
    dsimp only at hlater
    rw [List.length_append] at hlater
    omega

/-- The guest's scan has counted and hashed what the snapshot has. -/
structure Agrees (s : Snapshot) (scan : Inventory) : Prop where
  manifest : scan.manifest = s.manifest
  entries : scan.entries = s.entryCount
  bytes : scan.bytes = s.totalBytes

/-- An entry that the snapshot accepts the guest accepts. -/
theorem scanEntry_of_snapshotEntry (hsized : crypto.Sized) {item : Item} {s s' : Snapshot}
    {scan : Inventory} (hagrees : Agrees s scan)
    (h : snapshotEntry crypto host limits item.parent item.name item.kind s = .ok s')
    (hfault : system.entryFault item.path = none) (hcount : s'.entryCount ≤ 1000000)
    (hstart : 0 ≤ s.totalBytes) (hbytes : s.totalBytes ≤ limits.maxBytes) :
    ∃ scan', scanEntry crypto system prepareBounds true item.parent item.name item.kind scan =
      .ok scan' ∧ Agrees s' scan' := by
  obtain ⟨_, _, hplain, hpath, _, hmax, rfl⟩ := snapshotEntry_eq_ok h
  have hmax' := hmax hbytes
  have hlt := limits.maxBytes_lt
  dsimp only at hmax' hcount
  have hline := length_itemLine_lt hsized hpath (by omega)
  obtain ⟨hmanifest, hentries, hscanned⟩ := hagrees
  obtain ⟨parent, name, kind⟩ := item
  have hcount' : ¬ scan.entries + 1 > prepareBounds.maximumEntries := by
    rw [prepareBounds]
    dsimp only
    omega
  have hpath' : ¬ 4096 ≤ (join parent name).length := by
    change ¬ 4096 ≤ (Item.path ⟨parent, name, kind⟩).length
    omega
  have hfault' : system.entryFault (join parent name) = none := hfault
  dsimp only
  rw [scanEntry, if_neg hcount', if_neg hpath', hfault']
  cases kind with
  | regular content =>
    have hsize : ¬ (content.length : ℤ) > prepareBounds.maximumBytes - scan.bytes := by
      rw [prepareBounds, hscanned]
      dsimp only [Kind.content] at hmax' ⊢
      omega
    simp only [itemLine, Item.path] at hline
    dsimp only
    rw [scanRegular, if_neg hsize]
    dsimp only
    rw [if_pos rfl, hashManifestLine, if_neg (by omega)]
    refine ⟨_, rfl, ?_, ?_, ?_⟩
    · rw [emitEntry, prepareBounds, if_neg Bool.false_ne_true, hmanifest]
      rfl
    · rw [emitEntry, prepareBounds, if_neg Bool.false_ne_true, hentries]
    · rw [emitEntry, prepareBounds, if_neg Bool.false_ne_true, hscanned]
      rfl
  | directory =>
    simp only [itemLine, Item.path] at hline
    dsimp only
    rw [scanDirectory, if_pos rfl, hashManifestLine, if_neg (by omega)]
    refine ⟨_, rfl, ?_, ?_, ?_⟩
    · rw [emitEntry, prepareBounds, if_neg Bool.false_ne_true, hmanifest]
      rfl
    · rw [emitEntry, prepareBounds, if_neg Bool.false_ne_true, hentries]
    · rw [emitEntry, prepareBounds, if_neg Bool.false_ne_true, hscanned]
      exact (Int.add_zero _).symm
  | symlink target => exact hplain.elim
  | special => exact hplain.elim

/-- No system call of the guest fails. -/
structure GuestSystem.Works (system : GuestSystem) : Prop where
  listFault : ∀ path, system.listFault path = none
  entryFault : ∀ path, system.entryFault path = none

/-- Items that the snapshot accepts the guest accepts. -/
theorem visitItems_agrees (hsized : crypto.Sized) (hworks : system.Works) {items : List Item}
    {s s' : Snapshot} {scan : Inventory} (hagrees : Agrees s scan)
    (h : (snapshotWalker crypto host limits).visitItems items s = .ok s')
    (hcount : s'.entryCount ≤ 1000000) (hstart : 0 ≤ s.totalBytes)
    (hbytes : s.totalBytes ≤ limits.maxBytes) :
    ∃ scan', (treeWalker crypto system prepareBounds true).visitItems items scan = .ok scan' ∧
      Agrees s' scan' := by
  induction items generalizing s scan with
  | nil =>
    cases h
    exact ⟨scan, rfl, hagrees⟩
  | cons item rest ih =>
    rw [Walker.visitItems_cons, Walker.bind_eq_ok] at h
    obtain ⟨first, hfirst, hrest⟩ := h
    obtain ⟨_, hmono, _⟩ := manifest_of_visitItems hrest
    obtain ⟨scan', hscan, hagrees'⟩ := scanEntry_of_snapshotEntry hsized hagrees hfirst
      (hworks.entryFault item.path) (by omega) hstart hbytes
    obtain ⟨_, _, _, _, _, hmax, rfl⟩ := snapshotEntry_eq_ok hfirst
    obtain ⟨last, hlast, hagrees''⟩ := ih hagrees' hrest (by
      dsimp only
      omega) (hmax hbytes)
    refine ⟨last, ?_, hagrees''⟩
    rw [Walker.visitItems_cons]
    exact Walker.bind_eq_ok.mpr ⟨scan', hscan, hlast⟩

/-- The names of an accepted workspace are names that the guest accepts. -/
theorem refusedAt_of_refusedName {name : Name} (h : refusedName name = none) :
    refusedAt name = none := by
  unfold refusedName at h
  split at h
  · cases h
  next hvalid =>
    rw [not_or, Bool.not_eq_false] at hvalid
    have hbytes := not_isControl_of_validUtf8 hvalid.2
    have hno : ∀ control, isControl control = true → name.contains control = false := by
      intro control hcontrol
      rw [List.contains_eq_mem]
      exact decide_eq_false (notMem_of_isControl hbytes hcontrol)
    rw [refusedAt, hno 10 rfl, hno 9 rfl, hno 92 rfl]
    rfl

/-- The guest's walk of an accepted workspace agrees with the snapshot. -/
theorem workspaceWalk_agrees (hsized : crypto.Sized) (hworks : system.Works) {tree : Tree}
    {s : Snapshot} (haccepted : snapshotWalk crypto host limits tree = .ok s)
    (hcount : s.entryCount ≤ 1000000) :
    ∃ scan, workspaceWalk crypto system tree = .ok scan ∧ Agrees s scan := by
  obtain ⟨_, hitems, hvisits⟩ := (Walker.walk_eq_ok tree _ _).mp haccepted
  have hnew : Agrees .new .new := ⟨rfl, rfl, rfl⟩
  obtain ⟨scan, hscan, hagrees⟩ := visitItems_agrees hsized hworks hnew hvisits hcount le_rfl
    limits.maxBytes_pos.le
  refine ⟨scan, (Walker.walk_eq_ok tree _ _).mpr ⟨hworks.listFault [], ?_, hscan⟩, hagrees⟩
  intro item hitem
  exact ⟨refusedAt_of_refusedName (hitems item hitem).1, fun _ => hworks.listFault item.path⟩

/-- Each copy of SHA-256 answers the hash of the manifest, in whatever pieces it is given. -/
theorem digest_of_snapshotWalk (hsized : crypto.Sized) {tree : Tree} {s : Snapshot}
    (haccepted : snapshotWalk crypto host limits tree = .ok s) (hcount : s.entryCount ≤ 1000000)
    (copy : Copy) (uninitialised : State) {pieces : List (List UInt8)}
    (hpieces : pieces.flatten = s.manifest) :
    copy.digest uninitialised pieces = some (SecureHash.sha256 s.manifest) := by
  obtain ⟨_, _, hvisits⟩ := (Walker.walk_eq_ok tree _ _).mp haccepted
  have hlength := length_manifest_of_visitItems hsized hvisits le_rfl limits.maxBytes_pos.le
  rw [Snapshot.new] at hlength
  dsimp only [List.length_nil] at hlength
  rw [← hpieces]
  apply copy.digest_eq
  rw [hpieces]
  omega

/-- The guest's copy of SHA-256 ends with the digest that the provisioner's copy ends with, in
whatever pieces the two are given the lines of their manifests. -/
theorem workspaceWalk_digest (hsized : crypto.Sized) (hworks : system.Works) {tree : Tree}
    {s : Snapshot} (haccepted : snapshotWalk crypto host limits tree = .ok s)
    (hcount : s.entryCount ≤ 1000000) :
    ∃ scan, workspaceWalk crypto system tree = .ok scan ∧
      ∀ (guest provisioner : State) (pieces pieces' : List (List UInt8)),
        pieces.flatten = scan.manifest → pieces'.flatten = s.manifest →
          Copy.guestRuntime.digest guest pieces =
            Copy.secureSnapshot.digest provisioner pieces' := by
  obtain ⟨scan, hscan, hagrees⟩ := workspaceWalk_agrees hsized hworks haccepted hcount
  refine ⟨scan, hscan, fun guest provisioner pieces pieces' hpieces hpieces' => ?_⟩
  have hdigest := digest_of_snapshotWalk hsized haccepted hcount
  rw [hdigest .guestRuntime guest (hpieces.trans hagrees.manifest),
    hdigest .secureSnapshot provisioner hpieces']

end Walks

/-! ## Different workspaces -/

/-- The path and the kind of each item of a tree, with the content of a file. -/
def records (tree : Tree) : Set (Path × Kind) :=
  {r | ∃ item ∈ tree.items, (item.path, item.kind) = r}

/-- SHA-256 has no collision among the files of two trees. -/
def CollisionFree (crypto : Crypto) (tree tree' : Tree) : Prop :=
  ∀ item ∈ tree.items, ∀ item' ∈ tree'.items,
    crypto.sha256 item.kind.content = crypto.sha256 item'.kind.content →
      item.kind.content = item'.kind.content

/-- Equal manifests of two trees hold the same records, in one direction. -/
theorem records_subset {crypto : Crypto} {host host' : SnapshotHost}
    {limits limits' : SnapshotLimits} {tree tree' : Tree} {s s' : Snapshot}
    (h : snapshotWalk crypto host limits tree = .ok s)
    (h' : snapshotWalk crypto host' limits' tree' = .ok s')
    (hfree : CollisionFree crypto tree tree') (heq : s.manifest = s'.manifest) :
    records tree ⊆ records tree' := by
  obtain ⟨_, _, hvisits⟩ := (Walker.walk_eq_ok tree _ _).mp h
  obtain ⟨_, _, hvisits'⟩ := (Walker.walk_eq_ok tree' _ _).mp h'
  obtain ⟨hmanifest, _, hplain⟩ := manifest_of_visitItems hvisits
  obtain ⟨hmanifest', _, hplain'⟩ := manifest_of_visitItems hvisits'
  have hreadable := not_isControl_of_snapshotWalk h
  have hreadable' := not_isControl_of_snapshotWalk h'
  have hlines : ∀ t : Tree, t.items.flatMap (itemLine crypto) =
      (t.items.map (lineBody crypto)).flatMap (· ++ [10]) := by
    intro t
    rw [List.flatMap_map]
    exact List.flatMap_congr fun item _ => itemLine_eq crypto item
  rw [hmanifest, hmanifest', hlines, hlines] at heq
  have hbodies : tree.items.map (lineBody crypto) = tree'.items.map (lineBody crypto) := by
    apply flatMap_terminated_inj _ _ heq
    · rw [List.forall_mem_map]
      exact fun item hitem => newline_notMem_lineBody (hreadable item hitem)
    · rw [List.forall_mem_map]
      exact fun item hitem => newline_notMem_lineBody (hreadable' item hitem)
  rintro _ ⟨item, hitem, rfl⟩
  have hmem : lineBody crypto item ∈ tree'.items.map (lineBody crypto) :=
    hbodies ▸ List.mem_map_of_mem hitem
  obtain ⟨item', hitem', hbody⟩ := List.mem_map.mp hmem
  obtain ⟨hpath, hkind⟩ := lineBody_inj (hreadable item hitem) (hreadable' item' hitem')
    (hplain item hitem) (hplain' item' hitem') (hfree item hitem item' hitem') hbody.symm
  exact ⟨item', hitem', by rw [hpath, hkind]⟩

/-- Freedom of collisions is symmetric. -/
theorem CollisionFree.symm {crypto : Crypto} {tree tree' : Tree}
    (h : CollisionFree crypto tree tree') :
    CollisionFree crypto tree' tree :=
  fun item hitem item' hitem' heq => (h item' hitem' item hitem heq.symm).symm

/-- The guest accepts every workspace that the provisioner accepts, hashes the same bytes and
counts the same entries and bytes; and accepted workspaces with different items have different
manifests. -/
theorem workspace_digest_agrees (crypto : Crypto) (hsized : crypto.Sized) (host : SnapshotHost)
    (limits : SnapshotLimits) (tree : Tree) (s : Snapshot)
    (haccepted : snapshotWalk crypto host limits tree = .ok s) :
    (∀ system : GuestSystem, system.Works → s.entryCount ≤ 1000000 →
      ∃ scan, workspaceWalk crypto system tree = .ok scan ∧ scan.manifest = s.manifest ∧
        scan.entries = s.entryCount ∧ scan.bytes = s.totalBytes) ∧
      ∀ (host' : SnapshotHost) (limits' : SnapshotLimits) (tree' : Tree) (s' : Snapshot),
        snapshotWalk crypto host' limits' tree' = .ok s' → CollisionFree crypto tree tree' →
          records tree ≠ records tree' → s.manifest ≠ s'.manifest := by
  constructor
  · intro system hworks hcount
    obtain ⟨scan, hscan, hmanifest, hentries, hbytes⟩ :=
      workspaceWalk_agrees hsized hworks haccepted hcount
    exact ⟨scan, hscan, hmanifest, hentries, hbytes⟩
  · intro host' limits' tree' s' haccepted' hfree hne heq
    apply hne
    apply Set.Subset.antisymm
    · exact records_subset haccepted haccepted' hfree heq
    · exact records_subset haccepted' haccepted hfree.symm heq.symm

/-- A guest on which nothing fails, and which lists names in the reverse order. -/
def sampleGuestSystem : GuestSystem :=
  ⟨fun _ names => names.reverse, fun _ names => names.reverse_perm, fun _ => none, fun _ => none⟩

/-- The contents of the files of the two sample workspaces. -/
def sampleContents : List (List UInt8) := [[120], [], [104, 105], [104, 106]]

/-- The first byte of the digest of a content. -/
def sampleFirstByte (content : List UInt8) : Option UInt8 :=
  (Copy.secureSnapshot.digest sampleState [content]).bind (·.head?)

/-- The hashes of the sample contents are different: so are their first bytes. -/
theorem sha256_sampleContents :
    ∀ content ∈ sampleContents, ∀ content' ∈ sampleContents,
      SecureHash.sha256 content = SecureHash.sha256 content' → content = content' := by
  have hfirst : sampleContents.map sampleFirstByte = [some 45, some 227, some 143, some 236] := by
    decide +kernel
  have hinj := List.inj_on_of_nodup_map (f := sampleFirstByte)
    (by rw [hfirst]; decide)
  have hdigest : ∀ content ∈ sampleContents,
      sampleFirstByte content = (SecureHash.sha256 content).head? := by
    intro content hcontent
    have hshort : ∀ content ∈ sampleContents, content.length < 2 ^ 61 := by decide
    have hflatten : [content].flatten = content := List.flatten_singleton
    rw [sampleFirstByte, Copy.digest_eq _ _ (by rw [hflatten]; exact hshort content hcontent),
      hflatten, Option.bind_some]
  intro content hcontent content' hcontent' heq
  apply hinj hcontent hcontent'
  rw [hdigest content hcontent, hdigest content' hcontent', heq]

/-- The contents of the items of the sample workspaces. -/
theorem content_mem_sampleContents {content : List UInt8} (hcontent : content ∈ sampleContents) :
    ∀ item ∈ (sampleNestedTree content).items, item.kind.content ∈ sampleContents := by
  rw [items_sampleNestedTree]
  simp only [List.forall_mem_cons, List.not_mem_nil, false_implies, implies_true, and_true]
  exact ⟨.head _, .tail _ (.head _), .tail _ (.head _), .tail _ (.head _), hcontent⟩

/-- Two nested workspaces that differ in one byte of one file: the guest agrees with the
provisioner on the first, down to the digest, and the second has another manifest. -/
theorem workspace_digest_agrees_sample : ∃ s s' scan,
    snapshotWalk Crypto.standard sampleSnapshotHost sampleSnapshotLimits
        (sampleNestedTree [104, 105]) = .ok s ∧
      snapshotWalk Crypto.standard sampleSnapshotHost sampleSnapshotLimits
        (sampleNestedTree [104, 106]) = .ok s' ∧
      workspaceWalk Crypto.standard sampleGuestSystem (sampleNestedTree [104, 105]) = .ok scan ∧
      Copy.guestRuntime.digest sampleState [scan.manifest] =
        Copy.secureSnapshot.digest sampleState [s.manifest] ∧
      s.manifest ≠ s'.manifest := by
  obtain ⟨s, hs⟩ := snapshotWalk_sampleNestedTree [104, 105] (by decide)
  obtain ⟨s', hs'⟩ := snapshotWalk_sampleNestedTree [104, 106] (by decide)
  obtain ⟨hguest, hdiffer⟩ := workspace_digest_agrees _ Crypto.standard_sized _ _ _ s hs
  have hcount := (bounds_of_snapshotWalk hs).1.2
  obtain ⟨scan, hscan, hmanifest, _, _⟩ := hguest sampleGuestSystem ⟨fun _ => rfl, fun _ => rfl⟩
    hcount
  have hdigest := digest_of_snapshotWalk Crypto.standard_sized hs hcount
  have hone : ∀ bytes : List UInt8, [bytes].flatten = bytes := fun _ => List.flatten_singleton
  refine ⟨s, s', scan, hs, hs', hscan, ?_, hdiffer _ _ _ _ hs' ?_ ?_⟩
  · rw [hmanifest, hdigest .guestRuntime _ (hone _), hdigest .secureSnapshot _ (hone _)]
  · intro item hitem item' hitem'
    exact sha256_sampleContents _ (content_mem_sampleContents (by decide) item hitem) _
      (content_mem_sampleContents (by decide) item' hitem')
  · intro heq
    have hitem : ([115, 114, 99, 47, 109, 97, 105, 110], Kind.regular [104, 105]) ∈
        records (sampleNestedTree [104, 105]) := by
      refine ⟨⟨[115, 114, 99], [109, 97, 105, 110], .regular [104, 105]⟩, ?_, rfl⟩
      rw [items_sampleNestedTree]
      exact .tail _ (.tail _ (.tail _ (.tail _ (.head _))))
    rw [heq] at hitem
    obtain ⟨item', hitem', heq'⟩ := hitem
    have hnone : ∀ item ∈ (sampleNestedTree [104, 106]).items, item.kind ≠ .regular [104, 105] := by
      rw [items_sampleNestedTree]
      decide
    exact hnone item' hitem' (congrArg Prod.snd heq')

end Moonfort.AenGuest
