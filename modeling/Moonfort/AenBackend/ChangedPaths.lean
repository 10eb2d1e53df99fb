import Moonfort.AenBackend.ExecReceipts
import Moonfort.Loop
import Moonfort.Sandbox.CanonicalPath

/-!
# The paths that a watcher reports

What `canonical_changed_path` returns for the paths that the guest sends. A relative path is
returned as it is when it is safe. Of an absolute path the part behind the scratch root is
returned, whose components may be empty, and such a part is not safe.
-/

namespace Moonfort.AenBackend

open Executor Methods MoonBit Sandbox

/-- `canonical_guest_path`. -/
def canonicalGuestPath (path : String) : Bool :=
  hasPrefix path "/" && path != "/" && !containsText path "//" && !containsText path "\\" &&
    !containsText path "\x00" &&
    !((splitPath path).any fun component => component == "." || component == "..") &&
    !hasSuffix path "/"

/-! ## Safe relative paths -/

/-- A path of two parts splits into the components of both. -/
theorem splitPath_append (front back : String) :
    splitPath (front ++ "/" ++ back) = splitPath front ++ splitPath back := by
  have hchars : (front ++ "/" ++ back).toList = front.toList ++ '/' :: back.toList := by
    rw [String.toList_append, String.toList_append, List.append_assoc]
    rfl
  rw [splitPath, hchars, List.splitOn_append_cons_self, List.map_append, splitPath, splitPath]

/-- A path is searched for a backslash character by character. -/
theorem containsText_backslash_iff (text : String) :
    containsText text "\\" = true ↔ '\\' ∈ text.toList := by
  have hchar : "\\".toList = ['\\'] := by decide
  rw [containsText, occursIn_iff, hchar, List.singleton_infix_iff]

/-- A path with a slash in front has an empty first component. -/
theorem empty_mem_of_hasPrefix {path : String} (h : hasPrefix path "/" = true) :
    "" ∈ splitPath path := by
  obtain ⟨rest, hrest⟩ := (hasPrefix_iff _ _).mp h
  have hpath : path.toList = '/' :: rest := hrest.symm
  rw [splitPath, hpath, List.splitOn_cons_eq_if_modifyHead, if_pos (beq_self_eq_true _),
    List.map_cons]
  exact List.mem_cons_self

/-- A path with a slash behind it has an empty last component. -/
theorem empty_mem_of_hasSuffix {path : String} (h : hasSuffix path "/" = true) :
    "" ∈ splitPath path := by
  obtain ⟨front, hfront⟩ := (hasSuffix_iff _ _).mp h
  have hpath : path = String.ofList front ++ "/" ++ "" := by
    rw [← String.toList_inj, ← hfront]
    simp
  rw [hpath, splitPath_append]
  exact List.mem_append_right _ (by decide)

/-- The empty path has only an empty component. -/
theorem ne_empty_of_components {path : String} (h : ∀ component ∈ splitPath path, component ≠ "") :
    path ≠ "" := by
  rintro rfl
  exact h "" (by decide) rfl

/-- A path is safe by its characters and components. -/
theorem scratchRelativePathIsSafe_iff (path : String) :
    scratchRelativePathIsSafe path = true ↔ '\\' ∉ path.toList ∧ '\x00' ∉ path.toList ∧
      ∀ component ∈ splitPath path, component ≠ "" ∧ component ≠ "." ∧ component ≠ ".." := by
  simp only [scratchRelativePathIsSafe, Bool.and_eq_true, Bool.not_eq_true', bne_iff_ne, ne_eq,
    List.all_eq_true, ← Bool.not_eq_true, containsText_nul_iff, containsText_backslash_iff,
    and_assoc]
  constructor
  · rintro ⟨-, -, -, hbackslash, hnul, hcomponents⟩
    exact ⟨hbackslash, hnul, hcomponents⟩
  · rintro ⟨hbackslash, hnul, hcomponents⟩
    have hnonempty : ∀ component ∈ splitPath path, component ≠ "" :=
      fun component hmem => (hcomponents component hmem).1
    exact ⟨ne_empty_of_components hnonempty,
      fun h => hnonempty "" (empty_mem_of_hasPrefix h) rfl,
      fun h => hnonempty "" (empty_mem_of_hasSuffix h) rfl, hbackslash, hnul, hcomponents⟩

/-! ## What is returned -/

/-- A path has no NUL, no backslash and no component that names a directory by dots. -/
structure Undotted (path : String) : Prop where
  nul : '\x00' ∉ path.toList
  backslash : '\\' ∉ path.toList
  components : ∀ component ∈ splitPath path, component ≠ "." ∧ component ≠ ".."

variable {backend : Backend}

/-- Whether a component is a dot or two. -/
theorem any_dots_eq_true_iff {path : String} :
    ((splitPath path).any fun component => component == "." || component == "..") = true ↔
      ¬∀ component ∈ splitPath path, component ≠ "." ∧ component ≠ ".." := by
  simp only [List.any_eq_true, Bool.or_eq_true, beq_iff_eq, ne_eq, ← not_or, not_forall,
    Decidable.not_not, exists_prop]

/-- The scratch root is absolute, and so is what stands below it. -/
theorem hasPrefix_below (hscratch : canonicalGuestPath backend.guestScratch = true)
    (rest : String) : hasPrefix (backend.guestScratch ++ "/" ++ rest) "/" = true := by
  have hroot : hasPrefix backend.guestScratch "/" = true := by
    simp only [canonicalGuestPath, Bool.and_eq_true] at hscratch
    exact hscratch.1.1.1.1.1.1
  rw [hasPrefix_iff] at hroot ⊢
  rw [String.toList_append, String.toList_append, List.append_assoc]
  exact hroot.trans (List.prefix_append _ _)

/-- An accepted path has no dots, and is spelled below the scratch root or relative to it. -/
theorem spelled_of_canonicalChangedPath {path relative : String}
    (h : canonicalChangedPath backend path = .ok relative) :
    Undotted path ∧ (path = backend.guestScratch ++ "/" ++ relative ∧ relative ≠ "" ∨
      path = relative ∧ ∀ component ∈ splitPath path, component ≠ "") := by
  unfold canonicalChangedPath at h
  split at h
  next => cases h
  next hnul =>
    simp only [Bool.not_eq_true', Bool.not_eq_false, Bool.and_eq_true, bne_iff_ne, ne_eq]
      at hnul
    rw [← Bool.not_eq_true, containsText_nul_iff] at hnul
    split at h
    next => cases h
    next hbackslash =>
      rw [containsText_backslash_iff] at hbackslash
      split at h
      next =>
        split at h
        next => cases h
        next hbelow =>
          split at h
          next => cases h
          next hcomponents =>
            rw [any_dots_eq_true_iff, not_not] at hcomponents
            dsimp only at h
            split at h
            next => cases h
            next hne =>
              rw [Except.ok.injEq] at h
              refine ⟨⟨hnul.2, hbackslash, hcomponents⟩, .inl ⟨?_, ?_⟩⟩
              · simp only [Bool.not_eq_true, Bool.not_eq_false', hasPrefix_iff] at hbelow
                obtain ⟨rest, hrest⟩ := hbelow
                rw [← h, ← hrest, ← String.toList_inj, ← hrest]
                simp
              · rw [← h]
                simpa using hne
      next =>
        split at h
        next => cases h
        next hcomponents =>
          rw [Except.ok.injEq] at h
          simp only [List.any_eq_true, Bool.or_eq_true, beq_iff_eq, not_exists, not_and,
            not_or] at hcomponents
          exact ⟨⟨hnul.2, hbackslash, fun component hmem =>
              ⟨(hcomponents component hmem).1.2, (hcomponents component hmem).2⟩⟩,
            .inr ⟨h, fun component hmem => (hcomponents component hmem).1.1⟩⟩

/-- A path without dots that is spelled in one of the two ways is accepted. -/
theorem canonicalChangedPath_of_spelled
    (hscratch : canonicalGuestPath backend.guestScratch = true) {path relative : String}
    (hundotted : Undotted path)
    (hspelling : path = backend.guestScratch ++ "/" ++ relative ∧ relative ≠ "" ∨
      path = relative ∧ ∀ component ∈ splitPath path, component ≠ "") :
    canonicalChangedPath backend path = .ok relative := by
  obtain ⟨hnul, hbackslash, hcomponents⟩ := hundotted
  unfold canonicalChangedPath
  have hnonempty : path ≠ "" := by
    rcases hspelling with ⟨rfl, -⟩ | ⟨-, hnonempty⟩
    · intro hempty
      have hchars := congrArg String.toList hempty
      simp at hchars
    · exact ne_empty_of_components hnonempty
  rw [← containsText_nul_iff, Bool.not_eq_true] at hnul
  rw [← containsText_backslash_iff] at hbackslash
  rw [if_neg (by simp [hnonempty, hnul]), if_neg hbackslash]
  rcases hspelling with ⟨rfl, hne⟩ | ⟨rfl, hnonempty⟩
  · have hbelow : hasPrefix (backend.guestScratch ++ "/" ++ relative)
        (backend.guestScratch ++ "/") = true := by
      rw [hasPrefix_iff, String.toList_append (s := backend.guestScratch ++ "/")]
      exact List.prefix_append _ _
    have hdrop : String.ofList ((backend.guestScratch ++ "/" ++ relative).toList.drop
        (backend.guestScratch.toList.length + 1)) = relative := by
      simp
    rw [if_pos (hasPrefix_below hscratch relative), if_neg (by simp [hbelow]), if_neg (by
      rw [any_dots_eq_true_iff, not_not]
      exact hcomponents)]
    dsimp only
    rw [hdrop, if_neg (by simpa using hne)]
  · rw [if_neg fun h => hnonempty "" (empty_mem_of_hasPrefix h) rfl, if_neg]
    simp only [List.any_eq_true, Bool.or_eq_true, beq_iff_eq, not_exists, not_and, not_or]
    exact fun component hmem => ⟨⟨hnonempty component hmem, (hcomponents component hmem).1⟩,
      (hcomponents component hmem).2⟩

/-- The two spellings that are accepted. -/
theorem canonicalChangedPath_eq_ok_iff (hscratch : canonicalGuestPath backend.guestScratch = true)
    {path relative : String} :
    canonicalChangedPath backend path = .ok relative ↔ Undotted path ∧
      (path = backend.guestScratch ++ "/" ++ relative ∧ relative ≠ "" ∨
        path = relative ∧ ∀ component ∈ splitPath path, component ≠ "") := by
  constructor
  · exact spelled_of_canonicalChangedPath
  · rintro ⟨hundotted, hspelling⟩
    exact canonicalChangedPath_of_spelled hscratch hundotted hspelling

/-- An accepted absolute path has an empty component behind the scratch root: two slashes in a
row, one at the end, or one more in front. -/
def HasEmptyComponent (backend : Backend) (path : String) : Prop :=
  Undotted path ∧ ∃ relative, path = backend.guestScratch ++ "/" ++ relative ∧ relative ≠ "" ∧
    "" ∈ splitPath relative

/-- What is returned for a path is safe unless the path has an empty component. -/
theorem safe_canonicalChangedPath_iff
    (hscratch : canonicalGuestPath backend.guestScratch = true) (path : String) :
    (∀ relative, canonicalChangedPath backend path = .ok relative →
      scratchRelativePathIsSafe relative = true) ↔ ¬HasEmptyComponent backend path := by
  constructor
  · rintro h ⟨hundotted, relative, hpath, hne, hempty⟩
    have hsafe := h relative
      ((canonicalChangedPath_eq_ok_iff hscratch).mpr ⟨hundotted, .inl ⟨hpath, hne⟩⟩)
    rw [scratchRelativePathIsSafe_iff] at hsafe
    exact (hsafe.2.2 "" hempty).1 rfl
  · intro h relative hok
    obtain ⟨hundotted, hspelling⟩ := (canonicalChangedPath_eq_ok_iff hscratch).mp hok
    rw [scratchRelativePathIsSafe_iff]
    rcases hspelling with ⟨hpath, hne⟩ | ⟨rfl, hnonempty⟩
    · have hmem : ∀ c ∈ relative.toList, c ∈ path.toList := by
        intro c hc
        rw [hpath, String.toList_append]
        exact List.mem_append_right _ hc
      refine ⟨fun hc => hundotted.backslash (hmem _ hc), fun hc => hundotted.nul (hmem _ hc),
        fun component hcomponent => ⟨?_, ?_⟩⟩
      · rintro rfl
        exact h ⟨hundotted, relative, hpath, hne, hcomponent⟩
      · refine hundotted.components component ?_
        rw [hpath, splitPath_append]
        exact List.mem_append_right _ hcomponent
    · exact ⟨hundotted.backslash, hundotted.nul, fun component hmem =>
        ⟨hnonempty component hmem, hundotted.components component hmem⟩⟩

/-- Both spellings of a safe path are accepted as that path. -/
theorem canonicalChangedPath_spellings
    (hscratch : canonicalGuestPath backend.guestScratch = true) {relative : String}
    (hsafe : scratchRelativePathIsSafe relative = true) :
    canonicalChangedPath backend (backend.guestScratch ++ "/" ++ relative) = .ok relative ∧
      canonicalChangedPath backend relative = .ok relative := by
  obtain ⟨hbackslash, hnul, hcomponents⟩ := (scratchRelativePathIsSafe_iff _).mp hsafe
  have hnonempty : ∀ component ∈ splitPath relative, component ≠ "" :=
    fun component hmem => (hcomponents component hmem).1
  rw [canonicalChangedPath_eq_ok_iff hscratch, canonicalChangedPath_eq_ok_iff hscratch]
  refine ⟨⟨?_, .inl ⟨rfl, ne_empty_of_components hnonempty⟩⟩,
    ⟨hnul, hbackslash, fun component hmem => (hcomponents component hmem).2⟩, .inr ⟨rfl, hnonempty⟩⟩
  simp only [canonicalGuestPath, Bool.and_eq_true, Bool.not_eq_true', ← Bool.not_eq_true,
    containsText_nul_iff, containsText_backslash_iff, List.any_eq_true, Bool.or_eq_true,
    beq_iff_eq, not_exists, not_and, not_or] at hscratch
  obtain ⟨⟨⟨⟨-, hrootBackslash⟩, hrootNul⟩, hrootDots⟩, -⟩ := hscratch
  constructor
  · rw [String.toList_append, String.toList_append, List.mem_append, List.mem_append]
    rintro ((h | h) | h)
    · exact hrootNul h
    · exact absurd h (by decide)
    · exact hnul h
  · rw [String.toList_append, String.toList_append, List.mem_append, List.mem_append]
    rintro ((h | h) | h)
    · exact hrootBackslash h
    · exact absurd h (by decide)
    · exact hbackslash h
  · intro component hmem
    rw [splitPath_append, List.mem_append] at hmem
    rcases hmem with hmem | hmem
    · exact hrootDots component hmem
    · exact (hcomponents component hmem).2

/-! ## The list of changed paths -/

/-- The paths of a list of events, as the loop collects them. -/
theorem mem_of_mapM_ok {events changed : List String}
    (h : events.mapM (canonicalChangedPath backend) = .ok changed) (relative : String) :
    relative ∈ changed ↔ ∃ path ∈ events, canonicalChangedPath backend path = .ok relative := by
  induction events generalizing changed with
  | nil =>
    rw [List.mapM_nil] at h
    cases h
    simp
  | cons path rest ih =>
    rw [List.mapM_cons, Loop.bind_eq_ok_iff] at h
    obtain ⟨first, hfirst, h⟩ := h
    rw [Loop.bind_eq_ok_iff] at h
    obtain ⟨others, hothers, h⟩ := h
    cases h
    rw [List.mem_cons, ih hothers]
    simp only [List.mem_cons, exists_eq_or_imp, hfirst, Except.ok.injEq, eq_comm (a := first)]

/-- What the reported paths have to satisfy for a comparison with an inventory. -/
structure ReportsSafely (backend : Backend) (events : List String) : Prop where
  /-- A path is refused or becomes a safe relative path. -/
  each : ∀ path ∈ events, ∀ relative, canonicalChangedPath backend path = .ok relative →
    scratchRelativePathIsSafe relative = true
  /-- Both spellings of a scratch file become its relative path. -/
  spellings : ∀ relative, scratchRelativePathIsSafe relative = true →
    canonicalChangedPath backend (backend.guestScratch ++ "/" ++ relative) = .ok relative ∧
      canonicalChangedPath backend relative = .ok relative
  /-- The list has the safe paths in order, each once, and equals the one of an inventory exactly
  when the same paths are in it. -/
  compared : ∀ changed, events.mapM (canonicalChangedPath backend) = .ok changed →
    IsSortedSet (sortedDistinct changed) changed ∧
      (∀ relative ∈ sortedDistinct changed, scratchRelativePathIsSafe relative = true) ∧
      ∀ inventory, sortedDistinct changed = sortedDistinct inventory ↔ ∀ relative,
        relative ∈ inventory ↔
          ∃ path ∈ events, canonicalChangedPath backend path = .ok relative

/-- A decoded value goes on. -/
theorem returns_orFault {α W : Type} {world : World AenCall AenCall.Res W}
    {decoded : Except Fault α} {c : Controller} {w : W} :
    Returns world (orFault decoded) (fun value _ _ => decoded = .ok value) c w := by
  cases decoded with
  | ok value => exact returns_pure rfl
  | error fault =>
    cases fault with
    | raised error => exact returns_throw _
    | _ => exact returns_throw _

/-- A checked value goes on. -/
theorem returns_checked {α W : Type} {world : World AenCall AenCall.Res W}
    {result : Except AenBackendError α} {c : Controller} {w : W} :
    Returns world (checked result) (fun value _ _ => result = .ok value) c w := by
  cases result with
  | ok value => exact returns_pure rfl
  | error error => exact returns_throw _

/-- A request that returns has the response with which the world answered it. -/
theorem returns_request {W : Type} {world : World AenCall AenCall.Res W} {call : AenRequest}
    {c : Controller} {w : W} :
    Returns world (request call) (fun response _ w' => world w (.request call) (.ok response) w')
      c w := by
  rw [request, Returns, ensures_perform_bind]
  intro answer w' hanswer
  cases answer with
  | ok response => exact returns_pure hanswer
  | error failure => exact returns_throw _

/-- `finish_diff_manifest` returns the list of the paths in the events with which the provider
answers `GetWatcherEvents`. -/
theorem finishDiffManifest_returns {W : Type} {world : World AenCall AenCall.Res W}
    {sandboxId watcherId : String} {c : Controller} {w : W} :
    Returns world (finishDiffManifest backend sandboxId watcherId) (fun paths _ _ =>
      ∃ response w' events changed,
        world w (.request (.watcherEvents sandboxId watcherId)) (.ok response) w' ∧
        decodeWatcherEvents response.body = .ok events ∧
        events.mapM (canonicalChangedPath backend) = .ok changed ∧
        paths = sortedDistinct changed) c w := by
  apply returns_request.bind
  intro response s answered hresponse
  apply returns_bind
  intro _ s w
  apply returns_orFault.bind
  intro events s w hevents
  apply returns_checked.bind
  intro changed s w hchanged
  apply returns_bind
  intro removed s w
  apply returns_bind
  intro _ s w
  exact returns_pure ⟨response, answered, events, changed, hresponse, hevents, hchanged, rfl⟩

/-- The list of a run is made of the canonical paths of the events that the provider answers. It
is made of safe paths, as a comparison with an inventory needs, exactly when no reported path is
an absolute one with an empty component. -/
theorem changed_paths_safe_iff (backend : Backend)
    (hscratch : canonicalGuestPath backend.guestScratch = true) (events : List String) :
    (∀ (W : Type) (world : World AenCall AenCall.Res W) sandboxId watcherId c w,
      Returns world (finishDiffManifest backend sandboxId watcherId) (fun paths _ _ =>
        ∃ response w' reported changed,
          world w (.request (.watcherEvents sandboxId watcherId)) (.ok response) w' ∧
          decodeWatcherEvents response.body = .ok reported ∧
          reported.mapM (canonicalChangedPath backend) = .ok changed ∧
          paths = sortedDistinct changed) c w) ∧
      (ReportsSafely backend events ↔ ∀ path ∈ events, ¬HasEmptyComponent backend path) := by
  refine ⟨fun W world sandboxId watcherId c w => finishDiffManifest_returns, ?_⟩
  constructor
  · intro h path hpath
    exact (safe_canonicalChangedPath_iff hscratch path).mp (h.each path hpath)
  · intro h
    have heach : ∀ path ∈ events, ∀ relative, canonicalChangedPath backend path = .ok relative →
        scratchRelativePathIsSafe relative = true :=
      fun path hpath => (safe_canonicalChangedPath_iff hscratch path).mpr (h path hpath)
    refine ⟨heach, fun relative => canonicalChangedPath_spellings hscratch,
      fun changed hchanged => ?_⟩
    have hset := isSortedSet_sortedDistinct changed
    have hmem := mem_of_mapM_ok hchanged
    refine ⟨hset, fun relative hrelative => ?_, fun inventory => ?_⟩
    · obtain ⟨path, hpath, hok⟩ := (hmem relative).mp ((hset.mem_iff relative).mp hrelative)
      exact heach path hpath relative hok
    · rw [← isSortedSet_iff]
      constructor
      · intro h relative
        rw [← h.mem_iff, hset.mem_iff, hmem]
      · intro h
        refine ⟨hset.inOrder, hset.nodup, fun relative => ?_⟩
        rw [h, hset.mem_iff, hmem]

/-- A relative and an absolute path without empty components are reported safely, and a run on the
sample guest lists the path that its watcher names. -/
theorem changed_paths_safe_sample :
    ReportsSafely sampleAenBackend ["a/b", "/scratch/c"] ∧
      Returns (execWorld sampleGuest) (finishDiffManifest sampleAenBackend "vm" "w")
        (fun paths _ _ => paths = sortedDistinct ["a"]) sampleController () := by
  obtain ⟨hlist, hsafe⟩ :=
    changed_paths_safe_iff sampleAenBackend (by decide) ["a/b", "/scratch/c"]
  constructor
  · apply hsafe.mpr
    intro path hpath hempty
    have hnone : ∀ path ∈ ["a/b", "/scratch/c"], ∀ component ∈ (splitPath path).drop 1,
        component ≠ "" := by decide
    obtain ⟨-, relative, rfl, -, hmem⟩ := hempty
    refine hnone _ hpath "" ?_ rfl
    rw [splitPath_append, List.drop_append_of_le_length (by decide)]
    exact List.mem_append_right _ hmem
  · apply (hlist Unit (execWorld sampleGuest) "vm" "w" sampleController ()).mono
    rintro paths _ _ ⟨response, _, events, changed, hresponse | hresponse, hevents, hchanged, rfl⟩
    · exact absurd hresponse not_false
    · have hbody : decodeWatcherEvents ⟨[0x0A, 3, 0x0A, 1, 97], by decide⟩ = .ok ["a"] := by
        decide
      obtain rfl := Except.ok.inj hresponse
      obtain rfl := Except.ok.inj (hevents.symm.trans hbody)
      obtain rfl := Except.ok.inj hchanged
      rfl

/-- Two slashes in a row below the scratch root. -/
theorem changed_path_unsafe : canonicalGuestPath sampleAenBackend.guestScratch = true ∧
    canonicalChangedPath sampleAenBackend "/scratch/a//b" = .ok "a//b" ∧
    scratchRelativePathIsSafe "a//b" = false := by
  decide

end Moonfort.AenBackend
