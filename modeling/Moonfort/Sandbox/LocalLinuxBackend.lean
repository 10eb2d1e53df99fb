import Moonfort.Sandbox.ProfileAcceptance

/-!
# The Linux mount plan

The arguments that the local backend hands to bubblewrap, the options that
bubblewrap reads from them up to the separator, and which host paths they bind.
The plan keeps the workspace out of the namespace only when no runtime tree, no
other read-only root and no executable overlaps it.
-/

namespace Moonfort.Sandbox

open MoonBit

/-- The runtime trees of a Linux host. -/
def linuxRuntimeRoots : List String := ["/usr", "/bin", "/sbin", "/lib", "/lib64"]

/-- `linux_standard_runtime_root`. -/
def linuxStandardRuntimeRoot (root : String) : Bool :=
  linuxRuntimeRoots.any fun standard => root == standard || hasPrefix root (standard ++ "/")

/-- `linux_reserved_guest_mount`. -/
def linuxReservedGuestMount (root : String) : Bool :=
  if root == "/" || root == "/etc" || root == "/home" || root == "/root" || root == "/var" then true
  else ["/workspace", "/proc", "/sys", "/dev", "/tmp", "/run"].any fun reserved =>
    rootsOverlap root reserved

/-- `linux_guest_working_directory`. -/
def linuxGuestWorkingDirectory (workingDirectory : String) : String :=
  if workingDirectory == "" then "/workspace" else "/workspace/" ++ workingDirectory

/-- `safe_local_working_directory`. -/
def safeLocalWorkingDirectory (path : String) : Bool :=
  path == "" ||
    (!hasPrefix path "/" && !hasSuffix path "/" && !containsText path "//" &&
      !containsText path "\x00" && utf8Length path ≤ 4096 &&
      !((splitPath path).any fun component => component == "." || component == ".."))

/-- The loop over the read-only roots: what it pushes for each of them. -/
def readOnlyRootArguments (profile : SandboxProfile) : List String → Except String (List String)
  | [] => .ok []
  | root :: rest =>
    if root == profile.workspaceRoot || linuxStandardRuntimeRoot root then
      readOnlyRootArguments profile rest
    else if linuxReservedGuestMount root then
      .error ("read-only root collides with a reserved Linux sandbox mount: " ++ root)
    else do
      let args ← readOnlyRootArguments profile rest
      return ["--ro-bind", root, root] ++ args

/-- What is pushed for the executable. -/
def executableArguments (executable : String) : List String :=
  if linuxStandardRuntimeRoot executable then [] else ["--ro-bind", executable, executable]

/-- The environment of a command. -/
def linuxEnvironment : List (String × String) :=
  [("HOME", "/workspace"), ("TMPDIR", "/workspace"), ("PATH", "/usr/bin:/bin:/usr/sbin:/sbin"),
    ("LANG", "C.UTF-8")]

/-- `linux_bubblewrap_arguments`. -/
def linuxBubblewrapArguments (profile : SandboxProfile) (executable : String)
    (commandArgs : List String) (workingDirectory : String) : Except String (List String) :=
  if !pathIsCanonicalAbsolute executable then
    .error "Linux sandbox executable must be a canonical absolute path"
  else if !safeLocalWorkingDirectory workingDirectory then
    .error "Linux sandbox working directory must be workspace-relative"
  else if executable == profile.workspaceRoot ||
      hasPrefix executable (profile.workspaceRoot ++ "/") ||
      executable == profile.scratchRoot || hasPrefix executable (profile.scratchRoot ++ "/") then
    .error "trusted executable must not reside in workspace or writable scratch"
  else do
    let roots ← readOnlyRootArguments profile profile.readOnlyRoots
    return ["--die-with-parent", "--new-session", "--unshare-all", "--unshare-user",
        "--unshare-net", "--cap-drop", "ALL", "--clearenv", "--hostname", "moonfort"] ++
      linuxRuntimeRoots.flatMap (fun root => ["--ro-bind-try", root, root]) ++
      ["--ro-bind-try", "/etc/ld.so.cache", "/etc/ld.so.cache"] ++ roots ++
      executableArguments executable ++
      ["--proc", "/proc", "--dev", "/dev", "--bind", profile.scratchRoot, "/workspace", "--chdir",
        linuxGuestWorkingDirectory workingDirectory] ++
      linuxEnvironment.flatMap (fun pair => ["--setenv", pair.1, pair.2]) ++
      ["--remount-ro", "/", "--", executable] ++ commandArgs

/-- An option of bubblewrap. -/
inductive BwrapOption where
  | dieWithParent
  | newSession
  | unshareAll
  | unshareUser
  | unshareNet
  | clearenv
  | capDrop (capability : String)
  | hostname (name : String)
  | roBind (source target : String)
  | roBindTry (source target : String)
  | bind (source target : String)
  | proc (target : String)
  | dev (target : String)
  | chdir (directory : String)
  | setenv (key value : String)
  | remountRo (target : String)
  deriving DecidableEq

/-- The arguments of an option. -/
def BwrapOption.words : BwrapOption → List String
  | .dieWithParent => ["--die-with-parent"]
  | .newSession => ["--new-session"]
  | .unshareAll => ["--unshare-all"]
  | .unshareUser => ["--unshare-user"]
  | .unshareNet => ["--unshare-net"]
  | .clearenv => ["--clearenv"]
  | .capDrop capability => ["--cap-drop", capability]
  | .hostname name => ["--hostname", name]
  | .roBind source target => ["--ro-bind", source, target]
  | .roBindTry source target => ["--ro-bind-try", source, target]
  | .bind source target => ["--bind", source, target]
  | .proc target => ["--proc", target]
  | .dev target => ["--dev", target]
  | .chdir directory => ["--chdir", directory]
  | .setenv key value => ["--setenv", key, value]
  | .remountRo target => ["--remount-ro", target]

/-- How bubblewrap reads its arguments: options up to the separator, and the
command with its arguments after it. -/
def readBwrap : List String → Option (List BwrapOption × List String)
  | "--" :: command => some ([], command)
  | "--die-with-parent" :: rest => (readBwrap rest).map fun r => (.dieWithParent :: r.1, r.2)
  | "--new-session" :: rest => (readBwrap rest).map fun r => (.newSession :: r.1, r.2)
  | "--unshare-all" :: rest => (readBwrap rest).map fun r => (.unshareAll :: r.1, r.2)
  | "--unshare-user" :: rest => (readBwrap rest).map fun r => (.unshareUser :: r.1, r.2)
  | "--unshare-net" :: rest => (readBwrap rest).map fun r => (.unshareNet :: r.1, r.2)
  | "--clearenv" :: rest => (readBwrap rest).map fun r => (.clearenv :: r.1, r.2)
  | "--cap-drop" :: x :: rest => (readBwrap rest).map fun r => (.capDrop x :: r.1, r.2)
  | "--hostname" :: x :: rest => (readBwrap rest).map fun r => (.hostname x :: r.1, r.2)
  | "--ro-bind" :: x :: y :: rest => (readBwrap rest).map fun r => (.roBind x y :: r.1, r.2)
  | "--ro-bind-try" :: x :: y :: rest => (readBwrap rest).map fun r => (.roBindTry x y :: r.1, r.2)
  | "--bind" :: x :: y :: rest => (readBwrap rest).map fun r => (.bind x y :: r.1, r.2)
  | "--proc" :: x :: rest => (readBwrap rest).map fun r => (.proc x :: r.1, r.2)
  | "--dev" :: x :: rest => (readBwrap rest).map fun r => (.dev x :: r.1, r.2)
  | "--chdir" :: x :: rest => (readBwrap rest).map fun r => (.chdir x :: r.1, r.2)
  | "--setenv" :: x :: y :: rest => (readBwrap rest).map fun r => (.setenv x y :: r.1, r.2)
  | "--remount-ro" :: x :: rest => (readBwrap rest).map fun r => (.remountRo x :: r.1, r.2)
  | _ => none

/-- An option in front of further arguments is read as the option. -/
theorem readBwrap_words (option : BwrapOption) (rest : List String) :
    readBwrap (option.words ++ rest) =
      (readBwrap rest).map fun r => (option :: r.1, r.2) := by
  cases option <;> simp [BwrapOption.words, readBwrap]

/-- Options up to the separator are read as the options, whatever follows it. -/
theorem readBwrap_flatMap (options : List BwrapOption) (command : List String) :
    readBwrap (options.flatMap BwrapOption.words ++ "--" :: command) = some (options, command) := by
  induction options with
  | nil => simp [readBwrap]
  | cons option options ih =>
    rw [List.flatMap_cons, List.append_assoc, readBwrap_words, ih]
    rfl

/-- The host path that an option binds writable, with the place where it appears. -/
def BwrapOption.writableBind : BwrapOption → Option (String × String)
  | .bind source target => some (source, target)
  | _ => none

/-- The host path that an option binds read-only. -/
def BwrapOption.readOnlySource : BwrapOption → Option String
  | .roBind source _ => some source
  | .roBindTry source _ => some source
  | _ => none

/-- The read-only roots that are bound: neither the workspace nor part of a runtime tree. -/
def boundRoots (profile : SandboxProfile) : List String :=
  profile.readOnlyRoots.filter fun root =>
    !(root == profile.workspaceRoot || linuxStandardRuntimeRoot root)

/-- The options of the plan. -/
def linuxOptions (profile : SandboxProfile) (executable workingDirectory : String) :
    List BwrapOption :=
  ([.dieWithParent, .newSession, .unshareAll, .unshareUser, .unshareNet, .capDrop "ALL", .clearenv,
      .hostname "moonfort"] : List BwrapOption) ++
    linuxRuntimeRoots.map (fun root => .roBindTry root root) ++
    [.roBindTry "/etc/ld.so.cache" "/etc/ld.so.cache"] ++
    (boundRoots profile).map (fun root => .roBind root root) ++
    (if linuxStandardRuntimeRoot executable then [] else [.roBind executable executable]) ++
    [.proc "/proc", .dev "/dev", .bind profile.scratchRoot "/workspace",
      .chdir (linuxGuestWorkingDirectory workingDirectory)] ++
    linuxEnvironment.map (fun pair => .setenv pair.1 pair.2) ++ [.remountRo "/"]

variable {profile : SandboxProfile}

/-- The arguments of the roots are the read-only binds of those that are not skipped. -/
theorem readOnlyRootArguments_eq_ok {roots args : List String}
    (h : readOnlyRootArguments profile roots = .ok args) :
    args = ((roots.filter fun root =>
      !(root == profile.workspaceRoot || linuxStandardRuntimeRoot root)).map
        fun root => BwrapOption.roBind root root).flatMap BwrapOption.words := by
  induction roots generalizing args with
  | nil => exact (Except.ok.inj h).symm
  | cons root rest ih =>
    rw [readOnlyRootArguments] at h
    split at h
    · rename_i hskip
      rw [List.filter_cons_of_neg (by simp [hskip])]
      exact ih h
    · rename_i hbound
      split at h
      · cases h
      · cases hrest : readOnlyRootArguments profile rest with
        | error message =>
          rw [hrest] at h
          cases h
        | ok args' =>
          rw [hrest] at h
          have hargs : args = ["--ro-bind", root, root] ++ args' := (Except.ok.inj h).symm
          rw [List.filter_cons_of_pos (by simpa using hbound), hargs, ih hrest]
          rfl

/-- The plan consists of its options, the separator, and the command. -/
theorem linuxBubblewrapArguments_eq_ok {executable : String}
    {commandArgs : List String} {workingDirectory : String} {args : List String}
    (h : linuxBubblewrapArguments profile executable commandArgs workingDirectory = .ok args) :
    pathIsCanonicalAbsolute executable = true ∧ executable ≠ profile.workspaceRoot ∧
      hasPrefix executable (profile.workspaceRoot ++ "/") = false ∧
      args = (linuxOptions profile executable workingDirectory).flatMap BwrapOption.words ++
        "--" :: executable :: commandArgs := by
  rw [linuxBubblewrapArguments] at h
  split at h
  · cases h
  · rename_i hcanonical
    split at h
    · cases h
    · split at h
      · cases h
      · rename_i houtside
        simp only [Bool.or_eq_true, beq_iff_eq, not_or, Bool.not_eq_true] at houtside
        cases hroots : readOnlyRootArguments profile profile.readOnlyRoots with
        | error message =>
          rw [hroots] at h
          cases h
        | ok roots =>
          rw [hroots] at h
          refine ⟨by simpa using hcanonical, houtside.1.1.1, houtside.1.1.2, ?_⟩
          rw [← Except.ok.inj h, readOnlyRootArguments_eq_ok hroots, linuxOptions, boundRoots,
            executableArguments]
          by_cases hstandard : linuxStandardRuntimeRoot executable = true
          · simp [hstandard, BwrapOption.words, List.flatMap_map]
          · simp [hstandard, BwrapOption.words, List.flatMap_map]

/-- The scratch root is the only writable bind. -/
theorem writableBinds_linuxOptions (profile : SandboxProfile)
    (executable workingDirectory : String) :
    (linuxOptions profile executable workingDirectory).filterMap BwrapOption.writableBind =
      [(profile.scratchRoot, "/workspace")] := by
  have hroots : ∀ roots : List String, (roots.map fun root =>
      BwrapOption.roBind root root).filterMap BwrapOption.writableBind = [] := by
    intro roots
    rw [List.filterMap_eq_nil_iff]
    intro option hoption
    obtain ⟨root, _, rfl⟩ := List.mem_map.mp hoption
    rfl
  simp only [linuxOptions, List.filterMap_append, hroots]
  split <;> rfl

/-- What is bound read-only. -/
theorem mem_readOnlySources {executable workingDirectory source : String} :
    source ∈ (linuxOptions profile executable workingDirectory).filterMap
        BwrapOption.readOnlySource ↔
      source ∈ linuxRuntimeRoots ∨ source = "/etc/ld.so.cache" ∨ source ∈ boundRoots profile ∨
        (linuxStandardRuntimeRoot executable = false ∧ source = executable) := by
  have hroots : ∀ roots : List String, (roots.map fun root =>
      BwrapOption.roBind root root).filterMap BwrapOption.readOnlySource = roots := by
    intro roots
    rw [List.filterMap_map]
    exact List.filterMap_some
  simp only [linuxOptions, List.filterMap_append, hroots, List.mem_append]
  by_cases hstandard : linuxStandardRuntimeRoot executable = true
  · simp [hstandard, linuxRuntimeRoots, linuxEnvironment, BwrapOption.readOnlySource, or_assoc]
  · simp [hstandard, linuxRuntimeRoots, linuxEnvironment, BwrapOption.readOnlySource, or_assoc]

/-- The mounts of a plan are confined: bubblewrap reads options and then the
command with its own arguments, the scratch root at `/workspace` is the only
writable bind, and no host path that is bound read-only overlaps the workspace. -/
def MountsConfined (profile : SandboxProfile) (executable : String)
    (commandArgs args : List String) : Prop :=
  ∃ options, readBwrap args = some (options, executable :: commandArgs) ∧
    options.filterMap BwrapOption.writableBind = [(profile.scratchRoot, "/workspace")] ∧
    ∀ source ∈ options.filterMap BwrapOption.readOnlySource,
      ¬ Overlaps source profile.workspaceRoot

/-- Nothing that is bound from the host can reach the workspace: it is outside the
runtime trees, apart from the loader's cache, from every other read-only root
outside these trees, and not below the executable. -/
def WorkspaceApart (profile : SandboxProfile) (executable : String) : Prop :=
  (∀ root ∈ linuxRuntimeRoots, ¬ Overlaps root profile.workspaceRoot) ∧
    ¬ Overlaps "/etc/ld.so.cache" profile.workspaceRoot ∧
    (∀ root ∈ profile.readOnlyRoots, root ≠ profile.workspaceRoot →
      linuxStandardRuntimeRoot root = false → ¬ Overlaps root profile.workspaceRoot) ∧
    (linuxStandardRuntimeRoot executable = false →
      pathContains executable profile.workspaceRoot = false)

instance (profile : SandboxProfile) (executable : String) :
    Decidable (WorkspaceApart profile executable) :=
  inferInstanceAs (Decidable (_ ∧ _))

/-- The workspace of an accepted profile is not the root of the host. -/
theorem ProfileAccepted.workspace_ne_root (h : ProfileAccepted profile) :
    profile.workspaceRoot ≠ "/" := by
  intro hroot
  have happart := h.scratch_apart
  have hoverlap := overlaps_root h.scratch_canonical
  rw [← hroot, ← rootsOverlap_iff h.workspace_canonical h.scratch_canonical, happart] at hoverlap
  cases hoverlap

/-- Bubblewrap reads from a plan the options of the plan and then the command. -/
theorem readBwrap_plan {executable : String} {commandArgs : List String}
    {workingDirectory : String} {args : List String}
    (hargs : linuxBubblewrapArguments profile executable commandArgs workingDirectory = .ok args) :
    readBwrap args =
      some (linuxOptions profile executable workingDirectory, executable :: commandArgs) := by
  obtain ⟨_, _, _, hwords⟩ := linuxBubblewrapArguments_eq_ok hargs
  rw [hwords]
  exact readBwrap_flatMap _ _

/-- The mounts of a plan are confined exactly when the workspace is apart from
everything else that is bound. -/
theorem mountsConfined_iff {executable : String}
    {commandArgs : List String} {workingDirectory : String} {args : List String}
    (hprofile : ProfileAccepted profile)
    (hargs : linuxBubblewrapArguments profile executable commandArgs workingDirectory = .ok args) :
    MountsConfined profile executable commandArgs args ↔ WorkspaceApart profile executable := by
  obtain ⟨_, hne, houtside, _⟩ := linuxBubblewrapArguments_eq_ok hargs
  have hread := readBwrap_plan hargs
  constructor
  · rintro ⟨options, hoptions, _, hapart⟩
    rw [hread, Option.some.injEq, Prod.mk.injEq] at hoptions
    rw [← hoptions.1] at hapart
    refine ⟨?_, ?_, ?_, ?_⟩
    · exact fun root hroot => hapart root (mem_readOnlySources.mpr (.inl hroot))
    · exact hapart _ (mem_readOnlySources.mpr (.inr (.inl rfl)))
    · intro root hroot hws hstandard
      have hbound : root ∈ boundRoots profile :=
        List.mem_filter.mpr ⟨hroot, by simp [hws, hstandard]⟩
      exact hapart root (mem_readOnlySources.mpr (.inr (.inr (.inl hbound))))
    · intro hstandard
      have hexecutable := hapart executable
        (mem_readOnlySources.mpr (.inr (.inr (.inr ⟨hstandard, rfl⟩))))
      exact Bool.eq_false_of_not_eq_true fun h => hexecutable (.inr (.inl h))
  · rintro ⟨hruntime, hcache, hroots, hexecutable⟩
    refine ⟨_, hread, writableBinds_linuxOptions profile executable workingDirectory, ?_⟩
    intro source hsource
    rcases mem_readOnlySources.mp hsource with hsource | rfl | hsource | ⟨hstandard, rfl⟩
    · exact hruntime source hsource
    · exact hcache
    · obtain ⟨hroot, hbound⟩ := List.mem_filter.mp hsource
      simp only [Bool.not_eq_true', Bool.or_eq_false_iff, beq_eq_false_iff_ne] at hbound
      exact hroots source hroot hbound.1 hbound.2
    · -- the function itself refuses an executable at or below the workspace
      rintro (h | h | h)
      · exact hne h
      · rw [hexecutable hstandard] at h
        cases h
      · rw [pathContains, if_neg (by simpa using hprofile.workspace_ne_root), houtside] at h
        cases h

/-- For every accepted profile and every plan the scratch root is the only
writable bind and the command follows the separator; the mounts are confined
exactly when the workspace is apart from everything else that is bound. -/
theorem linux_mounts_confined_iff (profile : SandboxProfile) (executable : String)
    (commandArgs : List String) (workingDirectory : String) (args : List String)
    (haccepted : profileRejection profile = "")
    (hargs : linuxBubblewrapArguments profile executable commandArgs workingDirectory = .ok args) :
    (∃ options, readBwrap args = some (options, executable :: commandArgs) ∧
      args = options.flatMap BwrapOption.words ++ "--" :: executable :: commandArgs ∧
      options.filterMap BwrapOption.writableBind = [(profile.scratchRoot, "/workspace")]) ∧
    (MountsConfined profile executable commandArgs args ↔ WorkspaceApart profile executable) := by
  have hprofile := (profileRejection_eq_empty_iff profile).mp haccepted
  obtain ⟨_, _, _, hwords⟩ := linuxBubblewrapArguments_eq_ok hargs
  have hwritable := writableBinds_linuxOptions profile executable workingDirectory
  exact ⟨⟨_, readBwrap_plan hargs, hwords, hwritable⟩, mountsConfined_iff hprofile hargs⟩

/-- A workspace outside the runtime trees, with a toolchain beside it. -/
def sampleLinuxProfile : SandboxProfile where
  runId := "run"
  workspaceRoot := "/srv/book"
  scratchRoot := "/srv/scratch/run"
  backend := .localOs
  enforcementRequirement := .allowDegraded
  network := .deny
  readOnlyRoots := ["/srv/book", "/opt/moon"]
  allowedEgress := []
  allowedCommands := ["moon"]
  limits := ⟨1, 1, 1, 1, 1, 1⟩
  readOnlyWorkspace := true
  executorEvidenceRoot := ""
  liveOutputId := ""

/-- The plan for an executable, or nothing where it is refused. -/
def plannedArguments (profile : SandboxProfile) (executable : String) : List String :=
  match linuxBubblewrapArguments profile executable ["check", "--"] "" with
  | .ok args => args
  | .error _ => []

/-- The sample profile and the `moon` program. -/
theorem linux_mounts_confined_iff_sample :
    MountsConfined sampleLinuxProfile "/usr/bin/moon" ["check", "--"]
      (plannedArguments sampleLinuxProfile "/usr/bin/moon") :=
  (linux_mounts_confined_iff sampleLinuxProfile "/usr/bin/moon" ["check", "--"] "" _ (by decide)
    rfl).2.mpr (by decide)

/-- The same profile with the parent of the workspace as its read-only root. -/
def sampleExposedProfile : SandboxProfile :=
  { sampleLinuxProfile with
    workspaceRoot := "/srv/books/main", readOnlyRoots := ["/srv/books", "/opt/moon"] }

/-- A read-only root that contains the workspace is accepted and bound. -/
theorem linux_mounts_exposed_sample :
    profileRejection sampleExposedProfile = "" ∧
      linuxBubblewrapArguments sampleExposedProfile "/usr/bin/moon" ["check", "--"] "" =
        .ok (plannedArguments sampleExposedProfile "/usr/bin/moon") ∧
      ¬ MountsConfined sampleExposedProfile "/usr/bin/moon" ["check", "--"]
        (plannedArguments sampleExposedProfile "/usr/bin/moon") := by
  have haccepted : profileRejection sampleExposedProfile = "" := by decide
  have hprofile := (profileRejection_eq_empty_iff sampleExposedProfile).mp haccepted
  have hargs : linuxBubblewrapArguments sampleExposedProfile "/usr/bin/moon" ["check", "--"] "" =
      .ok (plannedArguments sampleExposedProfile "/usr/bin/moon") := rfl
  refine ⟨haccepted, hargs, ?_⟩
  rw [mountsConfined_iff hprofile hargs]
  decide

end Moonfort.Sandbox
