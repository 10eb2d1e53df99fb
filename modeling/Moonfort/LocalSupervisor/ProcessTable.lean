import Moonfort.BinarySearch
import Moonfort.LinkChains
import Mathlib.Data.Set.Card

/-!
# The process table of the local supervisor

The Linux branch of `group_process_count` of `supervisor.c`: the table that it reads from `/proc`
into an array that grows, the sort, and the walk from each process along its parents.
-/

namespace Moonfort.LocalSupervisor

open BinarySearch LinkChains

/-- `struct linux_process`. -/
structure LinuxProcess where
  pid : ℤ
  parent : ℤ
  deriving DecidableEq

/-- A table of processes with different positive numbers, and any parents. The numbers are
values of `pid_t`. -/
structure ProcessTable where
  processes : List LinuxProcess
  pid_pos : ∀ process ∈ processes, 0 < process.pid
  fits : ∀ process ∈ processes, process.pid < 2 ^ 31 ∧ -2 ^ 31 ≤ process.parent ∧
    process.parent < 2 ^ 31
  nodup : (processes.map LinuxProcess.pid).Nodup

/-! ## The table that is read -/

/-- What reading `/proc/<number>/stat` gives. -/
inductive StatLine where
  /-- Opening or reading it ends with `ENOENT` or `ESRCH`. -/
  | gone
  /-- It cannot be opened or read for another reason, or nothing is read. -/
  | unreadable
  /-- It has no closing parenthesis or not the three fields behind it. -/
  | malformed
  /-- The parent among its fields. -/
  | fields (parent : ℤ)
  deriving DecidableEq

/-- An entry of `/proc`: the number that `strtol` reads from the whole name, and the line. -/
structure ProcEntry where
  number : Option ℤ
  line : StatLine
  deriving DecidableEq

/-- What the host answers: the entries that `readdir` delivers once `/proc` is open, whether it
ends without an error, and whether there is memory for so many processes. -/
structure ProcHost where
  entries : Option (List ProcEntry)
  endsWell : Bool
  allocates : ℕ → Bool

/-- The value as a `pid_t`. -/
def toPid (value : ℤ) : ℤ := value.bmod (2 ^ 32)

/-- The array with one process more, and its capacity. -/
def storeProcess (allocates : ℕ → Bool) (processes : List LinuxProcess) (capacity : ℕ)
    (process : LinuxProcess) : Option (List LinuxProcess × ℕ) :=
  if processes.length = capacity then
    if capacity ≥ 4 * 1024 * 1024 / 8 then none
    else if allocates (capacity * 2) then some (processes ++ [process], capacity * 2)
    else none
  else some (processes ++ [process], capacity)

/-- One round of the loop over the entries; `none` where it sets `failed`. -/
def readEntry (allocates : ℕ → Bool) (state : List LinuxProcess × ℕ) (entry : ProcEntry) :
    Option (List LinuxProcess × ℕ) :=
  match entry.number with
  | none => some state
  | some number =>
    if number ≤ 0 then some state
    else
      match entry.line with
      | .gone => some state
      | .unreadable => none
      | .malformed => none
      | .fields parent =>
        if parent < 0 then none
        else storeProcess allocates state.1 state.2 ⟨toPid number, toPid parent⟩

/-- The table as the loop leaves it, unless something fails. -/
def readProcesses (host : ProcHost) : Option (List LinuxProcess) :=
  match host.entries with
  | none => none
  | some entries =>
    if host.allocates 256 then
      match entries.foldlM (readEntry host.allocates) ([], 256) with
      | none => none
      | some state => if host.endsWell then some state.1 else none
    else none

/-! ## The count of a table -/

/-- `compare_linux_process`. -/
def compareLinuxProcess (left right : LinuxProcess) : ℤ :=
  if left.pid < right.pid then -1 else if left.pid > right.pid then 1 else 0

/-- `qsort(processes, count, sizeof(*processes), compare_linux_process)`. -/
def sortProcesses (processes : List LinuxProcess) : List LinuxProcess :=
  processes.mergeSort fun left right => decide (compareLinuxProcess left right ≤ 0)

/-- Where the key of a process number stands to a process. -/
def placeOf (cursor : ℤ) (process : LinuxProcess) : Ordering :=
  compare (compareLinuxProcess ⟨cursor, 0⟩ process) 0

/-- `bsearch(&key, processes, count, sizeof(*processes), compare_linux_process)`. -/
def findProcess (processes : List LinuxProcess) (cursor : ℤ) : Option LinuxProcess :=
  search (placeOf cursor) processes

/-- The walk from a process along its parents, of at most so many rounds of `depth`. -/
def climb (processes : List LinuxProcess) (leader : ℤ) : ℕ → ℤ → Bool
  | 0, _ => false
  | rounds + 1, cursor =>
    if cursor > 0 then
      if cursor = leader then true
      else
        match findProcess processes cursor with
        | none => false
        | some found =>
          if found.parent = cursor then false else climb processes leader rounds found.parent
    else false

/-- The loop over the sorted table. The rounds of `depth` are from 0 to `count`. -/
def countDescendants (table : List LinuxProcess) (leader : ℤ) : ℕ :=
  let processes := sortProcesses table
  let count := processes.length
  processes.foldl
    (fun descendants process =>
      if climb processes leader (count + 1) process.pid then descendants + 1 else descendants) 0

/-- `group_process_count`. -/
def groupProcessCount (host : ProcHost) (leader : ℤ) : ℤ :=
  match readProcesses host with
  | none => -1
  | some table => countDescendants table leader

/-! ## What is to be counted -/

/-- The chain of parent links of a process reaches the leader. -/
inductive ReachesLeader (table : ProcessTable) (leader : ℤ) : ℤ → Prop
  | leader : ReachesLeader table leader leader
  | parent {process : LinuxProcess} (hmem : process ∈ table.processes)
      (h : ReachesLeader table leader process.parent) : ReachesLeader table leader process.pid

/-- The processes whose chain of parent links reaches the leader. -/
def descendants (table : ProcessTable) (leader : ℤ) : Set LinuxProcess :=
  {process | process ∈ table.processes ∧ ReachesLeader table leader process.pid}

/-- The process that an entry shows. -/
def ProcEntry.process? (entry : ProcEntry) : Option LinuxProcess :=
  match entry.number, entry.line with
  | some number, .fields parent => if 0 < number then some ⟨number, parent⟩ else none
  | _, _ => none

/-- An entry that is not of a process, of a process that is gone, or with its line. -/
def ProcEntry.Readable (entry : ProcEntry) : Prop :=
  entry.line = .unreadable ∨ entry.line = .malformed →
    ∀ number, entry.number = some number → number ≤ 0

/-- `/proc` shows a table: the processes that are not gone are those of the table, in its order,
every line can be read and there is memory for it. -/
structure ProcHost.Shows (host : ProcHost) (table : ProcessTable) : Prop where
  entries : ∃ entries, host.entries = some entries ∧ (∀ entry ∈ entries, entry.Readable) ∧
    entries.filterMap ProcEntry.process? = table.processes
  endsWell : host.endsWell = true
  allocates : ∀ capacity, host.allocates capacity = true

/-- A table that the array holds, without a negative parent. -/
structure ProcessTable.Countable (table : ProcessTable) : Prop where
  length_le : table.processes.length ≤ 524288
  parent_nonneg : ∀ process ∈ table.processes, 0 ≤ process.parent

/-! ## Reading the table -/

/-- An array whose capacity came from doubling. -/
def Grown (state : List LinuxProcess × ℕ) : Prop :=
  ∃ doublings ≤ 11, state.2 = 256 * 2 ^ doublings ∧ state.1.length ≤ state.2

/-- Eleven times is as often as the loop doubles it. -/
theorem Grown.length_le {state : List LinuxProcess × ℕ} (hgrown : Grown state) :
    state.1.length ≤ 524288 := by
  obtain ⟨doublings, hle, hcapacity, hlength⟩ := hgrown
  have hbound : 2 ^ doublings ≤ 2 ^ 11 := Nat.pow_le_pow_right (by omega) hle
  omega

/-- The array starts empty, with room for 256 entries. -/
theorem grown_nil : Grown ([], 256) := ⟨0, by omega, rfl, Nat.zero_le _⟩

/-- A process is stored as long as there are fewer than 524288. -/
theorem storeProcess_of_lt {allocates : ℕ → Bool} (hmemory : ∀ capacity, allocates capacity = true)
    {state : List LinuxProcess × ℕ} (hgrown : Grown state) (hroom : state.1.length < 524288)
    (process : LinuxProcess) :
    ∃ capacity, storeProcess allocates state.1 state.2 process =
      some (state.1 ++ [process], capacity) ∧ Grown (state.1 ++ [process], capacity) := by
  obtain ⟨doublings, hle, hcapacity, hlength⟩ := hgrown
  unfold storeProcess
  by_cases hfull : state.1.length = state.2
  · have hpos := Nat.two_pow_pos doublings
    have hsmall : 256 * 2 ^ doublings < 256 * 2 ^ 11 := by omega
    have hlt : doublings < 11 :=
      (Nat.pow_lt_pow_iff_right (by omega)).mp (Nat.lt_of_mul_lt_mul_left hsmall)
    rw [if_pos hfull, if_neg (by omega), if_pos (hmemory _)]
    refine ⟨_, rfl, doublings + 1, hlt, ?_, ?_⟩
    · rw [hcapacity, Nat.pow_succ, Nat.mul_assoc]
    · rw [List.length_append, List.length_singleton]
      omega
  · rw [if_neg hfull]
    refine ⟨_, rfl, doublings, hle, hcapacity, ?_⟩
    rw [List.length_append, List.length_singleton]
    exact Nat.lt_of_le_of_ne hlength hfull

/-- An array of 524288 processes grows no further. -/
theorem storeProcess_of_full {allocates : ℕ → Bool} {state : List LinuxProcess × ℕ}
    (hgrown : Grown state) (hfull : 524288 ≤ state.1.length) (process : LinuxProcess) :
    storeProcess allocates state.1 state.2 process = none := by
  obtain ⟨doublings, hle, hcapacity, hlength⟩ := hgrown
  have hbound : 2 ^ doublings ≤ 2 ^ 11 := Nat.pow_le_pow_right (by omega) hle
  rw [storeProcess, if_pos (by omega), if_pos (by omega)]

/-- A value of 32 bits is kept. -/
theorem toPid_of_fits {value : ℤ} (hle : -2 ^ 31 ≤ value) (hlt : value < 2 ^ 31) :
    toPid value = value :=
  Int.bmod_eq_of_le (by omega) (by omega)

/-- A round stores the process that its entry shows. -/
theorem readEntry_eq (allocates : ℕ → Bool) {entry : ProcEntry} (hreadable : entry.Readable)
    (hfits : ∀ process, entry.process? = some process → process.pid < 2 ^ 31 ∧
      -2 ^ 31 ≤ process.parent ∧ process.parent < 2 ^ 31) (state : List LinuxProcess × ℕ) :
    readEntry allocates state entry =
      match entry.process? with
      | none => some state
      | some process =>
        if process.parent < 0 then none else storeProcess allocates state.1 state.2 process := by
  obtain ⟨number, line⟩ := entry
  cases number with
  | none => rfl
  | some number =>
    by_cases hpos : 0 < number
    · cases line with
      | gone => exact if_neg (by omega)
      | unreadable => exact absurd (hreadable (.inl rfl) number rfl) (by omega)
      | malformed => exact absurd (hreadable (.inr rfl) number rfl) (by omega)
      | fields parent =>
        have hentry : ProcEntry.process? ⟨some number, .fields parent⟩ = some ⟨number, parent⟩ :=
          if_pos hpos
        obtain ⟨hpid, hle, hlt⟩ := hfits _ hentry
        have hnumber : toPid number = number := toPid_of_fits (by omega) hpid
        have hparent : toPid parent = parent := toPid_of_fits hle hlt
        rw [hentry, readEntry]
        dsimp only
        rw [if_neg (by omega), hnumber, hparent]
    · have hentry : ProcEntry.process? ⟨some number, line⟩ = none := by
        cases line with
        | fields parent => exact if_neg hpos
        | _ => rfl
      rw [hentry]
      exact if_pos (by omega)

/-- The loop from an array on stores the processes of the entries behind it, unless one has a
negative parent or there are too many. -/
theorem foldlM_readEntry {allocates : ℕ → Bool} (hmemory : ∀ capacity, allocates capacity = true)
    {entries : List ProcEntry} (hreadable : ∀ entry ∈ entries, entry.Readable)
    (hfits : ∀ process ∈ entries.filterMap ProcEntry.process?, process.pid < 2 ^ 31 ∧
      -2 ^ 31 ≤ process.parent ∧ process.parent < 2 ^ 31)
    {state : List LinuxProcess × ℕ} (hgrown : Grown state) :
    (entries.foldlM (readEntry allocates) state).map Prod.fst =
      if state.1.length + (entries.filterMap ProcEntry.process?).length ≤ 524288 ∧
          ∀ process ∈ entries.filterMap ProcEntry.process?, 0 ≤ process.parent then
        some (state.1 ++ entries.filterMap ProcEntry.process?)
      else none := by
  induction entries generalizing state with
  | nil =>
    have hlength := hgrown.length_le
    rw [List.filterMap_nil, List.append_nil, if_pos ⟨hlength, fun _ h => absurd h List.not_mem_nil⟩]
    rfl
  | cons entry entries ih =>
    have hrest : ∀ other ∈ entries, other.Readable :=
      fun other hother => hreadable other (List.mem_cons_of_mem _ hother)
    have hread := readEntry_eq allocates (hreadable entry List.mem_cons_self)
      (fun process hprocess => hfits process
        (List.mem_filterMap.mpr ⟨entry, List.mem_cons_self, hprocess⟩)) state
    rw [List.foldlM_cons, hread]
    cases hentry : entry.process? with
    | none =>
      rw [List.filterMap_cons_none hentry] at hfits ⊢
      exact ih hrest hfits hgrown
    | some process =>
      rw [List.filterMap_cons_some hentry] at hfits ⊢
      have hbehind := fun other hother => hfits other (List.mem_cons_of_mem _ hother)
      dsimp only
      by_cases hnegative : process.parent < 0
      · rw [if_pos hnegative, if_neg]
        · rfl
        · rintro ⟨-, hnonneg⟩
          have := hnonneg process List.mem_cons_self
          omega
      · rw [if_neg hnegative]
        by_cases hroom : state.1.length < 524288
        · obtain ⟨capacity, hstore, hgrown'⟩ := storeProcess_of_lt hmemory hgrown hroom process
          have hnext := ih hrest hbehind hgrown'
          rw [List.length_append, List.length_singleton, List.append_assoc,
            List.singleton_append] at hnext
          rw [hstore]
          refine hnext.trans (if_congr (and_congr ?_ ?_) rfl rfl)
          · rw [List.length_cons]
            omega
          · rw [List.forall_mem_cons]
            exact (and_iff_right (by omega)).symm
        · rw [storeProcess_of_full hgrown (by omega), if_neg]
          · rfl
          · rintro ⟨hlength, -⟩
            rw [List.length_cons] at hlength
            omega

/-- What is read from a host that shows a table: the table, unless it is not countable. -/
theorem readProcesses_eq_some {host : ProcHost} {table : ProcessTable} (hshows : host.Shows table)
    (hcountable : table.Countable) : readProcesses host = some table.processes := by
  obtain ⟨entries, hentries, hreadable, hshown⟩ := hshows.entries
  have hloop := foldlM_readEntry hshows.allocates hreadable (hshown ▸ table.fits) grown_nil
  rw [hshown, List.length_nil, Nat.zero_add, List.nil_append,
    if_pos ⟨hcountable.length_le, hcountable.parent_nonneg⟩] at hloop
  obtain ⟨state, hstate, hfst⟩ := Option.map_eq_some_iff.mp hloop
  rw [readProcesses, hentries]
  dsimp only
  rw [if_pos (hshows.allocates 256), hstate]
  dsimp only
  rw [if_pos hshows.endsWell, hfst]

/-- A table that is not countable is refused. -/
theorem readProcesses_eq_none {host : ProcHost} {table : ProcessTable} (hshows : host.Shows table)
    (hcountable : ¬table.Countable) : readProcesses host = none := by
  obtain ⟨entries, hentries, hreadable, hshown⟩ := hshows.entries
  have hloop := foldlM_readEntry hshows.allocates hreadable (hshown ▸ table.fits) grown_nil
  rw [hshown, List.length_nil, Nat.zero_add,
    if_neg fun h => hcountable ⟨h.1, h.2⟩, Option.map_eq_none_iff] at hloop
  rw [readProcesses, hentries]
  dsimp only
  rw [if_pos (hshows.allocates 256), hloop]

/-! ## The search in the sorted table -/

/-- Processes are compared by their identifiers. -/
theorem compareLinuxProcess_le (left right : LinuxProcess) :
    compareLinuxProcess left right ≤ 0 ↔ left.pid ≤ right.pid := by
  unfold compareLinuxProcess
  split
  · omega
  · split <;> omega

/-- A cursor is compared with an identifier. -/
theorem placeOf_eq (cursor : ℤ) (process : LinuxProcess) :
    placeOf cursor process = compare cursor process.pid := by
  unfold placeOf compareLinuxProcess
  dsimp only
  rcases lt_trichotomy cursor process.pid with hlt | heq | hgt
  · rw [if_pos hlt, compare_lt_iff_lt.mpr hlt]
    rfl
  · rw [if_neg (by omega), if_neg (by omega), compare_eq_iff_eq.mpr heq]
    rfl
  · rw [if_neg (by omega), if_pos hgt, compare_gt_iff_gt.mpr hgt]
    rfl

/-- Sorting keeps the processes. -/
theorem sortProcesses_perm (processes : List LinuxProcess) :
    (sortProcesses processes).Perm processes :=
  List.mergeSort_perm processes _

/-- Sorted processes ascend by their identifiers. -/
theorem sortProcesses_pairwise (processes : List LinuxProcess) :
    (sortProcesses processes).Pairwise fun left right => left.pid ≤ right.pid := by
  have hsorted : (sortProcesses processes).Pairwise
      fun left right => decide (compareLinuxProcess left right ≤ 0) = true := by
    apply List.pairwise_mergeSort
    · intro a b c hab hbc
      rw [decide_eq_true_eq, compareLinuxProcess_le] at *
      omega
    · intro a b
      simp only [Bool.or_eq_true, decide_eq_true_eq, compareLinuxProcess_le]
      omega
  refine hsorted.imp ?_
  intro left right h
  rwa [decide_eq_true_eq, compareLinuxProcess_le] at h

/-- The processes of a table have different numbers. -/
theorem ProcessTable.eq_of_pid (table : ProcessTable) {a b : LinuxProcess}
    (ha : a ∈ table.processes) (hb : b ∈ table.processes) (h : a.pid = b.pid) : a = b :=
  List.inj_on_of_nodup_map table.nodup ha hb h

/-- The search finds the process of a number. -/
theorem findProcess_eq_some_iff (table : ProcessTable) (cursor : ℤ) (process : LinuxProcess) :
    findProcess (sortProcesses table.processes) cursor = some process ↔
      process ∈ table.processes ∧ process.pid = cursor := by
  have hmem (p : LinuxProcess) : p ∈ sortProcesses table.processes ↔ p ∈ table.processes :=
    (sortProcesses_perm table.processes).mem_iff
  have hordered : Ordered (placeOf cursor) (sortProcesses table.processes) := by
    refine (sortProcesses_pairwise table.processes).imp ?_
    intro left right hle
    simp only [placeOf_eq, compare_lt_iff_lt, compare_gt_iff_gt]
    constructor
    · intro h
      omega
    · intro h
      omega
  have hunique : ∀ a ∈ sortProcesses table.processes, ∀ b ∈ sortProcesses table.processes,
      placeOf cursor a = .eq → placeOf cursor b = .eq → a = b := by
    intro a ha b hb hplaceA hplaceB
    rw [placeOf_eq, compare_eq_iff_eq] at hplaceA hplaceB
    exact table.eq_of_pid ((hmem a).mp ha) ((hmem b).mp hb) (hplaceA.symm.trans hplaceB)
  rw [findProcess, search_eq_some_iff hordered hunique, hmem, placeOf_eq, compare_eq_iff_eq,
    eq_comm]

/-! ## The walk along the parents -/

/-- The parent that a round of the walk goes on to. -/
def nextParent (processes : List LinuxProcess) (cursor : ℤ) : Option ℤ :=
  if cursor > 0 then
    match findProcess processes cursor with
    | none => none
    | some found => if found.parent = cursor then none else some found.parent
  else none

/-- The walk of the code is a walk along these links, for a leader that is a process number. -/
theorem climb_eq_walk {processes : List LinuxProcess} {leader : ℤ} (hleader : 0 < leader)
    (rounds : ℕ) (cursor : ℤ) :
    climb processes leader rounds cursor = walk (nextParent processes) leader rounds cursor := by
  induction rounds generalizing cursor with
  | zero => rfl
  | succ rounds ih =>
    rw [climb, walk, nextParent]
    by_cases hpos : cursor > 0
    · rw [if_pos hpos, if_pos hpos]
      rcases findProcess processes cursor with _ | found
      · rfl
      · dsimp only
        by_cases hself : found.parent = cursor
        · rw [if_pos hself, if_pos hself]
        · rw [if_neg hself, if_neg hself, ih]
    · rw [if_neg hpos, if_neg hpos, if_neg (by omega)]

/-- No chain climbs to a leader that is not positive. -/
theorem climb_of_nonpos {processes : List LinuxProcess} {leader : ℤ} (hleader : leader ≤ 0)
    (rounds : ℕ) (cursor : ℤ) : climb processes leader rounds cursor = false := by
  induction rounds generalizing cursor with
  | zero => rfl
  | succ rounds ih =>
    rw [climb]
    by_cases hpos : cursor > 0
    · rw [if_pos hpos, if_neg (by omega)]
      rcases findProcess processes cursor with _ | found
      · rfl
      · dsimp only
        rw [ih]
        exact ite_self _
    · rw [if_neg hpos]

/-- The links of the walk are those of the table from a process to another. -/
theorem nextParent_eq_some_iff (table : ProcessTable) (cursor parent : ℤ) :
    nextParent (sortProcesses table.processes) cursor = some parent ↔
      ∃ process ∈ table.processes, process.pid = cursor ∧ process.parent = parent ∧
        parent ≠ cursor := by
  constructor
  · intro h
    unfold nextParent at h
    by_cases hpos : cursor > 0
    · rw [if_pos hpos] at h
      rcases hfind : findProcess (sortProcesses table.processes) cursor with _ | found
      · rw [hfind] at h
        cases h
      · rw [hfind] at h
        dsimp only at h
        obtain ⟨hmem, hpid⟩ := (findProcess_eq_some_iff table cursor found).mp hfind
        by_cases hself : found.parent = cursor
        · rw [if_pos hself] at h
          cases h
        · rw [if_neg hself] at h
          obtain rfl := Option.some.inj h
          exact ⟨found, hmem, hpid, rfl, hself⟩
    · rw [if_neg hpos] at h
      cases h
  · rintro ⟨process, hmem, rfl, rfl, hself⟩
    have hfind := (findProcess_eq_some_iff table process.pid process).mpr ⟨hmem, rfl⟩
    rw [nextParent, if_pos (table.pid_pos process hmem), hfind]
    exact if_neg hself

/-- A process that is its own parent reaches nothing more, so its link may be left out. -/
theorem reaches_nextParent_iff (table : ProcessTable) {leader : ℤ} (cursor : ℤ) :
    Reaches (nextParent (sortProcesses table.processes)) leader cursor ↔
      ReachesLeader table leader cursor := by
  constructor
  · intro h
    induction h with
    | here => exact .leader
    | step hnext _ ih =>
      obtain ⟨process, hmem, rfl, rfl, _⟩ := (nextParent_eq_some_iff table _ _).mp hnext
      exact .parent hmem ih
  · intro h
    induction h with
    | leader => exact .here
    | @parent process hmem _ ih =>
      by_cases hself : process.parent = process.pid
      · rwa [hself] at ih
      · exact .step ((nextParent_eq_some_iff table _ _).mpr ⟨process, hmem, rfl, rfl, hself⟩) ih

/-- One round more than there are processes decides whether the leader is reached. -/
theorem climb_iff (table : ProcessTable) {leader : ℤ} (hleader : 0 < leader) (cursor : ℤ) :
    climb (sortProcesses table.processes) leader
        ((sortProcesses table.processes).length + 1) cursor = true ↔
      ReachesLeader table leader cursor := by
  have hsources : ∀ a b, nextParent (sortProcesses table.processes) a = some b →
      a ∈ (table.processes.map LinuxProcess.pid).toFinset := by
    intro a b hnext
    obtain ⟨process, hmem, rfl, _, _⟩ := (nextParent_eq_some_iff table a b).mp hnext
    exact List.mem_toFinset.mpr (List.mem_map_of_mem hmem)
  have hcard : (table.processes.map LinuxProcess.pid).toFinset.card <
      (sortProcesses table.processes).length + 1 := by
    have hle := List.toFinset_card_le (table.processes.map LinuxProcess.pid)
    rw [List.length_map] at hle
    rw [(sortProcesses_perm table.processes).length_eq]
    omega
  rw [climb_eq_walk hleader, walk_iff_reaches hsources hcard, reaches_nextParent_iff]

/-! ## The count -/

/-- The loop counts the processes that pass the test. -/
theorem foldl_count {test : LinuxProcess → Bool} (processes : List LinuxProcess) (start : ℕ) :
    processes.foldl (fun count process => if test process then count + 1 else count) start =
      start + (processes.filter test).length := by
  induction processes generalizing start with
  | nil => rfl
  | cons process rest ih =>
    rw [List.foldl_cons, ih, List.filter_cons]
    split
    · rw [List.length_cons]
      omega
    · rfl

/-- The count is that of the processes from which the walk finds the leader. -/
theorem countDescendants_eq (table : ProcessTable) (leader : ℤ) :
    countDescendants table.processes leader =
      {process | process ∈ table.processes ∧
        climb (sortProcesses table.processes) leader
          ((sortProcesses table.processes).length + 1) process.pid = true}.ncard := by
  have hnodup : (sortProcesses table.processes).Nodup :=
    (sortProcesses_perm table.processes).nodup_iff.mpr (List.Nodup.of_map _ table.nodup)
  rw [countDescendants, foldl_count, Nat.zero_add, ← List.toFinset_card_of_nodup (hnodup.filter _),
    ← Set.ncard_coe_finset]
  congr 1
  ext process
  rw [Finset.mem_coe, List.mem_toFinset, List.mem_filter,
    (sortProcesses_perm table.processes).mem_iff]
  rfl

/-- For a process number the loop counts the processes whose chain reaches it. -/
theorem countDescendants_of_pos (table : ProcessTable) {leader : ℤ} (hleader : 0 < leader) :
    countDescendants table.processes leader = (descendants table leader).ncard := by
  rw [countDescendants_eq]
  simp only [climb_iff table hleader]
  rfl

/-- For any other number it counts nothing. -/
theorem countDescendants_of_nonpos (table : ProcessTable) {leader : ℤ} (hleader : leader ≤ 0) :
    countDescendants table.processes leader = 0 := by
  rw [countDescendants_eq]
  simp [climb_of_nonpos hleader]

/-- For a process number the count is that of the processes whose chain of parent links reaches
it, whatever the order of the table and its links; for any other number it is zero. A table with
a negative parent or with more processes than the array may hold is refused. -/
theorem descendant_count_exact (host : ProcHost) (table : ProcessTable) (hshows : host.Shows table)
    (leader : ℤ) :
    (table.Countable → 0 < leader →
      groupProcessCount host leader = ((descendants table leader).ncard : ℤ)) ∧
    (table.Countable → leader ≤ 0 → groupProcessCount host leader = 0) ∧
    (¬table.Countable → groupProcessCount host leader = -1) := by
  refine ⟨?_, ?_, ?_⟩
  · intro hcountable hleader
    rw [groupProcessCount, readProcesses_eq_some hshows hcountable]
    dsimp only
    rw [countDescendants_of_pos table hleader]
  · intro hcountable hleader
    rw [groupProcessCount, readProcesses_eq_some hshows hcountable]
    dsimp only
    rw [countDescendants_of_nonpos table hleader, Nat.cast_zero]
  · intro hcountable
    rw [groupProcessCount, readProcesses_eq_none hshows hcountable]

/-- A leader whose own parent is missing, its child, and two processes in a cycle. -/
def sampleProcessTable : ProcessTable :=
  ⟨[⟨5, 4⟩, ⟨4, 2⟩, ⟨7, 8⟩, ⟨8, 7⟩], by decide, by decide, by decide⟩

/-- The sample table in order. -/
theorem sampleProcessTable_sorted :
    sortProcesses sampleProcessTable.processes = [⟨4, 2⟩, ⟨5, 4⟩, ⟨7, 8⟩, ⟨8, 7⟩] := by
  simp [sortProcesses, sampleProcessTable, List.mergeSort, List.MergeSort.Internal.splitInTwo,
    compareLinuxProcess]

/-- A directory with that table, a name that is no number and a process that is gone. -/
def sampleProcHost : ProcHost where
  entries := some [⟨some 5, .fields 4⟩, ⟨none, .unreadable⟩, ⟨some 4, .fields 2⟩, ⟨some 6, .gone⟩,
    ⟨some 7, .fields 8⟩, ⟨some 8, .fields 7⟩]
  endsWell := true
  allocates _ := true

/-- The sample host shows the sample table. -/
theorem sampleProcHost_shows : sampleProcHost.Shows sampleProcessTable where
  entries := ⟨_, rfl, by simp [ProcEntry.Readable], rfl⟩
  endsWell := rfl
  allocates _ := rfl

/-- Process 4 and its child are counted, and the cycle is not. -/
theorem descendant_count_sample :
    groupProcessCount sampleProcHost 4 = ((descendants sampleProcessTable 4).ncard : ℤ) ∧
      groupProcessCount sampleProcHost 4 = 2 :=
  ⟨(descendant_count_exact sampleProcHost sampleProcessTable sampleProcHost_shows 4).1
    ⟨by decide, by decide⟩ (by decide), by
      rw [groupProcessCount, readProcesses_eq_some sampleProcHost_shows ⟨by decide, by decide⟩]
      simp only [countDescendants, sampleProcessTable_sorted]
      decide⟩

/-- The first process of a machine, without a parent. -/
def sampleInit : ProcessTable := ⟨[⟨1, 0⟩], by decide, by decide, by decide⟩

/-- A directory with this process alone. -/
def sampleInitHost : ProcHost := ⟨some [⟨some 1, .fields 0⟩], true, fun _ => true⟩

/-- The host of the first process shows its table. -/
theorem sampleInitHost_shows : sampleInitHost.Shows sampleInit where
  entries := ⟨_, rfl, by simp [ProcEntry.Readable], rfl⟩
  endsWell := rfl
  allocates _ := rfl

/-- The number 0 in the place of a parent is no process that is counted. -/
theorem descendant_count_zero :
    ¬∀ (host : ProcHost) (table : ProcessTable) (leader : ℤ), host.Shows table →
      groupProcessCount host leader = ((descendants table leader).ncard : ℤ) := by
  intro h
  have hcount := h sampleInitHost sampleInit 0 sampleInitHost_shows
  have hdescendants : descendants sampleInit 0 = {⟨1, 0⟩} := by
    ext process
    constructor
    · intro hprocess
      exact List.mem_singleton.mp hprocess.1
    · rintro rfl
      exact ⟨List.mem_singleton_self _, .parent (List.mem_singleton_self _) .leader⟩
  have hzero : groupProcessCount sampleInitHost 0 = 0 := by decide +kernel
  rw [hdescendants, Set.ncard_singleton, hzero] at hcount
  omega

end Moonfort.LocalSupervisor
