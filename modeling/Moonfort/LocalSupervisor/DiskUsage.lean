import Moonfort.TreeSizes

/-!
# The disk usage of the local supervisor

`scan_disk_usage` of `supervisor.c` over a tree that does not change. All levels of the walk share
two counters of 64 bits.
-/

namespace Moonfort.LocalSupervisor

open DirectoryTree

/-- `*bytes` and `*entries`. -/
structure DiskCounters where
  bytes : ℕ
  entries : ℕ
  deriving DecidableEq

section Scan

variable (byteLimit entryLimit : ℕ)

mutual

/-- What a round of the loop makes of an entry that is counted already. -/
def scanEntry : Node → DiskCounters → Option (ℤ × DiskCounters)
  | .regular content, counters =>
    if byteLimit < counters.bytes then none
    else if byteLimit - counters.bytes < content.length then some (1, counters)
    else some (0, ⟨(counters.bytes + content.length) % 2 ^ 64, counters.entries⟩)
  | .directory children, counters => scanDiskUsage children counters
  | .symlink _, counters => some (0, counters)
  | .special, counters => some (-1, counters)

/-- `scan_disk_usage` at the entries that `readdir` has not answered yet. `none` stands for an
unsigned subtraction that underflows, which C would not notice. -/
def scanDiskUsage : List (Name × Node) → DiskCounters → Option (ℤ × DiskCounters)
  | [], counters => some (0, counters)
  | (_, node) :: rest, counters =>
    let entries := (counters.entries + 1) % 2 ^ 64
    if entryLimit < entries then some (2, ⟨counters.bytes, entries⟩)
    else do
      let (result, counters) ← scanEntry node ⟨counters.bytes, entries⟩
      if result ≠ 0 then some (result, counters) else scanDiskUsage rest counters

end

/-- What a scan may answer, from the counters before it, where there are so many bytes and so many
entries to count. -/
inductive Scanned (before : DiskCounters) (bytes count : ℕ) : ℤ → DiskCounters → Prop
  | within (hbytes : before.bytes + bytes ≤ byteLimit)
      (hentries : before.entries + count ≤ entryLimit) :
      Scanned before bytes count 0 ⟨before.bytes + bytes, before.entries + count⟩
  | overBytes (h : byteLimit < before.bytes + bytes) (after : DiskCounters) :
      Scanned before bytes count 1 after
  | overEntries (h : entryLimit < before.entries + count) (after : DiskCounters) :
      Scanned before bytes count 2 after

/-- The scan of an entry is exact from counters within the limits, so long as the counter of
entries does not wrap. -/
def ScansEntry (node : Node) : Prop :=
  ∀ before : DiskCounters, before.bytes ≤ byteLimit → before.entries ≤ entryLimit →
    (entryLimit + 1 < 2 ^ 64 ∨ before.entries + node.entryCount ≤ 2 ^ 64) →
      ∃ result after, scanEntry byteLimit entryLimit node before = some (result, after) ∧
        Scanned byteLimit entryLimit before node.fileBytes (node.entryCount - 1) result after

variable {byteLimit entryLimit : ℕ}

/-- A loop over entries that are scanned exactly is exact: what an entry leaves of the limits is
what the rest may take. -/
theorem scanned_scanDiskUsage {entries : List (Name × Node)}
    (h : ∀ entry ∈ entries, ScansEntry byteLimit entryLimit entry.2) {before : DiskCounters}
    (hbytes : before.bytes ≤ byteLimit) (hentries : before.entries ≤ entryLimit)
    (hwrap : entryLimit + 1 < 2 ^ 64 ∨ before.entries + entriesBelow entries < 2 ^ 64) :
    ∃ result after, scanDiskUsage byteLimit entryLimit entries before = some (result, after) ∧
      Scanned byteLimit entryLimit before (bytesBelow entries) (entriesBelow entries) result
        after := by
  induction entries generalizing before with
  | nil => exact ⟨0, before, rfl, .within hbytes hentries⟩
  | cons entry rest ih =>
    obtain ⟨name, node⟩ := entry
    rw [List.forall_mem_cons] at h
    have hone := node.one_le_entryCount
    rw [entriesBelow] at hwrap ⊢
    have hcount : (before.entries + 1) % 2 ^ 64 = before.entries + 1 := Nat.mod_eq_of_lt (by omega)
    rw [scanDiskUsage, bytesBelow]
    dsimp only
    rw [hcount]
    by_cases hover : entryLimit < before.entries + 1
    · rw [if_pos hover]
      exact ⟨2, _, rfl, .overEntries (by omega) _⟩
    · rw [if_neg hover]
      obtain ⟨result, after, hscan, hscanned⟩ :=
        h.1 ⟨before.bytes, before.entries + 1⟩ hbytes (Nat.not_lt.mp hover) (by
          dsimp only
          omega)
      rw [hscan, Option.bind_eq_bind, Option.bind_some]
      cases hscanned with
      | within hnodeBytes hnodeEntries =>
        dsimp only at hnodeBytes hnodeEntries ⊢
        rw [if_neg (fun hne => hne rfl)]
        have hroom : entryLimit + 1 < 2 ^ 64 ∨
            before.entries + 1 + (node.entryCount - 1) + entriesBelow rest < 2 ^ 64 := by omega
        obtain ⟨last, final, hrest, hfinal⟩ := @ih h.2 ⟨before.bytes + node.fileBytes,
          before.entries + 1 + (node.entryCount - 1)⟩ hnodeBytes hnodeEntries hroom
        refine ⟨last, final, hrest, ?_⟩
        cases hfinal with
        | within hrestBytes hrestEntries =>
          dsimp only at hrestBytes hrestEntries ⊢
          have htotal : (⟨before.bytes + node.fileBytes + bytesBelow rest,
              before.entries + 1 + (node.entryCount - 1) + entriesBelow rest⟩ : DiskCounters) =
              ⟨before.bytes + (node.fileBytes + bytesBelow rest),
                before.entries + (node.entryCount + entriesBelow rest)⟩ := by
            congr 1 <;> omega
          rw [htotal]
          exact .within (by omega) (by omega)
        | overBytes hrestBytes =>
          dsimp only at hrestBytes
          exact .overBytes (by omega) _
        | overEntries hrestEntries =>
          dsimp only at hrestEntries
          exact .overEntries (by omega) _
      | overBytes hnode =>
        dsimp only at hnode ⊢
        rw [if_pos (by omega)]
        exact ⟨1, _, rfl, .overBytes (by omega) _⟩
      | overEntries hnode =>
        dsimp only at hnode ⊢
        rw [if_pos (by omega)]
        exact ⟨2, _, rfl, .overEntries (by omega) _⟩

/-- Each entry of an ordinary tree is scanned exactly. -/
theorem scansEntry {node : Node} (hlimit : byteLimit < 2 ^ 64) (h : node.Ordinary) :
    ScansEntry byteLimit entryLimit node := by
  induction node using Node.induction with
  | regular content =>
    intro before hbytes hentries _
    rw [scanEntry, Node.fileBytes, Node.entryCount, if_neg (Nat.not_lt.mpr hbytes)]
    by_cases hover : byteLimit - before.bytes < content.length
    · rw [if_pos hover]
      exact ⟨1, _, rfl, .overBytes (by omega) _⟩
    · rw [if_neg hover, Nat.mod_eq_of_lt (by omega)]
      exact ⟨0, _, rfl, .within (by omega) hentries⟩
  | directory children ih =>
    intro before hbytes hentries hwrap
    rw [Node.ordinary_directory_iff] at h
    rw [Node.entryCount] at hwrap ⊢
    rw [scanEntry, Node.fileBytes, Nat.add_sub_cancel]
    exact scanned_scanDiskUsage (fun entry hentry => ih entry hentry (h entry hentry)) hbytes
      hentries (by omega)
  | symlink target =>
    intro before hbytes hentries _
    rw [scanEntry, Node.fileBytes, Node.entryCount]
    exact ⟨0, _, rfl, .within hbytes hentries⟩
  | special => cases h

end Scan

/-- `scan_disk_path`: the scan of a root from counters of zero. -/
def scanDiskPath (byteLimit entryLimit : ℕ) (root : List (Name × Node)) :
    Option (ℤ × DiskCounters) :=
  scanDiskUsage byteLimit entryLimit root ⟨0, 0⟩

/-- A scan of an ordinary tree from counters of zero is exact. -/
theorem scanned_scanDiskPath {byteLimit entryLimit : ℕ} {root : List (Name × Node)}
    (hlimit : byteLimit < 2 ^ 64) (hroot : (Node.directory root).Ordinary)
    (hwrap : entryLimit + 1 < 2 ^ 64 ∨ entriesBelow root < 2 ^ 64) :
    ∃ result after, scanDiskPath byteLimit entryLimit root = some (result, after) ∧
      Scanned byteLimit entryLimit ⟨0, 0⟩ (bytesBelow root) (entriesBelow root) result after := by
  rw [Node.ordinary_directory_iff] at hroot
  have hentries : ∀ entry ∈ root, ScansEntry byteLimit entryLimit entry.2 := by
    intro entry hentry
    exact scansEntry hlimit (hroot entry hentry)
  exact scanned_scanDiskUsage hentries (Nat.zero_le _) (Nat.zero_le _) (by
    rw [Nat.zero_add]
    exact hwrap)

end Moonfort.LocalSupervisor
