import Moonfort.LocalSupervisor.DiskUsage
import Mathlib.Data.Int.Order.Basic

/-!
# The directory bytes of the guest

`directory_bytes_at` of `guest_supervisor.c` over a tree that does not change. Each level counts
from zero against what is left of the bound above it, and all levels share the count of entries.
-/

namespace Moonfort.AenGuest

open DirectoryTree LocalSupervisor

/-- The value of a signed operation on `long long`; `none` where it overflows. -/
def longLong (value : ℤ) : Option ℤ :=
  if -2 ^ 63 ≤ value ∧ value < 2 ^ 63 then some value else none

/-- A value of 64 bits is kept. -/
theorem longLong_eq {value : ℤ} (hlow : -2 ^ 63 ≤ value) (hhigh : value < 2 ^ 63) :
    longLong value = some value := if_pos ⟨hlow, hhigh⟩

/-- How a round of the loop leaves `total`: it goes on with a new one, or breaks with it. -/
inductive Round where
  | next (total : ℤ)
  | stop (total : ℤ)
  deriving DecidableEq

mutual

/-- A round of `directory_bytes_at` at an entry that is counted already, and the count of entries
behind it. -/
def entryRound : Node → ℤ → ℤ → ℤ → Option (Round × ℤ)
  | .regular content, maximum, total, entries => do
    let left ← longLong (maximum - total)
    if left < content.length then
      let beyond ← longLong (maximum + 1)
      some (.stop beyond, entries)
    else
      let total ← longLong (total + content.length)
      some (.next total, entries)
  | .directory children, maximum, total, entries => do
    let left ← longLong (maximum - total)
    let (nested, entries) ← directoryBytesAt children left 0 entries
    if nested < 0 then some (.stop (-1), entries)
    else if left < nested then
      let beyond ← longLong (maximum + 1)
      some (.stop beyond, entries)
    else
      let total ← longLong (total + nested)
      some (.next total, entries)
  | .symlink _, _, total, entries => some (.next total, entries)
  | .special, _, _, entries => some (.stop (-1), entries)

/-- `directory_bytes_at` at the entries that `readdir` has not answered yet, with the total and
the count of entries so far. -/
def directoryBytesAt : List (Name × Node) → ℤ → ℤ → ℤ → Option (ℤ × ℤ)
  | [], _, total, entries => some (total, entries)
  | (_, node) :: rest, maximum, total, entries =>
    if 1000000 < entries + 1 then some (-1, entries + 1)
    else do
      match ← entryRound node maximum total (entries + 1) with
      | (.stop total, entries) => some (total, entries)
      | (.next total, entries) => directoryBytesAt rest maximum total entries

end

/-- `overlay_bytes` of a directory that opens. -/
def overlayBytes (upper : List (Name × Node)) (maximum : ℤ) : Option (ℤ × ℤ) :=
  directoryBytesAt upper maximum 0 0

/-- The answer of a scan that counts so many bytes against a bound. -/
def boundedTotal (maximum bytes : ℤ) : ℤ := if bytes ≤ maximum then bytes else maximum + 1

/-- The round at an entry is exact, from a total within the bound and a count of entries that
leaves room for the entry. It goes on while the bound holds. -/
def CountsEntry (node : Node) : Prop :=
  ∀ maximum total entries : ℤ, 0 ≤ total → total ≤ maximum → maximum < 2 ^ 62 → 0 ≤ entries →
    entries + node.entryCount ≤ 1000001 →
      ∃ round after, entryRound node maximum total entries = some (round, after) ∧
        after + 1 ≤ entries + node.entryCount ∧ 0 ≤ after ∧
        round = if total + node.fileBytes ≤ maximum then .next (total + node.fileBytes)
          else .stop (maximum + 1)

/-- A loop over entries that are counted exactly is exact. -/
theorem directoryBytesAt_of_entries {entries : List (Name × Node)}
    (h : ∀ entry ∈ entries, CountsEntry entry.2) {maximum total count : ℤ} (htotal : 0 ≤ total)
    (hle : total ≤ maximum) (hmaximum : maximum < 2 ^ 62) (hcount : 0 ≤ count)
    (hroom : count + entriesBelow entries ≤ 1000000) :
    ∃ after, directoryBytesAt entries maximum total count =
        some (boundedTotal maximum (total + bytesBelow entries), after) ∧
      after ≤ count + entriesBelow entries ∧ 0 ≤ after := by
  induction entries generalizing total count with
  | nil =>
    refine ⟨count, ?_, ?_, hcount⟩
    · rw [directoryBytesAt, bytesBelow, Int.natCast_zero, Int.add_zero, boundedTotal, if_pos hle]
    · rw [entriesBelow]
      omega
  | cons entry rest ih =>
    obtain ⟨name, node⟩ := entry
    rw [List.forall_mem_cons] at h
    have hone := node.one_le_entryCount
    rw [entriesBelow] at hroom ⊢
    rw [bytesBelow, directoryBytesAt, if_neg (by omega)]
    have hnode : CountsEntry node := h.1
    obtain ⟨round, after, hround, hafter, hnonneg, heq⟩ :=
      hnode maximum total (count + 1) htotal hle hmaximum (by omega) (by omega)
    rw [hround, Option.bind_eq_bind, Option.bind_some, heq]
    by_cases hfits : total + node.fileBytes ≤ maximum
    · rw [if_pos hfits]
      obtain ⟨last, hrest, hlast, hlast'⟩ :=
        ih h.2 (by omega : 0 ≤ total + node.fileBytes) hfits hnonneg (by omega)
      refine ⟨last, ?_, by omega, hlast'⟩
      have hsum : total + (node.fileBytes + bytesBelow rest : ℕ) =
          total + node.fileBytes + bytesBelow rest := by omega
      rw [hsum, ← hrest]
    · rw [if_neg hfits]
      refine ⟨after, ?_, by omega, hnonneg⟩
      rw [boundedTotal, if_neg (by omega)]

/-- Each entry of an ordinary tree is counted exactly, without an overflow. -/
theorem countsEntry {node : Node} (h : node.Ordinary) : CountsEntry node := by
  induction node using Node.induction with
  | regular content =>
    intro maximum total entries htotal hle hmaximum hentries _
    have hleft : longLong (maximum - total) = some (maximum - total) :=
      longLong_eq (by omega) (by omega)
    rw [Node.fileBytes, Node.entryCount, entryRound, hleft, Option.bind_eq_bind, Option.bind_some]
    by_cases hover : maximum - total < content.length
    · rw [if_pos hover, if_neg (by omega), longLong_eq (by omega) (by omega), Option.bind_some]
      exact ⟨_, entries, rfl, by omega, hentries, rfl⟩
    · rw [if_neg hover, if_pos (by omega), longLong_eq (by omega) (by omega), Option.bind_some]
      exact ⟨_, entries, rfl, by omega, hentries, rfl⟩
  | directory children ih =>
    intro maximum total entries htotal hle hmaximum hentries hroom
    rw [Node.ordinary_directory_iff] at h
    rw [Node.entryCount] at hroom ⊢
    obtain ⟨after, hnested, hafter, hnonneg⟩ :=
      directoryBytesAt_of_entries (fun entry hentry => ih entry hentry (h entry hentry))
        (Int.le_refl 0) (by omega : 0 ≤ maximum - total) (by omega) hentries (by omega)
    rw [Int.zero_add] at hnested
    have hleft : longLong (maximum - total) = some (maximum - total) :=
      longLong_eq (by omega) (by omega)
    rw [Node.fileBytes, entryRound, hleft, Option.bind_eq_bind, Option.bind_some, hnested,
      Option.bind_eq_bind, Option.bind_some]
    dsimp only
    by_cases hfits : total + bytesBelow children ≤ maximum
    · have hbounded : boundedTotal (maximum - total) (bytesBelow children) =
          bytesBelow children := if_pos (by omega)
      rw [hbounded, if_neg (by omega), if_neg (by omega), if_pos hfits,
        longLong_eq (by omega) (by omega), Option.bind_some]
      exact ⟨_, after, rfl, by omega, hnonneg, rfl⟩
    · have hbounded : boundedTotal (maximum - total) (bytesBelow children) =
          maximum - total + 1 := if_neg (by omega)
      rw [hbounded, if_neg (by omega), if_pos (by omega), if_neg hfits,
        longLong_eq (by omega) (by omega), Option.bind_some]
      exact ⟨_, after, rfl, by omega, hnonneg, rfl⟩
  | symlink target =>
    intro maximum total entries htotal hle _ hentries _
    rw [Node.fileBytes, Node.entryCount, entryRound, if_pos (by omega)]
    exact ⟨_, entries, rfl, by omega, hentries, by rw [Int.natCast_zero, Int.add_zero]⟩
  | special => cases h

section Listings

variable {root listing : List (Name × Node)}

/-- `overlay_bytes` of any listing of a tree, by the bytes of the tree. -/
theorem overlayBytes_eq (hordinary : (Node.directory root).Ordinary)
    (hlisting : (Node.directory root).Listing (.directory listing)) {maximum : ℤ}
    (hmaximum : 0 ≤ maximum) (hlt : maximum < 2 ^ 62) (hentries : entriesBelow root ≤ 1000000) :
    ∃ entries,
      overlayBytes listing maximum = some (boundedTotal maximum (bytesBelow root), entries) := by
  have hbytes := hlisting.fileBytes_eq
  have hcount := hlisting.entryCount_eq
  rw [Node.fileBytes, Node.fileBytes] at hbytes
  rw [Node.entryCount, Node.entryCount] at hcount
  have hlisted := Node.ordinary_directory_iff.mp (hlisting.ordinary hordinary)
  obtain ⟨entries, hscan, _, _⟩ := directoryBytesAt_of_entries
    (fun entry hentry => countsEntry (hlisted entry hentry)) (Int.le_refl 0) hmaximum hlt
    (Int.le_refl 0) (by omega)
  refine ⟨entries, ?_⟩
  rw [overlayBytes, hscan, hbytes, Int.zero_add]

/-- Both scanners are exact on any listing of a tree. The guest's answers the bytes of the regular
files or one more than its bound, without an overflow; the local supervisor's answers 0 exactly
within both limits and counts exactly then, names a limit only if it is exceeded, and never
subtracts past zero. -/
theorem disk_scanners_exact (hordinary : (Node.directory root).Ordinary)
    (hlisting : (Node.directory root).Listing (.directory listing)) :
    (∀ maximum : ℤ, 0 ≤ maximum → maximum < 2 ^ 62 → entriesBelow root ≤ 1000000 →
      ∃ entries, overlayBytes listing maximum =
        some (if (bytesBelow root : ℤ) ≤ maximum then (bytesBelow root : ℤ) else maximum + 1,
          entries)) ∧
    ∀ byteLimit entryLimit : ℕ, byteLimit < 2 ^ 64 →
      (entryLimit + 1 < 2 ^ 64 ∨ entriesBelow root < 2 ^ 64) →
      ∃ result after, scanDiskPath byteLimit entryLimit listing = some (result, after) ∧
        (result = 0 ↔ bytesBelow root ≤ byteLimit ∧ entriesBelow root ≤ entryLimit) ∧
        (result = 0 → after = ⟨bytesBelow root, entriesBelow root⟩) ∧
        (result = 0 ∨ result = 1 ∧ byteLimit < bytesBelow root ∨
          result = 2 ∧ entryLimit < entriesBelow root) := by
  constructor
  · intro maximum hmaximum hlt hentries
    exact overlayBytes_eq hordinary hlisting hmaximum hlt hentries
  · intro byteLimit entryLimit hlimit hwrap
    have hbytes := hlisting.fileBytes_eq
    have hcount := hlisting.entryCount_eq
    rw [Node.fileBytes, Node.fileBytes] at hbytes
    rw [Node.entryCount, Node.entryCount] at hcount
    obtain ⟨result, after, hscan, hscanned⟩ :=
      scanned_scanDiskPath hlimit (hlisting.ordinary hordinary)
        (by omega : entryLimit + 1 < 2 ^ 64 ∨ entriesBelow listing < 2 ^ 64)
    refine ⟨result, after, hscan, ?_⟩
    cases hscanned with
    | within hwithin hwithin' =>
      rw [Nat.zero_add] at hwithin hwithin'
      refine ⟨⟨fun _ => by omega, fun _ => rfl⟩, fun _ => ?_, Or.inl rfl⟩
      rw [Nat.zero_add, Nat.zero_add, hbytes, Nat.add_right_cancel hcount]
    | overBytes hover =>
      rw [Nat.zero_add] at hover
      exact ⟨⟨fun h => by omega, fun h => by omega⟩, fun h => by omega,
        Or.inr (Or.inl ⟨rfl, by omega⟩)⟩
    | overEntries hover =>
      rw [Nat.zero_add] at hover
      exact ⟨⟨fun h => by omega, fun h => by omega⟩, fun h => by omega,
        Or.inr (Or.inr ⟨rfl, by omega⟩)⟩

end Listings

/-- A file beside a directory with a file and a link. -/
def sampleScratch : List (Name × Node) :=
  [([97], .regular [1, 2]), ([98], .directory [([97], .regular [3]), ([99], .symlink [97])])]

/-- The same tree as another listing answers it. -/
def sampleScratchListing : List (Name × Node) :=
  [([98], .directory [([99], .symlink [97]), ([97], .regular [3])]), ([97], .regular [1, 2])]

/-- The sample tree holds files and directories only. -/
theorem sampleScratch_ordinary : (Node.directory sampleScratch).Ordinary := by
  apply Node.Ordinary.directory
  intro entry hentry
  simp only [sampleScratch, List.mem_cons, List.not_mem_nil, or_false] at hentry
  rcases hentry with rfl | rfl
  · exact .regular _
  · apply Node.Ordinary.directory
    intro entry hentry
    simp only [List.mem_cons, List.not_mem_nil, or_false] at hentry
    rcases hentry with rfl | rfl
    · exact .regular _
    · exact .symlink _

/-- The sample listing lists the sample tree. -/
theorem sampleScratch_listing :
    (Node.directory sampleScratch).Listing (.directory sampleScratchListing) :=
  .trans (.reorder (List.Perm.swap _ _ _))
    (@Node.Listing.inside [] _ _ _ _ (.reorder (List.Perm.swap _ _ _)))

/-- What both scanners find in the sample listing, whatever the limits. -/
theorem disk_scanners_exact_sample :
    (∀ maximum : ℤ, 0 ≤ maximum → maximum < 2 ^ 62 → entriesBelow sampleScratch ≤ 1000000 →
      ∃ entries, overlayBytes sampleScratchListing maximum =
        some (if (bytesBelow sampleScratch : ℤ) ≤ maximum then (bytesBelow sampleScratch : ℤ)
          else maximum + 1, entries)) ∧
    ∀ byteLimit entryLimit : ℕ, byteLimit < 2 ^ 64 →
      (entryLimit + 1 < 2 ^ 64 ∨ entriesBelow sampleScratch < 2 ^ 64) →
      ∃ result after, scanDiskPath byteLimit entryLimit sampleScratchListing =
          some (result, after) ∧
        (result = 0 ↔ bytesBelow sampleScratch ≤ byteLimit ∧
          entriesBelow sampleScratch ≤ entryLimit) ∧
        (result = 0 → after = ⟨bytesBelow sampleScratch, entriesBelow sampleScratch⟩) ∧
        (result = 0 ∨ result = 1 ∧ byteLimit < bytesBelow sampleScratch ∨
          result = 2 ∧ entryLimit < entriesBelow sampleScratch) :=
  disk_scanners_exact sampleScratch_ordinary sampleScratch_listing

end Moonfort.AenGuest
