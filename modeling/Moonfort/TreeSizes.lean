import Moonfort.DirectoryTree

/-!
# The sizes of directory trees

The bytes and the entries below a directory, and the listings of a tree: the same entries in
another order, at any depth. The sizes are those of every listing.
-/

namespace Moonfort.DirectoryTree

mutual

/-- The bytes of the regular files of an entry and below it. -/
def Node.fileBytes : Node → ℕ
  | .regular content => content.length
  | .directory entries => bytesBelow entries
  | .symlink _ => 0
  | .special => 0

/-- The bytes of the regular files below a directory. -/
def bytesBelow : List (Name × Node) → ℕ
  | [] => 0
  | (_, node) :: rest => node.fileBytes + bytesBelow rest

end

mutual

/-- The entries of a node: itself and what is below it. -/
def Node.entryCount : Node → ℕ
  | .regular _ => 1
  | .directory entries => entriesBelow entries + 1
  | .symlink _ => 1
  | .special => 1

/-- The entries below a directory. -/
def entriesBelow : List (Name × Node) → ℕ
  | [] => 0
  | (_, node) :: rest => node.entryCount + entriesBelow rest

end

/-- A tree of regular files, directories and symbolic links. -/
inductive Node.Ordinary : Node → Prop
  | regular (content : List UInt8) : Node.Ordinary (.regular content)
  | directory {entries : List (Name × Node)} (h : ∀ entry ∈ entries, Node.Ordinary entry.2) :
      Node.Ordinary (.directory entries)
  | symlink (target : List UInt8) : Node.Ordinary (.symlink target)

/-- A directory is ordinary exactly when all its entries are. -/
theorem Node.ordinary_directory_iff {entries : List (Name × Node)} :
    (Node.directory entries).Ordinary ↔ ∀ entry ∈ entries, entry.2.Ordinary := by
  constructor
  · rintro (_ | h)
    exact h
  · exact .directory

/-- The bytes below a directory are the sum over its entries. -/
theorem bytesBelow_eq (entries : List (Name × Node)) :
    bytesBelow entries = (entries.map fun entry => entry.2.fileBytes).sum := by
  induction entries with
  | nil => rfl
  | cons entry rest ih => rw [bytesBelow, ih, List.map_cons, List.sum_cons]

/-- The entries below a directory are the sum over its entries. -/
theorem entriesBelow_eq (entries : List (Name × Node)) :
    entriesBelow entries = (entries.map fun entry => entry.2.entryCount).sum := by
  induction entries with
  | nil => rfl
  | cons entry rest ih => rw [entriesBelow, ih, List.map_cons, List.sum_cons]

/-- Every node counts at least itself. -/
theorem Node.one_le_entryCount (node : Node) : 1 ≤ node.entryCount := by
  cases node <;> simp [Node.entryCount]

/-- A listing of a tree: its entries in another order, in any of its directories. -/
inductive Node.Listing : Node → Node → Prop
  | same (node : Node) : Node.Listing node node
  | reorder {entries entries' : List (Name × Node)} (h : entries.Perm entries') :
      Node.Listing (.directory entries) (.directory entries')
  | inside {front back : List (Name × Node)} {name : Name} {node node' : Node}
      (h : Node.Listing node node') :
      Node.Listing (.directory (front ++ (name, node) :: back))
        (.directory (front ++ (name, node') :: back))
  | trans {a b c : Node} (hab : Node.Listing a b) (hbc : Node.Listing b c) : Node.Listing a c

/-- A listing has the bytes of the tree. -/
theorem Node.Listing.fileBytes_eq {node node' : Node} (h : node.Listing node') :
    node'.fileBytes = node.fileBytes := by
  induction h with
  | same node => rfl
  | reorder h =>
    rw [Node.fileBytes, Node.fileBytes, bytesBelow_eq, bytesBelow_eq]
    exact ((h.map _).sum_nat).symm
  | inside h ih =>
    rw [Node.fileBytes, Node.fileBytes, bytesBelow_eq, bytesBelow_eq]
    simp only [List.map_append, List.map_cons, ih]
  | trans hab hbc ihab ihbc => rw [ihbc, ihab]

/-- A listing has the entries of the tree. -/
theorem Node.Listing.entryCount_eq {node node' : Node} (h : node.Listing node') :
    node'.entryCount = node.entryCount := by
  induction h with
  | same node => rfl
  | reorder h =>
    rw [Node.entryCount, Node.entryCount, entriesBelow_eq, entriesBelow_eq, (h.map _).sum_nat]
  | inside h ih =>
    rw [Node.entryCount, Node.entryCount, entriesBelow_eq, entriesBelow_eq]
    simp only [List.map_append, List.map_cons, ih]
  | trans hab hbc ihab ihbc => rw [ihbc, ihab]

/-- Listing the entries in another order keeps a tree ordinary. -/
theorem Node.Listing.ordinary {node node' : Node} (h : node.Listing node')
    (hnode : node.Ordinary) : node'.Ordinary := by
  induction h with
  | same node => exact hnode
  | reorder h =>
    rw [Node.ordinary_directory_iff] at hnode ⊢
    intro entry hentry
    exact hnode entry (h.mem_iff.mpr hentry)
  | inside h ih =>
    rw [Node.ordinary_directory_iff, List.forall_mem_append, List.forall_mem_cons] at hnode ⊢
    exact ⟨hnode.1, ih hnode.2.1, hnode.2.2⟩
  | trans hab hbc ihab ihbc => exact ihbc (ihab hnode)

end Moonfort.DirectoryTree
