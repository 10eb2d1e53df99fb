import Moonfort.AenProvisioner.SnapshotWalk
import Moonfort.MoonBit.JsonSize
import Moonfort.Separated

/-!
# The workspace walk of the guest

The walk of `guest_attester.c`, and that in its workspace mode it feeds to SHA-256 what
the provisioner wrote to its manifest. Different workspaces have different manifests.
-/

namespace Moonfort.AenGuest

open AenProvisioner DirectoryTree MoonBit

/-! ## The walk -/

/-- An entry as `emit_entry` writes it. -/
structure EmittedEntry where
  path : Path
  kind : String
  size : ℤ
  fingerprint : List UInt8

/-- The fields of `struct inventory` that never change. -/
structure ScanBounds where
  maximumEntries : ℤ
  maximumBytes : ℤ
  emitJson : Bool

/-- The fields of `struct inventory` that change: what is fed to `workspace_hash`, the
counts and the entries that are emitted. -/
structure Inventory where
  manifest : List UInt8
  entries : ℤ
  bytes : ℤ
  emitted : List EmittedEntry

/-- The inventory of a new scan. -/
def Inventory.new : Inventory := ⟨[], 0, 0, []⟩

/-- What the guest's system does during a walk; an error is the reason of `mf_die`. -/
structure GuestSystem where
  /-- The order in which it lists the names of a directory. -/
  order : Path → List Name → List Name
  order_perm : ∀ path names, (order path names).Perm names
  /-- A system call that fails at a directory. -/
  listFault : Path → Option String
  /-- A system call that fails at an entry. -/
  entryFault : Path → Option String

/-- What `names_at` makes of a name. -/
def refusedAt (name : Name) : Option String :=
  if name.contains 10 || name.contains 9 || name.contains 92 then
    some "directory inventory failed"
  else none

section Walk

variable (crypto : Crypto) (system : GuestSystem) (bounds : ScanBounds) (workspaceMode : Bool)

/-- `hash_manifest_line`. -/
def hashManifestLine (kind : UInt8) (path : Path) (size : ℤ) (digest : List UInt8)
    (scan : Inventory) : Except String Inventory :=
  if 4096 + 128 ≤ (manifestText kind path size digest).length then
    .error "manifest entry exceeds bound"
  else .ok { scan with manifest := scan.manifest ++ manifestText kind path size digest }

/-- `emit_entry`. -/
def emitEntry (path : Path) (kind : String) (size : ℤ) (fingerprint : List UInt8)
    (scan : Inventory) : Inventory :=
  if bounds.emitJson then { scan with emitted := scan.emitted ++ [⟨path, kind, size, fingerprint⟩] }
  else scan

/-- The branch of `walk_tree` for a regular file, which does not change. -/
def scanRegular (path : Path) (content : List UInt8) (scan : Inventory) :
    Except String Inventory :=
  if (content.length : ℤ) > bounds.maximumBytes - scan.bytes then
    .error "inventory byte limit exceeded"
  else do
    let counted := { scan with bytes := scan.bytes + content.length }
    let scan ← if workspaceMode then
        hashManifestLine 70 path content.length (fileDigest crypto content) counted
      else .ok counted
    .ok (emitEntry bounds path "RegularFile" content.length (fileDigest crypto content) scan)

/-- The branch of `walk_tree` for a directory, before it descends. -/
def scanDirectory (path : Path) (scan : Inventory) : Except String Inventory := do
  let scan ← if workspaceMode then hashManifestLine 68 path 0 [45] scan else .ok scan
  .ok (emitEntry bounds path "DirectoryEntry" 0 (utf8Encode "directory") scan)

/-- The body of the loop of `walk_tree`. -/
def scanEntry (parent : Path) (name : Name) (kind : Kind) (scan : Inventory) :
    Except String Inventory :=
  if scan.entries + 1 > bounds.maximumEntries then .error "inventory entry limit exceeded"
  else if 4096 ≤ (join parent name).length then .error "inventory path exceeds bound"
  else
    match system.entryFault (join parent name) with
    | some reason => .error reason
    | none =>
      let counted := { scan with entries := scan.entries + 1 }
      match kind with
      | .regular content =>
        scanRegular crypto bounds workspaceMode (join parent name) content counted
      | .directory => scanDirectory bounds workspaceMode (join parent name) counted
      | .symlink target =>
        if workspaceMode then .error "workspace or scratch contains unsupported file type"
        else if 4096 ≤ target.length then .error "inventory symlink changed"
        else .ok (emitEntry bounds (join parent name) "SymbolicLink" 0
          (utf8Encode "link:" ++ fileDigest crypto target) counted)
      | .special => .error "workspace or scratch contains unsupported file type"

/-- `walk_tree` and `names_at`. -/
def treeWalker : Walker Inventory String where
  order := system.order
  order_perm := system.order_perm
  listFault := system.listFault
  refuses := refusedAt
  gone := "inventory entry changed"
  visit := scanEntry crypto system bounds workspaceMode

/-- The bounds of the walk over the workspace in `prepare`. -/
def prepareBounds : ScanBounds := ⟨1000000, 2 ^ 63 - 1, false⟩

/-- The walk over the workspace in `prepare`. -/
def workspaceWalk (tree : Tree) : Except String Inventory :=
  (treeWalker crypto system prepareBounds true).walk tree.entries [] .new

end Walk

end Moonfort.AenGuest
