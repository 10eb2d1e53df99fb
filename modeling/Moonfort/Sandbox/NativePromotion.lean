import Moonfort.Concurrent.Discipline
import Moonfort.Sandbox.Types

/-!
# Native promotion

`moonfort_secure_promote_regular` of `secure_fs.c`, as a program over the system
calls it makes on the directory that holds the destination. Other writers may
replace the destination name between any two of them. A read or a write that is
interrupted is repeated within its call, and what a file holds changes only
where the routine writes the temporary file it created.
-/

namespace Moonfort.Sandbox

open Concurrent MoonBit

/-- A SHA-256 digest in hexadecimal. -/
structure Digest where
  hex : String
  valid : sha256Digest hex = true

/-- A file under some name. -/
structure FileNode where
  inode : ℕ
  /-- `S_ISREG`. -/
  regular : Bool
  bytes : List UInt8
  deriving DecidableEq

/-- What `fstatat(.., AT_SYMLINK_NOFOLLOW)` reports. -/
inductive Stat where
  | absent
  | failed
  | found (inode : ℕ) (regular : Bool) (size : ℕ)
  deriving DecidableEq

/-- What one `read` of the source gives. -/
inductive SourceRead where
  | chunk (head : UInt8) (tail : List UInt8)
  | eof
  | failed

/-- How `openat(.., O_CREAT | O_EXCL)` ends. -/
inductive Creation where
  | created (inode : ℕ)
  | taken
  | failed

/-- How an atomic rename or exchange ends. -/
inductive Renaming where
  | done
  | unsupported
  | failed
  deriving DecidableEq

/-- How `unlinkat` ends. -/
inductive Unlinking where
  | done
  | absent
  | failed
  deriving DecidableEq

/-- One system call of the routine, or one replacement by another writer. -/
inductive NativeOp where
  /-- Both `open_absolute_directory` calls. -/
  | openRoots
  /-- `open_relative_parent` for the source. -/
  | openSourceParent
  /-- `open_relative_parent` for the destination. -/
  | openDestinationParent
  /-- `open_regular_at` and `fstat` on the source: its size. -/
  | openSource
  /-- `read(source, ..)`. -/
  | readSource
  /-- `fstat(source, ..)` after the copy, compared with the one before. -/
  | restatSource
  /-- `fstatat(destination_parent, name, .., AT_SYMLINK_NOFOLLOW)`. -/
  | fstatat (name : String)
  /-- `openat(destination_parent, name, O_RDONLY | O_NOFOLLOW)` and `fstat`. -/
  | openat (name : String)
  /-- `hash_regular_descriptor`: read an open file of this size. -/
  | hashRegularDescriptor (file : FileNode) (size : ℕ)
  /-- `atomic_fetch_add(&temporary_counter, 1)`. -/
  | nextNonce
  /-- `openat(destination_parent, name, O_WRONLY | O_CREAT | O_EXCL | ..)`. -/
  | createTemporary (name : String)
  /-- The `write` loop for one buffer. -/
  | writeOutput (name : String) (bytes : List UInt8)
  /-- `fsync(output)` and `fstat(output, ..)`. -/
  | syncOutput
  /-- `atomic_rename_no_replace` within the directory. -/
  | renameNoReplace (source destination : String)
  /-- `atomic_rename_exchange` within the directory, to install the output. -/
  | exchange (first second : String)
  /-- `atomic_rename_exchange` again, to take the first exchange back. -/
  | exchangeBack (first second : String)
  /-- `unlinkat(destination_parent, name, 0)`. -/
  | unlinkat (name : String)
  /-- `fsync(destination_parent)`. -/
  | syncDirectory
  /-- Another writer puts a file under the destination name or removes it. -/
  | replace (file : Option FileNode)

/-- The results of the calls. -/
@[reducible] def NativeOp.Res : NativeOp → Type
  | openRoots | openSourceParent | openDestinationParent | restatSource | writeOutput _ _
  | syncOutput | syncDirectory => Bool
  | openSource => Option ℕ
  | readSource => SourceRead
  | fstatat _ => Stat
  | openat _ => Option FileNode
  | hashRegularDescriptor _ _ => Option Digest
  | nextNonce => ℕ
  | createTemporary _ => Creation
  | renameNoReplace _ _ | exchange _ _ | exchangeBack _ _ => Renaming
  | unlinkat _ => Unlinking
  | replace _ => Unit

/-- A program over the calls. -/
abbrev NativeProgram := Program NativeOp NativeOp.Res

/-! ## The routine -/

/-- `SECURE_FS_OK`. -/
def secureFsOk : ℤ := 0

/-- `SECURE_FS_INVALID`. -/
def secureFsInvalid : ℤ := 1

/-- `SECURE_FS_SOURCE`. -/
def secureFsSource : ℤ := 2

/-- `SECURE_FS_DESTINATION`. -/
def secureFsDestination : ℤ := 3

/-- `SECURE_FS_IO`. -/
def secureFsIo : ℤ := 4

/-- `SECURE_FS_UNSUPPORTED`. -/
def secureFsUnsupported : ℤ := 5

/-- The arguments of `moonfort_secure_promote_regular`. -/
structure NativePromotion where
  sourceRoot : String
  sourcePath : String
  destinationRoot : String
  destinationPath : String
  expectedSize : ℤ
  expectedFingerprint : String
  expectedDestinationKind : ℤ
  expectedDestinationSize : ℤ
  expectedDestinationFingerprint : String

/-- `copy_checked_path`, which refuses a path that is not canonical. -/
def copyCheckedPath (path : String) (absolute : Bool) : Bool :=
  path != "" && !containsText path "\x00" && hasPrefix path "/" == absolute &&
    !hasSuffix path "/" && !containsText path "//" &&
    (if absolute then (splitPath path).tail else splitPath path).all fun component =>
      component != "" && utf8Length component ≤ 255 && component != "." && component != ".."

/-- The checks on the arguments. -/
def NativePromotion.checked (p : NativePromotion) : Bool :=
  copyCheckedPath p.sourceRoot true && copyCheckedPath p.sourcePath false &&
    copyCheckedPath p.destinationRoot true && copyCheckedPath p.destinationPath false &&
    0 ≤ p.expectedSize && utf8Length p.expectedFingerprint == 64 &&
    (p.expectedDestinationKind == 0 || p.expectedDestinationKind == 1) &&
    (p.expectedDestinationKind != 1 ||
      (0 ≤ p.expectedDestinationSize && utf8Length p.expectedDestinationFingerprint == 64))

/-- `destination_leaf`: the last component of the destination path. -/
def NativePromotion.leaf (p : NativePromotion) : String :=
  (splitPath p.destinationPath).getLastD ""

/-- The name of a temporary file. -/
def temporaryName (pid nonce : ℕ) : String :=
  ".moonfort-" ++ toString pid ++ "-" ++ toString nonce ++ ".tmp"

/-- `open_regular_at`: open a regular file whose name keeps denoting it. -/
def openRegularAt (name : String) : NativeProgram (Option FileNode) := do
  match ← Program.perform (NativeOp.fstatat name) with
  | .found inode true _ =>
    match ← Program.perform (NativeOp.openat name) with
    | none => pure none
    | some file =>
      match ← Program.perform (NativeOp.fstatat name) with
      | .found inode' true _ =>
        pure (if file.regular ∧ file.inode = inode ∧ file.inode = inode' then some file else none)
      | _ => pure none
  | _ => pure none

/-- The outcome of `inspect_destination_regular`. -/
inductive Inspection where
  | absent
  | unsafeEntry
  | regular (size : ℕ) (digest : Digest)

/-- `inspect_destination_regular`. -/
def inspectDestinationRegular (name : String) : NativeProgram Inspection := do
  match ← Program.perform (NativeOp.fstatat name) with
  | .absent => pure .absent
  | .found inode true size =>
    match ← openRegularAt name with
    | none => pure .unsafeEntry
    | some file =>
      match ← Program.perform (NativeOp.hashRegularDescriptor file size) with
      | none => pure .unsafeEntry
      | some digest =>
        match ← Program.perform (NativeOp.fstatat name) with
        | .found inode' true size' =>
          pure (if file.inode = inode ∧ inode' = inode ∧ size' = size then .regular size digest
            else .unsafeEntry)
        | _ => pure .unsafeEntry
  | _ => pure .unsafeEntry

/-- An inspection found the reviewed destination file. -/
def NativePromotion.reviewedRegular (p : NativePromotion) : Inspection → Bool
  | .regular size digest =>
    (size : ℤ) == p.expectedDestinationSize && digest.hex == p.expectedDestinationFingerprint
  | _ => false

/-- An inspection found the reviewed destination state. -/
def NativePromotion.reviewed (p : NativePromotion) (inspection : Inspection) : Bool :=
  if p.expectedDestinationKind = 0 then
    match inspection with
    | .absent => true
    | _ => false
  else p.reviewedRegular inspection

/-- The loop that creates the temporary file. -/
def createTemporary (pid : ℕ) : ℕ → NativeProgram (Option (String × ℕ))
  | 0 => pure none
  | attempts + 1 => do
    let nonce ← Program.perform NativeOp.nextNonce
    match ← Program.perform (NativeOp.createTemporary (temporaryName pid nonce)) with
    | .created inode => pure (some (temporaryName pid nonce, inode))
    | .taken => createTemporary pid attempts
    | .failed => pure none

/-- The loop that copies the source: the bytes copied, or the status of a failure.
Every round reads a byte at least, so the rounds suffice for one byte more than
the expected size. -/
def copySource (p : NativePromotion) (temporary : String) :
    ℕ → List UInt8 → NativeProgram (Except ℤ (List UInt8))
  | 0, _ => pure (.error secureFsSource)
  | rounds + 1, copied => do
    match ← Program.perform NativeOp.readSource with
    | .eof => pure (.ok copied)
    | .failed => pure (.error secureFsSource)
    | .chunk head tail =>
      if p.expectedSize < (copied ++ head :: tail).length then pure (.error secureFsSource)
      else if ← Program.perform (NativeOp.writeOutput temporary (head :: tail)) then
        copySource p temporary rounds (copied ++ head :: tail)
      else pure (.error secureFsIo)

/-- Copy the source and check what was copied. -/
def copyVerified (sha256 : List UInt8 → Digest) (p : NativePromotion) (temporary : String) :
    NativeProgram ℤ := do
  match ← copySource p temporary (p.expectedSize.toNat + 1) [] with
  | .error status => pure status
  | .ok copied =>
    if copied.length ≠ p.expectedSize then pure secureFsSource
    else
      let unchanged ← Program.perform NativeOp.restatSource
      pure (if unchanged ∧ (sha256 copied).hex = p.expectedFingerprint then secureFsOk
        else secureFsSource)

/-- Copy the source and sync the output: the status, which is `SECURE_FS_OK`
exactly where `output_status_valid` is set. -/
def writeTemporary (sha256 : List UInt8 → Digest) (p : NativePromotion) (temporary : String) :
    NativeProgram ℤ := do
  let status ← copyVerified sha256 p temporary
  if status = secureFsOk then
    let synced ← Program.perform NativeOp.syncOutput
    pure (if synced then secureFsOk else secureFsIo)
  else pure status

/-- The status after a rename or an exchange that is not done. -/
def Renaming.status : Renaming → ℤ
  | done => secureFsOk
  | unsupported => secureFsUnsupported
  | failed => secureFsDestination

/-- Install the output where nothing was reviewed. -/
def installAbsent (p : NativePromotion) (temporary : String) : NativeProgram ℤ := do
  let ended ← Program.perform (NativeOp.renameNoReplace temporary p.leaf)
  pure ended.status

/-- Unlink the temporary name once it holds what need not be kept. -/
def removeDisplaced (temporary : String) (status : ℤ) : NativeProgram ℤ := do
  match ← Program.perform (NativeOp.unlinkat temporary) with
  | .done => pure status
  | _ => pure secureFsIo

/-- Take the exchange back if the destination still is the output. -/
def takeBack (p : NativePromotion) (temporary : String) (inode : ℕ) : NativeProgram ℤ := do
  match ← Program.perform (NativeOp.fstatat p.leaf) with
  | .found installed true _ =>
    if installed = inode then
      match ← Program.perform (NativeOp.exchangeBack temporary p.leaf) with
      | .done => removeDisplaced temporary secureFsDestination
      | _ => pure secureFsIo
    else pure secureFsIo
  | _ => pure secureFsIo

/-- Install the output where a file was reviewed. -/
def installExchange (p : NativePromotion) (temporary : String) (inode : ℕ) :
    NativeProgram ℤ := do
  match ← Program.perform (NativeOp.exchange temporary p.leaf) with
  | .done =>
    let displaced ← inspectDestinationRegular temporary
    if p.reviewedRegular displaced then removeDisplaced temporary secureFsOk
    else takeBack p temporary inode
  | ended => pure ended.status

/-- Install the output, if it was written. -/
def installOutput (p : NativePromotion) (temporary : String) (inode : ℕ) (written : ℤ) :
    NativeProgram ℤ :=
  if written ≠ secureFsOk then pure written
  else if p.expectedDestinationKind = 0 then installAbsent p temporary
  else installExchange p temporary inode

/-- Remove what is left of the output after a failure. -/
def removeLeftover (p : NativePromotion) (temporary : String) (inode : ℕ) (valid : Bool)
    (status : ℤ) : NativeProgram ℤ := do
  if status = secureFsOk then pure status
  else if p.expectedDestinationKind = 0 then
    match ← Program.perform (NativeOp.unlinkat temporary) with
    | .failed => pure secureFsIo
    | _ => pure status
  else
    match ← Program.perform (NativeOp.fstatat temporary) with
    | .found leftover true _ =>
      if valid ∧ leftover = inode then
        match ← Program.perform (NativeOp.unlinkat temporary) with
        | .done => pure status
        | _ => pure secureFsIo
      else pure status
    | _ => pure status

/-- The routine after the temporary file is created. -/
def promoteTemporary (sha256 : List UInt8 → Digest) (p : NativePromotion) (temporary : String)
    (inode : ℕ) : NativeProgram ℤ := do
  let written ← writeTemporary sha256 p temporary
  let installed ← installOutput p temporary inode written
  let cleaned ← removeLeftover p temporary inode (written = secureFsOk) installed
  let synced ← Program.perform NativeOp.syncDirectory
  pure (if synced then cleaned else secureFsIo)

/-- The routine after the directories are open. -/
def promoteOpened (sha256 : List UInt8 → Digest) (pid : ℕ) (p : NativePromotion) :
    NativeProgram ℤ := do
  let size ← Program.perform NativeOp.openSource
  if size.map Int.ofNat ≠ some p.expectedSize then pure secureFsSource
  else
    let inspection ← inspectDestinationRegular p.leaf
    if !p.reviewed inspection then pure secureFsDestination
    else
      match ← createTemporary pid 128 with
      | none => pure secureFsDestination
      | some (temporary, inode) => promoteTemporary sha256 p temporary inode

/-- `moonfort_secure_promote_regular`. -/
def securePromoteRegular (sha256 : List UInt8 → Digest) (pid : ℕ) (p : NativePromotion) :
    NativeProgram ℤ := do
  if !p.checked then pure secureFsInvalid
  else
    let roots ← Program.perform NativeOp.openRoots
    if !roots then pure secureFsInvalid
    else
      let sourceParent ← Program.perform NativeOp.openSourceParent
      let destinationParent ← Program.perform NativeOp.openDestinationParent
      if !sourceParent then pure secureFsSource
      else if !destinationParent then pure secureFsDestination
      else promoteOpened sha256 pid p

end Moonfort.Sandbox
