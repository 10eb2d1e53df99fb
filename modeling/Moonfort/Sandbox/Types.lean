import Moonfort.MoonBit.Text

/-!
# Values of the sandbox

The parts of a sandbox profile that a grant carries, the entries of a scratch
tree, and what a review says about one promotion.
-/

namespace Moonfort.Sandbox

open MoonBit

/-- `SandboxBackendKind`. -/
inductive SandboxBackendKind where
  | localOs
  | microVm
  | unavailable
  deriving DecidableEq

/-- `SandboxNetworkMode`. -/
inductive SandboxNetworkMode where
  | deny
  | allowList
  | unrestricted
  deriving DecidableEq

/-- `SandboxEnforcementRequirement`. -/
inductive SandboxEnforcementRequirement where
  | requireEnforced
  | allowDegraded
  deriving DecidableEq

/-- `SandboxLimits`. -/
structure SandboxLimits where
  wallClockMs : ℤ
  cpuSeconds : ℤ
  memoryMib : ℤ
  diskMib : ℤ
  processes : ℤ
  outputBytes : ℤ
  deriving DecidableEq

/-- `SandboxCommand`. -/
inductive SandboxCommand where
  | exec (tool : String) (args : List String)
  | shell (script : String)
  deriving DecidableEq

/-- `shell_compatibility_command_label`. -/
def shellCompatibilityCommandLabel : String := "shell-compat"

/-- `@fs.FileKind`. -/
inductive FileKind where
  | regular
  | directory
  | symLink
  | socket
  | pipe
  | blockDevice
  | charDevice
  | unknown
  deriving DecidableEq

/-- `fs_kind_label`. -/
def fsKindLabel : FileKind → String
  | .regular => "regular-file"
  | .directory => "directory"
  | .symLink => "symlink"
  | .socket => "socket"
  | .pipe => "pipe"
  | .blockDevice => "block-device"
  | .charDevice => "char-device"
  | .unknown => "unknown"

/-- `path_is_canonical_absolute`. -/
def pathIsCanonicalAbsolute (path : String) : Bool :=
  hasPrefix path "/" && !containsText path "//" &&
    !((splitPath path).any fun component => component == "." || component == "..") &&
    (path == "/" || !hasSuffix path "/")

/-- `ScratchEntryKind`. -/
inductive ScratchEntryKind where
  | regularFile
  | directoryEntry
  | symbolicLink
  deriving DecidableEq

/-- `ScratchEntry`. -/
structure ScratchEntry where
  relativePath : String
  kind : ScratchEntryKind
  sizeBytes : ℤ
  fingerprint : String
  deriving DecidableEq

/-- `ScratchInventory`. -/
structure ScratchInventory where
  entries : List ScratchEntry
  totalBytes : ℤ

/-- `scratch_relative_path_is_safe`. -/
def scratchRelativePathIsSafe (path : String) : Bool :=
  path != "" && !hasPrefix path "/" && !hasSuffix path "/" && !containsText path "\\" &&
    !containsText path "\x00" &&
    (splitPath path).all fun component => component != "" && component != "." && component != ".."

/-- A lowercase hexadecimal digit. -/
def isHexDigit (c : Char) : Bool := ('0' ≤ c && c ≤ '9') || ('a' ≤ c && c ≤ 'f')

/-- The hexadecimal form of a SHA-256 digest. -/
def sha256Digest (value : String) : Bool :=
  utf16Length value == 64 && allChars value isHexDigit

/-- A digest made of one digit. -/
theorem sha256Digest_replicate {c : Char} (h : isHexDigit c = true) :
    sha256Digest (String.ofList (List.replicate 64 c)) = true := by
  have hsmall : c.toNat < 0x10000 := by
    simp only [isHexDigit, Bool.or_eq_true, Bool.and_eq_true, decide_eq_true_eq] at h
    rcases h with ⟨-, h⟩ | ⟨-, h⟩
    · exact lt_of_le_of_lt (UInt32.le_iff_toNat_le.mp h) (by decide)
    · exact lt_of_le_of_lt (UInt32.le_iff_toNat_le.mp h) (by decide)
  rw [sha256Digest, utf16Length, allChars, String.toList_ofList, List.map_replicate, if_pos hsmall,
    List.all_replicate, h]
  rfl
/-- `SandboxPromotionDestinationState`: what a review found at the destination. -/
inductive SandboxPromotionDestinationState where
  | reviewedDestinationAbsent
  | reviewedDestinationRegular (sizeBytes : ℤ) (fingerprint : String)
  deriving DecidableEq

/-- `SandboxPromotionItem`. -/
structure SandboxPromotionItem where
  sourceRelativePath : String
  destinationRelativePath : String
  expectedSourceFingerprint : String
  sizeBytes : ℤ
  expectedDestinationState : SandboxPromotionDestinationState
  deriving DecidableEq

/-- `SandboxPromotionRequest`: one artifact and its destination. -/
structure SandboxPromotionRequest where
  artifactPath : String
  destinationPath : String
  deriving DecidableEq

end Moonfort.Sandbox
