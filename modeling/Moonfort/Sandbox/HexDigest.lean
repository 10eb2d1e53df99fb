import Moonfort.MoonBit.PlainText
import Moonfort.Sandbox.Types

/-!
# Digests in hexadecimal

The hexadecimal text of a digest has the form that the program's checks ask for.
-/

namespace Moonfort.Sandbox

open MoonBit

/-- The hexadecimal text of bytes has only hexadecimal digits. -/
theorem allChars_bytesToHexString (bytes : List UInt8) :
    allChars (bytesToHexString bytes) isHexDigit = true := by
  have hdigit : ∀ n < 16, isHexDigit (Nat.digitChar n) = true := by decide
  rw [allChars, bytesToHexString, String.toList_ofList, List.all_eq_true]
  intro c hc
  obtain ⟨byte, -, hc⟩ := List.mem_flatMap.mp hc
  have hbyte := byte.toNat_lt
  rw [hexPair, List.mem_cons, List.mem_singleton] at hc
  rcases hc with rfl | rfl
  · exact hdigit _ (by omega)
  · exact hdigit _ (by omega)

/-- A hexadecimal text has two characters for each byte. -/
theorem utf16Length_bytesToHexString (bytes : List UInt8) :
    utf16Length (bytesToHexString bytes) = 2 * bytes.length := by
  rw [utf16Length_of_plain (plain_bytesToHexString bytes), length_bytesToHexString]

/-- The hexadecimal text of 32 bytes is a digest. -/
theorem sha256Digest_bytesToHexString {bytes : List UInt8} (h : bytes.length = 32) :
    sha256Digest (bytesToHexString bytes) = true := by
  rw [sha256Digest, allChars_bytesToHexString, Bool.and_true, beq_iff_eq,
    utf16Length_bytesToHexString, h]

/-- The digests of the program have the form of digests. -/
theorem sha256Digest_digest {crypto : Crypto} (hsha : ∀ bytes, (crypto.sha256 bytes).length = 32)
    (bytes : List UInt8) : sha256Digest (crypto.digest bytes) = true :=
  sha256Digest_bytesToHexString (hsha bytes)

end Moonfort.Sandbox
