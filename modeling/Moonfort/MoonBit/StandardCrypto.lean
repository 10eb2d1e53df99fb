import Moonfort.MoonBit.Crypto
import Moonfort.SecureHash

/-!
# The standard hash functions

The hash functions of the program as their standards define them. Results that leave them
open hold of these.
-/

namespace Moonfort.MoonBit.Crypto

/-- SHA-256, and HMAC over it. -/
noncomputable def standard : Crypto where
  sha256 := SecureHash.sha256
  hmac := SecureHash.hmac

/-- The standard functions answer 32 bytes. -/
theorem standard_sized : standard.Sized where
  sha256 := SecureHash.length_sha256
  hmac _ _ := SecureHash.length_sha256 _

end Moonfort.MoonBit.Crypto
