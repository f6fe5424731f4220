import Keyspace.Bytes.Sha256
import Keyspace.Text.Utf8
/-!
# Fingerprints

A fingerprint stands for the shape of a read: the first sixteen bytes of the SHA-256 digest of a
text that describes the shape, in hexadecimal digits.

Main definitions:

* `Keyspace.Fingerprint` — the fingerprints;
* `Keyspace.Fingerprint.of` — the fingerprint of a description.
-/

set_option autoImplicit false

namespace Keyspace

/-- What stands for the shape of a read. -/
structure Fingerprint where
  hex : String
  deriving DecidableEq, Repr

/-- The number of bytes of the digest that are kept. -/
def Fingerprint.size : Nat := 16

/-- **The fingerprint of a description.** -/
def Fingerprint.of (description : String) : Fingerprint :=
  ⟨Bytes.hex ((Bytes.Sha256.digest (Text.bytes description)).take size)⟩

end Keyspace
