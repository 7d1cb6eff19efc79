import JvmCoverage.Digest.Sha256
import JvmCoverage.Text.Hex

/-!
# Class identities

Several versions of a class may be loaded under one name.  They are told apart by a digest of
their bytes.
-/

namespace JvmCoverage

/-- A class by name and content. -/
structure ClassIdentity where
  name : String
  /-- The first eight bytes of the SHA-256 hash of the class. -/
  digest : UInt64
  deriving DecidableEq, Hashable

namespace ClassIdentity

/-- The identity of the class with the given bytes. -/
def of (name : String) (bytes : List UInt8) : ClassIdentity :=
  ⟨name, UInt64.ofNat (Bytes.ofBigEndian ((Sha256.hash bytes).take 8))⟩

/-- The text of an identity: the name and the digest in hexadecimal digits. -/
def text (identity : ClassIdentity) : String :=
  identity.name ++ "@" ++ Text.hex 16 identity.digest.toNat

/-- The order of identities: by name, then by digest. -/
def precedes (a b : ClassIdentity) : Bool :=
  a.name < b.name || (a.name == b.name && a.digest < b.digest)

end ClassIdentity

end JvmCoverage
