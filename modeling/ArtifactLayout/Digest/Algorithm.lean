import ArtifactLayout.Digest.Md5
import ArtifactLayout.Digest.Sha1
import ArtifactLayout.Digest.Sha256
import ArtifactLayout.Digest.Sha512

/-! # Digest algorithms

The digests a filler can compute, each with its length in its type.
-/

namespace ArtifactLayout.Digest
set_option autoImplicit false

inductive Algorithm where
  | md5
  | sha1
  | sha224
  | sha256
  | sha384
  | sha512
  deriving DecidableEq, Repr

namespace Algorithm

/-- The length of the digest in bytes. -/
def size : Algorithm → Nat
  | md5 => 16
  | sha1 => 20
  | sha224 => 28
  | sha256 => 32
  | sha384 => 48
  | sha512 => 64

def digest : (a : Algorithm) → List UInt8 → Vector UInt8 a.size
  | md5 => Md5.digest
  | sha1 => Sha1.digest
  | sha224 => Sha256.digest224
  | sha256 => Sha256.digest256
  | sha384 => Sha512.digest384
  | sha512 => Sha512.digest512

@[simp] theorem length_digest (a : Algorithm) (message : List UInt8) :
    (a.digest message).toList.length = a.size :=
  Vector.length_toList

end Algorithm
end ArtifactLayout.Digest
