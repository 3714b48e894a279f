import ArtifactLayout.Digest.Sha2
import ArtifactLayout.Digest.Word32

/-! # SHA-256 and SHA-224

Sixty-four rounds on eight words; the sixteen words of a block are kept as a ring, in which each
round replaces the word it has used by the one sixteen rounds later. SHA-224 starts from other words
and leaves out the last one.
-/

namespace ArtifactLayout.Digest.Sha256
set_option autoImplicit false

/-- The constant of each round: the first bits of the fractions of the cube roots of the primes. -/
def constants : List UInt32 := [
  0x428a2f98, 0x71374491, 0xb5c0fbcf, 0xe9b5dba5, 0x3956c25b, 0x59f111f1, 0x923f82a4, 0xab1c5ed5,
  0xd807aa98, 0x12835b01, 0x243185be, 0x550c7dc3, 0x72be5d74, 0x80deb1fe, 0x9bdc06a7, 0xc19bf174,
  0xe49b69c1, 0xefbe4786, 0x0fc19dc6, 0x240ca1cc, 0x2de92c6f, 0x4a7484aa, 0x5cb0a9dc, 0x76f988da,
  0x983e5152, 0xa831c66d, 0xb00327c8, 0xbf597fc7, 0xc6e00bf3, 0xd5a79147, 0x06ca6351, 0x14292967,
  0x27b70a85, 0x2e1b2138, 0x4d2c6dfc, 0x53380d13, 0x650a7354, 0x766a0abb, 0x81c2c92e, 0x92722c85,
  0xa2bfe8a1, 0xa81a664b, 0xc24b8b70, 0xc76c51a3, 0xd192e819, 0xd6990624, 0xf40e3585, 0x106aa070,
  0x19a4c116, 0x1e376c08, 0x2748774c, 0x34b0bcb5, 0x391c0cb3, 0x4ed8aa4a, 0x5b9cca4f, 0x682e6ff3,
  0x748f82ee, 0x78a5636f, 0x84c87814, 0x8cc70208, 0x90befffa, 0xa4506ceb, 0xbef9a3f7, 0xc67178f2]

/-- First bits of the fractions of the square roots of the first eight primes. -/
def start256 : Vector UInt32 8 := #v[
  0x6a09e667, 0xbb67ae85, 0x3c6ef372, 0xa54ff53a, 0x510e527f, 0x9b05688c, 0x1f83d9ab, 0x5be0cd19]

/-- The low halves of the words that SHA-384 starts from. -/
def start224 : Vector UInt32 8 := #v[
  0xc1059ed8, 0x367cd507, 0x3070dd17, 0xf70e5939, 0xffc00b31, 0x68581511, 0x64f98fa7, 0xbefa4fa4]

def mixing : Sha2.Mixing UInt32 where
  early x := rotateRight x 7 ^^^ rotateRight x 18 ^^^ x >>> 3
  late x := rotateRight x 17 ^^^ rotateRight x 19 ^^^ x >>> 10
  first x := rotateRight x 2 ^^^ rotateRight x 13 ^^^ rotateRight x 22
  fifth x := rotateRight x 6 ^^^ rotateRight x 11 ^^^ rotateRight x 25

def hash (start : Vector UInt32 8) (message : List UInt8) : Vector UInt32 8 :=
  foldBlocks (Sha2.compress mixing constants) start
    (wordsOfBytes .highFirst (pad .highFirst 64 8 message))

def digest256 (message : List UInt8) : Vector UInt8 32 :=
  bytesOfWords .highFirst (hash start256 message)

def digest224 (message : List UInt8) : Vector UInt8 28 :=
  bytesOfWords .highFirst ((hash start224 message).take 7)

end ArtifactLayout.Digest.Sha256
