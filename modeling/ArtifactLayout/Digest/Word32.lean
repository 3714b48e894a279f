import ArtifactLayout.Digest.Block

/-! # Digests on 32-bit words

Reading words from bytes, writing them back, and rotations.
-/

namespace ArtifactLayout.Digest
set_option autoImplicit false

def rotateLeft (x n : UInt32) : UInt32 := (x <<< n) ||| (x >>> (32 - n))

def rotateRight (x n : UInt32) : UInt32 := (x >>> n) ||| (x <<< (32 - n))

/-- The word of four bytes, high byte first. -/
def word32 (a b c d : UInt8) : UInt32 :=
  a.toUInt32 <<< 24 ||| b.toUInt32 <<< 16 ||| c.toUInt32 <<< 8 ||| d.toUInt32

/-- The words of a message, in reverse and in front of `read`. -/
def readWords (order : WordOrder) (read : List UInt32) : List UInt8 → List UInt32
  | a :: b :: c :: d :: rest =>
    let word := match order with
      | .highFirst => word32 a b c d
      | .lowFirst => word32 d c b a
    readWords order (word :: read) rest
  | _ => read

/-- The words of a message; a rest of fewer than four bytes is left out. -/
def wordsOfBytes (order : WordOrder) (message : List UInt8) : List UInt32 :=
  (readWords order [] message).reverse

/-- Byte `i` of the written form of a word. -/
def byteOfWord (order : WordOrder) (word : UInt32) (i : Nat) : UInt8 :=
  match order with
  | .highFirst => (word >>> UInt32.ofNat (24 - 8 * i)).toUInt8
  | .lowFirst => (word >>> UInt32.ofNat (8 * i)).toUInt8

def bytesOfWords {n : Nat} (order : WordOrder) (words : Vector UInt32 n) : Vector UInt8 (4 * n) :=
  Vector.ofFn fun i =>
    have h : i.val / 4 < n := by omega
    byteOfWord order words[i.val / 4] (i.val % 4)

end ArtifactLayout.Digest
