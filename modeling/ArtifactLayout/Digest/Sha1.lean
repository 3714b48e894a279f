import ArtifactLayout.Digest.Word32

/-! # SHA-1

Eighty rounds on five words; the sixteen words of a block are kept as a ring, in which each round
replaces the word it has used by the one sixteen rounds later.
-/

namespace ArtifactLayout.Digest.Sha1
set_option autoImplicit false

def mix (t : Nat) (b c d : UInt32) : UInt32 :=
  match t / 20 with
  | 0 => (b &&& c) ||| (~~~b &&& d)
  | 2 => (b &&& c) ||| (b &&& d) ||| (c &&& d)
  | _ => b ^^^ c ^^^ d

def constant (t : Nat) : UInt32 :=
  match t / 20 with
  | 0 => 0x5a827999
  | 1 => 0x6ed9eba1
  | 2 => 0x8f1bbcdc
  | _ => 0xca62c1d6

/-- The word sixteen rounds after round `t`. -/
def expand (ring : Vector UInt32 16) (t : Nat) : UInt32 :=
  rotateLeft (ringAt ring (t + 13) ^^^ ringAt ring (t + 8)
    ^^^ ringAt ring (t + 2) ^^^ ringAt ring t) 1

def start : Vector UInt32 5 :=
  #v[0x67452301, 0xefcdab89, 0x98badcfe, 0x10325476, 0xc3d2e1f0]

/-- The rounds from `t` on, of which `left` are left. -/
def rounds : Nat → Nat → Vector UInt32 16 → Vector UInt32 5 → Vector UInt32 5
  | 0, _, _, s => s
  | left + 1, t, ring, s =>
    let word := ringAt ring t
    let sum := rotateLeft s[0] 5 + mix t s[1] s[2] s[3] + s[4] + constant t + word
    rounds left (t + 1) (setRing ring t (expand ring t))
      #v[sum, s[0], rotateLeft s[1] 30, s[2], s[3]]

def compress (s : Vector UInt32 5) (words : Vector UInt32 16) : Vector UInt32 5 :=
  Vector.zipWith (· + ·) s (rounds 80 0 words s)

def digest (message : List UInt8) : Vector UInt8 20 :=
  bytesOfWords .highFirst
    (foldBlocks compress start (wordsOfBytes .highFirst (pad .highFirst 64 8 message)))

end ArtifactLayout.Digest.Sha1
