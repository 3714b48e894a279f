import ArtifactLayout.Digest.Word32

/-! # MD5

Sixty-four rounds on four words, in four groups with a mixing function, a message order and shifts
of their own.
-/

namespace ArtifactLayout.Digest.Md5
set_option autoImplicit false

/-- The constant of each round: the whole part of 2^32 times the sine of its number. -/
def constants : List UInt32 := [
  0xd76aa478, 0xe8c7b756, 0x242070db, 0xc1bdceee, 0xf57c0faf, 0x4787c62a, 0xa8304613, 0xfd469501,
  0x698098d8, 0x8b44f7af, 0xffff5bb1, 0x895cd7be, 0x6b901122, 0xfd987193, 0xa679438e, 0x49b40821,
  0xf61e2562, 0xc040b340, 0x265e5a51, 0xe9b6c7aa, 0xd62f105d, 0x02441453, 0xd8a1e681, 0xe7d3fbc8,
  0x21e1cde6, 0xc33707d6, 0xf4d50d87, 0x455a14ed, 0xa9e3e905, 0xfcefa3f8, 0x676f02d9, 0x8d2a4c8a,
  0xfffa3942, 0x8771f681, 0x6d9d6122, 0xfde5380c, 0xa4beea44, 0x4bdecfa9, 0xf6bb4b60, 0xbebfbc70,
  0x289b7ec6, 0xeaa127fa, 0xd4ef3085, 0x04881d05, 0xd9d4d039, 0xe6db99e5, 0x1fa27cf8, 0xc4ac5665,
  0xf4292244, 0x432aff97, 0xab9423a7, 0xfc93a039, 0x655b59c3, 0x8f0ccc92, 0xffeff47d, 0x85845dd1,
  0x6fa87e4f, 0xfe2ce6e0, 0xa3014314, 0x4e0811a1, 0xf7537e82, 0xbd3af235, 0x2ad7d2bb, 0xeb86d391]

/-- The left rotation of round `t`. -/
def shift (t : Nat) : UInt32 :=
  match t / 16, t % 4 with
  | 0, 0 => 7 | 0, 1 => 12 | 0, 2 => 17 | 0, _ => 22
  | 1, 0 => 5 | 1, 1 => 9 | 1, 2 => 14 | 1, _ => 20
  | 2, 0 => 4 | 2, 1 => 11 | 2, 2 => 16 | 2, _ => 23
  | _, 0 => 6 | _, 1 => 10 | _, 2 => 15 | _, _ => 21

def mix (t : Nat) (b c d : UInt32) : UInt32 :=
  match t / 16 with
  | 0 => (b &&& c) ||| (~~~b &&& d)
  | 1 => (d &&& b) ||| (~~~d &&& c)
  | 2 => b ^^^ c ^^^ d
  | _ => c ^^^ (b ||| ~~~d)

def wordIndex (t : Nat) : Nat :=
  match t / 16 with
  | 0 => t
  | 1 => 5 * t + 1
  | 2 => 3 * t + 5
  | _ => 7 * t

def start : Vector UInt32 4 := #v[0x67452301, 0xefcdab89, 0x98badcfe, 0x10325476]

def rounds (words : Vector UInt32 16) : List UInt32 → Nat → Vector UInt32 4 → Vector UInt32 4
  | [], _, s => s
  | k :: rest, t, s =>
    let sum := mix t s[1] s[2] s[3] + s[0] + k + ringAt words (wordIndex t)
    rounds words rest (t + 1) #v[s[3], s[1] + rotateLeft sum (shift t), s[1], s[2]]

def compress (s : Vector UInt32 4) (words : Vector UInt32 16) : Vector UInt32 4 :=
  Vector.zipWith (· + ·) s (rounds words constants 0 s)

def digest (message : List UInt8) : Vector UInt8 16 :=
  bytesOfWords .lowFirst
    (foldBlocks compress start (wordsOfBytes .lowFirst (pad .lowFirst 64 8 message)))

end ArtifactLayout.Digest.Md5
