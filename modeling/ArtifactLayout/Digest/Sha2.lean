import ArtifactLayout.Digest.Block

/-! # Rounds of the SHA-2 digests

The digests differ in the width of their words, in the constants and in the functions that mix the
bits of one word; these functions are parameters here.
-/

namespace ArtifactLayout.Digest.Sha2
set_option autoImplicit false

variable {α : Type} [Add α] [AndOp α] [XorOp α] [Complement α]

structure Mixing (α : Type) where
  /-- For the word one round after the replaced one, and for the word two rounds before it. -/
  early : α → α
  late : α → α
  /-- For the first and the fifth word of the state. -/
  first : α → α
  fifth : α → α

/-- The word sixteen rounds after round `t`. -/
def expand (mixing : Mixing α) (ring : Vector α 16) (t : Nat) : α :=
  mixing.late (ringAt ring (t + 14)) + ringAt ring (t + 9) + mixing.early (ringAt ring (t + 1))
    + ringAt ring t

def round (mixing : Mixing α) (s : Vector α 8) (constant word : α) : Vector α 8 :=
  let choice := (s[4] &&& s[5]) ^^^ (~~~s[4] &&& s[6])
  let majority := (s[0] &&& s[1]) ^^^ (s[0] &&& s[2]) ^^^ (s[1] &&& s[2])
  let added := s[7] + mixing.fifth s[4] + choice + constant + word
  let mixed := mixing.first s[0] + majority
  #v[added + mixed, s[0], s[1], s[2], s[3] + added, s[4], s[5], s[6]]

/-- The rounds from `t` on, one for each constant. -/
def rounds (mixing : Mixing α) : List α → Nat → Vector α 16 → Vector α 8 → Vector α 8
  | [], _, _, s => s
  | k :: rest, t, ring, s =>
    rounds mixing rest (t + 1) (setRing ring t (expand mixing ring t))
      (round mixing s k (ringAt ring t))

def compress (mixing : Mixing α) (constants : List α) (s : Vector α 8) (words : Vector α 16) :
    Vector α 8 :=
  Vector.zipWith (· + ·) s (rounds mixing constants 0 words s)

end ArtifactLayout.Digest.Sha2
