import ArtifactLayout.Random.Source
import ArtifactLayout.Ring

/-! # The ChaCha8 stream

A keystream of 32-bit words from eight rounds of ChaCha with a 64-bit block counter, the key being
expanded from a 64-bit seed by a permuted congruential generator. A range draw multiplies a 64-bit
word by the width of the range and refuses the products that would favour some results; the lowest
result stands in after `maxRefusals` refusals in a row, so that drawing is total.
-/

namespace ArtifactLayout
set_option autoImplicit false

structure ChaCha8 where
  key : Vector UInt32 8
  nextBlock : UInt64
  /-- Words of the current block that have not been drawn. -/
  pending : List UInt32
  deriving DecidableEq, Repr

namespace ChaCha8

/-! ## Expanding a seed -/

def rotateLeft (x : UInt32) (n : UInt32) : UInt32 := (x <<< n) ||| (x >>> (32 - n))

def rotateRight (x : UInt32) (n : UInt32) : UInt32 := (x >>> n) ||| (x <<< (32 - n))

/-- One step of the linear congruential generator that expands a seed. -/
def seedStep (s : UInt64) : UInt64 := s * 6364136223846793005 + 11634580027462260723

def seedWord (s : UInt64) : UInt32 :=
  rotateRight (((s >>> 18) ^^^ s) >>> 27).toUInt32 (s >>> 59).toUInt32

/-- The start of the stream that a seed stands for. -/
def ofSeed (seed : UInt64) : ChaCha8 where
  key := Vector.ofFn fun i => seedWord (Nat.repeat seedStep (i.val + 1) seed)
  nextBlock := 0
  pending := []

/-! ## Blocks -/

/-- The four additions, exclusive ors and rotations on words `a`, `b`, `c` and `d`. -/
def quarterRound (s : Vector UInt32 16) (a b c d : Nat) : Vector UInt32 16 :=
  let s := setRing s a (ringAt s a + ringAt s b)
  let s := setRing s d (rotateLeft (ringAt s d ^^^ ringAt s a) 16)
  let s := setRing s c (ringAt s c + ringAt s d)
  let s := setRing s b (rotateLeft (ringAt s b ^^^ ringAt s c) 12)
  let s := setRing s a (ringAt s a + ringAt s b)
  let s := setRing s d (rotateLeft (ringAt s d ^^^ ringAt s a) 8)
  let s := setRing s c (ringAt s c + ringAt s d)
  setRing s b (rotateLeft (ringAt s b ^^^ ringAt s c) 7)

/-- A round on the columns and a round on the diagonals. -/
def doubleRound (s : Vector UInt32 16) : Vector UInt32 16 :=
  let s := quarterRound s 0 4 8 12
  let s := quarterRound s 1 5 9 13
  let s := quarterRound s 2 6 10 14
  let s := quarterRound s 3 7 11 15
  let s := quarterRound s 0 5 10 15
  let s := quarterRound s 1 6 11 12
  let s := quarterRound s 2 7 8 13
  quarterRound s 3 4 9 14

/-- The words that every block starts with. -/
def constants : Vector UInt32 4 := #v[0x61707865, 0x3320646e, 0x79622d32, 0x6b206574]

/-- The words a block starts from: four constants, the key, the counter and a zero stream number. -/
def initial (key : Vector UInt32 8) (counter : UInt64) : Vector UInt32 16 :=
  let place : Vector UInt32 4 := #v[counter.toUInt32, (counter >>> 32).toUInt32, 0, 0]
  constants ++ key ++ place

def block (key : Vector UInt32 8) (counter : UInt64) : Vector UInt32 16 :=
  let start := initial key counter
  Vector.zipWith (· + ·) (Nat.repeat doubleRound 4 start) start

/-! ## Drawing -/

def nextWord (r : ChaCha8) : UInt32 × ChaCha8 :=
  match r.pending with
  | word :: rest => (word, { r with pending := rest })
  | [] =>
    let words := block r.key r.nextBlock
    (words[0], { r with nextBlock := r.nextBlock + 1, pending := words.toList.tail })

/-- Two words, the low half first. -/
def nextDoubleWord (r : ChaCha8) : UInt64 × ChaCha8 :=
  let (low, r) := r.nextWord
  let (high, r) := r.nextWord
  (high.toUInt64 <<< 32 ||| low.toUInt64, r)

/-- Refusals in a row after which a range draw settles for the lowest result. -/
def maxRefusals : Nat := 256

/-- The largest low half of a product that a range draw of this width accepts. -/
def acceptedBelow (width : Nat) : Nat := width <<< (63 - width.log2) - 1

/-- A number below `width`, or zero once the tries are used up. -/
def offset (width : Nat) : Nat → ChaCha8 → Nat × ChaCha8
  | 0, r => (0, r)
  | tries + 1, r =>
    let (v, r) := r.nextDoubleWord
    let product := v.toNat * width
    if product % UInt64.size ≤ acceptedBelow width then (product / UInt64.size, r)
    else offset width tries r

theorem offset_lt {width : Nat} (hw : 0 < width) (tries : Nat) (r : ChaCha8) :
    (offset width tries r).1 < width := by
  induction tries generalizing r with
  | zero => exact hw
  | succ tries ih =>
    simp only [offset]
    split
    · refine Nat.div_lt_of_lt_mul ?_
      exact Nat.mul_lt_mul_of_pos_right (UInt64.toNat_lt_size _) hw
    · exact ih _

/-- Puts the bytes of a word, low byte first, one after the other in front of a run. -/
def pushWord (w : UInt32) (drawn : List UInt8) : List UInt8 :=
  (w >>> 24).toUInt8 :: (w >>> 16).toUInt8 :: (w >>> 8).toUInt8 :: w.toUInt8 :: drawn

/-- The bytes of the next `n` words in reverse, in front of `drawn`. -/
def drawOnto (drawn : List UInt8) : Nat → ChaCha8 → List UInt8 × ChaCha8
  | 0, r => (drawn, r)
  | n + 1, r =>
    let (word, r) := r.nextWord
    drawOnto (pushWord word drawn) n r

theorem length_drawOnto (drawn : List UInt8) (n : Nat) (r : ChaCha8) :
    (drawOnto drawn n r).1.length = 4 * n + drawn.length := by
  induction n generalizing drawn r with
  | zero => simp [drawOnto]
  | succ n ih =>
    rw [drawOnto, ih]
    simp only [pushWord, List.length_cons]
    omega

def wordsFor (n : Nat) : Nat := (n + 3) / 4

instance : RandomSource ChaCha8 where
  between low high h r :=
    let drawn := offset (high - low + 1) maxRefusals r
    (⟨low + drawn.1, by
      have : drawn.1 < high - low + 1 := offset_lt (Nat.succ_pos _) maxRefusals r
      omega⟩, drawn.2)
  bytes n r :=
    let drawn := drawOnto [] (wordsFor n) r
    (⟨(drawn.1.drop (4 * wordsFor n - n)).reverse, by
      have : drawn.1.length = 4 * wordsFor n := length_drawOnto [] _ r
      rw [List.length_reverse, List.length_drop, this]
      unfold wordsFor
      omega⟩, drawn.2)
  byte r :=
    let (word, r) := r.nextWord
    (word.toUInt8, r)
  bit r :=
    let (word, r) := r.nextWord
    (word >>> 31 == 1, r)

end ChaCha8
end ArtifactLayout
