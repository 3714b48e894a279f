import ArtifactLayout.Ring

/-! # Padding and blocks

A digest closes its message with a one bit, zeros and the length, cuts the result into words and the
words into blocks of sixteen.
-/

namespace ArtifactLayout.Digest
set_option autoImplicit false

inductive WordOrder where
  | highFirst
  | lowFirst
  deriving DecidableEq, Repr

/-- The low `n` bytes of a number, low byte first. -/
def bytesLowFirst : Nat → Nat → List UInt8
  | 0, _ => []
  | n + 1, value => UInt8.ofNat value :: bytesLowFirst n (value / 256)

def WordOrder.bytes (order : WordOrder) (n value : Nat) : List UInt8 :=
  match order with
  | .highFirst => (bytesLowFirst n value).reverse
  | .lowFirst => bytesLowFirst n value

/-- The zeros that bring a message, its one bit and its length to a whole number of blocks. -/
def zerosFor (blockSize lengthSize messageSize : Nat) : Nat :=
  (blockSize - (messageSize + 1 + lengthSize) % blockSize) % blockSize

/-- A message with its one bit, its zeros and its length in bits. -/
def pad (order : WordOrder) (blockSize lengthSize : Nat) (message : List UInt8) : List UInt8 :=
  message ++ 0x80 :: List.replicate (zerosFor blockSize lengthSize message.length) 0
    ++ order.bytes lengthSize (8 * message.length)

/-- Folds a step over the words of a message, sixteen at a time; a shorter rest is left out. -/
def foldBlocks {α β : Type} (step : β → Vector α 16 → β) (state : β) : List α → β
  | a :: b :: c :: d :: e :: f :: g :: h :: i :: j :: k :: l :: m :: n :: o :: p :: rest =>
    foldBlocks step (step state #v[a, b, c, d, e, f, g, h, i, j, k, l, m, n, o, p]) rest
  | _ => state

end ArtifactLayout.Digest
