import ArtifactLayout.Fault
import ArtifactLayout.Field.Basic
import ArtifactLayout.Random.Source

/-! # Leaves of a drawn size -/

namespace ArtifactLayout.Leaf
set_option autoImplicit false

def ofSize (low high size : Nat) : Except Fault Leaf :=
  if low ≤ size ∧ size ≤ high then .ok (.ranged low high (Array.replicate size 0))
  else .error (.invalidBounds low high)

/-- Draws a size between two bounds and makes a leaf of it. -/
def drawn {σ : Type} [RandomSource σ] (low high : Nat) (s : σ) : Except Fault Leaf × σ :=
  if h : low ≤ high then
    let (size, s) := RandomSource.between low high h s
    (.ok (.ranged low high (Array.replicate size.val 0)), s)
  else (.error (.invalidBounds low high), s)

end ArtifactLayout.Leaf
