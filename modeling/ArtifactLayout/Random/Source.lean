/-! # Random sources

A pass draws everything it leaves to chance from one source. The class says what can be drawn and
carries the bounds of each draw in its type; how the draws are made is left to the instance.
-/

namespace ArtifactLayout
set_option autoImplicit false

/-- A state from which uniform values can be drawn, each draw giving the state after it. -/
class RandomSource (σ : Type) where
  /-- A number between two bounds, both included. -/
  between (low high : Nat) (h : low ≤ high) : σ → {n : Nat // low ≤ n ∧ n ≤ high} × σ
  /-- A run of bytes of a given length. -/
  bytes (n : Nat) : σ → {bs : List UInt8 // bs.length = n} × σ
  byte : σ → UInt8 × σ
  bit : σ → Bool × σ

end ArtifactLayout
