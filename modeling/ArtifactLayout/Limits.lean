/-! # Limits

How large one layout may grow, and arithmetic on counts that stops at the largest machine word
instead of passing it.
-/

namespace ArtifactLayout
set_option autoImplicit false

/-- Units that one allocation may claim, and the most that a declaration may be given by number. -/
def maxUnits : Nat := 1 <<< 24

/-- Units that each field costs beyond its content, so that trees of empty fields stay small too. -/
def nodeWeight : Nat := 64

/-- The largest count that can be written down: counts are 64-bit words. -/
def maxWord : Nat := UInt64.size - 1

/-- Caps a count at the largest word. -/
def saturate (n : Nat) : Nat := min n maxWord

theorem saturate_of_le {n : Nat} (h : n ≤ maxWord) : saturate n = n := Nat.min_eq_left h

/-- A limit below the largest word is passed by a count iff it is passed by the capped count. -/
theorem saturate_le_iff {n limit : Nat} (h : limit < maxWord) : saturate n ≤ limit ↔ n ≤ limit := by
  unfold saturate
  omega

end ArtifactLayout
