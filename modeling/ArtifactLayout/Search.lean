/-! # Bisection

Where a test stops holding in an array whose first part passes it and whose last part fails it.
-/

namespace ArtifactLayout
set_option autoImplicit false

/-- Halves the interval from `low` to `high` until it is empty; each step makes it smaller. -/
def bisectFrom {α : Type} (test : α → Bool) (items : Array α) : Nat → Nat → Nat → Nat
  | 0, low, _ => low
  | steps + 1, low, high =>
    if low < high then
      let middle := (low + high) / 2
      match items[middle]? with
      | some item =>
        if test item then bisectFrom test items steps (middle + 1) high
        else bisectFrom test items steps low middle
      | none => bisectFrom test items steps low middle
    else low

/-- The number of leading items that pass the test. -/
def bisect {α : Type} (test : α → Bool) (items : Array α) : Nat :=
  bisectFrom test items items.size 0 items.size

end ArtifactLayout
