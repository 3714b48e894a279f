import ArtifactLayout.Fault

/-! # Attempts

Steps on a state that may end in a fault.
-/

namespace ArtifactLayout
set_option autoImplicit false

/-- A step on a state that may end in a fault; what it did to the state before stays done. -/
abbrev Attempt (σ : Type) := ExceptT Fault (StateM σ)

namespace Attempt

def step {σ α : Type} (f : σ → α × σ) : Attempt σ α := fun s => ((.ok (f s).1), (f s).2)

/-- Ends in a fault if there is one, and leaves the state alone. -/
def check {σ α : Type} (outcome : Except Fault α) : Attempt σ α := fun s => (outcome, s)

def outcome {σ α : Type} (attempt : Attempt σ α) (s : σ) : Except Fault α := (attempt s).1

end Attempt
end ArtifactLayout
