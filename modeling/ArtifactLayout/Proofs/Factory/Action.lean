import ArtifactLayout.Factory.Call

/-! # Actions

All that can be asked of a factory while it grows: its calls, and the filler of a quantity that was
made elsewhere. A history is what some actions have been and what came of each.
-/

namespace ArtifactLayout.Factory
set_option autoImplicit false

/-- The filler that writes a quantity. -/
def quantity (q : Quantity) : Attempt Factory FillerId := addFiller (.quantity q)

inductive Action where
  | call (c : Call)
  | quantity (q : Quantity)
  deriving DecidableEq, Repr

namespace Action

def perform : Action → Attempt Factory Made
  | call c => c.perform
  | quantity q => return .filler (← Factory.quantity q)

/-- Does some actions in turn, going on after a fault: what came of each. -/
def history : List Action → Factory → List (Action × Except Fault Made)
  | [], _ => []
  | a :: rest, f => (a, (a.perform f).1) :: history rest (a.perform f).2

/-- The factory that some actions in turn lead to. -/
def performAll (actions : List Action) (f : Factory) : Factory :=
  actions.foldl (fun f a => (a.perform f).2) f

end Action
end ArtifactLayout.Factory
