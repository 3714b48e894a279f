/-! # Segments

A list cut into the longest runs of neighbours that pass a test and the single items between them.
-/

namespace ArtifactLayout
set_option autoImplicit false

inductive Segment (α : Type) where
  | single (item : α)
  | run (items : List α)
  deriving DecidableEq, Repr

namespace Segment

/-- Puts an item that passes the test in front of some segments. -/
def joinRun {α : Type} (item : α) : List (Segment α) → List (Segment α)
  | run items :: rest => run (item :: items) :: rest
  | rest => run [item] :: rest

/-- Cuts a list into its longest runs of items that pass the test and the items between them. -/
def ofList {α : Type} (test : α → Bool) : List α → List (Segment α)
  | [] => []
  | x :: xs => if test x then joinRun x (ofList test xs) else single x :: ofList test xs

def items {α : Type} : Segment α → List α
  | single item => [item]
  | run items => items

end Segment
end ArtifactLayout
