import ArtifactLayout.Field.Basic

/-! # Walking a tree

Fields are numbered in pre-order and found by their path, the child indices that lead to them from
the root.
-/

namespace ArtifactLayout.Field
set_option autoImplicit false

mutual

/-- The number of fields in a tree, its root included. -/
def nodeCount : Field → Nat
  | leaf _ _ => 1
  | group _ _ children => 1 + nodeCounts children

def nodeCounts : List Field → Nat
  | [] => 0
  | c :: cs => c.nodeCount + nodeCounts cs

end

def at? : Field → List Nat → Option Field
  | f, [] => some f
  | f, i :: path => f.children[i]?.bind (at? · path)

/-- Changes one child of a run; an index past the end changes nothing. -/
def modifyChild (change : Field → Field) : List Field → Nat → List Field
  | [], _ => []
  | c :: cs, 0 => change c :: cs
  | c :: cs, i + 1 => c :: modifyChild change cs i

theorem modifyChild_eq_modify (change : Field → Field) (cs : List Field) (i : Nat) :
    modifyChild change cs i = cs.modify i change := by
  induction cs generalizing i with
  | nil => simp [modifyChild]
  | cons c cs ih =>
    cases i with
    | zero => rfl
    | succ i => simp [modifyChild, ih]

/-- Changes the field at the end of a path, if there is one. -/
def modifyAt (change : Field → Field) : Field → List Nat → Field
  | f, [] => change f
  | leaf tag content, _ :: _ => leaf tag content
  | group tag grouping children, i :: path =>
    group tag grouping (modifyChild (modifyAt change · path) children i)

/-- A field met on a walk: its path, its number in pre-order and the field itself. -/
structure Visit where
  path : List Nat
  position : Nat
  field : Field

mutual

/-- Every field of a tree in pre-order, the root being at `path` with number `position`. -/
def visitsFrom (path : List Nat) (position : Nat) : Field → List Visit
  | leaf tag content => [⟨path, position, leaf tag content⟩]
  | group tag grouping children =>
    ⟨path, position, group tag grouping children⟩ :: childVisits path 0 (position + 1) children

def childVisits (path : List Nat) (index position : Nat) : List Field → List Visit
  | [] => []
  | c :: cs =>
    visitsFrom (path ++ [index]) position c ++ childVisits path (index + 1) (position + c.nodeCount) cs

end

def visits (root : Field) : List Visit := visitsFrom [] 0 root

end ArtifactLayout.Field
