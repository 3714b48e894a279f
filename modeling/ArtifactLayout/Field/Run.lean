import ArtifactLayout.Field.Access
import ArtifactLayout.Search

/-! # Indexed children

A run of children with the place of each in their joined units, and the child that was found last.
Neighbouring units are mostly asked for in turn, so the child found last is tried before the places
are searched.
-/

namespace ArtifactLayout
set_option autoImplicit false

structure Run where
  children : Array Field
  /-- The index of the first unit of each child. -/
  starts : Array Nat
  total : Nat
  /-- The child found last and the index of its first unit. -/
  last : Option (Nat × Nat)

namespace Run

def empty : Run := ⟨#[], #[], 0, none⟩

def push (r : Run) (child : Field) : Run where
  children := r.children.push child
  starts := r.starts.push r.total
  total := r.total + child.size
  last := r.last

def ofList (children : List Field) : Run := children.foldl push empty

/-- Finds the child that holds a unit, and the index of the unit in it, from the places alone. -/
def search (r : Run) (i : Nat) : Except Fault (Nat × Nat) :=
  if i < r.total then
    let child := bisect (fun start => decide (start ≤ i)) r.starts - 1
    .ok (child, i - r.starts.getD child 0)
  else .error (.indexOutOfRange i r.total)

/-- The index of a unit in the child found last, if that child holds it. -/
def again? (r : Run) (i : Nat) : Option (Nat × Nat) :=
  match r.last with
  | none => none
  | some (child, start) =>
    match r.children[child]? with
    | none => none
    | some f => if start ≤ i ∧ i < start + f.size then some (child, i - start) else none

/-- Finds the child that holds a unit, and the index of the unit in it. -/
def locate (r : Run) (i : Nat) : Except Fault (Nat × Nat) × Run :=
  match r.again? i with
  | some found => (.ok found, r)
  | none =>
    match r.search i with
    | .ok (child, inner) => (.ok (child, inner), { r with last := some (child, r.starts.getD child 0) })
    | .error fault => (.error fault, r)

def get (r : Run) (i : Nat) : Except Fault UInt8 × Run :=
  match r.locate i with
  | (.ok (child, inner), r) =>
    match r.children[child]? with
    | some f => (f.get inner, r)
    | none => (.error (.indexOutOfRange i r.total), r)
  | (.error fault, r) => (.error fault, r)

def setIn (r : Run) (child inner : Nat) (v : UInt8) : Option (Except Fault Run) :=
  r.children[child]?.map fun f =>
    (f.set inner v).map fun f => { r with children := r.children.setIfInBounds child f }

def set (r : Run) (i : Nat) (v : UInt8) : Except Fault Unit × Run :=
  match r.locate i with
  | (.ok (child, inner), r) =>
    match r.setIn child inner v with
    | some (.ok r) => (.ok (), r)
    | some (.error fault) => (.error fault, r)
    | none => (.error (.indexOutOfRange i r.total), r)
  | (.error fault, r) => (.error fault, r)

def toField (r : Run) (grouping : Grouping) : Field :=
  .group Tag.none grouping r.children.toList

end Run
end ArtifactLayout
