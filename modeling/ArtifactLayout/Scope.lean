import ArtifactLayout.Fault
import ArtifactLayout.Field.Walk
import ArtifactLayout.Names
import ArtifactLayout.Search

/-! # Scope

Where the named fields of one tree are. Copies of a template carry the names of their prototype, so a
name can be bound many times; a reference goes to the binding that shares the longest beginning of
its path with the field that refers, and to the last of those.
-/

namespace ArtifactLayout
set_option autoImplicit false

/-- The place of a named field: its path, and the pre-order numbers that its tree covers. -/
structure Binding where
  path : List Nat
  start : Nat
  stop : Nat
  deriving DecidableEq, Repr

/-- The name and the place of a visited field, if it has a name. -/
def Field.Visit.binding? (v : Field.Visit) : Option (FieldId × Binding) :=
  v.field.id.map fun id => (id, ⟨v.path, v.position, v.position + v.field.nodeCount⟩)

/-- The bindings of one tree, those of each name in pre-order. -/
structure Bindings where
  groups : List (FieldId × Array Binding)
  deriving DecidableEq, Repr

namespace Bindings

def empty : Bindings := ⟨[]⟩

/-- Puts a binding behind those of its name. -/
def addTo : List (FieldId × Array Binding) → FieldId → Binding → List (FieldId × Array Binding)
  | [], id, b => [(id, #[b])]
  | (known, bs) :: rest, id, b =>
    if known = id then (known, bs.push b) :: rest else (known, bs) :: addTo rest id b

def add (bindings : Bindings) (id : FieldId) (b : Binding) : Bindings :=
  ⟨addTo bindings.groups id b⟩

/-- Every named field of a tree. -/
def ofTree (root : Field) : Bindings :=
  (root.visits.filterMap Field.Visit.binding?).foldl (fun bs entry => bs.add entry.1 entry.2) empty

def of (bindings : Bindings) (id : FieldId) : Array Binding :=
  (bindings.groups.lookup id).getD #[]

def count (bindings : Bindings) : Nat :=
  bindings.groups.foldl (fun n group => n + group.2.size) 0

end Bindings

/-! ## The nearest binding -/

/-- The length of the longest common beginning of two paths. -/
def sharedLength : List Nat → List Nat → Nat
  | x :: xs, y :: ys => if x = y then sharedLength xs ys + 1 else 0
  | _, _ => 0

/-- The binding nearest to a path, among bindings in the order of their paths: one next to where
the path itself would stand shares the most of it, and those that share as much form one run. -/
def nearest? (bindings : Array Binding) (origin : List Nat) : Option Binding :=
  let place := bisect (fun b => decide (b.path < origin)) bindings
  let neighbours := (bindings.extract (place - 1) (place + 1)).toList
  match (neighbours.map fun b => sharedLength b.path origin).max? with
  | none => none
  | some longest =>
    let stop := bisect (fun b => decide (¬ origin.take longest < b.path.take longest)) bindings
    if stop = 0 then none else bindings[stop - 1]?

structure Scope where
  names : Names
  bindings : Bindings
  deriving DecidableEq, Repr

namespace Scope

/-- The last binding of a name. -/
def resolve (scope : Scope) (id : FieldId) : Except Fault Binding :=
  match (scope.bindings.of id).back? with
  | some b => .ok b
  | none => .error (.unbound (scope.names.label id))

/-- The binding of a name that is nearest to a path. -/
def resolveFrom (scope : Scope) (id : FieldId) (origin : List Nat) : Except Fault Binding :=
  match nearest? (scope.bindings.of id) origin with
  | some b => .ok b
  | none => .error (.unbound (scope.names.label id))

def fieldAt (scope : Scope) (root : Field) (id : FieldId) (path : List Nat) : Except Fault Field :=
  match root.at? path with
  | some f => .ok f
  | none => .error (.unbound (scope.names.label id))

def find (scope : Scope) (root : Field) (id : FieldId) : Except Fault Field := do
  let b ← scope.resolve id
  scope.fieldAt root id b.path

end Scope
end ArtifactLayout
