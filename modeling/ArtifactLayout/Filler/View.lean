import ArtifactLayout.Checksum
import ArtifactLayout.Filler.Basic
import ArtifactLayout.Scope

/-! # What a filler sees

A filler sees the tree as it is when its turn comes. It may ask for the shape of any field, but for
the content of those alone that were filled before.
-/

namespace ArtifactLayout
set_option autoImplicit false

/-- The paths of a list as they appear in messages. -/
def pathText (path : List Nat) : String :=
  "[" ++ ", ".intercalate (path.map toString) ++ "]"

/-- How a field without a name is called in messages. -/
def placeText (path : List Nat) : String := "<field at " ++ pathText path ++ ">"

/-- A tree and the field in it that is being filled. -/
structure View where
  root : Field
  scope : Scope
  /-- The path of the field being filled. -/
  origin : List Nat
  position : Nat
  order : ByteOrder

namespace View

def targetLabel (view : View) : String :=
  match (view.root.at? view.origin).bind Field.id with
  | some id => view.scope.names.label id
  | none => placeText view.origin

/-- The nearest field of a name. -/
def field (view : View) (id : FieldId) : Except Fault Field := do
  let b ← view.scope.resolveFrom id view.origin
  view.scope.fieldAt view.root id b.path

/-- The nearest field of a name, if its whole tree comes before the field being filled. -/
def filled (view : View) (id : FieldId) : Except Fault Field := do
  let b ← view.scope.resolveFrom id view.origin
  if view.position < b.stop then
    throw (.readBeforeFilled (view.scope.names.label id) view.targetLabel)
  view.scope.fieldAt view.root id b.path

def content (view : View) (id : FieldId) : Except Fault (List UInt8) := do
  return (← view.filled id).toBytes

def contents (view : View) : List FieldId → Except Fault (List UInt8)
  | [] => pure []
  | id :: ids => do
    let first ← view.content id
    return first ++ (← view.contents ids)

end View

def Quantity.eval (view : View) : Quantity → Except Fault UInt64
  | constant value => pure value
  | sizeOf source => do return UInt64.ofNat (← view.field source).size
  | countOf source => do
    let f ← view.field source
    if f.kind.isContainer then return UInt64.ofNat f.children.length
    else throw (.notContainer (view.scope.names.label source) f.kind.name)
  | checksumOf source => do return (Checksum.crc32 (← view.content source)).toUInt64
  | numberIn source => do return (← view.filled source).toNumber view.order

end ArtifactLayout
