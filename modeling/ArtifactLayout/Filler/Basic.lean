import ArtifactLayout.Digest.Algorithm
import ArtifactLayout.Field.Number

/-! # Fillers

What writes a field: fixed content, random content, a digest of other fields, or a number.
-/

namespace ArtifactLayout
set_option autoImplicit false

/-- A number, given or taken from another field. -/
inductive Quantity where
  | constant (value : UInt64)
  | sizeOf (source : FieldId)
  | countOf (source : FieldId)
  /-- The CRC-32 of the content of a field. -/
  | checksumOf (source : FieldId)
  | numberIn (source : FieldId)
  deriving DecidableEq, Repr

namespace Quantity

/-- The bytes that the number takes, if that is known beforehand. -/
def width? : Quantity → Option Nat
  | checksumOf _ => some 4
  | _ => none

def sources : Quantity → List FieldId
  | constant _ => []
  | sizeOf source | countOf source | checksumOf source | numberIn source => [source]

end Quantity

inductive Filler where
  | constant (content : List UInt8)
  | random
  /-- Random values of the width of a unit. -/
  | randomUnits
  /-- A digest, under the name it is called by, of the content of some fields in turn. -/
  | digest (name : String) (algorithm : Digest.Algorithm) (sources : List FieldId)
  | quantity (q : Quantity)
  deriving DecidableEq, Repr

namespace Filler

/-- The length of the content in bytes, if it does not depend on the field that is filled. -/
def length? : Filler → Option Nat
  | constant content => some content.length
  | digest _ algorithm _ => some algorithm.size
  | quantity q => q.width?
  | random | randomUnits => none

def sources : Filler → List FieldId
  | digest _ _ sources => sources
  | quantity q => q.sources
  | constant _ | random | randomUnits => []

end Filler
end ArtifactLayout
