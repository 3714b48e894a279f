import ArtifactLayout.Field.Basic

/-! # Numbers in fields

A number is written into units with its low end at the end of the field, or at the start for bytes
written low byte first, and read back modulo 2^64.
-/

namespace ArtifactLayout
set_option autoImplicit false

/-- Which end of a number comes first in a run of bytes. -/
inductive ByteOrder where
  | big
  | little
  deriving DecidableEq, Repr

namespace Field

/-- Byte `k` of a number, counted from the low end. -/
def byteOf (value : UInt64) (k : Nat) : UInt8 := UInt8.ofNat (value.toNat >>> (8 * k))

/-- A number as `size` units that are `width` bits wide; units beyond the number are zero. -/
def numberUnits (order : ByteOrder) (value : UInt64) (width size : Nat) : List UInt8 :=
  if width = 1 then
    (List.range size).map fun i => (value.toNat.testBit (size - 1 - i)).toUInt8
  else
    match order with
    | .big => (List.range size).map fun i => byteOf value (size - 1 - i)
    | .little => (List.range size).map fun i => byteOf value i

@[simp] theorem length_numberUnits (order : ByteOrder) (value : UInt64) (width size : Nat) :
    (numberUnits order value width size).length = size := by
  unfold numberUnits
  split
  · simp
  · cases order <;> simp

def unitsOfNumber (order : ByteOrder) (value : UInt64) (target : Field) : List UInt8 :=
  numberUnits order value target.unitBits target.size

/-- The number that units spell, high end first, modulo 2^64. -/
def spelled (width : Nat) (units : List UInt8) : UInt64 :=
  units.foldl (fun n unit => n <<< UInt64.ofNat width ||| unit.toUInt64) 0

/-- The number a field holds, modulo 2^64. -/
def toNumber (order : ByteOrder) (f : Field) : UInt64 :=
  if f.unitBits = 8 ∧ order = .little then spelled f.unitBits f.units.reverse
  else spelled f.unitBits f.units

end Field
end ArtifactLayout
