import ArtifactLayout.Fault
import ArtifactLayout.Field.Basic

/-! # Single units

Reading and replacing one unit by descending to the child that holds it, and the checked forms that
name the index and the size of the field they were asked of.
-/

namespace ArtifactLayout.Field
set_option autoImplicit false

mutual

def unit? : Field → Nat → Option UInt8
  | leaf _ content, i => content.unit? i
  | group _ .bits children, i =>
    if 8 * i < totalBits children then
      some (Bits.toByte fun j => (joinedBit? children (8 * i + j)).getD false)
    else none
  | group _ .compound children, i => joinedUnit? children i
  | group _ .repeated children, i => joinedUnit? children i

def joinedUnit? : List Field → Nat → Option UInt8
  | [], _ => none
  | c :: cs, i => if i < c.size then c.unit? i else joinedUnit? cs (i - c.size)

def joinedBit? : List Field → Nat → Option Bool
  | [], _ => none
  | c :: cs, i =>
    if i < c.size * c.unitBits then
      (c.unit? (i / c.unitBits)).map (·.toNat.testBit (c.unitBits - 1 - i % c.unitBits))
    else joinedBit? cs (i - c.size * c.unitBits)

end

mutual

/-- Replaces the unit at an index; an index past the end changes nothing. -/
def setUnit : Field → Nat → UInt8 → Field
  | leaf tag content, i, v => leaf tag (content.setUnit i v)
  | group tag .bits children, i, v =>
    group tag .bits
      (withBits children (splice (joinedBits children) (8 * i) (Bits.ofUnit 8 v)))
  | group tag .compound children, i, v => group tag .compound (setJoined children i v)
  | group tag .repeated children, i, v => group tag .repeated (setJoined children i v)

def setJoined : List Field → Nat → UInt8 → List Field
  | [], _, _ => []
  | c :: cs, i, v =>
    if i < c.size then c.setUnit i v :: cs else c :: setJoined cs (i - c.size) v

end

def get (f : Field) (i : Nat) : Except Fault UInt8 :=
  match f.unit? i with
  | some unit => .ok unit
  | none => .error (.indexOutOfRange i f.size)

def set (f : Field) (i : Nat) (v : UInt8) : Except Fault Field :=
  if i < f.size then .ok (f.setUnit i v) else .error (.indexOutOfRange i f.size)

/-- Writes units from the first one on; more units than the field has are refused. -/
def write (f : Field) (units : List UInt8) : Except Fault Field :=
  if f.size < units.length then .error (.contentTooWide units.length f.size)
  else .ok (f.withUnits units)

end ArtifactLayout.Field
