/-! # Bits of units

A unit is a byte of which a field uses the low eight bits or the lowest one. Bits are counted from
the highest used bit of a unit, and runs of bits are packed into bytes the same way.
-/

namespace ArtifactLayout
set_option autoImplicit false

/-- Replaces the items from `start` on by `new`, as far as both reach. -/
def splice {α : Type} (old : List α) (start : Nat) (new : List α) : List α :=
  old.take start ++ (new.take (old.length - start) ++ old.drop (start + new.length))

@[simp] theorem length_splice {α : Type} (old : List α) (start : Nat) (new : List α) :
    (splice old start new).length = old.length := by
  simp only [splice, List.length_append, List.length_take, List.length_drop]
  omega

namespace Bits

/-- The bits of a unit that is `width` bits wide, highest first. -/
def ofUnit (width : Nat) (unit : UInt8) : List Bool :=
  (List.range width).map fun i => unit.toNat.testBit (width - 1 - i)

@[simp] theorem length_ofUnit (width : Nat) (unit : UInt8) : (ofUnit width unit).length = width := by
  simp [ofUnit]

/-- The byte whose bits are given by their places, the highest at place 0. -/
def toByte (bit : Nat → Bool) : UInt8 :=
  UInt8.ofNat ((List.range 8).foldl (fun n i => 2 * n + (bit i).toNat) 0)

/-- Packs bits into bytes, highest bit first; the places after the last bit are zero. -/
def pack (bits : List Bool) : List UInt8 :=
  let table := bits.toArray
  (List.range ((table.size + 7) / 8)).map fun i => toByte fun j => table.getD (8 * i + j) false

@[simp] theorem length_pack (bits : List Bool) : (pack bits).length = (bits.length + 7) / 8 := by
  simp [pack]

def ofUnits (width : Nat) (units : List UInt8) : List Bool := units.flatMap (ofUnit width)

def toUnits (width : Nat) (bits : List Bool) : List UInt8 :=
  if width = 1 then bits.map Bool.toUInt8 else pack bits

end Bits
end ArtifactLayout
