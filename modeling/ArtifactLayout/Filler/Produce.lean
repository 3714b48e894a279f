import ArtifactLayout.Attempt
import ArtifactLayout.Filler.View
import ArtifactLayout.Random.Source

/-! # Content from fillers

The units that a filler gives for a field. Only the random ones draw from the source.
-/

namespace ArtifactLayout
set_option autoImplicit false

/-- Bytes as units of a field, eight to a byte if they are bits. -/
def asUnits (bytes : List UInt8) (unitBits : Nat) : List UInt8 :=
  if unitBits = 1 then (Bits.ofUnits 8 bytes).map Bool.toUInt8 else bytes

/-- Bytes as units of a field that is wide enough for them. -/
def fitted (bytes : List UInt8) (target : Field) : Except Fault (List UInt8) :=
  let units := asUnits bytes target.unitBits
  if target.size < units.length then .error (.contentTooWide units.length target.size)
  else .ok units

section Random
variable {σ : Type} [RandomSource σ]

def drawUnit (width : Nat) (s : σ) : UInt8 × σ :=
  if width = 1 then
    let (bit, s) := RandomSource.bit s
    (bit.toUInt8, s)
  else RandomSource.byte s

/-- The next `n` random units in reverse, in front of `drawn`. -/
def drawUnitsOnto (width : Nat) (drawn : List UInt8) : Nat → σ → List UInt8 × σ
  | 0, s => (drawn, s)
  | n + 1, s =>
    let (unit, s) := drawUnit width s
    drawUnitsOnto width (unit :: drawn) n s

def drawUnits (width n : Nat) (s : σ) : List UInt8 × σ :=
  let (drawn, s) := drawUnitsOnto width [] n s
  (drawn.reverse, s)

def drawBytes (n : Nat) (s : σ) : List UInt8 × σ :=
  let (bytes, s) := RandomSource.bytes n s
  (bytes.val, s)

/-- The units that a filler gives for a field, from the first one on. -/
def Filler.produce (view : View) (target : Field) : Filler → Attempt σ (List UInt8)
  | constant content => Attempt.check (fitted content target)
  | random => Attempt.step (drawBytes target.size)
  | randomUnits => Attempt.step (drawUnits target.unitBits target.size)
  | digest _ algorithm sources =>
    Attempt.check do fitted (algorithm.digest (← view.contents sources)).toList target
  | quantity q => Attempt.check do return Field.unitsOfNumber view.order (← q.eval view) target

end Random
end ArtifactLayout
