import ArtifactLayout.Bits

/-! # Fields

The tree that one pass lays out. Leaves hold content; a container addresses the content of its
children as one run of units, either unit by unit or, in a bit group, bit by bit. The units of a
field are its content as its container sees it.
-/

namespace ArtifactLayout
set_option autoImplicit false

abbrev FieldId := Nat

abbrev FillerId := Nat

inductive Kind where
  | block
  | bitfield
  | ranged
  | compound
  | bits
  | repeated
  deriving DecidableEq, Repr

namespace Kind

def isContainer : Kind → Bool
  | compound | bits | repeated => true
  | block | bitfield | ranged => false

/-- The name a kind goes by in dumps and messages. -/
def name : Kind → String
  | block => "block"
  | bitfield => "bitfield"
  | ranged => "varblock"
  | compound => "compound"
  | bits => "bits"
  | repeated => "template"

end Kind

inductive Leaf where
  | block (content : Array UInt8)
  /-- Bytes whose number was drawn between two bounds. -/
  | ranged (low high : Nat) (content : Array UInt8)
  | bitfield (content : Array Bool)
  deriving DecidableEq, Repr

namespace Leaf

def kind : Leaf → Kind
  | block _ => .block
  | ranged _ _ _ => .ranged
  | bitfield _ => .bitfield

def size : Leaf → Nat
  | block content => content.size
  | ranged _ _ content => content.size
  | bitfield content => content.size

def unitBits : Leaf → Nat
  | bitfield _ => 1
  | _ => 8

def units : Leaf → List UInt8
  | block content => content.toList
  | ranged _ _ content => content.toList
  | bitfield content => content.toList.map Bool.toUInt8

/-- Writes units from the first one on, as far as they and the leaf reach. -/
def withUnits : Leaf → List UInt8 → Leaf
  | block content, us => block (splice content.toList 0 us).toArray
  | ranged low high content, us => ranged low high (splice content.toList 0 us).toArray
  | bitfield content, us =>
    bitfield (splice content.toList 0 (us.map (·.toNat.testBit 0))).toArray

def unit? : Leaf → Nat → Option UInt8
  | block content, i => content[i]?
  | ranged _ _ content, i => content[i]?
  | bitfield content, i => content[i]?.map Bool.toUInt8

/-- Replaces the unit at an index; an index past the end changes nothing. -/
def setUnit : Leaf → Nat → UInt8 → Leaf
  | block content, i, v => block (content.setIfInBounds i v)
  | ranged low high content, i, v => ranged low high (content.setIfInBounds i v)
  | bitfield content, i, v => bitfield (content.setIfInBounds i (v.toNat.testBit 0))

end Leaf

/-- How a container addresses its children. -/
inductive Grouping where
  | compound
  /-- Bit after bit, eight to a unit. -/
  | bits
  /-- Unit after unit, the children being copies of one prototype. -/
  | repeated
  deriving DecidableEq, Repr

namespace Grouping

def kind : Grouping → Kind
  | compound => .compound
  | bits => .bits
  | repeated => .repeated

end Grouping

/-- What a field carries beside its content: its declared name and the filler that writes it. -/
structure Tag where
  id : Option FieldId
  filler : Option FillerId
  deriving DecidableEq, Repr

def Tag.none : Tag := ⟨Option.none, Option.none⟩

inductive Field where
  | leaf (tag : Tag) (content : Leaf)
  | group (tag : Tag) (grouping : Grouping) (children : List Field)

namespace Field

instance : Inhabited Field := ⟨leaf .none (.block #[])⟩

def tag : Field → Tag
  | leaf tag _ => tag
  | group tag _ _ => tag

def id (f : Field) : Option FieldId := f.tag.id

def filler (f : Field) : Option FillerId := f.tag.filler

def kind : Field → Kind
  | leaf _ content => content.kind
  | group _ grouping _ => grouping.kind

def children : Field → List Field
  | leaf _ _ => []
  | group _ _ children => children

def unitBits : Field → Nat
  | leaf _ content => content.unitBits
  | group _ _ _ => 8

/-! ## Size -/

mutual

def size : Field → Nat
  | leaf _ content => content.size
  | group _ .bits children => (totalBits children + 7) / 8
  | group _ _ children => totalUnits children

def totalUnits : List Field → Nat
  | [] => 0
  | c :: cs => c.size + totalUnits cs

def totalBits : List Field → Nat
  | [] => 0
  | c :: cs => c.size * c.unitBits + totalBits cs

end

/-! ## Content -/

mutual

def units : Field → List UInt8
  | leaf _ content => content.units
  | group _ .bits children => Bits.pack (joinedBits children)
  | group _ _ children => joinedUnits children

def joinedUnits : List Field → List UInt8
  | [] => []
  | c :: cs => c.units ++ joinedUnits cs

def joinedBits : List Field → List Bool
  | [] => []
  | c :: cs => Bits.ofUnits c.unitBits c.units ++ joinedBits cs

end

mutual

/-- Writes units from the first one on, as far as they and the field reach; the rest stays. -/
def withUnits : Field → List UInt8 → Field
  | leaf tag content, us => leaf tag (content.withUnits us)
  | group tag .bits children, us =>
    group tag .bits (withBits children (splice (joinedBits children) 0 (Bits.ofUnits 8 us)))
  | group tag .compound children, us => group tag .compound (withJoined children us)
  | group tag .repeated children, us => group tag .repeated (withJoined children us)

/-- Deals units out to a run of children. -/
def withJoined : List Field → List UInt8 → List Field
  | [], _ => []
  | c :: cs, us => c.withUnits (us.take c.size) :: withJoined cs (us.drop c.size)

/-- Deals as many bits as there are out to a run of children. -/
def withBits : List Field → List Bool → List Field
  | [], _ => []
  | c :: cs, bs =>
    let n := c.size * c.unitBits
    c.withUnits (Bits.toUnits c.unitBits (bs.take n)) :: withBits cs (bs.drop n)

end

/-- The content as bytes: units of eight bits as they are, units of one bit packed. -/
def toBytes (f : Field) : List UInt8 :=
  if f.unitBits = 8 then f.units else Bits.pack (Bits.ofUnits 1 f.units)

end Field
end ArtifactLayout
