import ArtifactLayout.Filler.Basic

/-! # Arenas

The declarations, templates and fillers of one script, which refer to each other by number.
-/

namespace ArtifactLayout
set_option autoImplicit false

abbrev DeclId := Nat

abbrev TemplateId := Nat

/-- What a pass lays out at one place. -/
inductive Decl where
  | block (filler : FillerId) (size : Nat) (name : Option FieldId)
  /-- A block as long as the content of its filler. -/
  | auto (filler : FillerId) (size : Nat) (name : Option FieldId)
  | bitfield (filler : FillerId) (width : Nat) (name : Option FieldId)
  /-- A block whose size is drawn. -/
  | ranged (filler : FillerId) (low high : Nat) (name : Option FieldId)
  | compound (children : List DeclId) (name : Option FieldId)
  | choice (children : List DeclId) (name : Option FieldId)
  | bits (children : List DeclId) (name : Option FieldId)
  | copies (template : TemplateId) (low high : Nat)
  deriving DecidableEq, Repr

namespace Decl

def name : Decl → Option FieldId
  | block _ _ name | auto _ _ name | bitfield _ _ name | ranged _ _ _ name => name
  | compound _ name | choice _ name | bits _ name => name
  | copies _ _ _ => none

/-- Whether nothing about the node itself is left to chance. -/
def hasFixedShape : Decl → Bool
  | ranged _ low high _ | copies _ low high => low == high
  | choice children _ => decide (children.length ≤ 1)
  | _ => true

def isBitfield : Decl → Bool
  | bitfield _ _ _ => true
  | _ => false

end Decl

/-- A run of declarations to be copied. -/
structure Template where
  name : String
  children : List DeclId
  deriving DecidableEq, Repr

structure Arena where
  decls : Array Decl
  templates : Array Template
  fillers : Array Filler
  deriving DecidableEq, Repr

namespace Arena

def empty : Arena := ⟨#[], #[], #[]⟩

def hasFixedShape (arena : Arena) : Bool := arena.decls.all Decl.hasFixedShape

def isBitfield (arena : Arena) (id : DeclId) : Bool := (arena.decls[id]?.map Decl.isBitfield).getD false

end Arena
end ArtifactLayout
