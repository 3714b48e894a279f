import ArtifactLayout.Factory.Basic

/-! # Calls

The operations of the factory as data, so that a history of them is a list.
-/

namespace ArtifactLayout.Factory
set_option autoImplicit false

inductive Call where
  | defaultFiller
  | defaultBitFiller
  | constant (content : List UInt8)
  | number (value : UInt64)
  | numberIn (name : String)
  | call (function : String) (arguments : List String)
  | block (filler : Option FillerId) (size : Nat) (name : Option String)
  | auto (filler : FillerId) (name : Option String)
  | bitfield (filler : Option FillerId) (width : Nat) (name : Option String)
  | ranged (filler : Option FillerId) (low high : Nat) (name : Option String)
  | compound (children : List DeclId) (name : Option String)
  | choice (children : List DeclId) (name : Option String)
  | bits (children : List DeclId) (name : Option String)
  | defineTemplate (name : String) (children : List DeclId)
  | copies (name : String) (low high : Nat)
  deriving DecidableEq, Repr

inductive Made where
  | filler (id : FillerId)
  | decl (id : DeclId)
  | template (id : TemplateId)
  deriving DecidableEq, Repr

namespace Call

/-- The declarations that a call refers to. -/
def decls : Call → List DeclId
  | compound children _ | choice children _ | bits children _ | defineTemplate _ children => children
  | _ => []

/-- The filler that a call refers to. -/
def filler? : Call → Option FillerId
  | block filler _ _ | bitfield filler _ _ | ranged filler _ _ _ => filler
  | auto filler _ => some filler
  | _ => none

def perform : Call → Attempt Factory Made
  | defaultFiller => return .filler (← Factory.defaultFiller)
  | defaultBitFiller => return .filler (← Factory.defaultBitFiller)
  | constant content => return .filler (← Factory.constant content)
  | number value => return .filler (← Factory.number value)
  | numberIn name => return .filler (← Factory.numberIn name)
  | call function arguments => return .filler (← Factory.call function arguments)
  | block filler size name => return .decl (← Factory.block filler size name)
  | auto filler name => return .decl (← Factory.auto filler name)
  | bitfield filler width name => return .decl (← Factory.bitfield filler width name)
  | ranged filler low high name => return .decl (← Factory.ranged filler low high name)
  | compound children name => return .decl (← Factory.compound children name)
  | choice children name => return .decl (← Factory.choice children name)
  | bits children name => return .decl (← Factory.bits children name)
  | defineTemplate name children => return .template (← Factory.defineTemplate name children)
  | copies name low high => return .decl (← Factory.copies name low high)

/-- Does what some calls say in turn, going on after a fault. -/
def performAll : List Call → Factory → List (Except Fault Made) × Factory
  | [], f => ([], f)
  | c :: rest, f =>
    let (outcome, f) := c.perform f
    let (outcomes, f) := performAll rest f
    (outcome :: outcomes, f)

end Call
end ArtifactLayout.Factory
