import ArtifactLayout.Program
import ArtifactLayout.Script.Basic
import ArtifactLayout.Script.Literal

/-! # Building a script

Drives the factory through a script in the order in which it is written: numerals and literals are
evaluated where they stand, a source is built before its field, and children before their container.
-/

namespace ArtifactLayout.Script
set_option autoImplicit false

/-- The count that a numeral stands for. -/
def count (text : List Char) : Attempt Factory Nat :=
  Attempt.check ((readNumeral text).map UInt64.toNat)

def Source.build : Source → Attempt Factory FillerId
  | literal body => do Factory.constant (← Attempt.check (readLiteral body))
  | numeral text => do Factory.number (← Attempt.check (readNumeral text))
  | field name => Factory.numberIn name
  | call function arguments => Factory.call function arguments

def buildSource : Option Source → Attempt Factory (Option FillerId)
  | none => return none
  | some source => return some (← source.build)

mutual

def Item.build : Item → Attempt Factory DeclId
  | .block size name source => do
    let size ← count size
    Factory.block (← buildSource source) size name
  | .ranged low high name source => do
    let low ← count low
    let high ← count high
    Factory.ranged (← buildSource source) low high name
  | .bitfield width name source => do
    let width ← count width
    Factory.bitfield (← buildSource source) width name
  | .auto name source => do Factory.auto (← source.build) name
  | .container .compound name body => do Factory.compound (← buildAll body) name
  | .container .choice name body => do Factory.choice (← buildAll body) name
  | .container .bits name body => do Factory.bits (← buildAll body) name
  | .copies template low none => do
    let low ← count low
    Factory.copies template low low
  | .copies template low (some high) => do
    let low ← count low
    let high ← count high
    Factory.copies template low high

def buildAll : List Item → Attempt Factory (List DeclId)
  | [] => return []
  | item :: rest => do
    let first ← item.build
    return first :: (← buildAll rest)

end

def buildEntries : List Entry → Attempt Factory (List DeclId)
  | [] => return []
  | .template name body :: rest => do
    let _ ← Factory.defineTemplate name (← buildAll body)
    buildEntries rest
  | .item item :: rest => do
    let first ← item.build
    return first :: (← buildEntries rest)

def program (registry : Registry) (script : Script) : Except Fault Program :=
  Attempt.outcome (do Factory.close (← buildEntries script.entries)) (.ofRegistry registry)

def parse (registry : Registry) (text : String) : Except Fault Program :=
  match read? text.toList with
  | none => .error .malformed
  | some script => script.program registry

end ArtifactLayout.Script
