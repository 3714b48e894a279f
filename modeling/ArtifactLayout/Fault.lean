import ArtifactLayout.Limits

/-! # Faults

Everything that can go wrong while a layout is read, allocated or filled, one constructor for each
cause, and the text that reports it.
-/

namespace ArtifactLayout
set_option autoImplicit false

/-- Why a script was refused or a pass failed. -/
inductive Fault where
  | malformed
  /-- A numeral of 2^64 or more. -/
  | numberOutOfRange (numeral : String)
  | danglingEscape
  /-- A hexadecimal escape with fewer than two bytes after it. -/
  | shortHexEscape
  /-- A hexadecimal escape whose two bytes are not text. -/
  | undecodableHexEscape
  /-- A hexadecimal escape whose two bytes are text but no number. -/
  | badHexEscape (digits : String)
  | unknownEscape (byte : UInt8)
  /-- A field sized by a filler whose length is not fixed. -/
  | unsizedAuto (name : Option String)
  /-- A declared choice with nothing to choose from. -/
  | emptyChoice (name : Option String)
  | noAlternatives
  | templateRedefined (name : String)
  | argumentCount (function : String) (given : Nat)
  | noFields
  | unknownFunction (name : String)
  | unknownTemplate (name : String)
  /-- A name that is read somewhere and declared nowhere. -/
  | undeclaredField (name : String)
  | contentTooWide (length size : Nat)
  | indexOutOfRange (index size : Nat)
  | notContainer (label kind : String)
  /-- A field that this pass did not lay out. -/
  | unbound (label : String)
  | readBeforeFilled (source target : String)
  | invalidBounds (low high : Nat)
  | tooLarge (units : Nat)
  | missingDecl (index : Nat)
  | missingTemplate (index : Nat)
  | missingFiller (index : Nat)
  deriving DecidableEq, Repr

namespace Fault

def nameOrAnonymous (name : Option String) : String := name.getD "<anonymous>"

def message : Fault → String
  | malformed => "parse error: syntax"
  | numberOutOfRange numeral => s!"parse error: number out of range: {numeral}"
  | danglingEscape => "parse error: dangling escape"
  | shortHexEscape => "parse error: \\x needs two hex digits"
  | undecodableHexEscape => "parse error: invalid \\x escape"
  | badHexEscape digits => "parse error: invalid \\x escape: " ++ digits
  | unknownEscape byte => "parse error: unknown escape \\" ++ (Char.ofNat byte.toNat).toString
  | unsizedAuto name =>
    s!"parse error: auto field {nameOrAnonymous name} needs a filler with a fixed length"
  | emptyChoice name => s!"parse error: choice {nameOrAnonymous name} has no alternatives"
  | noAlternatives => "parse error: choice without alternatives"
  | templateRedefined name => s!"parse error: template {name} defined twice"
  | argumentCount function given =>
    s!"parse error: {function}() takes exactly one field, got {given}"
  | noFields => "parse error: script declares no fields"
  | unknownFunction name => s!"unregistered name: function `{name}`"
  | unknownTemplate name => s!"unregistered name: template `{name}`"
  | undeclaredField name => s!"unregistered name: field `{name}`"
  | contentTooWide length size =>
    s!"content of {length} units does not fit a field of {size} units"
  | indexOutOfRange index size => s!"index {index} out of range for a field of {size} units"
  | notContainer label kind => s!"type mismatch: `count` needs a container, `{label}` is a {kind}"
  | unbound label => s!"field `{label}` has no live binding in this pass"
  | readBeforeFilled source target =>
    s!"field `{source}` is read by `{target}` before it has been filled"
  | invalidBounds low high => s!"invalid bounds [{low}, {high}]"
  | tooLarge units => s!"{units} units exceed the limit of {maxUnits}"
  | missingDecl index => s!"declaration {index} does not exist"
  | missingTemplate index => s!"template {index} does not exist"
  | missingFiller index => s!"filler {index} does not exist"

end Fault
end ArtifactLayout
