import ArtifactLayout.Filler.Basic
import ArtifactLayout.Text.Quoted

/-! # Registry

The functions that a script may call. A filler function takes any fields, a value function exactly
one; a name that stands for both is called as a filler.
-/

namespace ArtifactLayout
set_option autoImplicit false

/-- A filler that waits for the fields it takes its content from. -/
inductive FillerFunction where
  | digest (algorithm : Digest.Algorithm)
  | constant (content : List UInt8)
  | random
  | randomUnits
  deriving DecidableEq, Repr

def FillerFunction.apply (name : String) (sources : List FieldId) : FillerFunction → Filler
  | digest algorithm => .digest name algorithm sources
  | constant content => .constant content
  | random => .random
  | randomUnits => .randomUnits

/-- A quantity that waits for the field it is taken from. -/
inductive ValueFunction where
  | constant (value : UInt64)
  | size
  | count
  | checksum
  | number
  deriving DecidableEq, Repr

def ValueFunction.apply (source : FieldId) : ValueFunction → Quantity
  | constant value => .constant value
  | size => .sizeOf source
  | count => .countOf source
  | checksum => .checksumOf source
  | number => .numberIn source

structure Registry where
  fillers : List (String × FillerFunction)
  values : List (String × ValueFunction)
  deriving DecidableEq, Repr

namespace Registry

def empty : Registry := ⟨[], []⟩

/-- The functions that every script may call. -/
def standard : Registry where
  fillers := [
    ("random", .random),
    ("bitrandom", .randomUnits),
    ("md5", .digest .md5),
    ("sha1", .digest .sha1),
    ("sha224", .digest .sha224),
    ("sha256", .digest .sha256),
    ("sha384", .digest .sha384),
    ("sha512", .digest .sha512)]
  values := [("size", .size), ("count", .count), ("crc32", .checksum)]

/-- Puts an entry in the place of any other of its name. -/
def replaceEntry {α : Type} (name : String) (entry : α) (entries : List (String × α)) :
    List (String × α) :=
  (name, entry) :: entries.filter fun other => other.1 ≠ name

def addFiller (r : Registry) (name : String) (function : FillerFunction) : Registry :=
  { r with fillers := replaceEntry name function r.fillers }

def addValue (r : Registry) (name : String) (function : ValueFunction) : Registry :=
  { r with values := replaceEntry name function r.values }

def filler? (r : Registry) (name : String) : Option FillerFunction := r.fillers.lookup name

def value? (r : Registry) (name : String) : Option ValueFunction := r.values.lookup name

/-! ## Descriptions -/

def bracketed (items : List String) : String := "[" ++ ", ".intercalate items ++ "]"

def namesText {α : Type} (entries : List (String × α)) : String :=
  bracketed (((entries.map Prod.fst).mergeSort fun a b => decide (a ≤ b)).map Text.quoted)

def describe (r : Registry) : String :=
  "FunctionRegistry \x7b fillers: " ++ namesText r.fillers ++ ", values: " ++ namesText r.values
    ++ " \x7d"

end Registry

def sourceText (source : FieldId) : String := s!"FieldId({source})"

namespace Quantity

def describe : Quantity → String
  | constant value => s!"ConstValue({value.toNat})"
  | sizeOf source => s!"SizeOf({sourceText source})"
  | countOf source => s!"CountOf({sourceText source})"
  | checksumOf source => s!"ChecksumOf({sourceText source})"
  | numberIn source => s!"NodeValue({sourceText source})"

end Quantity

namespace Filler

def describe : Filler → String
  | constant content =>
    "ConstFiller \x7b bytes: " ++ Registry.bracketed (content.map fun b => toString b.toNat)
      ++ " \x7d"
  | random => "RandomFiller"
  | randomUnits => "BitRandomFiller"
  | digest name _ sources =>
    "DigestFiller \x7b name: " ++ Text.quoted name ++ ", sources: "
      ++ Registry.bracketed (sources.map sourceText) ++ " \x7d"
  | quantity q => "ValueFiller \x7b op: " ++ q.describe ++ " \x7d"

end Filler
end ArtifactLayout
