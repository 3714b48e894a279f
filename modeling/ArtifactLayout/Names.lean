import ArtifactLayout.Field.Basic

/-! # Names

The names of a script, numbered in the order in which they are first met.
-/

namespace ArtifactLayout
set_option autoImplicit false

structure Names where
  /-- Every name at the place of its number. -/
  list : List String
  deriving DecidableEq, Repr

namespace Names

def empty : Names := ⟨[]⟩

def count (names : Names) : Nat := names.list.length

def id? (names : Names) (name : String) : Option FieldId := names.list.idxOf? name

def name? (names : Names) (id : FieldId) : Option String := names.list[id]?

/-- The number of a name, the next free one if the name is new. -/
def register (names : Names) (name : String) : FieldId × Names :=
  match names.id? name with
  | some id => (id, names)
  | none => (names.count, ⟨names.list ++ [name]⟩)

/-- How a number is called in messages: by its name, or by its digits if it has none. -/
def label (names : Names) (id : FieldId) : String :=
  (names.name? id).getD s!"#{id}"

end Names
end ArtifactLayout
