import ArtifactLayout.Names
import ArtifactLayout.Text.Hex

/-! # Dumps

A tree as text: one line for each field in pre-order, indented by depth. A leaf shows its content, a
bitfield bit by bit and any other leaf byte by byte; a container shows how many children follow.
-/

namespace ArtifactLayout.Field
set_option autoImplicit false

def decimal (n : Nat) : List Char := Nat.toDigits 10 n

def shownName (names : Names) (tag : Tag) : List Char :=
  match tag.id with
  | some id => (names.label id).toList
  | none => ['_']

def shownContent : Leaf → List Char
  | .bitfield content => content.toList.map fun bit => if bit then '1' else '0'
  | .block content => (Text.hexLine content.toList).toList
  | .ranged _ _ content => (Text.hexLine content.toList).toList

/-- What a line starts with: the indentation, the kind and the name. -/
def lineStart (names : Names) (depth : Nat) (kind : Kind) (tag : Tag) : List Char :=
  List.replicate (2 * depth) ' ' ++ kind.name.toList ++ ' ' :: shownName names tag

def leafLine (names : Names) (depth : Nat) (tag : Tag) (content : Leaf) : List Char :=
  lineStart names depth content.kind tag ++ " [".toList ++ decimal content.size ++ "] = ".toList
    ++ shownContent content

def groupLine (names : Names) (depth : Nat) (tag : Tag) (grouping : Grouping)
    (size children : Nat) : List Char :=
  lineStart names depth grouping.kind tag ++ " (".toList ++ decimal size ++ " units, ".toList
    ++ decimal children ++ " children)".toList

mutual

def dumpLines (names : Names) (depth : Nat) : Field → List (List Char)
  | leaf tag content => [leafLine names depth tag content]
  | group tag grouping children =>
    groupLine names depth tag grouping (size (group tag grouping children)) children.length
      :: childLines names (depth + 1) children

def childLines (names : Names) (depth : Nat) : List Field → List (List Char)
  | [] => []
  | c :: cs => dumpLines names depth c ++ childLines names depth cs

end

/-- The lines of a tree, a line feed between neighbours. -/
def dump (names : Names) (root : Field) : String :=
  String.ofList (['\n'].intercalate (dumpLines names 0 root))

end ArtifactLayout.Field
