/-! # Paths

A path is a run of names between slashes. Where it leads is for the system to say; here it is only
taken apart and put together.
-/

namespace ArtifactLayout.CommandLine.Path
set_option autoImplicit false

/-- The pieces between slashes, empty ones included. -/
def pieces : List Char → List (List Char)
  | [] => [[]]
  | '/' :: rest => [] :: pieces rest
  | c :: rest =>
    match pieces rest with
    | [] => [[c]]
    | piece :: others => (c :: piece) :: others

/-- The pieces that lead somewhere: an empty piece and a single dot stay in place. -/
def names (path : List Char) : List (List Char) :=
  (pieces path).filter fun piece => piece ≠ [] ∧ piece ≠ ['.']

def join (rooted : Bool) (names : List (List Char)) : String :=
  let path := ['/'].intercalate names
  String.ofList (if rooted then '/' :: path else path)

def isRooted (path : String) : Bool := path.toList.head? = some '/'

def namesAbove (path : String) : List (List Char) := (names path.toList).reverse.tail

/-- A path within a directory. A path from the root is where it is, whatever the directory; an empty
directory adds nothing, not even a slash. -/
def inside (directory name : String) : String :=
  if isRooted name then name
  else if directory = "" ∨ directory.toList.getLast? = some '/' then directory ++ name
  else directory ++ "/" ++ name

end ArtifactLayout.CommandLine.Path
