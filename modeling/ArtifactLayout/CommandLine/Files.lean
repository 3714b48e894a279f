import ArtifactLayout.CommandLine.Path

/-! # Files

What a run asks of the files around it, why that may be refused, and how a run makes a directory. The
system itself is a parameter.
-/

namespace ArtifactLayout.CommandLine
set_option autoImplicit false

inductive Refusal where
  | noSuchFile
  | permissionDenied
  | fileExists
  | notDirectory
  | isDirectory
  | nameTooLong
  | other (number : Nat) (text : String)
  deriving DecidableEq, Repr

namespace Refusal

/-- The refusal of a number, with what the system says of it. -/
def ofNumber (number : Nat) (text : String) : Refusal :=
  match number with
  | 2 => .noSuchFile
  | 13 => .permissionDenied
  | 17 => .fileExists
  | 20 => .notDirectory
  | 21 => .isDirectory
  | 36 => .nameTooLong
  | number => .other number text

def message : Refusal → String
  | .noSuchFile => "No such file or directory (os error 2)"
  | .permissionDenied => "Permission denied (os error 13)"
  | .fileExists => "File exists (os error 17)"
  | .notDirectory => "Not a directory (os error 20)"
  | .isDirectory => "Is a directory (os error 21)"
  | .nameTooLong => "File name too long (os error 36)"
  | .other number text => s!"{text} (os error {number})"

end Refusal

class Files (m : Type → Type) where
  read : String → m (Except Refusal (List UInt8))
  /-- Makes a directory in one that is there. -/
  makeDirectory : String → m (Except Refusal Unit)
  isDirectory : String → m Bool
  /-- Writes a file, in place of an older one. -/
  write : String → List UInt8 → m (Except Refusal Unit)

namespace Files
variable {m : Type → Type} [Monad m] [Files m]

/-- A directory that could not be made is good enough if it is there. -/
def orPresent (path : String) : Except Refusal Unit → m (Except Refusal Unit)
  | .ok () => return .ok ()
  | .error refusal => return if ← isDirectory path then .ok () else .error refusal

/-- Makes a directory, given the names above its own, the nearest first; directories above it are
made only if one is missing. -/
def makeBelow (rooted : Bool) (path : String) : List (List Char) → m (Except Refusal Unit)
  | [] => do orPresent path (← makeDirectory path)
  | name :: above => do
    match ← makeDirectory path with
    | .error .noSuchFile =>
      match ← makeBelow rooted (Path.join rooted (name :: above).reverse) above with
      | .ok () => orPresent path (← makeDirectory path)
      | .error refusal => return .error refusal
    | outcome => orPresent path outcome

/-- Makes a directory and those above it; there is nothing to make for an empty path. -/
def makeDirectories (path : String) : m (Except Refusal Unit) :=
  if path = "" then return .ok () else makeBelow (Path.isRooted path) path (Path.namesAbove path)

end Files
end ArtifactLayout.CommandLine
