import ArtifactLayout.CommandLine.Run

/-! # The program

Runs on the files of the system and prints. What is printed and written is decided by
`CommandLine.run`.
-/

namespace ArtifactLayout.CommandLine
set_option autoImplicit false

/-- The refusal behind a failed operation of the system. -/
def refusalOf : IO.Error → Refusal
  | .noFileOrDirectory _ code details => numbered code details
  | .permissionDenied _ code details => numbered code details
  | .inappropriateType _ code details => numbered code details
  | .alreadyExists _ code details => numbered code details
  | .noSuchThing _ code details => numbered code details
  | .invalidArgument _ code details => numbered code details
  | .resourceExhausted _ code details => numbered code details
  | .otherError code details => numbered code details
  | error => .other 0 (toString error)
where
  /-- Some operations give the number negated. -/
  numbered (code : UInt32) (details : String) : Refusal :=
    .ofNumber code.toInt32.toInt.natAbs details.capitalize

/-- An operation of the system, a failure of which is a refusal. -/
def attempt {α : Type} (action : IO α) : IO (Except Refusal α) := do
  try return .ok (← action)
  catch error => return .error (refusalOf error)

instance : Files IO where
  read path := attempt do return (← IO.FS.readBinFile path).toList
  makeDirectory path := attempt (IO.FS.createDir path)
  isDirectory path := (IO.FS.DirEntry.mk path "").root.isDir
  write path content := attempt (IO.FS.writeBinFile path content.toByteArray)

def freshSeed : IO UInt64 := do
  let bytes ← IO.getRandomBytes 8
  return bytes.toList.foldl (fun n b => n <<< 8 ||| b.toUInt64) 0

end ArtifactLayout.CommandLine

open ArtifactLayout.CommandLine in
def main (arguments : List String) : IO UInt32 := do
  let outcome ← run arguments (← IO.getEnv seedVariable) (← freshSeed)
  let out ← IO.getStdout
  for line in outcome.lines do
    out.putStrLn line
  if let some report := outcome.report then
    (← IO.getStderr).putStrLn report
  return outcome.ending.exitCode
