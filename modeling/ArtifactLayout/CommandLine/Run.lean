import ArtifactLayout.CommandLine.Files
import ArtifactLayout.CommandLine.Options
import ArtifactLayout.Corpus.Generator
import ArtifactLayout.Field.Dump
import ArtifactLayout.Script.Build

/-! # Runs

What a run prints, reports and writes, and how it ends.
-/

namespace ArtifactLayout.CommandLine
set_option autoImplicit false

def seedVariable : String := "FUZZDSL_SEED"

inductive Ending where
  | success
  | failure
  /-- The arguments or the seed of the environment make no sense. -/
  | misuse
  /-- More files were asked for than can be listed. -/
  | overflow
  deriving DecidableEq, Repr

def Ending.exitCode : Ending → UInt32
  | .success => 0
  | .failure => 1
  | .misuse => 2
  | .overflow => 101

structure Outcome where
  lines : List String
  report : Option String
  ending : Ending
  deriving DecidableEq, Repr

/-- A text behind a lead, its later lines set in as far as the lead reaches. -/
def behind (lead : List Char) (text : String) : String :=
  String.ofList (lead ++ text.toList.flatMap fun c =>
    if c = '\n' then c :: List.replicate lead.length ' ' else [c])

/-- The causes of a failure under one another, numbered if there are more than one. -/
def causeLines : List String → List String
  | [cause] => [behind (List.replicate 4 ' ') cause]
  | causes => causes.mapIdx fun i cause =>
    behind (List.leftpad 5 ' ' (toString i).toList ++ [':', ' ']) cause

def errorReport (message : String) (causes : List String) : String :=
  if causes.isEmpty then "Error: " ++ message
  else "Error: " ++ message ++ "\n\nCaused by:\n" ++ "\n".intercalate (causeLines causes)

def failed (message : String) (causes : List String) : Outcome where
  lines := []
  report := some (errorReport message causes)
  ending := .failure

/-! ## Printing -/

def treeLines (names : Names) (dump : Bool) (root : Field) : List String :=
  (if dump then [root.dump names] else []) ++ [Text.hexLine root.toBytes]

section Print
variable {σ : Type} [RandomSource σ]

/-- The lines of the trees of some calls, up to the first that fails. -/
def printFrom (dump : Bool) : Nat → Generator σ → (List String × Option Exhausted) × Generator σ
  | 0, g => (([], none), g)
  | n + 1, g =>
    match g.next with
    | (.error e, g) => (([], some e), g)
    | (.ok root, g) =>
      let ((lines, failure), after) := printFrom dump n g
      ((treeLines g.session.program.names dump root ++ lines, failure), after)

def print (invocation : Invocation) (generator : Generator σ) : Outcome × Generator σ :=
  let ((lines, failure), after) := printFrom invocation.dump invocation.settings.count generator
  ({
    lines
    report := failure.map fun e => errorReport e.message []
    ending := if failure.isNone then .success else .failure }, after)

end Print

/-! ## Writing -/

/-- The most files that can be listed: a file takes 24 bytes of a list, which takes up to 2^63 - 1. -/
def maxListed : Nat := (UInt64.size / 2 - 1) / 24

/-- What ends the writing of a corpus before it is complete. -/
inductive Stop where
  | refused (refusal : Refusal)
  | exhausted (e : Exhausted)
  /-- More files were asked for than can be listed. -/
  | overflow
  deriving DecidableEq, Repr

/-- The files of a corpus in the order of writing, and the passes that failed meanwhile. -/
structure Report where
  written : List String
  discarded : Nat
  deriving DecidableEq, Repr

def Report.message (r : Report) (directory : String) (seed : UInt64) : String :=
  s!"wrote {r.written.length} artifacts to {directory} "
    ++ s!"(seed {seed.toNat}, {r.discarded} passes discarded)"

def writeOutcome (invocation : Invocation) (directory : String) : Except Stop Report → Outcome
  | .ok report => {
      lines := []
      report := some (report.message directory invocation.settings.seed)
      ending := .success }
  | .error (.exhausted e) => failed ("writing corpus to " ++ directory) [e.message]
  | .error (.refused refusal) =>
    failed ("writing corpus to " ++ directory) ["IO: " ++ refusal.message, refusal.message]
  | .error .overflow => {
      lines := []
      report := some "too many artifacts to list"
      ending := .overflow }

section System
variable {m : Type → Type} [Monad m] [Files m] {σ : Type} [RandomSource σ]

/-- Where a generator puts its artifacts in a directory. -/
def placeIn (directory : String) (settings : Settings) (index : Nat) : String :=
  Path.inside directory (settings.fileName index)

/-- Makes the directory, then a list of the size that is asked for, then an artifact and its file in
turn. -/
def writeCorpus (directory : String) (g : Generator σ) : m (Except Stop Report × Generator σ) := do
  match ← Files.makeDirectories directory with
  | .error refusal => return (.error (.refused refusal), g)
  | .ok () =>
    if maxListed < g.settings.count then return (.error .overflow, g)
    else
      let (outcome, after) ←
        g.putFrom (placeIn directory g.settings) Files.write 0 g.settings.count
      match outcome with
      | .ok written => return (.ok ⟨written, after.discarded - g.discarded⟩, after)
      | .error (.inl e) => return (.error (.exhausted e), after)
      | .error (.inr refusal) => return (.error (.refused refusal), after)

/-! ## From the arguments on -/

def readScript (path : String) : m (Except String String) := do
  match ← Files.read path with
  | .error refusal => return .error refusal.message
  | .ok content =>
    match String.fromUTF8? content.toByteArray with
    | some text => return .ok text
    | none => return .error "stream did not contain valid UTF-8"

def perform (invocation : Invocation) : m Outcome := do
  match ← readScript invocation.script with
  | .error cause => return failed ("reading " ++ invocation.script) [cause]
  | .ok text =>
    match Script.parse .standard text with
    | .error fault => return failed ("parsing " ++ invocation.script) [fault.message]
    | .ok program =>
      let generator := Generator.start program invocation.settings
      match invocation.settings.outputDir with
      | none => return (print invocation generator).1
      | some directory =>
        let (outcome, _) ← writeCorpus directory generator
        return writeOutcome invocation directory outcome

def run (arguments : List String) (environment : Option String) (fresh : UInt64) : m Outcome :=
  match invocation? arguments environment fresh with
  | some invocation => perform invocation
  | none => return {
      lines := []
      report := some <|
        "usage: SCRIPT [-n COUNT] [-s SEED] [-o DIR] [--little-endian] [--dump] [--max-failures N]"
      ending := .misuse }

end System
end ArtifactLayout.CommandLine
