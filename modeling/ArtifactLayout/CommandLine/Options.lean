import ArtifactLayout.Corpus.Settings

/-! # Options

What can be asked for on the command line: one script, options with a value and flags. Nothing may
be given twice, and a value that stands alone does not start with a hyphen.
-/

namespace ArtifactLayout.CommandLine
set_option autoImplicit false

structure Options where
  script : Option String
  count : Option Nat
  seed : Option UInt64
  output : Option String
  maxFailures : Option Nat
  littleEndian : Bool
  dump : Bool
  deriving DecidableEq, Repr

namespace Options

def empty : Options where
  script := none
  count := none
  seed := none
  output := none
  maxFailures := none
  littleEndian := false
  dump := false

end Options

inductive Setting where
  | count
  | seed
  | output
  | maxFailures
  deriving DecidableEq, Repr

inductive Flag where
  | littleEndian
  | dump
  deriving DecidableEq, Repr

/-! ## Values -/

/-- The number below 2^64 that digits spell, a plus sign in front of them being allowed. -/
def readWord? (text : List Char) : Option Nat :=
  let digits := match text with
    | '+' :: digits => digits
    | digits => digits
  if digits ≠ [] ∧ digits.all Char.isDigit then
    let value := digits.foldl (fun n c => 10 * n + (c.toNat - 48)) 0
    if value < UInt64.size then some value else none
  else none

def readPath? (text : List Char) : Option String :=
  if text = [] then none else some (String.ofList text)

/-! ## Taking an argument in -/

/-- Fills a place that is still free. -/
def place? {α : Type} (old : Option α) (new : Option α) : Option (Option α) :=
  match old, new with
  | none, some value => some (some value)
  | _, _ => none

def Options.setScript? (o : Options) (text : List Char) : Option Options :=
  (place? o.script (readPath? text)).map fun script => { o with script }

def Options.set? (o : Options) (setting : Setting) (text : List Char) : Option Options :=
  match setting with
  | .count => (place? o.count (readWord? text)).map fun count => { o with count }
  | .seed => (place? o.seed ((readWord? text).map UInt64.ofNat)).map fun seed => { o with seed }
  | .output => (place? o.output (readPath? text)).map fun output => { o with output }
  | .maxFailures =>
    (place? o.maxFailures (readWord? text)).map fun maxFailures => { o with maxFailures }

def Options.raise? (o : Options) (flag : Flag) : Option Options :=
  match flag with
  | .littleEndian => if o.littleEndian then none else some { o with littleEndian := true }
  | .dump => if o.dump then none else some { o with dump := true }

/-! ## Arguments -/

def settingOfLetter? : Char → Option Setting
  | 'n' => some .count
  | 's' => some .seed
  | 'o' => some .output
  | _ => none

def settingOfWord? (word : String) : Option Setting :=
  if word = "count" then some .count
  else if word = "seed" then some .seed
  else if word = "output" then some .output
  else if word = "max-failures" then some .maxFailures
  else none

def flagOfWord? (word : String) : Option Flag :=
  if word = "little-endian" then some .littleEndian
  else if word = "dump" then some .dump
  else none

inductive Argument where
  | positional (text : List Char)
  /-- The mark after which every argument is positional. -/
  | separator
  | flag (f : Flag)
  /-- An option with its value, which is the next argument if none is attached. -/
  | setting (s : Setting) (attached : Option (List Char))
  | unknown
  deriving DecidableEq, Repr

def longArgument (text : List Char) : Argument :=
  let word := String.ofList (text.takeWhile (· ≠ '='))
  let attached := match text.dropWhile (· ≠ '=') with
    | [] => none
    | _ :: value => some value
  match settingOfWord? word, flagOfWord? word, attached with
  | some s, _, attached => .setting s attached
  | none, some f, none => .flag f
  | _, _, _ => .unknown

def shortArgument (letter : Char) (rest : List Char) : Argument :=
  match settingOfLetter? letter, rest with
  | some s, [] => .setting s none
  | some s, '=' :: value => .setting s (some value)
  | some s, value => .setting s (some value)
  | none, _ => .unknown

def classify : List Char → Argument
  | ['-', '-'] => .separator
  | '-' :: '-' :: text => longArgument text
  | '-' :: letter :: rest => shortArgument letter rest
  | text => .positional text

def readPositional? (o : Options) : List String → Option Options
  | [] => some o
  | text :: rest => do readPositional? (← o.setScript? text.toList) rest

def readFrom? (o : Options) : List String → Option Options
  | [] => some o
  | text :: rest =>
    match classify text.toList with
    | .positional text => do readFrom? (← o.setScript? text) rest
    | .separator => readPositional? o rest
    | .flag f => do readFrom? (← o.raise? f) rest
    | .setting s (some value) => do readFrom? (← o.set? s value) rest
    | .setting s none =>
      match rest with
      | [] => none
      | value :: rest =>
        match classify value.toList with
        | .positional value => do readFrom? (← o.set? s value) rest
        | _ => none
    | .unknown => none

/-! ## A run -/

structure Invocation where
  script : String
  settings : Settings
  dump : Bool
  deriving DecidableEq, Repr

/-- The seed of a run: from the arguments, otherwise from the environment, otherwise a fresh one. -/
def chooseSeed? (given : Option UInt64) (environment : Option String) (fresh : UInt64) :
    Option UInt64 :=
  match given, environment with
  | some seed, _ => some seed
  | none, some text => (readWord? text.toList).map UInt64.ofNat
  | none, none => some fresh

def invocation? (arguments : List String) (environment : Option String) (fresh : UInt64) :
    Option Invocation := do
  let o ← readFrom? .empty arguments
  let script ← o.script
  let seed ← chooseSeed? o.seed environment fresh
  return {
    script
    settings := { Settings.default with
      seed
      count := o.count.getD 1
      maxFailures := o.maxFailures.getD Settings.defaultMaxFailures
      order := if o.littleEndian then .little else .big
      outputDir := o.output }
    dump := o.dump }

end ArtifactLayout.CommandLine
