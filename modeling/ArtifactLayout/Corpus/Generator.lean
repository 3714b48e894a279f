import ArtifactLayout.Corpus.Settings
import ArtifactLayout.Program
import ArtifactLayout.Random.ChaCha8

/-! # Generators

Passes over one program from one source. A failed pass gives no artifact; the next one is tried
until too many have failed in a row. When the shape is fixed every pass would fail the same way, so
that one failure is enough.
-/

namespace ArtifactLayout
set_option autoImplicit false

/-- Too many failed passes in a row, and the fault of the last. -/
structure Exhausted where
  failures : Nat
  last : Fault
  deriving DecidableEq, Repr

def Exhausted.message (e : Exhausted) : String :=
  s!"{e.failures} consecutive passes failed; last error: {e.last.message}"

structure Generator (σ : Type) where
  session : Session
  source : σ
  settings : Settings
  discarded : Nat

namespace Generator

def ofSource {σ : Type} (program : Program) (settings : Settings) (source : σ) : Generator σ where
  session := .start { program with order := settings.order }
  source := source
  settings := settings
  discarded := 0

def start (program : Program) (settings : Settings) : Generator ChaCha8 :=
  ofSource program settings (.ofSeed settings.seed)

section Next
variable {σ : Type} [RandomSource σ]

def tryNext (g : Generator σ) : Except Fault Field × Generator σ :=
  let (outcome, pass) := Session.generate ⟨g.session, g.source⟩
  (outcome, { g with session := pass.session, source := pass.source })

/-- Passes up to the first success, of which `left` may follow a failure; `failures` came before. -/
def retry : Nat → Nat → Generator σ → Except Exhausted Field × Generator σ
  | left, failures, g =>
    match g.tryNext with
    | (.ok root, g) => (.ok root, g)
    | (.error fault, g) =>
      let g := { g with discarded := g.discarded + 1 }
      match left with
      | 0 => (.error ⟨failures + 1, fault⟩, g)
      | left + 1 => retry left (failures + 1) g

def limit (g : Generator σ) : Nat :=
  if g.session.program.hasFixedShape then 1 else max 1 g.settings.maxFailures

def next (g : Generator σ) : Except Exhausted Field × Generator σ := retry (g.limit - 1) 0 g

def nextArtifact (g : Generator σ) : Except Exhausted (List UInt8) × Generator σ :=
  let (outcome, g) := g.next
  (outcome.map Field.toBytes, g)

/-! ## Corpora -/

/-- The artifacts of some calls, none of which may fail. -/
def collect : Nat → Generator σ → Except Exhausted (List (List UInt8)) × Generator σ
  | 0, g => (.ok [], g)
  | n + 1, g =>
    match g.nextArtifact with
    | (.ok bytes, g) =>
      let (rest, g) := collect n g
      (rest.map (bytes :: ·), g)
    | (.error e, g) => (.error e, g)

def corpus (g : Generator σ) : Except Exhausted (List (List UInt8)) × Generator σ :=
  collect g.settings.count g

/-- Puts the artifacts of some calls in their places, which are numbered from a given number on. It
ends with a call that fails or an artifact that is refused. -/
def putFrom {m : Type → Type} [Monad m] {ρ : Type} (place : Nat → String)
    (put : String → List UInt8 → m (Except ρ Unit)) :
    Nat → Nat → Generator σ → m (Except (Exhausted ⊕ ρ) (List String) × Generator σ)
  | _, 0, g => return (.ok [], g)
  | index, n + 1, g =>
    match g.nextArtifact with
    | (.error e, g) => return (.error (.inl e), g)
    | (.ok bytes, g) => do
      match ← put (place index) bytes with
      | .error refusal => return (.error (.inr refusal), g)
      | .ok () =>
        let (rest, g) ← putFrom place put (index + 1) n g
        return (rest.map (place index :: ·), g)

/-- Files in the order of writing, and the passes that failed meanwhile or what ended the run. -/
structure Written where
  files : List (String × List UInt8)
  outcome : Except Exhausted Nat

/-- Notes a file in front of those that were written before it, and refuses none. -/
def note (name : String) (content : List UInt8) :
    StateM (List (String × List UInt8)) (Except Empty Unit) :=
  fun files => (.ok (), (name, content) :: files)

def write (g : Generator σ) : Written × Generator σ :=
  let ((outcome, after), files) := g.putFrom g.settings.fileName note 0 g.settings.count []
  let outcome := match outcome with
    | .ok _ => .ok (after.discarded - g.discarded)
    | .error (.inl e) => .error e
  (⟨files.reverse, outcome⟩, after)

end Next
end Generator
end ArtifactLayout
