import ArtifactLayout.Arena.Allocation
import ArtifactLayout.Factory.Basic
import ArtifactLayout.Field.Access
import ArtifactLayout.Filler.Produce

/-! # Programs

A script that has been read, and the passes over it. A pass lays out a tree, notes where its named
fields are, and runs the filler of every field in pre-order.
-/

namespace ArtifactLayout
set_option autoImplicit false

structure Program where
  arena : Arena
  /-- The declarations at the top. -/
  fields : List DeclId
  names : Names
  order : ByteOrder

/-- Checks that something is declared and everything referred to is, and groups the bitfields at
the top. -/
def Factory.close (fields : List DeclId) : Attempt Factory Program := do
  if fields = [] then throw .noFields
  let f ← get
  match f.referenced.toList.find? fun id => id ∉ f.declared with
  | some id => throw (.undeclaredField (f.names.label id))
  | none =>
    let fields ← groupLoose fields
    let f ← get
    return ⟨f.arena, fields, f.names, .big⟩

def Factory.finish (f : Factory) (fields : List DeclId) : Except Fault Program :=
  (Factory.close fields).outcome f

namespace Program

/-- Whether every pass lays out a tree of the same shape. -/
def hasFixedShape (program : Program) : Bool := program.arena.hasFixedShape

/-! ## Filling -/

/-- A field to be filled: its path, its number in pre-order and its filler. -/
structure Job where
  path : List Nat
  position : Nat
  filler : FillerId
  deriving DecidableEq, Repr

/-- The fields of a tree that have a filler, in pre-order. -/
def jobs (root : Field) : List Job :=
  root.visits.filterMap fun v => v.field.filler.map fun filler => ⟨v.path, v.position, filler⟩

section Fill
variable {σ : Type} [RandomSource σ]

structure Filling (σ : Type) where
  root : Field
  source : σ

/-- Runs the filler of one field on the tree as it is. -/
def contentOf (program : Program) (bindings : Bindings) (job : Job) :
    Attempt (Filling σ) (Field × List UInt8) := fun s =>
  match s.root.at? job.path with
  | none => (.error (.unbound (placeText job.path)), s)
  | some target =>
    match program.arena.fillers[job.filler]? with
    | none => (.error (.missingFiller job.filler), s)
    | some filler =>
      let view : View := ⟨s.root, ⟨program.names, bindings⟩, job.path, job.position, program.order⟩
      let (outcome, source) := filler.produce view target s.source
      (outcome.map fun units => (target, units), { s with source })

def fillOne (program : Program) (bindings : Bindings) (job : Job) : Attempt (Filling σ) Unit := do
  let (target, units) ← program.contentOf bindings job
  let written ← Attempt.check (target.write units)
  modify fun s => { s with root := s.root.modifyAt (fun _ => written) job.path }

def fillAll (program : Program) (bindings : Bindings) : List Job → Attempt (Filling σ) Unit
  | [] => return ()
  | job :: rest => do
    program.fillOne bindings job
    program.fillAll bindings rest

/-- Fills a tree; a fault leaves what was written before it. -/
def fill (program : Program) (bindings : Bindings) (root : Field) (source : σ) :
    Except Fault Unit × Filling σ :=
  program.fillAll bindings (jobs root) ⟨root, source⟩

end Fill
end Program

/-! ## Passes -/

/-- A program with the bindings of the tree it laid out last. -/
structure Session where
  program : Program
  bindings : Bindings

namespace Session

def start (program : Program) : Session := ⟨program, .empty⟩

def scope (session : Session) : Scope := ⟨session.program.names, session.bindings⟩

section Pass
variable {σ : Type} [RandomSource σ]

/-- A session and the source that its passes draw from. -/
structure Pass (σ : Type) where
  session : Session
  source : σ

/-- Lays out a tree and notes where its named fields are. -/
def layOut : Attempt (Pass σ) Field := fun s =>
  match s.session.program.arena.allocateRoot s.session.program.fields s.source with
  | (.ok root, source) => (.ok root, ⟨{ s.session with bindings := .ofTree root }, source⟩)
  | (.error fault, source) => (.error fault, { s with source })

/-- Fills a tree by the latest bindings; a fault leaves what was written before it. -/
def fill (session : Session) (root : Field) (source : σ) : Except Fault Unit × Program.Filling σ :=
  session.program.fill session.bindings root source

def generate : Attempt (Pass σ) Field := do
  let root ← layOut
  fun s =>
    let (outcome, filling) := s.session.fill root s.source
    (outcome.map fun _ => filling.root, { s with source := filling.source })

end Pass
end Session
end ArtifactLayout
