import ArtifactLayout.Arena.Basic
import ArtifactLayout.Attempt
import ArtifactLayout.Random.Source

/-! # Allocation

Laying out the tree of one pass. Sizes, alternatives and numbers of copies are drawn depth first in
the order of the declarations. Each field is charged to an allowance of `maxUnits` before it is
built: its units and `nodeWeight` beyond them; the copies of a template are charged at the cost of
their prototype, which is built once.
-/

namespace ArtifactLayout
set_option autoImplicit false

/-- What an allocation may still claim, and the source it draws from. -/
structure Allocation (σ : Type) where
  remaining : Nat
  source : σ

namespace Allocation
variable {σ : Type}

def charge (units : Nat) : Attempt (Allocation σ) Unit := fun s =>
  if s.remaining < units then (.error (.tooLarge units), s)
  else (.ok (), { s with remaining := s.remaining - units })

def chargeField (units : Nat) : Attempt (Allocation σ) Unit := charge (saturate (units + nodeWeight))

def draw [RandomSource σ] (low high : Nat) (h : low ≤ high) :
    Attempt (Allocation σ) {n : Nat // low ≤ n ∧ n ≤ high} := fun s =>
  let (n, source) := RandomSource.between low high h s.source
  (.ok n, { s with source })

end Allocation

open Allocation

section Allocate
variable {σ : Type} [RandomSource σ]

/-- Copies of a template, given how its declarations are laid out: one prototype is built and
charged, and all copies but the first are charged at the same cost. -/
def Template.instantiate (child : DeclId → Attempt (Allocation σ) Field) (template : Template)
    (low high : Nat) : Attempt (Allocation σ) Field := do
  if h : low ≤ high then
    let copies ← draw low high h
    chargeField 0
    let before := (← get).remaining
    chargeField 0
    let prototype := Field.group Tag.none .compound (← template.children.mapM child)
    let after := (← get).remaining
    charge (saturate ((before - after) * (copies.val - 1)))
    return .group Tag.none .repeated (List.replicate copies.val prototype)
  else throw (.invalidBounds low high)

namespace Arena

/-- Lays out a declaration, going down at most `depth` levels. Every level is charged at least
`nodeWeight` before the next one is entered, so `maxDepth` levels are never used up. -/
def allocateDecl (arena : Arena) : Nat → DeclId → Attempt (Allocation σ) Field
  | 0, _ => throw (.tooLarge nodeWeight)
  | depth + 1, id => do
    match arena.decls[id]? with
    | none => throw (.missingDecl id)
    | some (.block filler size name) | some (.auto filler size name) =>
      chargeField size
      return .leaf ⟨name, some filler⟩ (.block (Array.replicate size 0))
    | some (.bitfield filler width name) =>
      chargeField width
      return .leaf ⟨name, some filler⟩ (.bitfield (Array.replicate width false))
    | some (.ranged filler low high name) =>
      if h : low ≤ high then
        let size ← draw low high h
        chargeField size.val
        return .leaf ⟨name, some filler⟩ (.ranged low high (Array.replicate size.val 0))
      else throw (.invalidBounds low high)
    | some (.compound children name) =>
      chargeField 0
      return .group ⟨name, none⟩ .compound (← children.mapM (arena.allocateDecl depth))
    | some (.choice children name) =>
      if h : children ≠ [] then
        chargeField 0
        let pick ← draw 0 (children.length - 1) (Nat.zero_le _)
        have bound : pick.val < children.length := by
          have := List.length_pos_iff.2 h
          omega
        return .group ⟨name, none⟩ .compound [← arena.allocateDecl depth children[pick.val]]
      else throw .noAlternatives
    | some (.bits children name) =>
      chargeField 0
      return .group ⟨name, none⟩ .bits (← children.mapM (arena.allocateDecl depth))
    | some (.copies template low high) =>
      match arena.templates[template]? with
      | none => throw (.missingTemplate template)
      | some template => template.instantiate (arena.allocateDecl depth) low high

/-- More levels than the allowance can pay for. -/
def maxDepth : Nat := maxUnits / nodeWeight + 1

def withAllowance (build : Attempt (Allocation σ) Field) (source : σ) : Except Fault Field × σ :=
  let (outcome, s) := build ⟨maxUnits, source⟩
  (outcome, s.source)

def allocate (arena : Arena) (id : DeclId) : σ → Except Fault Field × σ :=
  withAllowance (arena.allocateDecl maxDepth id)

def allocateTemplate (arena : Arena) (id : TemplateId) (low high : Nat) :
    σ → Except Fault Field × σ :=
  withAllowance <| match arena.templates[id]? with
    | none => throw (.missingTemplate id)
    | some template => template.instantiate (arena.allocateDecl maxDepth) low high

def allocateRoot (arena : Arena) (fields : List DeclId) : σ → Except Fault Field × σ :=
  withAllowance do
    chargeField 0
    return .group Tag.none .compound (← fields.mapM (arena.allocateDecl maxDepth))

end Arena
end Allocate
end ArtifactLayout
