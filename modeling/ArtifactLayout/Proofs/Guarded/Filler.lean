import ArtifactLayout.Proofs.Guarded.Content
import ArtifactLayout.Proofs.Scope.Nearest
import ArtifactLayout.Filler.Produce

/-! # Guarded fillers

What a filler reads, and the units that it gives. The slices of bindings and of paths are guarded, and
so are the shifts and the differences in which content is turned into units. Nothing is asked of the
bindings, which may be those of another tree.
-/

namespace ArtifactLayout
set_option autoImplicit false

/-! ## The nearest binding -/

namespace Guarded

/-- The nearest binding by slices: of the bindings at the place of the origin, of the origin, and of
the path of each binding that is compared. -/
def nearest? (bindings : Array Binding) (origin : List Nat) : Option (Option Binding) := do
  let place ← bisect? (fun b => some (decide (b.path < origin))) bindings
  let neighbours ← slice? bindings.toList (place - 1) (min (place + 1) bindings.size)
  match (neighbours.map fun b => sharedLength b.path origin).max? with
  | none => return none
  | some longest =>
    let beginning ← slice? origin 0 longest
    let stop ← bisect? (fun b => (slice? b.path 0 (min longest b.path.length)).map fun path =>
      decide (¬ beginning < path)) bindings
    return if stop = 0 then none else bindings[stop - 1]?

end Guarded

theorem slice?_neighbours (bindings : Array Binding) {place : Nat} (h : place ≤ bindings.size) :
    slice? bindings.toList (place - 1) (min (place + 1) bindings.size) =
      some (bindings.extract (place - 1) (place + 1)).toList := by
  rw [slice?_of_le (by omega) (by rw [Array.length_toList]; exact Nat.min_le_right _ _),
    ← Array.length_toList, ← List.take_eq_take_min, Array.toList_extract, List.extract_eq_take_drop,
    List.drop_take]

theorem slice?_beginning (path : List Nat) (longest : Nat) :
    slice? path 0 (min longest path.length) = some (path.take longest) := by
  rw [slice?_of_le (Nat.zero_le _) (Nat.min_le_right _ _), List.drop_zero, ← List.take_eq_take_min]

theorem Guarded.nearest?_eq (bindings : Array Binding) (origin : List Nat) :
    Guarded.nearest? bindings origin = some (ArtifactLayout.nearest? bindings origin) := by
  rw [Guarded.nearest?, bisect?_eq fun _ _ => rfl]
  simp only [Option.bind_eq_bind, Option.bind_some]
  rw [slice?_neighbours bindings (bisect_le_size _ bindings), Option.bind_some, ArtifactLayout.nearest?,
    ← neighbours]
  dsimp only
  cases hmax : ((neighbours bindings origin).map fun b => sharedLength b.path origin).max? with
  | none => rfl
  | some longest =>
    obtain ⟨b, -, hlongest⟩ := List.mem_map.mp (List.max?_eq_some_iff.mp hmax).1
    have hle : longest ≤ origin.length := hlongest ▸ sharedLength_le_right b.path origin
    dsimp only
    rw [slice?_of_le (Nat.zero_le _) hle, Option.bind_some, bisect?_eq fun b _ => by
      rw [slice?_beginning, Option.map_some]]
    rfl

/-! ## What a filler sees -/

namespace Guarded
variable {σ : Type}

def resolveFrom (scope : Scope) (id : FieldId) (origin : List Nat) : Guarded σ Binding := do
  match ← within (nearest? (scope.bindings.of id) origin) with
  | some b => return b
  | none => throw (.unbound (scope.names.label id))

def field (view : View) (id : FieldId) : Guarded σ Field := do
  let b ← resolveFrom view.scope id view.origin
  attempt (Attempt.check (view.scope.fieldAt view.root id b.path))

def filled (view : View) (id : FieldId) : Guarded σ Field := do
  let b ← resolveFrom view.scope id view.origin
  if view.position < b.stop then
    throw (.readBeforeFilled (view.scope.names.label id) view.targetLabel)
  else attempt (Attempt.check (view.scope.fieldAt view.root id b.path))

def content (past : Past) (view : View) (id : FieldId) : Guarded σ (List UInt8) := do
  readBytes past (← filled view id)

/-- The content of some fields, each read after lookups of its own. -/
def contents (past : Nat → Past) (view : View) (k : Nat) : List FieldId → Guarded σ (List UInt8)
  | [] => return []
  | id :: ids => do
    let first ← content (past k) view id
    return first ++ (← contents past view (k + 1) ids)

def eval (past : Past) (view : View) : Quantity → Guarded σ UInt64
  | .constant value => return value
  | .sizeOf source => do return UInt64.ofNat (← field view source).size
  | .countOf source => do
    let f ← field view source
    if f.kind.isContainer then return UInt64.ofNat f.children.length
    else throw (.notContainer (view.scope.names.label source) f.kind.name)
  | .checksumOf source => do return (Checksum.crc32 (← content past view source)).toUInt64
  | .numberIn source => do readNumber past view.order (← filled view source)

end Guarded

open Guarded

section View
variable {σ : Type} (view : View) (s : σ)

theorem resolveFrom_safe (scope : Scope) (id : FieldId) (origin : List Nat) :
    Safe (Guarded.resolveFrom scope id origin) (Attempt.check (scope.resolveFrom id origin)) s := by
  refine Safe.of_within (nearest?_eq _ _) ?_
  rw [Scope.resolveFrom]
  cases ArtifactLayout.nearest? (scope.bindings.of id) origin <;> rfl

theorem field_safe (id : FieldId) : Safe (Guarded.field view id) (Attempt.check (view.field id)) s :=
  Safe.check_bind (resolveFrom_safe s view.scope id view.origin) fun _ _ => Safe.of_attempt _ s

theorem filled_safe (id : FieldId) :
    Safe (Guarded.filled view id) (Attempt.check (view.filled id)) s := by
  refine Safe.check_bind (resolveFrom_safe s view.scope id view.origin) fun b _ => ?_
  by_cases hlate : view.position < b.stop
  · rw [if_pos hlate, if_pos hlate]
    rfl
  · rw [if_neg hlate, if_neg hlate]
    exact Safe.of_attempt _ s

theorem content_safe (past : Past) (id : FieldId) :
    Safe (Guarded.content past view id) (Attempt.check (view.content id)) s :=
  Safe.check_bind (filled_safe view s id) fun f _ => readBytes_eq past f s

theorem contents_safe (past : Nat → Past) (k : Nat) (ids : List FieldId) :
    Safe (Guarded.contents past view k ids) (Attempt.check (view.contents ids)) s := by
  induction ids generalizing k with
  | nil => exact Safe.pure [] s
  | cons id ids ih =>
    refine Safe.check_bind (content_safe view s (past k) id) fun first _ => ?_
    exact Safe.check_bind (ih (k + 1)) fun rest _ => Safe.pure _ s

theorem eval_safe (past : Past) (q : Quantity) :
    Safe (Guarded.eval past view q) (Attempt.check (q.eval view)) s := by
  cases q with
  | constant value => exact Safe.pure value s
  | sizeOf source => exact Safe.check_bind (field_safe view s source) fun f _ => Safe.pure _ s
  | countOf source =>
    refine Safe.check_bind (field_safe view s source) fun f _ => ?_
    by_cases hkind : f.kind.isContainer = true
    · rw [if_pos hkind, if_pos hkind]
      rfl
    · rw [if_neg hkind, if_neg hkind]
      rfl
  | checksumOf source =>
    exact Safe.check_bind (content_safe view s past source) fun bytes _ => Safe.pure _ s
  | numberIn source =>
    exact Safe.check_bind (filled_safe view s source) fun f _ => readNumber_eq past view.order f s

end View

/-! ## Units from fillers -/

namespace Guarded
variable {σ : Type}

/-- Bytes as units, each bit by the shift that takes it out of its byte. -/
def asUnits? (bytes : List UInt8) (unitBits : Nat) : Option (List UInt8) :=
  if unitBits = 1 then
    (bytes.flatMap fun byte => (List.range 8).map fun i => (byte, i)).mapM fun (byte, i) => do
      return (byte.toNat.testBit (← sub? 7 i)).toUInt8
  else some bytes

def fitted (bytes : List UInt8) (target : Field) : Guarded σ (List UInt8) := do
  let units ← within (asUnits? bytes target.unitBits)
  if target.size < units.length then throw (.contentTooWide units.length target.size)
  else return units

/-- The units that a filler gives. Its reads come after lookups of their own, and the range from
which random units are drawn has an upper end. -/
def produce [RandomSource σ] (past : Nat → Past) (view : View) (target : Field) :
    Filler → Guarded σ (List UInt8)
  | .constant content => fitted content target
  | .random => attempt (Attempt.step (drawBytes target.size))
  | .randomUnits => do
    let shift ← within (below? target.unitBits 16)
    let _ ← within (sub? (2 ^ shift) 1)
    attempt (Attempt.step (drawUnits target.unitBits target.size))
  | .digest _ algorithm sources => do
    fitted (algorithm.digest (← contents past view 0 sources)).toList target
  | .quantity q => do
    let value ← eval (past 0) view q
    within (numberUnits? view.order value target.unitBits target.size)

end Guarded

section Produce
variable {σ : Type}

theorem asUnits?_eq (bytes : List UInt8) (unitBits : Nat) :
    asUnits? bytes unitBits = some (asUnits bytes unitBits) := by
  rw [asUnits?, asUnits]
  split
  · have hbit : ∀ place ∈ bytes.flatMap fun byte => (List.range 8).map fun i => (byte, i),
        (do return (place.1.toNat.testBit (← sub? 7 place.2)).toUInt8 : Option UInt8) =
          some (place.1.toNat.testBit (7 - place.2)).toUInt8 := by
      intro place hplace
      obtain ⟨byte, -, hplace⟩ := List.mem_flatMap.mp hplace
      obtain ⟨i, hi, rfl⟩ := List.mem_map.mp hplace
      rw [sub?_of_le (Nat.le_of_lt_succ (List.mem_range.mp hi))]
      rfl
    rw [mapM_eq_some_map hbit, Bits.ofUnits, List.map_flatMap, List.map_flatMap]
    simp only [Bits.ofUnit, List.map_map]
    rfl
  · rfl

theorem fitted_safe (bytes : List UInt8) (target : Field) (s : σ) :
    Safe (Guarded.fitted bytes target) (Attempt.check (ArtifactLayout.fitted bytes target)) s := by
  refine Safe.of_within (asUnits?_eq bytes target.unitBits) ?_
  rw [ArtifactLayout.fitted]
  split <;> rfl

theorem produce_safe [RandomSource σ] (past : Nat → Past) (view : View) (target : Field)
    (filler : Filler) (s : σ) :
    Safe (Guarded.produce past view target filler) (filler.produce view target) s := by
  cases filler with
  | constant content => exact fitted_safe content target s
  | random => exact Safe.of_attempt _ s
  | randomUnits =>
    have hshift := below?_of_lt (Nat.lt_of_le_of_lt target.unitBits_le (by decide : 8 < 16))
    refine Safe.of_within hshift (Safe.of_within (sub?_of_le ?_) (Safe.of_attempt _ s))
    exact Nat.one_le_two_pow
  | digest name algorithm sources =>
    refine Safe.check_bind (contents_safe view s past 0 sources) fun content _ => ?_
    exact fitted_safe _ target s
  | quantity q =>
    refine Safe.check_bind (eval_safe view s (past 0) q) fun value _ => ?_
    exact within_of_some (numberUnits?_eq view.order value target.unitBits target.size) s

end Produce
end ArtifactLayout
