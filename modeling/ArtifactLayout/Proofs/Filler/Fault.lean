import ArtifactLayout.Filler.Produce
import ArtifactLayout.Proofs.Attempt
import ArtifactLayout.Proofs.Field.Units
import ArtifactLayout.Proofs.Scope.Bindings

/-! # When a filler fails, and what it gives otherwise

A filler fails on what the shape of the tree shows: a name that no field of the tree carries, content
that is read before it is filled, children counted where there are none, content wider than the
field. `Filler.fault` is the first of these, and `Filler.produce` fails with exactly that. If there
is none, the units that it gives are determined by the nearest fields of the names that it reads.
-/

namespace ArtifactLayout
set_option autoImplicit false

open ArtifactLayout.Field

/-- The number of units of a field that one byte takes. -/
def unitsPerByte (unitBits : Nat) : Nat := if unitBits = 1 then 8 else 1

theorem length_asUnits (bytes : List UInt8) (unitBits : Nat) :
    (asUnits bytes unitBits).length = unitsPerByte unitBits * bytes.length := by
  rw [asUnits, unitsPerByte]
  split
  · rw [List.length_map, length_ofUnits]
  · rw [Nat.one_mul]

/-- The number of units that a filler writes into a field. -/
def Filler.reach (target : Field) : Filler → Nat
  | constant content => unitsPerByte target.unitBits * content.length
  | digest _ algorithm _ => unitsPerByte target.unitBits * algorithm.size
  | random | randomUnits | quantity _ => target.size

namespace Field.Visit

def label (names : Names) (v : Visit) : String :=
  match v.field.id with
  | some id => names.label id
  | none => placeText v.path

/-- What the filler of a visited field sees of the tree. -/
def view (names : Names) (order : ByteOrder) (root : Field) (v : Visit) : View :=
  ⟨root, ⟨names, .ofTree root⟩, v.path, v.position, order⟩

end Field.Visit

/-! ## Faults -/

section Fault
variable (names : Names) (root : Field) (v : Visit)

/-- What is wrong with reading the content of a name from a field: that no field carries it, or that
the nearest one is not complete before the reading field. -/
def contentFault (id : FieldId) : Option Fault :=
  match root.nearest? id v.path with
  | none => some (.unbound (names.label id))
  | some w =>
    if w.position + w.field.nodeCount ≤ v.position then none
    else some (.readBeforeFilled (names.label id) (v.label names))

/-- What is wrong with a quantity asked for by a field. -/
def Quantity.fault : Quantity → Option Fault
  | constant _ => none
  | sizeOf source =>
    if (root.nearest? source v.path).isNone then some (.unbound (names.label source)) else none
  | countOf source =>
    match root.nearest? source v.path with
    | none => some (.unbound (names.label source))
    | some w =>
      if w.field.kind.isContainer then none
      else some (.notContainer (names.label source) w.field.kind.name)
  | checksumOf source | numberIn source => contentFault names root v source

/-- What is wrong with content of the reach of a filler: that the field is too small for it. -/
def Filler.widthFault (filler : Filler) : Option Fault :=
  if v.field.size < filler.reach v.field then
    some (.contentTooWide (filler.reach v.field) v.field.size)
  else none

/-- The first thing that is wrong with a filler at a field. -/
def Filler.fault (filler : Filler) : Option Fault :=
  match filler with
  | constant _ => filler.widthFault v
  | digest _ _ sources => (sources.findSome? (contentFault names root v)).or (filler.widthFault v)
  | quantity q => q.fault names root v
  | random | randomUnits => none

end Fault

/-! ## Content -/

section Content
variable (root : Field) (order : ByteOrder) (v : Visit)

def Quantity.value? : Quantity → Option UInt64
  | constant value => some value
  | sizeOf source => (root.nearest? source v.path).map fun w => UInt64.ofNat w.field.size
  | countOf source => (root.nearest? source v.path).map fun w => UInt64.ofNat w.field.children.length
  | checksumOf source =>
    (root.nearest? source v.path).map fun w => (Checksum.crc32 w.field.toBytes).toUInt64
  | numberIn source => (root.nearest? source v.path).map fun w => w.field.toNumber order

/-- Units that a filler can give for a field: random ones are arbitrary, all others determined. -/
def Filler.Gives (units : List UInt8) : Filler → Prop
  | constant content => units = asUnits content v.field.unitBits
  | random | randomUnits => True
  | digest _ algorithm sources =>
    ∃ read, sources.mapM (root.nearest? · v.path) = some read ∧
      units = asUnits (algorithm.digest (read.flatMap fun w => w.field.toBytes)).toList v.field.unitBits
  | quantity q => ∃ n, q.value? root order v = some n ∧ units = unitsOfNumber order n v.field

end Content

/-! ## What a filler sees -/

section View
variable {names : Names} {order : ByteOrder} {root : Field} {v : Visit}

theorem targetLabel_view (hv : v ∈ root.visits) :
    (v.view names order root).targetLabel = v.label names := by
  obtain ⟨hat, -⟩ := mem_visits.mp hv
  rw [View.targetLabel, Visit.view, hat, Visit.label]
  rfl

variable (names order root v) in
theorem resolveFrom_view (id : FieldId) :
    (v.view names order root).scope.resolveFrom id v.path =
      match root.nearest? id v.path with
      | some w => .ok w.place
      | none => .error (.unbound (names.label id)) := root.resolveFrom_ofTree names id v.path

variable (names order) in
theorem fieldAt_nearest {id : FieldId} {w : Visit} (h : root.nearest? id v.path = some w) :
    (v.view names order root).scope.fieldAt root id w.place.path = .ok w.field := by
  obtain ⟨hat, -⟩ := mem_visits.mp (mem_of_nearest? h).1
  have hat : root.at? w.place.path = some w.field := hat
  rw [Scope.fieldAt, hat]

theorem field_view (id : FieldId) :
    (v.view names order root).field id =
      match root.nearest? id v.path with
      | some w => .ok w.field
      | none => .error (.unbound (names.label id)) := by
  have hresolve := resolveFrom_view names order root v id
  change ((v.view names order root).scope.resolveFrom id v.path >>= fun b =>
    (v.view names order root).scope.fieldAt root id b.path) = _
  rw [hresolve]
  cases hn : root.nearest? id v.path with
  | none => rfl
  | some w => exact fieldAt_nearest names order hn

theorem filled_view (hv : v ∈ root.visits) (id : FieldId) :
    (v.view names order root).filled id =
      match root.nearest? id v.path with
      | some w =>
        if v.position < w.position + w.field.nodeCount then
          .error (.readBeforeFilled (names.label id) (v.label names))
        else .ok w.field
      | none => .error (.unbound (names.label id)) := by
  have hresolve := resolveFrom_view names order root v id
  rw [View.filled, targetLabel_view hv]
  change ((v.view names order root).scope.resolveFrom id v.path >>= _) = _
  rw [hresolve]
  cases hn : root.nearest? id v.path with
  | none => rfl
  | some w =>
    have hfield := fieldAt_nearest names order hn
    by_cases hlt : v.position < w.position + w.field.nodeCount
    · simp only [hlt, if_true]
      exact if_pos hlt
    · simp only [hlt, if_false]
      exact (if_neg hlt).trans hfield

theorem contentFault_eq_none {id : FieldId} : contentFault names root v id = none ↔
    ∃ w, root.nearest? id v.path = some w ∧ w.position + w.field.nodeCount ≤ v.position := by
  rw [contentFault]
  cases root.nearest? id v.path with
  | none => simp
  | some w => simp

theorem filled_of_fault (hv : v ∈ root.visits) {id : FieldId} {fault : Fault}
    (h : contentFault names root v id = some fault) :
    (v.view names order root).filled id = .error fault := by
  rw [filled_view hv]
  rw [contentFault] at h
  cases hn : root.nearest? id v.path with
  | none =>
    rw [hn] at h
    exact congrArg Except.error (Option.some.inj h)
  | some w =>
    rw [hn] at h
    dsimp only at h ⊢
    split at h
    · cases h
    · rename_i hlt
      rw [if_pos (Nat.lt_of_not_le hlt)]
      exact congrArg Except.error (Option.some.inj h)

theorem filled_of_nearest (hv : v ∈ root.visits) {id : FieldId} {w : Visit}
    (hw : root.nearest? id v.path = some w) (hle : w.position + w.field.nodeCount ≤ v.position) :
    (v.view names order root).filled id = .ok w.field := by
  rw [filled_view hv, hw]
  exact if_neg (Nat.not_lt.mpr hle)

theorem content_of_fault (hv : v ∈ root.visits) {id : FieldId} {fault : Fault}
    (h : contentFault names root v id = some fault) :
    (v.view names order root).content id = .error fault := by
  rw [View.content, filled_of_fault hv h]
  rfl

theorem content_of_nearest (hv : v ∈ root.visits) {id : FieldId} {w : Visit}
    (hw : root.nearest? id v.path = some w) (hle : w.position + w.field.nodeCount ≤ v.position) :
    (v.view names order root).content id = .ok w.field.toBytes := by
  rw [View.content, filled_of_nearest hv hw hle]
  rfl

theorem contents_of_fault (hv : v ∈ root.visits) {ids : List FieldId} {fault : Fault}
    (h : ids.findSome? (contentFault names root v) = some fault) :
    (v.view names order root).contents ids = .error fault := by
  induction ids with
  | nil => cases h
  | cons id ids ih =>
    rw [List.findSome?_cons] at h
    rw [View.contents]
    cases hid : contentFault names root v id with
    | some first =>
      rw [hid] at h
      rw [content_of_fault hv hid]
      exact congrArg Except.error (Option.some.inj h)
    | none =>
      rw [hid] at h
      obtain ⟨w, hw, hle⟩ := contentFault_eq_none.mp hid
      rw [content_of_nearest hv hw hle, ih h]
      rfl

variable (order) in
theorem contents_of_sound (hv : v ∈ root.visits) {ids : List FieldId}
    (h : ∀ id ∈ ids, contentFault names root v id = none) :
    ∃ read, ids.mapM (root.nearest? · v.path) = some read ∧
      (v.view names order root).contents ids = .ok (read.flatMap fun w => w.field.toBytes) := by
  induction ids with
  | nil => exact ⟨[], rfl, rfl⟩
  | cons id ids ih =>
    obtain ⟨w, hw, hle⟩ := contentFault_eq_none.mp (h id (by simp))
    obtain ⟨read, hread, hcontents⟩ := ih fun i hi => h i (by simp [hi])
    refine ⟨w :: read, ?_, ?_⟩
    · rw [List.mapM_cons, hw, hread]
      rfl
    · rw [View.contents, content_of_nearest hv hw hle, hcontents]
      rfl

/-! ## Quantities -/

theorem eval_of_fault (hv : v ∈ root.visits) {q : Quantity} {fault : Fault}
    (h : q.fault names root v = some fault) : q.eval (v.view names order root) = .error fault := by
  cases q with
  | constant value => cases h
  | sizeOf source =>
    rw [Quantity.eval, field_view]
    rw [Quantity.fault] at h
    cases hn : root.nearest? source v.path with
    | some w => simp [hn] at h
    | none =>
      obtain rfl : Fault.unbound (names.label source) = fault := by simpa [hn] using h
      rfl
  | countOf source =>
    rw [Quantity.eval, field_view]
    rw [Quantity.fault] at h
    cases hn : root.nearest? source v.path with
    | none =>
      rw [hn] at h
      exact congrArg Except.error (Option.some.inj h)
    | some w =>
      rw [hn] at h
      dsimp only at h
      split at h
      · cases h
      · rename_i hkind
        exact (if_neg hkind).trans (congrArg Except.error (Option.some.inj h))
  | checksumOf source =>
    rw [Quantity.eval, content_of_fault hv h]
    rfl
  | numberIn source =>
    rw [Quantity.eval, filled_of_fault hv h]
    rfl

variable (order) in
theorem eval_of_sound (hv : v ∈ root.visits) {q : Quantity} (h : q.fault names root v = none) :
    ∃ n, q.value? root order v = some n ∧ q.eval (v.view names order root) = .ok n := by
  cases q with
  | constant value => exact ⟨value, rfl, rfl⟩
  | sizeOf source =>
    rw [Quantity.eval, field_view, Quantity.value?]
    rw [Quantity.fault] at h
    cases hn : root.nearest? source v.path with
    | none => simp [hn] at h
    | some w => exact ⟨_, rfl, rfl⟩
  | countOf source =>
    rw [Quantity.eval, field_view, Quantity.value?]
    rw [Quantity.fault] at h
    cases hn : root.nearest? source v.path with
    | none => simp [hn] at h
    | some w =>
      rw [hn] at h
      dsimp only at h
      split at h
      · rename_i hkind
        exact ⟨_, rfl, if_pos hkind⟩
      · cases h
  | checksumOf source =>
    obtain ⟨w, hw, hle⟩ := contentFault_eq_none.mp h
    rw [Quantity.eval, content_of_nearest hv hw hle, Quantity.value?, hw]
    exact ⟨_, rfl, rfl⟩
  | numberIn source =>
    obtain ⟨w, hw, hle⟩ := contentFault_eq_none.mp h
    rw [Quantity.eval, filled_of_nearest hv hw hle, Quantity.value?, hw]
    exact ⟨_, rfl, rfl⟩

/-! ## Producing -/

theorem reach_le_of_widthFault {filler : Filler} (h : filler.widthFault v = none) :
    filler.reach v.field ≤ v.field.size := by
  rw [Filler.widthFault] at h
  split at h
  · cases h
  · omega

theorem fitted_eq {filler : Filler} {bytes : List UInt8}
    (h : (asUnits bytes v.field.unitBits).length = filler.reach v.field) :
    fitted bytes v.field = match filler.widthFault v with
      | some fault => .error fault
      | none => .ok (asUnits bytes v.field.unitBits) := by
  rw [fitted, Filler.widthFault, h]
  split <;> rfl

theorem length_digestUnits (target : Field) (name : String) (algorithm : Digest.Algorithm)
    (sources : List FieldId) (bytes : List UInt8) :
    (asUnits (algorithm.digest bytes).toList target.unitBits).length =
      (Filler.digest name algorithm sources).reach target := by
  rw [length_asUnits, Digest.Algorithm.length_digest, Filler.reach]

variable {σ : Type} [RandomSource σ]

theorem length_drawUnitsOnto (width n : Nat) (drawn : List UInt8) (s : σ) :
    (drawUnitsOnto width drawn n s).1.length = drawn.length + n := by
  induction n generalizing drawn s with
  | zero => rfl
  | succ n ih =>
    rw [drawUnitsOnto, ih, List.length_cons]
    omega

theorem length_drawUnits (width n : Nat) (s : σ) : (drawUnits width n s).1.length = n := by
  rw [drawUnits, List.length_reverse, length_drawUnitsOnto, List.length_nil, Nat.zero_add]

/-- A filler with a fault at a field fails with it and draws nothing. -/
theorem produce_of_fault (hv : v ∈ root.visits) {filler : Filler} {fault : Fault}
    (h : filler.fault names root v = some fault) (s : σ) :
    filler.produce (v.view names order root) v.field s = (.error fault, s) := by
  cases filler with
  | constant content =>
    have hwidth : (Filler.constant content).widthFault v = some fault := h
    have hlength : (asUnits content v.field.unitBits).length =
        (Filler.constant content).reach v.field := length_asUnits _ _
    rw [Filler.produce, Attempt.check_apply, fitted_eq hlength, hwidth]
  | random => cases h
  | randomUnits => cases h
  | digest name algorithm sources =>
    rw [Filler.produce, Attempt.check_apply]
    cases hread : sources.findSome? (contentFault names root v) with
    | some first =>
      rw [Filler.fault, hread] at h
      obtain rfl := Option.some.inj h
      rw [contents_of_fault hv hread]
      rfl
    | none =>
      rw [Filler.fault, hread] at h
      obtain ⟨read, -, hcontents⟩ := contents_of_sound order hv
        (List.findSome?_eq_none_iff.mp hread)
      have hfitted := fitted_eq (v := v) (length_digestUnits v.field name algorithm sources
        (read.flatMap fun w => w.field.toBytes))
      have hwidth : (Filler.digest name algorithm sources).widthFault v = some fault := h
      rw [hwidth] at hfitted
      rw [hcontents]
      exact congrArg (·, s) hfitted
  | quantity q =>
    rw [Filler.produce, Attempt.check_apply, eval_of_fault hv h]
    rfl

variable (order) in
/-- A filler without a fault gives units of its reach, which fit the field. -/
theorem produce_of_sound (hv : v ∈ root.visits) {filler : Filler}
    (h : filler.fault names root v = none) (s : σ) :
    ∃ units s', filler.produce (v.view names order root) v.field s = (.ok units, s') ∧
      units.length = filler.reach v.field ∧ units.length ≤ v.field.size ∧
      filler.Gives root order v units := by
  cases filler with
  | constant content =>
    have hwidth : (Filler.constant content).widthFault v = none := h
    have hlength : (asUnits content v.field.unitBits).length =
        (Filler.constant content).reach v.field := length_asUnits _ _
    refine ⟨asUnits content v.field.unitBits, s, ?_, hlength, hlength ▸ reach_le_of_widthFault hwidth, rfl⟩
    rw [Filler.produce, Attempt.check_apply, fitted_eq hlength, hwidth]
  | random =>
    have hlength : (drawBytes v.field.size s).1.length = v.field.size :=
      (RandomSource.bytes v.field.size s).1.property
    exact ⟨_, _, rfl, hlength, Nat.le_of_eq hlength, trivial⟩
  | randomUnits =>
    have hlength := length_drawUnits v.field.unitBits v.field.size s
    exact ⟨_, _, rfl, hlength, Nat.le_of_eq hlength, trivial⟩
  | digest name algorithm sources =>
    obtain ⟨hread, hwidth⟩ := Option.or_eq_none_iff.mp h
    obtain ⟨read, hmap, hcontents⟩ := contents_of_sound order hv
      (List.findSome?_eq_none_iff.mp hread)
    have hlength := length_digestUnits v.field name algorithm sources
      (read.flatMap fun w => w.field.toBytes)
    have hfitted := fitted_eq (v := v) hlength
    rw [hwidth] at hfitted
    refine ⟨_, s, ?_, hlength, hlength ▸ reach_le_of_widthFault hwidth, read, hmap, rfl⟩
    rw [Filler.produce, Attempt.check_apply, hcontents]
    exact congrArg (·, s) hfitted
  | quantity q =>
    obtain ⟨n, hvalue, heval⟩ := eval_of_sound order hv h
    have hlength : (unitsOfNumber order n v.field).length = v.field.size :=
      length_numberUnits _ _ _ _
    refine ⟨_, s, ?_, hlength, Nat.le_of_eq hlength, n, hvalue, rfl⟩
    rw [Filler.produce, Attempt.check_apply, heval]
    rfl

end View
end ArtifactLayout
