import ArtifactLayout.Program
import ArtifactLayout.Proofs.Field.Update
import ArtifactLayout.Proofs.Filler.Fault

/-! # Filling one field

A step of a pass fails with the fault of the field that it fills, which depends on the shape of the
tree alone, and leaves the tree alone. Otherwise it writes the units that the filler gives into the
field, which is a leaf, and the rest of the tree stays as it is.
-/

namespace ArtifactLayout
set_option autoImplicit false

open ArtifactLayout.Field

/-- The step that fills a visited field. -/
def Field.Visit.job (v : Visit) (filler : FillerId) : Program.Job := ⟨v.path, v.position, filler⟩

namespace Program

/-- The steps that fill some visited fields. -/
def jobsOf (vs : List Visit) : List Job := vs.filterMap fun v => v.field.filler.map v.job

theorem jobs_eq (root : Field) : jobs root = jobsOf root.visits := rfl

theorem jobsOf_append (vs ws : List Visit) : jobsOf (vs ++ ws) = jobsOf vs ++ jobsOf ws :=
  List.filterMap_append

theorem jobsOf_cons_of_none {v : Visit} (h : v.field.filler = none) (vs : List Visit) :
    jobsOf (v :: vs) = jobsOf vs :=
  List.filterMap_cons_none (by rw [h, Option.map_none])

theorem jobsOf_cons_of_some {v : Visit} {filler : FillerId} (h : v.field.filler = some filler)
    (vs : List Visit) : jobsOf (v :: vs) = v.job filler :: jobsOf vs :=
  List.filterMap_cons_some (by rw [h, Option.map_some])

/-- What is wrong with filling a visited field. -/
def faultAt (program : Program) (root : Field) (v : Visit) : Option Fault :=
  match v.field.filler with
  | none => none
  | some number =>
    match program.arena.fillers[number]? with
    | none => some (.missingFiller number)
    | some filler => filler.fault program.names root v

end Program

theorem fault_of_faultAt {program : Program} {root : Field} {v : Visit}
    (h : program.faultAt root v = none) {id : FillerId} (hid : v.field.filler = some id)
    {filler : Filler} (hfiller : program.arena.fillers[id]? = some filler) :
    filler.fault program.names root v = none := by
  rw [Program.faultAt, hid] at h
  dsimp only at h
  rwa [hfiller] at h

/-! ## Faults depend on the shape -/

theorem Filler.reach_blank (filler : Filler) (f : Field) : filler.reach f.blank = filler.reach f := by
  cases filler <;> simp [Filler.reach]

theorem Field.SameShape.reach_eq {f g : Field} (s : f.SameShape g) (filler : Filler) :
    filler.reach f = filler.reach g := by
  rw [← filler.reach_blank f, s, filler.reach_blank]

section Blank
variable (names : Names) (root : Field) (v : Visit)

theorem label_blank : v.blank.label names = v.label names := by
  rw [Visit.label, Visit.label, Visit.field_blank, id_blank, Visit.path_blank]

theorem contentFault_blank (id : FieldId) :
    contentFault names root.blank v.blank id = contentFault names root v id := by
  rw [contentFault, contentFault, Visit.path_blank, nearest?_blank]
  cases root.nearest? id v.path with
  | none => rfl
  | some w => simp [label_blank]

theorem Quantity.fault_blank (q : Quantity) : q.fault names root.blank v.blank = q.fault names root v := by
  cases q with
  | constant value => rfl
  | sizeOf source => simp [Quantity.fault, nearest?_blank]
  | countOf source =>
    rw [Quantity.fault, Quantity.fault, Visit.path_blank, nearest?_blank]
    cases root.nearest? source v.path with
    | none => rfl
    | some w => simp
  | checksumOf source => exact contentFault_blank names root v source
  | numberIn source => exact contentFault_blank names root v source

theorem Filler.widthFault_blank (filler : Filler) : filler.widthFault v.blank = filler.widthFault v := by
  rw [Filler.widthFault, Filler.widthFault, Visit.field_blank, Filler.reach_blank, size_blank]

theorem Filler.fault_blank (filler : Filler) :
    filler.fault names root.blank v.blank = filler.fault names root v := by
  cases filler with
  | constant content => exact Filler.widthFault_blank v _
  | random => rfl
  | randomUnits => rfl
  | digest name algorithm sources =>
    have hcontent : contentFault names root.blank v.blank = contentFault names root v :=
      funext (contentFault_blank names root v)
    rw [Filler.fault, Filler.fault, hcontent, Filler.widthFault_blank]
  | quantity q => exact q.fault_blank names root v

theorem Program.faultAt_blank (program : Program) :
    program.faultAt root.blank v.blank = program.faultAt root v := by
  rw [faultAt, faultAt, Visit.field_blank, filler_blank]
  cases v.field.filler with
  | none => rfl
  | some number =>
    dsimp only
    cases program.arena.fillers[number]? with
    | none => rfl
    | some filler => exact filler.fault_blank program.names root v

end Blank

namespace Field.SameShape
variable {f g : Field}

theorem faultAt_eq (s : f.SameShape g) (program : Program) {v w : Visit} (h : v.blank = w.blank) :
    program.faultAt f v = program.faultAt g w := by
  rw [← Program.faultAt_blank f, s, h, Program.faultAt_blank]

theorem jobs_eq (s : f.SameShape g) : Program.jobs f = Program.jobs g := by
  have hjobs : ∀ root : Field, Program.jobs root.blank = Program.jobs root := by
    intro root
    rw [Program.jobs, Program.jobs, visits_blank, List.filterMap_map]
    congr 1
    funext v
    simp
  rw [← hjobs f, s, hjobs]

theorem exists_visit (s : f.SameShape g) {v : Visit} (hv : v ∈ f.visits) :
    ∃ w ∈ g.visits, w.blank = v.blank := by
  have hblank : v.blank ∈ g.visits.map Visit.blank := by
    rw [← visits_blank, ← s, visits_blank]
    exact List.mem_map_of_mem hv
  exact List.mem_map.mp hblank

end Field.SameShape

/-! ## One step -/

section Step
variable {σ : Type} [RandomSource σ] {program : Program} {root : Field} {v : Visit} {id : FillerId}

/-- What the filler at a job is asked for and answers, whatever the bindings. -/
theorem contentOf_of_at {bindings : Bindings} {job : Program.Job} {target : Field}
    (hat : root.at? job.path = some target) {filler : Filler}
    (hfiller : program.arena.fillers[job.filler]? = some filler) {outcome : Except Fault (List UInt8)}
    {s s' : σ}
    (hproduce : filler.produce ⟨root, ⟨program.names, bindings⟩, job.path, job.position, program.order⟩
      target s = (outcome, s')) :
    program.contentOf bindings job ⟨root, s⟩ =
      (outcome.map fun units => (target, units), ⟨root, s'⟩) := by
  rw [Program.contentOf]
  dsimp only
  rw [hat]
  dsimp only
  rw [hfiller]
  dsimp only
  rw [hproduce]

theorem contentOf_eq (hv : v ∈ root.visits) {filler : Filler}
    (hfiller : program.arena.fillers[id]? = some filler) (s : σ) :
    program.contentOf (.ofTree root) (v.job id) ⟨root, s⟩ =
      ((filler.produce (v.view program.names program.order root) v.field s).1.map
          fun units => (v.field, units),
        ⟨root, (filler.produce (v.view program.names program.order root) v.field s).2⟩) :=
  contentOf_of_at (mem_visits.mp hv).1 hfiller rfl

/-- A field with a fault is not filled. -/
theorem fillOne_of_fault (hv : v ∈ root.visits) (hid : v.field.filler = some id) {fault : Fault}
    (h : program.faultAt root v = some fault) (s : σ) :
    program.fillOne (.ofTree root) (v.job id) ⟨root, s⟩ = (.error fault, ⟨root, s⟩) := by
  have hat : root.at? (v.job id).path = some v.field := (mem_visits.mp hv).1
  have hcontent : program.contentOf (.ofTree root) (v.job id) ⟨root, s⟩ =
      (.error fault, ⟨root, s⟩) := by
    rw [Program.faultAt, hid] at h
    dsimp only at h
    cases hfiller : program.arena.fillers[id]? with
    | none =>
      rw [hfiller] at h
      obtain rfl := Option.some.inj h
      have hfiller : program.arena.fillers[(v.job id).filler]? = none := hfiller
      rw [Program.contentOf]
      dsimp only
      rw [hat]
      dsimp only
      rw [hfiller]
      rfl
    | some filler =>
      rw [hfiller] at h
      rw [contentOf_eq hv hfiller, produce_of_fault hv h]
      rfl
  rw [Program.fillOne, Attempt.bind_of_error hcontent]

variable (program) in
/-- A leaf gets the units that its filler produces. -/
theorem fillOne_of_produce (hv : v ∈ root.visits) {tag : Tag} {content : Leaf}
    (hleaf : v.field = .leaf tag content) {filler : Filler}
    (hfiller : program.arena.fillers[id]? = some filler) {units : List UInt8} {s s' : σ}
    (hproduce : filler.produce (v.view program.names program.order root) v.field s = (.ok units, s'))
    (hfits : units.length ≤ v.field.size) :
    program.fillOne (.ofTree root) (v.job id) ⟨root, s⟩ =
      (.ok (), ⟨root.modifyAt (fun _ => .leaf tag (content.withUnits units)) v.path, s'⟩) := by
  have hcontent : program.contentOf (.ofTree root) (v.job id) ⟨root, s⟩ =
      (.ok (v.field, units), ⟨root, s'⟩) := by
    rw [contentOf_eq hv hfiller, hproduce]
    rfl
  have hwrite : v.field.write units = .ok (.leaf tag (content.withUnits units)) := by
    rw [Field.write, if_neg (Nat.not_lt.mpr hfits), hleaf, withUnits]
  rw [Program.fillOne, Attempt.bind_of_ok hcontent]
  dsimp only
  rw [hwrite, Attempt.bind_of_ok (Attempt.check_apply _ _)]
  rfl

/-- A leaf without a fault gets the units of its filler. -/
theorem fillOne_of_sound (hv : v ∈ root.visits) (hid : v.field.filler = some id) {tag : Tag}
    {content : Leaf} (hleaf : v.field = .leaf tag content) (h : program.faultAt root v = none)
    (s : σ) :
    ∃ filler units s', program.arena.fillers[id]? = some filler ∧
      filler.Gives root program.order v units ∧ units.length = filler.reach v.field ∧
      units.length ≤ v.field.size ∧
      program.fillOne (.ofTree root) (v.job id) ⟨root, s⟩ =
        (.ok (), ⟨root.modifyAt (fun _ => .leaf tag (content.withUnits units)) v.path, s'⟩) := by
  rw [Program.faultAt, hid] at h
  dsimp only at h
  cases hfiller : program.arena.fillers[id]? with
  | none =>
    rw [hfiller] at h
    cases h
  | some filler =>
    rw [hfiller] at h
    obtain ⟨units, s', hproduce, hlength, hfits, hgives⟩ :=
      produce_of_sound program.order hv h s
    exact ⟨filler, units, s', rfl, hgives, hlength, hfits,
      fillOne_of_produce program hv hleaf hfiller hproduce hfits⟩

end Step
end ArtifactLayout
