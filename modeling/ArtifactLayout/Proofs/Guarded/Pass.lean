import ArtifactLayout.Proofs.Fill.Failure
import ArtifactLayout.Proofs.Guarded.Allocation
import ArtifactLayout.Proofs.Guarded.Fill
import ArtifactLayout.Proofs.Script.Finished

/-! # Guarded passes

A pass over a program that was read from a script leaves no domain, whatever is drawn and whatever its
compounds were asked before. The faults that it may end in are those of content and of size: the
script itself was checked when it was read.
-/

namespace ArtifactLayout
set_option autoImplicit false

open ArtifactLayout.Field

/-! ## Faults of a pass -/

/-- The faults that a pass may end in. They leave out every fault of a script, every index and every
range. -/
def Fault.OfPass : Fault → Prop
  | .tooLarge _ | .contentTooWide _ _ | .notContainer _ _ | .unbound _ | .readBeforeFilled _ _ => True
  | _ => False

/-- An outcome that is no fault, or one that a pass may end in. -/
def Allowed {α : Type} (outcome : Except Fault α) : Prop :=
  ∀ fault, outcome = .error fault → fault.OfPass

namespace Allowed
variable {α β : Type}

theorem ok (a : α) : Allowed (.ok a) := nofun

theorem error {fault : Fault} (h : fault.OfPass) : Allowed (.error fault : Except Fault α) := by
  rintro _ ⟨⟩
  exact h

theorem bind {outcome : Except Fault α} {rest : α → Except Fault β} (h : Allowed outcome)
    (hrest : ∀ a, Allowed (rest a)) : Allowed (outcome >>= rest) := by
  cases outcome with
  | error fault => exact error (h fault rfl)
  | ok a => exact hrest a

theorem map {outcome : Except Fault α} (h : Allowed outcome) (f : α → β) :
    Allowed (outcome.map f) := by
  cases outcome with
  | error fault => exact error (h fault rfl)
  | ok a => exact ok (f a)

theorem andThen {σ : Type} {m : Attempt σ α} {k : α → Attempt σ β} {s : σ} (h : Allowed (m s).1)
    (hk : ∀ a t, m s = (.ok a, t) → Allowed (k a t).1) : Allowed ((m >>= k) s).1 := by
  rw [Attempt.bind_apply]
  rcases hrun : m s with ⟨fault | a, t⟩
  · rw [hrun] at h
    exact error (h fault rfl)
  · exact hk a t hrun

theorem resolveFrom (scope : Scope) (id : FieldId) (origin : List Nat) :
    Allowed (scope.resolveFrom id origin) := by
  rw [Scope.resolveFrom]
  split
  · exact ok _
  · exact error trivial

theorem fieldAt (scope : Scope) (root : Field) (id : FieldId) (path : List Nat) :
    Allowed (scope.fieldAt root id path) := by
  rw [Scope.fieldAt]
  split
  · exact ok _
  · exact error trivial

section View
variable (view : View)

theorem field (id : FieldId) : Allowed (view.field id) :=
  (resolveFrom _ _ _).bind fun _ => fieldAt _ _ _ _

theorem filled (id : FieldId) : Allowed (view.filled id) := by
  refine (resolveFrom _ _ _).bind fun b => ?_
  split
  · exact error trivial
  · exact fieldAt _ _ _ _

theorem content (id : FieldId) : Allowed (view.content id) := (filled view id).bind fun _ => ok _

theorem contents (ids : List FieldId) : Allowed (view.contents ids) := by
  induction ids with
  | nil => exact ok []
  | cons id ids ih => exact (content view id).bind fun first => ih.bind fun rest => ok _

theorem eval (q : Quantity) : Allowed (q.eval view) := by
  cases q with
  | constant value => exact ok value
  | sizeOf source => exact (field view source).bind fun f => ok _
  | countOf source =>
    refine (field view source).bind fun f => ?_
    split
    · exact ok _
    · exact error trivial
  | checksumOf source => exact (content view source).bind fun bytes => ok _
  | numberIn source => exact (filled view source).bind fun f => ok _

end View

theorem fitted (bytes : List UInt8) (target : Field) : Allowed (fitted bytes target) := by
  rw [ArtifactLayout.fitted]
  split
  · exact error trivial
  · exact ok _

theorem write (target : Field) (units : List UInt8) : Allowed (target.write units) := by
  rw [Field.write]
  split
  · exact error trivial
  · exact ok _

section Fill
variable {σ : Type} [RandomSource σ] {program : Program} {bindings : Bindings}

theorem produce (view : View) (target : Field) (filler : Filler) (s : σ) :
    Allowed (filler.produce view target s).1 := by
  cases filler with
  | constant content => exact fitted content target
  | random => exact ok _
  | randomUnits => exact ok _
  | digest name algorithm sources => exact (contents view sources).bind fun content => fitted _ target
  | quantity q => exact (eval view q).bind fun value => ok _

theorem contentOf {job : Program.Job} {s : Program.Filling σ} (h : program.Ready s.root job) :
    Allowed (program.contentOf bindings job s).1 := by
  obtain ⟨filler, hfiller⟩ := h.filler
  obtain ⟨tag, content, hat⟩ := h.leaf
  rw [Program.contentOf, hat]
  dsimp only
  rw [hfiller]
  exact (produce _ _ filler s.source).map _

theorem fillOne {job : Program.Job} {s : Program.Filling σ} (h : program.Ready s.root job) :
    Allowed (program.fillOne bindings job s).1 := by
  refine (contentOf h).andThen fun found t _ => ?_
  exact andThen (write found.1 found.2) fun written t' _ => ok ()

theorem fillAll {jobs : List Program.Job} {s : Program.Filling σ}
    (h : ∀ job ∈ jobs, program.Ready s.root job) :
    Allowed (program.fillAll bindings jobs s).1 := by
  induction jobs generalizing s with
  | nil => exact ok ()
  | cons job jobs ih =>
    have hready := h job List.mem_cons_self
    refine (fillOne hready).andThen fun _ t hrun => ih ?_
    have hshape := hready.sameShape_of_fillOne_ok hrun
    exact fun other hother => (h other (List.mem_cons_of_mem job hother)).of_sameShape hshape

theorem allocateRoot {arena : Arena} (h : arena.WellFormed) {fields : List DeclId}
    (hfields : ∀ id ∈ fields, id < arena.decls.size) (s : σ) :
    Allowed (arena.allocateRoot fields s).1 := by
  have hask : (Request.root fields).Admissible arena := hfields
  obtain ⟨plan, s', hplan⟩ := Request.exists_lays h hask s
  have hdecided := Request.decidedBy_of_lays hplan
  by_cases hcost : plan.cost ≤ maxUnits
  · have hgranted : arena.allocateRoot fields s = (.ok plan.field, s') := hdecided.granted hcost
    rw [hgranted]
    exact ok _
  · obtain ⟨units, hrefused⟩ := hdecided.refused (Nat.lt_of_not_le hcost)
    have hrefused : (arena.allocateRoot fields s).1 = .error (.tooLarge units) := hrefused
    rw [hrefused]
    exact error trivial

end Fill
end Allowed

/-! ## Guarded passes -/

section Pass
variable {σ : Type} [RandomSource σ]

namespace Guarded

def layOut : Guarded (Session.Pass σ) Field := fun s => do
  let program := s.session.program
  match ← allocateRoot program.arena program.fields s.source with
  | (.ok root, source) =>
    return (.ok root, ⟨{ s.session with bindings := .ofTree root }, source⟩)
  | (.error fault, source) => return (.error fault, { s with source })

def generate (past : Program.Job → Nat → Past) : Guarded (Session.Pass σ) Field := do
  let root ← layOut
  fun s => do
    let (outcome, filling) ← fill past s.session root s.source
    return (outcome.map fun _ => filling.root, { s with source := filling.source })

end Guarded

namespace Program
variable {program : Program}

/-- The steps of a tree that has the shape of one laid out for a program can all be taken. -/
theorem ready_of_fresh (h : program.Finished) {laid root : Field} (hfresh : program.arena.Fresh laid)
    (hshape : root.SameShape laid) : ∀ job ∈ jobs root, program.Ready root job := by
  intro job hjob
  rw [hshape.jobs_eq, jobs, List.mem_filterMap] at hjob
  obtain ⟨v, hv, hjob⟩ := hjob
  obtain ⟨id, hid, rfl⟩ := Option.map_eq_some_iff.mp hjob
  obtain ⟨filler, hfiller, -⟩ := h.exists_filler hfresh hv hid
  obtain ⟨tag, content, hleaf⟩ := hfresh.fillersOnLeaves v hv id hid
  have hlaid : program.Ready laid ⟨v.path, v.position, id⟩ :=
    ⟨⟨filler, hfiller⟩, tag, content, hleaf ▸ (mem_visits.mp hv).1⟩
  exact hlaid.of_sameShape hshape

end Program

namespace Session

theorem layOut_safe {pass : Pass σ} (h : pass.session.program.Finished) :
    Safe Guarded.layOut layOut pass := by
  have hallocate := Safe.allocateRoot h.wellFormed h.fields_lt pass.source
  rw [Safe, Guarded.layOut, layOut]
  dsimp only
  rw [hallocate, Option.bind_eq_bind, Option.bind_some]
  rcases pass.session.program.arena.allocateRoot pass.session.program.fields pass.source
    with ⟨_ | root, source⟩ <;> rfl

theorem layOut_allowed {pass : Pass σ} (h : pass.session.program.Finished) :
    Allowed (layOut pass).1 := by
  have hallocate := Allowed.allocateRoot h.wellFormed h.fields_lt pass.source
  rw [layOut]
  rcases hrun : pass.session.program.arena.allocateRoot pass.session.program.fields pass.source
    with ⟨fault | root, source⟩
  · rw [hrun] at hallocate
    exact hallocate
  · exact Allowed.ok root

section Fill
variable {program : Program} {laid root : Field} (h : program.Finished)
  (hfresh : program.arena.Fresh laid) (hshape : root.SameShape laid)
include h hfresh hshape

/-- A tree of a shape that was laid out for the program is filled safely, by any bindings. -/
theorem fill_safe (past : Program.Job → Nat → Guarded.Past) (bindings : Bindings) (source : σ) :
    Guarded.fill past ⟨program, bindings⟩ root source =
      some (Session.fill ⟨program, bindings⟩ root source) := by
  have hready := Program.ready_of_fresh h hfresh hshape
  exact fillAll_safe (s := ⟨root, source⟩) hready past bindings

theorem fill_allowed (bindings : Bindings) (source : σ) :
    Allowed (Session.fill ⟨program, bindings⟩ root source).1 := by
  have hready := Program.ready_of_fresh h hfresh hshape
  exact Allowed.fillAll (s := ⟨root, source⟩) hready

end Fill

theorem generate_safe {pass : Pass σ} (h : pass.session.program.Finished)
    (past : Program.Job → Nat → Guarded.Past) : Safe (Guarded.generate past) generate pass := by
  refine Safe.bind (layOut_safe h) fun laid after hlaid => ?_
  obtain ⟨hfresh, hsession⟩ := of_layOut_ok hlaid
  have hfill := fill_safe h hfresh (.refl laid) past (.ofTree laid) after.source
  rw [Safe, hsession, hfill]
  rfl

theorem generate_allowed {pass : Pass σ} (h : pass.session.program.Finished) :
    Allowed (generate pass).1 := by
  refine (layOut_allowed h).andThen fun laid after hlaid => ?_
  obtain ⟨hfresh, hsession⟩ := of_layOut_ok hlaid
  rw [hsession]
  exact (fill_allowed h hfresh (.refl laid) (.ofTree laid) after.source).map _

/-- After a script was read no operation leaves its domain on the way to bytes: laying a tree out,
generating one, filling one of a shape that was laid out, by any bindings, and reading the bytes and
the units of any field, whatever its compounds were asked before. The faults on the way are those of a
pass. -/
theorem pass_stays_in_domain {τ : Type} [RandomSource τ] {registry : Registry} {text : String}
    {program : Program} (hparse : Script.parse registry text = .ok program) (order : ByteOrder)
    (bindings : Bindings) (source : σ) (past : Program.Job → Nat → Guarded.Past) :
    let pass : Pass σ := ⟨⟨{ program with order }, bindings⟩, source⟩
    (Safe Guarded.layOut layOut pass ∧ Allowed (layOut pass).1) ∧
    (Safe (Guarded.generate past) generate pass ∧ Allowed (generate pass).1) ∧
    (∀ laid after root, layOut pass = (.ok laid, after) → root.SameShape laid →
      ∀ (latest : Bindings) (rest : τ),
        let session : Session := ⟨{ program with order }, latest⟩
        Guarded.fill past session root rest = some (session.fill root rest) ∧
        Allowed (session.fill root rest).1) ∧
    ∀ (f : Field) (reads : Guarded.Past),
      Guarded.readBytes reads f source = some (.ok f.toBytes, source) ∧
      ∀ i, Safe (Guarded.readUnit reads f i) (Attempt.check (f.get i)) source := by
  have hfinished := (Script.finished_of_parse hparse).ordered order
  refine ⟨⟨layOut_safe hfinished, layOut_allowed hfinished⟩,
    ⟨generate_safe hfinished past, generate_allowed hfinished⟩, ?_, ?_⟩
  · intro laid after root hlaid hshape latest rest
    obtain ⟨hfresh, -⟩ := of_layOut_ok hlaid
    exact ⟨fill_safe hfinished hfresh hshape past latest rest,
      fill_allowed hfinished hfresh hshape latest rest⟩
  · exact fun f reads => ⟨readBytes_eq reads f source, fun i => readUnit_safe f reads i source⟩

deriving instance DecidableEq for Program

/-- Three bytes, of which two are given, and their checksum. -/
def sampleScript : String := "block<3> data = \"\\x01\\x02\"; block<4> = crc32(data);"

theorem parse_sampleScript : Script.parse .standard sampleScript =
    .ok { sampleProgram [0, 1] with order := .big } := by
  have hread : (Script.parse .standard sampleScript).toOption =
      some { sampleProgram [0, 1] with order := .big } := by decide +kernel
  cases hparse : Script.parse .standard sampleScript with
  | error fault =>
    rw [hparse] at hread
    cases hread
  | ok program =>
    rw [hparse] at hread
    exact congrArg Except.ok (Option.some.inj hread)

/-- The hypotheses can be met, with the bytes in low-first order and compounds that were asked before
for a unit they have and for one they do not have. -/
theorem pass_stays_in_domain_sample :
    Script.parse .standard sampleScript = .ok { sampleProgram [0, 1] with order := .big } ∧
    layOut ⟨.start (sampleProgram [0, 1]), ChaCha8.ofSeed 7⟩ =
      (.ok (sampleTree [sampleData, sampleChecksum]),
        ⟨⟨sampleProgram [0, 1], .ofTree (sampleTree [sampleData, sampleChecksum])⟩,
          ChaCha8.ofSeed 7⟩) ∧
    Guarded.generate (fun _ _ _ => [2, 9]) ⟨.start (sampleProgram [0, 1]), ChaCha8.ofSeed 7⟩ =
      some (generate ⟨.start (sampleProgram [0, 1]), ChaCha8.ofSeed 7⟩) ∧
    Guarded.fill (fun _ _ _ => [2, 9]) (.start (sampleProgram [0, 1]))
        (sampleTree [sampleData, sampleChecksum]) (ChaCha8.ofSeed 8) =
      some (Session.fill (.start (sampleProgram [0, 1])) (sampleTree [sampleData, sampleChecksum])
        (ChaCha8.ofSeed 8)) := by
  have hlaid : layOut ⟨.start (sampleProgram [0, 1]), ChaCha8.ofSeed 7⟩ =
      (.ok (sampleTree [sampleData, sampleChecksum]),
        ⟨⟨sampleProgram [0, 1], .ofTree (sampleTree [sampleData, sampleChecksum])⟩,
          ChaCha8.ofSeed 7⟩) := rfl
  obtain ⟨-, ⟨hgenerate, -⟩, hfill, -⟩ := pass_stays_in_domain (τ := ChaCha8) parse_sampleScript
    .little .empty (ChaCha8.ofSeed 7) fun _ _ _ => [2, 9]
  obtain ⟨hfill, -⟩ := hfill _ _ _ hlaid (.refl _) .empty (ChaCha8.ofSeed 8)
  exact ⟨parse_sampleScript, hlaid, hgenerate, hfill⟩

end Session
end Pass
end ArtifactLayout
