import ArtifactLayout.Proofs.Fill.Run
import ArtifactLayout.Proofs.Guarded.Filler

/-! # Guarded filling

The fill of a tree with its lookups in the arena guarded, and all that its fillers read. A step writes
a leaf and leaves a tree of the same shape, so that what the steps after it look up is still there.
-/

namespace ArtifactLayout
set_option autoImplicit false

open ArtifactLayout.Field

variable {σ : Type} [RandomSource σ]

/-! ## Guarded steps of a fill -/

/-- What the filler of a step sees. -/
def Program.Job.view (program : Program) (bindings : Bindings) (root : Field) (job : Program.Job) :
    View :=
  ⟨root, ⟨program.names, bindings⟩, job.path, job.position, program.order⟩

namespace Guarded

def contentOf (past : Nat → Past) (program : Program) (bindings : Bindings) (job : Program.Job) :
    Guarded (Program.Filling σ) (Field × List UInt8) := fun s =>
  match s.root.at? job.path with
  | none => some (.error (.unbound (placeText job.path)), s)
  | some target => do
    let filler ← program.arena.fillers[job.filler]?
    let view := job.view program bindings s.root
    let (outcome, source) ← produce past view target filler s.source
    return (outcome.map fun units => (target, units), { s with source })

def fillOne (past : Nat → Past) (program : Program) (bindings : Bindings) (job : Program.Job) :
    Guarded (Program.Filling σ) Unit := do
  let (target, units) ← contentOf past program bindings job
  let written ← Guarded.write target units
  attempt (modify fun s => { s with root := s.root.modifyAt (fun _ => written) job.path })

/-- The steps of a fill, each read of which comes after lookups of its own. -/
def fillAll (past : Program.Job → Nat → Past) (program : Program) (bindings : Bindings) :
    List Program.Job → Guarded (Program.Filling σ) Unit
  | [] => return ()
  | job :: rest => do
    fillOne (past job) program bindings job
    fillAll past program bindings rest

def fill (past : Program.Job → Nat → Past) (session : Session) (root : Field) (source : σ) :
    Option (Except Fault Unit × Program.Filling σ) :=
  fillAll past session.program session.bindings (Program.jobs root) ⟨root, source⟩

end Guarded

/-! ## Safety -/

/-- A step that can be taken on a tree: it is at a leaf, and its filler is there. -/
structure Program.Ready (program : Program) (root : Field) (job : Program.Job) : Prop where
  filler : ∃ filler, program.arena.fillers[job.filler]? = some filler
  leaf : ∃ tag content, root.at? job.path = some (.leaf tag content)

namespace Program.Ready
variable {program : Program} {job : Program.Job} {s : Program.Filling σ}

omit [RandomSource σ] in
theorem of_sameShape {f g : Field} (hshape : f.SameShape g) (h : program.Ready g job) :
    program.Ready f job := by
  obtain ⟨tag, content, hat⟩ := h.leaf
  obtain ⟨field, hfield, hsame⟩ := hshape.symm.at? hat
  obtain ⟨tag', content', rfl⟩ := hsame.symm.exists_leaf
  exact ⟨h.filler, tag', content', hfield⟩

/-- A step finds its leaf and its filler, and draws from the source alone. -/
theorem contentOf_apply (h : program.Ready s.root job) (past : Nat → Guarded.Past)
    (bindings : Bindings) :
    ∃ tag content, s.root.at? job.path = some (.leaf tag content) ∧
    ∃ (outcome : Except Fault (List UInt8)) (source : σ),
      program.contentOf bindings job s =
        (outcome.map fun units => (.leaf tag content, units), { s with source }) ∧
      Guarded.contentOf past program bindings job s =
        some (outcome.map fun units => (.leaf tag content, units), { s with source }) := by
  obtain ⟨tag, content, hat⟩ := h.leaf
  obtain ⟨filler, hfiller⟩ := h.filler
  have hproduce :=
    produce_safe past (job.view program bindings s.root) (.leaf tag content) filler s.source
  rcases hrun : filler.produce (job.view program bindings s.root) (.leaf tag content) s.source
    with ⟨outcome, source⟩
  rw [Safe, hrun] at hproduce
  refine ⟨tag, content, hat, outcome, source, ?_, ?_⟩
  · rw [Program.contentOf, hat]
    dsimp only
    rw [hfiller]
    dsimp only
    rw [← Program.Job.view, hrun]
  · rw [Guarded.contentOf, hat]
    dsimp only
    rw [hfiller, Option.bind_eq_bind, Option.bind_some, Option.bind_eq_bind, hproduce,
      Option.bind_some]
    rfl

theorem fillOne_safe (h : program.Ready s.root job) (past : Nat → Guarded.Past)
    (bindings : Bindings) :
    Safe (Guarded.fillOne past program bindings job) (program.fillOne bindings job) s := by
  obtain ⟨tag, content, -, outcome, source, hplain, hguarded⟩ := h.contentOf_apply past bindings
  refine Safe.bind (hguarded.trans (congrArg some hplain.symm)) fun found s' hrun => ?_
  rw [hplain] at hrun
  cases outcome with
  | error fault => cases hrun
  | ok units =>
    cases hrun
    exact Safe.bind (write_safe tag content units _) fun written s' _ => Safe.of_attempt _ s'

/-- A step that is done leaves a tree of the same shape. -/
theorem sameShape_of_fillOne_ok (h : program.Ready s.root job) {bindings : Bindings}
    {s' : Program.Filling σ} (hrun : program.fillOne bindings job s = (.ok (), s')) :
    s'.root.SameShape s.root := by
  obtain ⟨tag, content, hat, outcome, source, hplain, -⟩ :=
    h.contentOf_apply (fun _ _ => []) bindings
  obtain ⟨⟨target, units⟩, t, hcontent, hrest⟩ := Attempt.of_bind_ok hrun
  rw [hplain] at hcontent
  cases outcome with
  | error fault => cases hcontent
  | ok units' =>
    cases hcontent
    obtain ⟨written, t', hwrite, hmodify⟩ := Attempt.of_bind_ok hrest
    rw [Attempt.check_apply, Field.write] at hwrite
    split at hwrite
    · cases hwrite
    · cases hwrite
      cases hmodify
      exact (Frame.of_leaf (v := ⟨job.path, 0, .leaf tag content⟩) rfl hat units).shape

end Program.Ready

section Fill
variable {program : Program} {jobs : List Program.Job} {s : Program.Filling σ}

/-- Steps that can all be taken on a tree are safe one after the other. -/
theorem fillAll_safe (h : ∀ job ∈ jobs, program.Ready s.root job)
    (past : Program.Job → Nat → Guarded.Past) (bindings : Bindings) :
    Safe (Guarded.fillAll past program bindings jobs) (program.fillAll bindings jobs) s := by
  induction jobs generalizing s with
  | nil => exact Safe.pure () s
  | cons job jobs ih =>
    have hready := h job List.mem_cons_self
    refine Safe.bind (hready.fillOne_safe (past job) bindings) fun _ s' hrun => ih ?_
    have hshape := hready.sameShape_of_fillOne_ok hrun
    exact fun other hother => (h other (List.mem_cons_of_mem job hother)).of_sameShape hshape

end Fill
end ArtifactLayout
