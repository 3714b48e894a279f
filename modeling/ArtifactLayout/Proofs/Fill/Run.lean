import ArtifactLayout.Proofs.Fill.Step

/-! # Filling a tree

The fields of a tree are filled in pre-order by steps that write leaves. What a run of steps does not
write stays; in particular a field that is complete before a step is never written again. A run
ends at the first field with a fault, or fills all fields if there is none.
-/

namespace ArtifactLayout
set_option autoImplicit false

open ArtifactLayout.Field

/-- Fillers stand on leaves alone. -/
def Field.FillersOnLeaves (root : Field) : Prop :=
  ∀ v ∈ root.visits, ∀ id, v.field.filler = some id → ∃ tag content, v.field = .leaf tag content

/-- What filling some visited fields keeps: the shape of the tree, and every field that has none of
them within it. -/
structure Frame (vs : List Visit) (before after : Field) : Prop where
  shape : after.SameShape before
  at_eq : ∀ path, (∀ v ∈ vs, ¬ path <+: v.path) → after.at? path = before.at? path

namespace Frame
variable {vs ws : List Visit} {f g h : Field}

theorem refl (vs : List Visit) (f : Field) : Frame vs f f := ⟨.refl f, fun _ _ => rfl⟩

theorem trans (first : Frame vs f g) (second : Frame ws g h) : Frame (vs ++ ws) f h := by
  constructor
  · exact second.shape.trans first.shape
  · intro path hpath
    rw [second.at_eq path fun v hv => hpath v (List.mem_append_right vs hv),
      first.at_eq path fun v hv => hpath v (List.mem_append_left ws hv)]

theorem of_leaf {v : Visit} {path : List Nat} (hpath : v.path = path) {tag : Tag} {content : Leaf}
    (hat : f.at? path = some (.leaf tag content)) (units : List UInt8) :
    Frame [v] f (f.modifyAt (fun _ => .leaf tag (content.withUnits units)) path) := by
  have hshape : (Field.leaf tag (content.withUnits units)).SameShape (.leaf tag content) := by
    rw [SameShape, Field.blank, Field.blank, Leaf.blank_withUnits]
  constructor
  · exact sameShape_modifyAt hat hshape
  · intro q hq
    exact at?_modifyAt_of_not_below hat (hpath ▸ hq v List.mem_cons_self)

end Frame

/-! ## The order of a walk -/

section Order
variable {root : Field} {done rest : List Visit} {v w : Visit}

/-- What comes later in a walk does not contain what came earlier. -/
theorem not_prefix_of_earlier (hsplit : root.visits = done ++ rest) (hw : w ∈ rest) :
    ∀ u ∈ done, ¬ w.path <+: u.path := by
  intro u hu hbelow
  have hordered := root.pairwise_position_visits
  rw [hsplit, List.pairwise_append] at hordered
  have hlt : u.position < w.position := hordered.2.2 u hu w hw
  have hwroot : w ∈ root.visits := hsplit ▸ List.mem_append_right done hw
  have huroot : u ∈ root.visits := hsplit ▸ List.mem_append_left rest hu
  obtain ⟨-, hwpos⟩ := mem_visits.mp hwroot
  obtain ⟨-, hupos⟩ := mem_visits.mp huroot
  obtain ⟨q, hq⟩ := hbelow
  have hat := (mem_visits.mp hwroot).1
  rw [hupos, ← hq, ordinal_append hat] at hlt
  omega

/-- What is complete before a field contains neither it nor anything that comes after it. -/
theorem not_prefix_of_complete (hsplit : root.visits = done ++ v :: rest) (hw : w ∈ root.visits)
    (hcomplete : w.position + w.field.nodeCount ≤ v.position) :
    ∀ u ∈ v :: rest, ¬ w.path <+: u.path := by
  intro u hu hbelow
  have hordered := root.pairwise_position_visits
  rw [hsplit, List.pairwise_append] at hordered
  have hle : v.position ≤ u.position := by
    obtain rfl | hu := List.mem_cons.mp hu
    · exact Nat.le_refl _
    · exact Nat.le_of_lt (List.rel_of_pairwise_cons hordered.2.1 hu)
  have huroot : u ∈ root.visits := hsplit ▸ List.mem_append_right done hu
  have hlt := position_lt_of_below hw huroot hbelow
  omega

/-- A leaf contains nothing that comes after it. -/
theorem not_prefix_of_leaf (hsplit : root.visits = done ++ v :: rest) {tag : Tag} {content : Leaf}
    (hleaf : v.field = .leaf tag content) : ∀ u ∈ rest, ¬ v.path <+: u.path := by
  intro u hu hbelow
  have hordered := root.pairwise_position_visits
  rw [hsplit, List.pairwise_append] at hordered
  have hlt : v.position < u.position := List.rel_of_pairwise_cons hordered.2.1 hu
  have hv : v ∈ root.visits := hsplit ▸ List.mem_append_right done List.mem_cons_self
  have huroot : u ∈ root.visits :=
    hsplit ▸ List.mem_append_right done (List.mem_cons_of_mem v hu)
  have hbound := position_lt_of_below hv huroot hbelow
  rw [hleaf, nodeCount] at hbound
  omega

end Order

/-! ## Runs -/

section Runs
variable {σ : Type} [RandomSource σ] {program : Program} {laid : Field}

theorem fillAll_append (bindings : Bindings) (first second : List Program.Job) :
    (program.fillAll bindings (first ++ second) : Attempt (Program.Filling σ) Unit) =
      (program.fillAll bindings first >>= fun _ => program.fillAll bindings second) := by
  induction first with
  | nil => rfl
  | cons job first ih =>
    rw [List.cons_append, Program.fillAll, Program.fillAll, ih, bind_assoc]

theorem exists_step (hleaves : laid.FillersOnLeaves) {root : Field} (s : root.SameShape laid)
    {v : Visit} (hv : v ∈ laid.visits) {id : FillerId} (hid : v.field.filler = some id) :
    ∃ w ∈ root.visits, w.blank = v.blank ∧ w.job id = v.job id ∧ w.field.filler = some id ∧
      ∃ tag content, w.field = .leaf tag content := by
  obtain ⟨w, hw, hblank⟩ := s.symm.exists_visit hv
  refine ⟨w, hw, hblank, ?_, (Visit.sameShape hblank).filler_eq.trans hid, ?_⟩
  · rw [Visit.job, Visit.job, Visit.path_eq hblank, Visit.position_eq hblank]
  · obtain ⟨tag, content, hleaf⟩ := hleaves v hv id hid
    exact (hleaf ▸ Visit.sameShape hblank).exists_leaf

/-- Fields without a fault are filled one after the other. -/
theorem fillAll_of_sound (hleaves : laid.FillersOnLeaves) {vs : List Visit}
    (hvs : ∀ v ∈ vs, v ∈ laid.visits) (hsound : ∀ v ∈ vs, program.faultAt laid v = none)
    {root : Field} (s : root.SameShape laid) (source : σ) :
    ∃ filled source', program.fillAll (.ofTree laid) (Program.jobsOf vs) ⟨root, source⟩ =
      (.ok (), ⟨filled, source'⟩) ∧ Frame vs root filled := by
  -- each step leaves a tree of the shape that was laid out, which is all that the others need
  induction vs generalizing root source with
  | nil => exact ⟨root, source, rfl, .refl [] root⟩
  | cons v vs ih =>
    have hvs' : ∀ w ∈ vs, w ∈ laid.visits := fun w hw => hvs w (List.mem_cons_of_mem v hw)
    have hsound' : ∀ w ∈ vs, program.faultAt laid w = none :=
      fun w hw => hsound w (List.mem_cons_of_mem v hw)
    cases hfiller : v.field.filler with
    | none =>
      obtain ⟨filled, source', hrun, hframe⟩ := ih hvs' hsound' s source
      rw [Program.jobsOf_cons_of_none hfiller]
      exact ⟨filled, source', hrun, (Frame.refl [v] root).trans hframe⟩
    | some id =>
      have hv := hvs v List.mem_cons_self
      obtain ⟨w, hw, hblank, hjob, hid, tag, content, hleaf⟩ := exists_step hleaves s hv hfiller
      have hnone : program.faultAt root w = none := by
        rw [s.faultAt_eq program hblank, hsound v List.mem_cons_self]
      obtain ⟨filler, units, source₁, -, -, -, -, hstep⟩ :=
        fillOne_of_sound hw hid hleaf hnone source
      have hat : root.at? w.path = some (.leaf tag content) := hleaf ▸ (mem_visits.mp hw).1
      have hpath : v.path = w.path := congrArg Program.Job.path hjob.symm
      have hframe₁ := Frame.of_leaf hpath hat units
      obtain ⟨filled, source', hrun, hframe⟩ :=
        ih hvs' hsound' (hframe₁.shape.trans s) source₁
      refine ⟨filled, source', ?_, hframe₁.trans hframe⟩
      rw [Program.jobsOf_cons_of_some hfiller, ← hjob, Program.fillAll,
        Attempt.bind_of_ok (s.ofTree_eq ▸ hstep)]
      exact hrun

/-- A run ends at the first field with a fault. -/
theorem fill_of_fault (hleaves : laid.FillersOnLeaves) {done rest : List Visit} {v : Visit}
    (hsplit : laid.visits = done ++ v :: rest) (hdone : ∀ w ∈ done, program.faultAt laid w = none)
    {fault : Fault} (hfault : program.faultAt laid v = some fault) {root : Field}
    (s : root.SameShape laid) (source : σ) :
    ∃ filled source', program.fillAll (.ofTree laid) (Program.jobsOf done) ⟨root, source⟩ =
        (.ok (), ⟨filled, source'⟩) ∧
      program.fill (.ofTree laid) root source = (.error fault, ⟨filled, source'⟩) ∧
      Frame done root filled := by
  have hmem : ∀ w ∈ done, w ∈ laid.visits := fun w hw => hsplit ▸ List.mem_append_left _ hw
  obtain ⟨filled, source', hrun, hframe⟩ := fillAll_of_sound hleaves hmem hdone s source
  refine ⟨filled, source', hrun, ?_, hframe⟩
  have hv : v ∈ laid.visits := hsplit ▸ List.mem_append_right done List.mem_cons_self
  have sfilled := hframe.shape.trans s
  -- a field with a fault has a filler, and its step sees the fault in the tree as it is by now
  cases hfiller : v.field.filler with
  | none =>
    rw [Program.faultAt, hfiller] at hfault
    cases hfault
  | some id =>
    obtain ⟨w, hw, hblank, hjob, hid, -⟩ := exists_step hleaves sfilled hv hfiller
    have hstep : program.fillOne (.ofTree laid) (v.job id) ⟨filled, source'⟩ =
        (.error fault, ⟨filled, source'⟩) := by
      rw [← hjob, ← sfilled.ofTree_eq]
      refine fillOne_of_fault hw hid ?_ source'
      rw [sfilled.faultAt_eq program hblank, hfault]
    rw [Program.fill, s.jobs_eq, Program.jobs_eq, hsplit, Program.jobsOf_append,
      Program.jobsOf_cons_of_some hfiller, fillAll_append, Attempt.bind_of_ok hrun, Program.fillAll,
      Attempt.bind_of_error hstep]

end Runs
end ArtifactLayout
