import ArtifactLayout.Proofs.Fill.Failure

/-! # Filled trees agree with their fillers

A filler reads the tree while it is being filled. All that it reads of content is complete by then and
never written again, and sizes and numbers of children never change, so what it gave is also what
it would give on the finished tree.
-/

namespace ArtifactLayout
set_option autoImplicit false

open ArtifactLayout.Field

/-- A field of a finished tree has the content that its filler takes from the finished tree. -/
def Filler.Holds (root : Field) (order : ByteOrder) (v : Visit) : Filler → Prop
  | constant content => asUnits content v.field.unitBits <+: v.field.units
  | random | randomUnits => True
  | digest _ algorithm sources =>
    ∃ read, sources.mapM (root.nearest? · v.path) = some read ∧
      asUnits (algorithm.digest (read.flatMap fun w => w.field.toBytes)).toList v.field.unitBits <+:
        v.field.units
  | quantity q =>
    ∃ n, q.value? root order v = some n ∧ v.field.units = unitsOfNumber order n v.field

/-! ## Units that a leaf keeps -/

namespace Leaf

theorem map_kept_asUnits (l : Leaf) (bytes : List UInt8) :
    (asUnits bytes l.unitBits).map l.kept = asUnits bytes l.unitBits := by
  rw [asUnits]
  split
  · rw [List.map_map]
    exact List.map_congr_left fun b _ => l.kept_toUInt8 b
  · rename_i hbits
    rw [List.map_congr_left fun unit _ => kept_of_unitBits hbits unit, List.map_id']

@[simp] theorem unitBits_withUnits (l : Leaf) (us : List UInt8) :
    (l.withUnits us).unitBits = l.unitBits := by
  cases l <;> rfl

theorem units_blank (l : Leaf) : l.blank.units = List.replicate l.size 0 := by
  cases l with
  | block content => exact Array.toList_replicate
  | ranged low high content => exact Array.toList_replicate
  | bitfield content =>
    rw [blank, units, Array.toList_replicate, List.map_replicate]
    rfl

end Leaf

theorem Filler.holds_of_gives {root : Field} {order : ByteOrder} {v : Visit} {tag : Tag}
    {content : Leaf} {units : List UInt8} (hleaf : v.field = .leaf tag (content.withUnits units))
    (hfits : units.length ≤ content.size) {filler : Filler}
    (hreach : units.length = filler.reach v.field) (h : filler.Gives root order v units) :
    filler.Holds root order v := by
  have hunits : v.field.units = units.map content.kept ++ content.units.drop units.length := by
    rw [hleaf, Field.units]
    exact content.units_withUnits hfits
  have hbits : v.field.unitBits = content.unitBits := by
    rw [hleaf, Field.unitBits, content.unitBits_withUnits]
  cases filler with
  | constant bytes =>
    have h : units = asUnits bytes v.field.unitBits := h
    have hkept : units.map content.kept = units := by rw [h, hbits, content.map_kept_asUnits]
    rw [hkept] at hunits
    exact ⟨content.units.drop units.length, by rw [hunits, ← h]⟩
  | random => trivial
  | randomUnits => trivial
  | digest name algorithm sources =>
    obtain ⟨read, hread, h⟩ := h
    have hkept : units.map content.kept = units := by rw [h, hbits, content.map_kept_asUnits]
    rw [hkept] at hunits
    exact ⟨read, hread, content.units.drop units.length, by rw [hunits, ← h]⟩
  | quantity q =>
    obtain ⟨n, hn, h⟩ := h
    have hkept : units.map content.kept = units := by
      rw [h, unitsOfNumber, hbits, content.map_kept_numberUnits]
    have hsize : v.field.size = content.size := by
      rw [hleaf, Field.size, ← Leaf.size_blank, content.blank_withUnits, Leaf.size_blank]
    have hrest : content.units.drop units.length = [] := by
      refine List.drop_eq_nil_of_le ?_
      rw [content.length_units, hreach, Filler.reach]
      exact Nat.le_of_eq hsize.symm
    exact ⟨n, hn, by rw [hunits, hkept, hrest, List.append_nil, h]⟩

theorem Filler.Gives.of_blank {root : Field} {order : ByteOrder} {v w : Visit}
    (hblank : v.blank = w.blank) {filler : Filler} {units : List UInt8}
    (h : filler.Gives root order w units) : filler.Gives root order v units := by
  have hpath := Visit.path_eq hblank
  have hbits := (Visit.sameShape hblank).unitBits_eq
  have hsize := (Visit.sameShape hblank).size_eq
  cases filler with
  | constant content =>
    rw [Filler.Gives, hbits]
    exact h
  | random => trivial
  | randomUnits => trivial
  | digest name algorithm sources =>
    rw [Filler.Gives, hpath, hbits]
    exact h
  | quantity q =>
    obtain ⟨n, hn, hunits⟩ := h
    refine ⟨n, ?_, ?_⟩
    · rw [← hn]
      cases q <;> simp only [Quantity.value?, hpath]
    · rw [hunits, unitsOfNumber, unitsOfNumber, hbits, hsize]

/-! ## From the tree that was read to the finished one -/

section Transport
variable {names : Names} {order : ByteOrder} {before after : Field} {v w : Visit}

/-- The finished tree as it is seen from a field that was filled on the way: it has the same shape,
and what was complete then is still the same. -/
structure Settled (before after : Field) (v : Visit) : Prop where
  shape : before.SameShape after
  at_eq : ∀ u ∈ before.visits, u.position + u.field.nodeCount ≤ v.position →
    after.at? u.path = some u.field

theorem Settled.nearest?_eq (s : Settled before after v) {id : FieldId}
    (h : contentFault names before v id = none) :
    after.nearest? id v.path = before.nearest? id v.path := by
  obtain ⟨u, hu, hcomplete⟩ := contentFault_eq_none.mp h
  rw [hu]
  exact s.shape.nearest?_of_at? hu (s.at_eq u (mem_of_nearest? hu).1 hcomplete)

theorem Settled.value?_eq (s : Settled before after v) {q : Quantity}
    (h : q.fault names before v = none) : q.value? after order v = q.value? before order v := by
  cases q with
  | constant value => rfl
  | sizeOf source =>
    rw [Quantity.value?, Quantity.value?]
    cases hn : before.nearest? source v.path with
    | none => rw [s.shape.nearest?_eq_none.mp hn]
    | some u =>
      obtain ⟨u', hu', hblank⟩ := s.shape.nearest? hn
      rw [hu', Option.map_some, Option.map_some, (Visit.sameShape hblank).size_eq]
  | countOf source =>
    rw [Quantity.value?, Quantity.value?]
    cases hn : before.nearest? source v.path with
    | none => rw [s.shape.nearest?_eq_none.mp hn]
    | some u =>
      obtain ⟨u', hu', hblank⟩ := s.shape.nearest? hn
      rw [hu', Option.map_some, Option.map_some, (Visit.sameShape hblank).length_children_eq]
  | checksumOf source => rw [Quantity.value?, Quantity.value?, s.nearest?_eq h]
  | numberIn source => rw [Quantity.value?, Quantity.value?, s.nearest?_eq h]

/-- What a filler gave on the way is what it gives on the finished tree. -/
theorem Settled.gives (s : Settled before after v) {filler : Filler}
    (hfault : filler.fault names before v = none) {units : List UInt8}
    (h : filler.Gives before order v units) : filler.Gives after order v units := by
  cases filler with
  | constant content => exact h
  | random => trivial
  | randomUnits => trivial
  | digest name algorithm sources =>
    obtain ⟨hread, -⟩ := Option.or_eq_none_iff.mp hfault
    have heach := List.findSome?_eq_none_iff.mp hread
    obtain ⟨read, hmap, hunits⟩ := h
    refine ⟨read, ?_, hunits⟩
    rw [← hmap]
    clear hmap hread hfault
    induction sources with
    | nil => rfl
    | cons source sources ih =>
      rw [List.mapM_cons, List.mapM_cons, s.nearest?_eq (heach source List.mem_cons_self),
        ih fun id hid => heach id (List.mem_cons_of_mem source hid)]
  | quantity q =>
    obtain ⟨n, hvalue, hunits⟩ := h
    exact ⟨n, (s.value?_eq hfault).trans hvalue, hunits⟩

end Transport

/-! ## Whole fills -/

section Whole
variable {σ : Type} [RandomSource σ] {program : Program} {laid root : Field}

theorem sameShape_of_fill_ok (hleaves : laid.FillersOnLeaves) (s : root.SameShape laid) {source : σ}
    {final : Program.Filling σ} (h : program.fill (.ofTree laid) root source = (.ok (), final)) :
    final.root.SameShape laid := by
  obtain ⟨filled, source', hrun, hframe⟩ :=
    fill_of_sound hleaves (sound_of_fill_ok hleaves s h) s source
  obtain rfl : (⟨filled, source'⟩ : Program.Filling σ) = final :=
    (Prod.mk.inj (hrun.symm.trans h)).2
  exact hframe.shape.trans s

/-- What is left of a tree after its fields up to a given one were filled is settled for that field
once the others are filled too. -/
theorem settled_of_frame {done rest : List Visit} {v w : Visit} {before after : Field}
    (hsplit : laid.visits = done ++ v :: rest) (sbefore : before.SameShape laid)
    (hposition : w.position = v.position) (hframe : Frame (v :: rest) before after) :
    Settled before after w := by
  constructor
  · exact hframe.shape.symm
  · intro u hu hcomplete
    -- positions and numbers of fields are the same in all trees of the shape
    obtain ⟨u', hu', hblank⟩ := sbefore.exists_visit hu
    have hstart := Visit.position_eq hblank
    have hcount := (Visit.sameShape hblank).nodeCount_eq
    have hpaths := not_prefix_of_complete hsplit hu' (by omega)
    rw [Visit.path_eq hblank] at hpaths
    rw [hframe.at_eq u.path hpaths]
    exact (mem_visits.mp hu).1

/-- How a field `v` of a finished tree came by its content: it was `w` in the tree `before`, for which
the filler gave units; they were written into it, and it was not touched before or after. -/
structure Wrote (program : Program) (root before final : Field) (w v : Visit) (filler : Filler)
    (units : List UInt8) : Prop where
  blank_eq : v.blank = w.blank
  settled : Settled before final w
  fault_eq : filler.fault program.names before w = none
  gives : filler.Gives before program.order w units
  reach_eq : units.length = filler.reach w.field
  fits : units.length ≤ w.field.size
  content_eq : ∃ tag content, w.field = .leaf tag content ∧
    v.field = .leaf tag (content.withUnits units)
  old_eq : root.at? v.path = some w.field

theorem exists_wrote (hleaves : laid.FillersOnLeaves) (s : root.SameShape laid) {source : σ}
    {final : Program.Filling σ} (h : program.fill (.ofTree laid) root source = (.ok (), final))
    {v : Visit} (hv : v ∈ final.root.visits) {id : FillerId} (hid : v.field.filler = some id) :
    ∃ before w filler units, program.arena.fillers[id]? = some filler ∧
      Wrote program root before final.root w v filler units := by
  have hsound := sound_of_fill_ok hleaves s h
  obtain ⟨u, hu, hblank⟩ := (sameShape_of_fill_ok hleaves s h).exists_visit hv
  have hfiller : u.field.filler = some id := (Visit.sameShape hblank).filler_eq.trans hid
  -- the place of the field in the walk splits the run: what comes before it, its step, and the rest
  obtain ⟨done, rest, hsplit⟩ := List.append_of_mem hu
  have hdone : ∀ w ∈ done, w ∈ laid.visits := fun w hw => hsplit ▸ List.mem_append_left _ hw
  have hrest : ∀ w ∈ rest, w ∈ laid.visits :=
    fun w hw => hsplit ▸ List.mem_append_right _ (List.mem_cons_of_mem u hw)
  obtain ⟨before, source₁, hrun₁, hframe₁⟩ :=
    fillAll_of_sound hleaves hdone (fun w hw => hsound w (hdone w hw)) s source
  have s₁ := hframe₁.shape.trans s
  obtain ⟨w, hw, hwblank, hwjob, hwid, tag, content, hleaf⟩ := exists_step hleaves s₁ hu hfiller
  have hnone : program.faultAt before w = none := by
    rw [s₁.faultAt_eq program hwblank, hsound u hu]
  obtain ⟨filler, units, source₂, hlookup, hgives, hreach, hfits, hstep⟩ :=
    fillOne_of_sound hw hwid hleaf hnone source₁
  have hat : before.at? w.path = some (.leaf tag content) := hleaf ▸ (mem_visits.mp hw).1
  have hframe₂ := Frame.of_leaf (Visit.path_eq hwblank).symm hat units
  obtain ⟨after, source₃, hrun₃, hframe₃⟩ := fillAll_of_sound hleaves hrest
    (fun w hw => hsound w (hrest w hw)) (hframe₂.shape.trans s₁) source₂
  have hrun : program.fill (.ofTree laid) root source = (.ok (), ⟨after, source₃⟩) := by
    rw [s₁.ofTree_eq, hwjob] at hstep
    rw [Program.fill, s.jobs_eq, Program.jobs_eq, hsplit, Program.jobsOf_append,
      Program.jobsOf_cons_of_some hfiller, fillAll_append, Attempt.bind_of_ok hrun₁,
      Program.fillAll, Attempt.bind_of_ok hstep, hrun₃]
  obtain rfl : (⟨after, source₃⟩ : Program.Filling σ) = final :=
    (Prod.mk.inj (hrun.symm.trans h)).2
  have hvw : v.blank = w.blank := hblank.symm.trans hwblank.symm
  have hpath : v.path = w.path := Visit.path_eq hvw
  refine ⟨before, w, filler, units, hlookup, hvw, ?_, ?_, hgives, hreach, hfits, ?_, ?_⟩
  · exact settled_of_frame hsplit s₁ (Visit.position_eq hwblank) (hframe₂.trans hframe₃)
  · exact fault_of_faultAt hnone hwid hlookup
  -- no field has a later one within it, since those that are filled are leaves
  · obtain ⟨utag, ucontent, huleaf⟩ := hleaves u hu id hfiller
    have hlater := hframe₃.at_eq u.path (not_prefix_of_leaf hsplit huleaf)
    rw [Visit.path_eq hblank, (mem_visits.mp hv).1, hpath, at?_modifyAt_self _ hat] at hlater
    exact ⟨tag, content, hleaf, Option.some.inj hlater⟩
  · have hearlier := hframe₁.at_eq u.path (not_prefix_of_earlier hsplit List.mem_cons_self)
    rw [Visit.path_eq hblank, hpath, hat] at hearlier
    rw [hpath, ← hearlier, hleaf]

namespace Wrote
variable {before final : Field} {w v : Visit} {filler : Filler} {units : List UInt8}

theorem reach_eq_final (h : Wrote program root before final w v filler units) :
    units.length = filler.reach v.field := by
  rw [h.reach_eq, (Visit.sameShape h.blank_eq).reach_eq filler]

theorem holds (h : Wrote program root before final w v filler units) :
    filler.Holds final program.order v := by
  obtain ⟨tag, content, hleaf, hwritten⟩ := h.content_eq
  have hfits : units.length ≤ content.size := by
    have hfits := h.fits
    rwa [hleaf, Field.size] at hfits
  have hgives := (h.settled.gives h.fault_eq h.gives).of_blank h.blank_eq
  exact Filler.holds_of_gives hwritten hfits h.reach_eq_final hgives

theorem drop_units_eq (h : Wrote program root before final w v filler units) :
    v.field.units.drop (filler.reach v.field) = w.field.units.drop (filler.reach v.field) := by
  obtain ⟨tag, content, hleaf, hwritten⟩ := h.content_eq
  have hfits : units.length ≤ content.size := by
    have hfits := h.fits
    rwa [hleaf, Field.size] at hfits
  have hlength : (units.map content.kept).length = units.length := List.length_map _
  rw [← h.reach_eq_final, hwritten, hleaf, Field.units, Field.units, content.units_withUnits hfits,
    ← hlength, List.drop_left]

end Wrote

end Whole

/-! ## Passes -/

theorem Arena.Fresh.units_eq_zero {arena : Arena} {laid : Field} (h : arena.Fresh laid) {v : Visit}
    (hv : v ∈ laid.visits) (hid : v.field.filler.isSome) : ∀ unit ∈ v.field.units, unit = 0 := by
  obtain ⟨id, hid⟩ := Option.isSome_iff_exists.mp hid
  obtain ⟨tag, content, hleaf⟩ := h.fillersOnLeaves v hv id hid
  have hat := (mem_visits.mp hv).1
  have hblank : v.field.blank = v.field := by
    have hmap := at?_blank laid v.path
    rw [h.blank_eq, hat, Option.map_some] at hmap
    exact (Option.some.inj hmap).symm
  rw [hleaf, Field.blank] at hblank
  injection hblank with _ hcontent
  intro unit hunit
  rw [hleaf, Field.units, ← hcontent, content.units_blank] at hunit
  exact (List.mem_replicate.mp hunit).2

namespace Session
variable {σ τ : Type} [RandomSource σ] [RandomSource τ]

/-- Filling a tree of the shape that was laid out last leaves each field with a filler in agreement
with the finished tree: its content is what its filler takes from the finished tree, and past that
content it is what it was before, which is zero in the tree that was laid out. -/
theorem fill_consistent {pass after : Pass σ} {laid root : Field} {source : τ}
    {final : Program.Filling τ} (hlaid : layOut pass = (.ok laid, after)) (s : root.SameShape laid)
    (hfill : after.session.fill root source = (.ok (), final)) :
    final.root.SameShape laid ∧
    (∀ v ∈ laid.visits, v.field.filler.isSome → ∀ unit ∈ v.field.units, unit = 0) ∧
    ∀ v ∈ final.root.visits, ∀ id, v.field.filler = some id →
      ∃ filler old, pass.session.program.arena.fillers[id]? = some filler ∧
        filler.Holds final.root pass.session.program.order v ∧ root.at? v.path = some old ∧
        v.field.units.drop (filler.reach v.field) = old.units.drop (filler.reach v.field) := by
  obtain ⟨hfresh, hsession⟩ := of_layOut_ok hlaid
  rw [Session.fill, hsession] at hfill
  have hleaves := hfresh.fillersOnLeaves
  refine ⟨sameShape_of_fill_ok hleaves s hfill, fun v hv hid => hfresh.units_eq_zero hv hid, ?_⟩
  intro v hv id hid
  obtain ⟨before, w, filler, units, hfiller, hwrote⟩ := exists_wrote hleaves s hfill hv hid
  exact ⟨filler, w.field, hfiller, hwrote.holds, hwrote.old_eq, hwrote.drop_units_eq⟩

/-- The hypotheses can be met: after the given bytes stands the checksum, low byte first. -/
theorem fill_consistent_sample :
    ∃ final : Program.Filling ChaCha8,
      layOut ⟨.start (sampleProgram [0, 1]), ChaCha8.ofSeed 7⟩ =
        (.ok (sampleTree [sampleData, sampleChecksum]),
          ⟨⟨sampleProgram [0, 1], .ofTree (sampleTree [sampleData, sampleChecksum])⟩,
            ChaCha8.ofSeed 7⟩) ∧
      (⟨sampleProgram [0, 1], .ofTree (sampleTree [sampleData, sampleChecksum])⟩ : Session).fill
        (sampleTree [sampleData, sampleChecksum]) (ChaCha8.ofSeed 7) = (.ok (), final) ∧
      final.root.units = [1, 2, 0, 0xa7, 0xd1, 0xb5, 0xcc] ∧
      ∀ v ∈ final.root.visits, ∀ id, v.field.filler = some id →
        ∃ filler old, (sampleProgram [0, 1]).arena.fillers[id]? = some filler ∧
          filler.Holds final.root .little v ∧
          (sampleTree [sampleData, sampleChecksum]).at? v.path = some old ∧
          v.field.units.drop (filler.reach v.field) = old.units.drop (filler.reach v.field) := by
  have hlaid : layOut ⟨.start (sampleProgram [0, 1]), ChaCha8.ofSeed 7⟩ =
      (.ok (sampleTree [sampleData, sampleChecksum]),
        ⟨⟨sampleProgram [0, 1], .ofTree (sampleTree [sampleData, sampleChecksum])⟩,
          ChaCha8.ofSeed 7⟩) := rfl
  have hleaves := (of_layOut_ok hlaid).1.fillersOnLeaves
  have hsound : ∀ v ∈ (sampleTree [sampleData, sampleChecksum]).visits,
      (sampleProgram [0, 1]).faultAt (sampleTree [sampleData, sampleChecksum]) v = none := by decide
  have s : (sampleTree [sampleData, sampleChecksum]).SameShape
      (sampleTree [sampleData, sampleChecksum]) := .refl _
  obtain ⟨filled, source, hrun, -⟩ := fill_of_sound hleaves hsound s (ChaCha8.ofSeed 7)
  have hunits : ((sampleProgram [0, 1]).fill (.ofTree (sampleTree [sampleData, sampleChecksum]))
      (sampleTree [sampleData, sampleChecksum]) (ChaCha8.ofSeed 7)).2.root.units =
      [1, 2, 0, 0xa7, 0xd1, 0xb5, 0xcc] := by decide +kernel
  rw [hrun] at hunits
  exact ⟨⟨filled, source⟩, hlaid, hrun, hunits, (fill_consistent hlaid s hrun).2.2⟩

end Session
end ArtifactLayout
