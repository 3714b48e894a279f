import ArtifactLayout.Proofs.Fill.Consistency

/-! # Filling in either byte order

The same tree filled from the same source with numbers high byte first and low byte first. What a filler
draws depends on the size of its field, and whether it fails on the shape of the tree, so both runs
draw the same and fail alike. The content of the two trees is compared by `Filler.Mirrors`, which
every step keeps; it says nothing of digests, checksums and numbers read from fields, which may differ
because what they read does.
-/

namespace ArtifactLayout
set_option autoImplicit false

open ArtifactLayout.Field

/-! ## Numbers -/

theorem Field.numberUnits_little (value : UInt64) (width size : Nat) :
    numberUnits .little value width size =
      if width = 1 then numberUnits .big value width size
      else (numberUnits .big value width size).reverse := by
  by_cases hwidth : width = 1
  · rw [if_pos hwidth, numberUnits, numberUnits, if_pos hwidth, if_pos hwidth]
  · rw [if_neg hwidth, numberUnits, numberUnits, if_neg hwidth, if_neg hwidth]
    refine List.ext_getElem (by simp) fun i hi hi' => ?_
    have hsize : i < size := by simpa using hi
    have hindex : size - 1 - (size - 1 - i) = i := by omega
    simp [List.getElem_reverse, hindex]

/-! ## Contents -/

namespace Filler

/-- How units that a filler gives high byte first compare with those it gives low byte first, in fields
of units of a given width. -/
def Mirrors (unitBits : Nat) (big little : List UInt8) : Filler → Prop
  | constant _ | random | randomUnits => little = big
  | quantity (.constant _) | quantity (.sizeOf _) | quantity (.countOf _) =>
    little = if unitBits = 1 then big else big.reverse
  | digest _ _ _ | quantity (.checksumOf _) | quantity (.numberIn _) => True

namespace Mirrors
variable {unitBits : Nat} {big little old old' : List UInt8}

theorem of_zeros {units : List UInt8} (h : ∀ unit ∈ units, unit = 0) (filler : Filler) :
    filler.Mirrors unitBits units units := by
  have hzeros : units = units.reverse := by
    rw [List.eq_replicate_of_mem h, List.reverse_replicate]
  cases filler with
  | constant content => exact rfl
  | random => exact rfl
  | randomUnits => exact rfl
  | digest name algorithm sources => trivial
  | quantity q =>
    cases q with
    | constant value | sizeOf source | countOf source =>
      change units = if unitBits = 1 then units else units.reverse
      rw [← hzeros, ite_self]
    | checksumOf source | numberIn source => trivial

/-- Two leaves compare like this after they were written with units that do. Numbers are written over
the whole field, so that nothing of the old content is left to be reversed. -/
theorem written {filler : Filler} (h : filler.Mirrors unitBits big little)
    (hold : filler.Mirrors unitBits old old') (hlength : little.length = big.length)
    (hwhole : (∃ q, filler = .quantity q) → old.length = big.length ∧ old'.length = big.length)
    (kept : UInt8 → UInt8) :
    filler.Mirrors unitBits (big.map kept ++ old.drop big.length)
      (little.map kept ++ old'.drop little.length) := by
  cases filler with
  | constant content | random | randomUnits =>
    obtain rfl : little = big := h
    obtain rfl : old' = old := hold
    exact rfl
  | digest name algorithm sources => trivial
  | quantity q =>
    obtain ⟨hold, hold'⟩ := hwhole ⟨q, rfl⟩
    have hrest : old.drop big.length = [] := List.drop_eq_nil_of_le (Nat.le_of_eq hold)
    have hrest' : old'.drop little.length = [] :=
      List.drop_eq_nil_of_le (Nat.le_of_eq (hold'.trans hlength.symm))
    rw [hrest, hrest', List.append_nil, List.append_nil]
    cases q with
    | constant value | sizeOf source | countOf source =>
      have h : little = if unitBits = 1 then big else big.reverse := h
      change little.map kept = if unitBits = 1 then big.map kept else (big.map kept).reverse
      rw [h, ← List.map_reverse]
      exact apply_ite (List.map kept) _ _ _
    | checksumOf source | numberIn source => trivial

end Mirrors

/-! ## Producing -/

/-- What a filler draws depends on the number and the width of the units of its field alone. -/
theorem source_produce_eq {σ : Type} [RandomSource σ] (filler : Filler) (view view' : View)
    {f g : Field} (hsize : f.size = g.size) (hbits : f.unitBits = g.unitBits) (s : σ) :
    (filler.produce view f s).2 = (filler.produce view' g s).2 := by
  cases filler with
  | constant content => rfl
  | random => rw [produce, produce, hsize, Attempt.step_apply]
  | randomUnits => rw [produce, produce, hsize, hbits, Attempt.step_apply]
  | digest name algorithm sources => rfl
  | quantity q => rfl

end Filler

/-- What is measured of the shape of the nearest field is the same in trees of one shape. -/
theorem Field.SameShape.measure_nearest?_eq {f g : Field} (s : f.SameShape g) {α : Type}
    (measure : Field → α) (hmeasure : ∀ a : Field, measure a.blank = measure a) (id : FieldId)
    (origin : List Nat) :
    (f.nearest? id origin).map (fun w => measure w.field) =
      (g.nearest? id origin).map fun w => measure w.field := by
  have hblank : ∀ root : Field, (root.nearest? id origin).map (fun w => measure w.field) =
      (root.blank.nearest? id origin).map fun w => measure w.field := by
    intro root
    rw [nearest?_blank, Option.map_map]
    congr 1
    funext w
    exact (hmeasure w.field).symm
  rw [hblank f, s, ← hblank g]

section Produce
variable {σ : Type} [RandomSource σ] {names : Names} {big little : Field} {v w : Visit}

/-- Numbers that are given or measured are the same in trees of one shape. -/
theorem mirrors_of_value?_eq {q : Quantity} {units units' : List UInt8}
    (hvalue : q.value? little .little w = q.value? big .big v) (hblank : v.blank = w.blank)
    (h : (Filler.quantity q).Gives big .big v units)
    (h' : (Filler.quantity q).Gives little .little w units') :
    units' = if v.field.unitBits = 1 then units else units.reverse := by
  obtain ⟨n, hn, rfl⟩ := h
  obtain ⟨n', hn', rfl⟩ := h'
  obtain rfl : n' = n := by
    rw [hvalue, hn] at hn'
    exact (Option.some.inj hn').symm
  have hshape := Visit.sameShape hblank
  rw [unitsOfNumber, unitsOfNumber, ← hshape.unitBits_eq, ← hshape.size_eq, numberUnits_little]

/-- From one source a filler gives units that compare as it says, and leaves the same source. -/
theorem produce_mirrored (s : big.SameShape little) (hv : v ∈ big.visits) (hw : w ∈ little.visits)
    (hblank : v.blank = w.blank) {filler : Filler} (h : filler.fault names big v = none) (source : σ) :
    ∃ units units' source',
      filler.produce (v.view names .big big) v.field source = (.ok units, source') ∧
      filler.produce (w.view names .little little) w.field source = (.ok units', source') ∧
      units.length = filler.reach v.field ∧ units'.length = filler.reach v.field ∧
      units.length ≤ v.field.size ∧ filler.Mirrors v.field.unitBits units units' := by
  have hshape := Visit.sameShape hblank
  have h' : filler.fault names little w = none := by
    rw [← filler.fault_blank names little w, ← s, ← hblank, filler.fault_blank, h]
  obtain ⟨units, source₁, hrun, hlength, hfits, hgives⟩ := produce_of_sound .big hv h source
  obtain ⟨units', source₂, hrun', hlength', -, hgives'⟩ := produce_of_sound .little hw h' source
  have hsource := filler.source_produce_eq (v.view names .big big) (w.view names .little little)
    hshape.size_eq hshape.unitBits_eq source
  rw [hrun, hrun'] at hsource
  obtain rfl : source₁ = source₂ := hsource
  refine ⟨units, units', source₁, hrun, hrun', hlength, ?_, hfits, ?_⟩
  · rw [hlength', hshape.reach_eq filler]
  cases filler with
  | constant content =>
    have hgives : units = asUnits content v.field.unitBits := hgives
    have hgives' : units' = asUnits content w.field.unitBits := hgives'
    rw [hgives, hgives', ← hshape.unitBits_eq]
    exact rfl
  | random =>
    rw [Filler.produce, Attempt.step_apply] at hrun hrun'
    obtain ⟨hunits, -⟩ := Prod.mk.inj hrun
    obtain ⟨hunits', -⟩ := Prod.mk.inj hrun'
    rw [← hshape.size_eq, hunits] at hunits'
    exact (Except.ok.inj hunits').symm
  | randomUnits =>
    rw [Filler.produce, Attempt.step_apply] at hrun hrun'
    obtain ⟨hunits, -⟩ := Prod.mk.inj hrun
    obtain ⟨hunits', -⟩ := Prod.mk.inj hrun'
    rw [← hshape.size_eq, ← hshape.unitBits_eq, hunits] at hunits'
    exact (Except.ok.inj hunits').symm
  | digest name algorithm sources => trivial
  | quantity q =>
    have hpath := Visit.path_eq hblank
    cases q with
    | constant value => exact mirrors_of_value?_eq rfl hblank hgives hgives'
    | sizeOf source =>
      refine mirrors_of_value?_eq ?_ hblank hgives hgives'
      rw [Quantity.value?, Quantity.value?, ← hpath]
      exact (s.measure_nearest?_eq (fun a => UInt64.ofNat a.size) (by simp) _ _).symm
    | countOf source =>
      refine mirrors_of_value?_eq ?_ hblank hgives hgives'
      rw [Quantity.value?, Quantity.value?, ← hpath]
      exact (s.measure_nearest?_eq (fun a => UInt64.ofNat a.children.length) (by simp) _ _).symm
    | checksumOf source => trivial
    | numberIn source => trivial

end Produce

/-! ## Trees -/

/-- Trees of one shape in which the content of every leaf with a filler compares as the filler says. -/
structure Mirrored (fillers : Array Filler) (big little : Field) : Prop where
  shape : big.SameShape little
  leaves : ∀ path tag tag' content content', big.at? path = some (.leaf tag content) →
    little.at? path = some (.leaf tag' content') → ∀ id, tag.filler = some id →
      ∀ filler, fillers[id]? = some filler →
        filler.Mirrors content.unitBits content.units content'.units

namespace Leaf
variable {l l' : Leaf}

theorem kept_eq_of_blank_eq (h : l.blank = l'.blank) : l.kept = l'.kept := by
  cases l <;> cases l' <;> first | rfl | cases h

theorem size_eq_of_blank_eq (h : l.blank = l'.blank) : l.size = l'.size := by
  rw [← l.size_blank, h, l'.size_blank]

end Leaf

namespace Mirrored
variable {fillers : Array Filler} {big little : Field}

theorem of_fresh {arena : Arena} {laid : Field} (h : arena.Fresh laid) :
    Mirrored fillers laid laid := by
  constructor
  · exact .refl laid
  · intro path tag tag' content content' hat hat' id hid filler _
    obtain ⟨-, rfl⟩ : tag = tag' ∧ content = content' := by
      rw [hat] at hat'
      exact Field.leaf.inj (Option.some.inj hat')
    have hv : (⟨path, laid.ordinal path, .leaf tag content⟩ : Visit) ∈ laid.visits :=
      mem_visits.mpr ⟨hat, rfl⟩
    have hfiller : tag.filler.isSome := by rw [hid]; rfl
    exact .of_zeros (h.units_eq_zero hv hfiller) filler

/-- Writing units that compare as their filler says into the same leaf of both trees. -/
theorem write (m : Mirrored fillers big little) {path : List Nat} {tag tag' : Tag}
    {content content' : Leaf} (hbig : big.at? path = some (.leaf tag content))
    (hlittle : little.at? path = some (.leaf tag' content')) {id : FillerId}
    (hid : tag.filler = some id) {filler : Filler} (hfiller : fillers[id]? = some filler)
    {units units' : List UInt8} (h : filler.Mirrors content.unitBits units units')
    (hlength : units.length = filler.reach (.leaf tag content))
    (hlength' : units'.length = filler.reach (.leaf tag content))
    (hfits : units.length ≤ content.size) :
    Mirrored fillers (big.modifyAt (fun _ => .leaf tag (content.withUnits units)) path)
      (little.modifyAt (fun _ => .leaf tag' (content'.withUnits units')) path) := by
  obtain ⟨g, hg, hleaves⟩ := m.shape.at? hbig
  obtain rfl : Field.leaf tag' content' = g := Option.some.inj (hlittle.symm.trans hg)
  have hblank : content.blank = content'.blank := (Field.leaf.inj hleaves).2
  have hsize : content.size = content'.size := Leaf.size_eq_of_blank_eq hblank
  have hshape : ∀ (t : Tag) (l : Leaf) (us : List UInt8),
      (Field.leaf t (l.withUnits us)).SameShape (.leaf t l) := by
    intro t l us
    rw [SameShape, Field.blank, Field.blank, Leaf.blank_withUnits]
  constructor
  · have sbig : (big.modifyAt (fun _ => .leaf tag (content.withUnits units)) path).SameShape big :=
      sameShape_modifyAt hbig (hshape tag content units)
    have slittle :
        (little.modifyAt (fun _ => .leaf tag' (content'.withUnits units')) path).SameShape little :=
      sameShape_modifyAt hlittle (hshape tag' content' units')
    exact (sbig.trans m.shape).trans slittle.symm
  · intro q t t' c c' hat hat' i hi f hf
    by_cases hbelow : q <+: path
    · -- nothing stands below a leaf, so this is the one that was written
      obtain ⟨rest, rfl⟩ := hbelow
      have hself := at?_modifyAt_self (fun _ => .leaf tag (content.withUnits units)) hbig
      rw [at?_append hat] at hself
      obtain rfl : rest = [] := by
        cases rest with
        | nil => rfl
        | cons j rest => cases hself
      rw [List.append_nil] at *
      rw [at?_modifyAt_self _ hbig] at hat
      rw [at?_modifyAt_self _ hlittle] at hat'
      obtain ⟨rfl, rfl⟩ := Field.leaf.inj (Option.some.inj hat)
      obtain ⟨rfl, rfl⟩ := Field.leaf.inj (Option.some.inj hat')
      obtain rfl : id = i := Option.some.inj (hid.symm.trans hi)
      obtain rfl : filler = f := Option.some.inj (hfiller.symm.trans hf)
      have hold := m.leaves q tag tag' content content' hbig hlittle id hid filler hfiller
      rw [content.unitBits_withUnits, content.units_withUnits hfits,
        content'.units_withUnits (by omega), ← Leaf.kept_eq_of_blank_eq hblank]
      refine h.written hold (hlength'.trans hlength.symm) ?_ content.kept
      rintro ⟨q, rfl⟩
      rw [content.length_units, content'.length_units, hlength]
      exact ⟨rfl, hsize.symm⟩
    · rw [at?_modifyAt_of_not_below hbig hbelow] at hat
      rw [at?_modifyAt_of_not_below hlittle hbelow] at hat'
      exact m.leaves q t t' c c' hat hat' i hi f hf

/-- Of any field with a filler, in trees of a shape in which fillers stand on leaves alone. -/
theorem mirrors (m : Mirrored fillers big little) {laid : Field} (hleaves : laid.FillersOnLeaves)
    (s : big.SameShape laid) {path : List Nat} {f g : Field} (hf : big.at? path = some f)
    (hg : little.at? path = some g) {id : FillerId} (hid : f.filler = some id) {filler : Filler}
    (hfiller : fillers[id]? = some filler) : filler.Mirrors f.unitBits f.units g.units := by
  obtain ⟨h, hh, hlaid⟩ := s.at? hf
  have hv : (⟨path, laid.ordinal path, h⟩ : Visit) ∈ laid.visits := mem_visits.mpr ⟨hh, rfl⟩
  obtain ⟨_, _, rfl⟩ : ∃ tag content, h = .leaf tag content :=
    hleaves _ hv id (hlaid.filler_eq.symm.trans hid)
  obtain ⟨tag, content, rfl⟩ := hlaid.exists_leaf
  obtain ⟨g', hg', hshape⟩ := m.shape.at? hf
  obtain rfl : g = g' := Option.some.inj (hg.symm.trans hg')
  obtain ⟨tag', content', rfl⟩ := hshape.symm.exists_leaf
  exact m.leaves path tag tag' content content' hf hg id hid filler hfiller

end Mirrored

/-! ## Runs -/

namespace Program

/-- The program with numbers in a given byte order. -/
def ordered (program : Program) (order : ByteOrder) : Program := { program with order }

end Program

section Runs
variable {σ : Type} [RandomSource σ] {program : Program} {laid big little : Field}

theorem fillOne_mirrored (hleaves : laid.FillersOnLeaves) {v : Visit} (hv : v ∈ laid.visits)
    {id : FillerId} (hid : v.field.filler = some id) (hsound : program.faultAt laid v = none)
    (m : Mirrored program.arena.fillers big little) (s : big.SameShape laid) (source : σ) :
    ∃ big' little' source',
      (program.ordered .big).fillOne (.ofTree laid) (v.job id) ⟨big, source⟩ =
        (.ok (), ⟨big', source'⟩) ∧
      (program.ordered .little).fillOne (.ofTree laid) (v.job id) ⟨little, source⟩ =
        (.ok (), ⟨little', source'⟩) ∧
      Mirrored program.arena.fillers big' little' ∧ big'.SameShape laid := by
  have s' := m.shape.symm.trans s
  obtain ⟨w, hw, hblank, hjob, hwid, tag, content, hleaf⟩ := exists_step hleaves s hv hid
  obtain ⟨u, hu, hublank, hujob, -, tag', content', huleaf⟩ := exists_step hleaves s' hv hid
  have hnone : program.faultAt big w = none := by rw [s.faultAt_eq program hblank, hsound]
  cases hfiller : program.arena.fillers[id]? with
  | none =>
    rw [Program.faultAt, hwid] at hnone
    dsimp only at hnone
    rw [hfiller] at hnone
    cases hnone
  | some filler =>
    have hfault := fault_of_faultAt hnone hwid hfiller
    obtain ⟨units, units', source', hrun, hrun', hlength, hlength', hfits, hmirrors⟩ :=
      produce_mirrored m.shape hw hu (hblank.trans hublank.symm) hfault source
    have hfits' : units'.length ≤ u.field.size := by
      have hsize := (Visit.sameShape (hblank.trans hublank.symm)).size_eq
      omega
    have hbig := fillOne_of_produce (program.ordered .big) hw hleaf hfiller hrun hfits
    have hlittle := fillOne_of_produce (program.ordered .little) hu huleaf hfiller hrun' hfits'
    have hwat : big.at? w.path = some (.leaf tag content) := hleaf ▸ (mem_visits.mp hw).1
    have huat : little.at? u.path = some (.leaf tag' content') := huleaf ▸ (mem_visits.mp hu).1
    have hpath : u.path = w.path := by rw [Visit.path_eq hublank, Visit.path_eq hblank]
    rw [hleaf] at hlength hlength' hfits hmirrors hwid
    rw [hpath] at huat
    rw [s.ofTree_eq, hjob] at hbig
    rw [s'.ofTree_eq, hujob, hpath] at hlittle
    refine ⟨_, _, source', hbig, hlittle,
      m.write hwat huat hwid hfiller hmirrors hlength hlength' hfits, ?_⟩
    exact ((Frame.of_leaf rfl hwat units).shape).trans s

theorem fillAll_mirrored (hleaves : laid.FillersOnLeaves) {vs : List Visit}
    (hvs : ∀ v ∈ vs, v ∈ laid.visits) (hsound : ∀ v ∈ vs, program.faultAt laid v = none)
    (m : Mirrored program.arena.fillers big little) (s : big.SameShape laid) (source : σ) :
    ∃ big' little' source',
      (program.ordered .big).fillAll (.ofTree laid) (Program.jobsOf vs) ⟨big, source⟩ =
        (.ok (), ⟨big', source'⟩) ∧
      (program.ordered .little).fillAll (.ofTree laid) (Program.jobsOf vs) ⟨little, source⟩ =
        (.ok (), ⟨little', source'⟩) ∧
      Mirrored program.arena.fillers big' little' := by
  induction vs generalizing big little source with
  | nil => exact ⟨big, little, source, rfl, rfl, m⟩
  | cons v vs ih =>
    have hvs' : ∀ w ∈ vs, w ∈ laid.visits := fun w hw => hvs w (List.mem_cons_of_mem v hw)
    have hsound' : ∀ w ∈ vs, program.faultAt laid w = none :=
      fun w hw => hsound w (List.mem_cons_of_mem v hw)
    cases hid : v.field.filler with
    | none =>
      rw [Program.jobsOf_cons_of_none hid]
      exact ih hvs' hsound' m s source
    | some id =>
      obtain ⟨big₁, little₁, source₁, hbig, hlittle, m₁, s₁⟩ :=
        fillOne_mirrored hleaves (hvs v List.mem_cons_self) hid (hsound v List.mem_cons_self) m s
          source
      obtain ⟨big₂, little₂, source₂, hbig', hlittle', m₂⟩ := ih hvs' hsound' m₁ s₁ source₁
      refine ⟨big₂, little₂, source₂, ?_, ?_, m₂⟩
      · rw [Program.jobsOf_cons_of_some hid, Program.fillAll, Attempt.bind_of_ok hbig, hbig']
      · rw [Program.jobsOf_cons_of_some hid, Program.fillAll, Attempt.bind_of_ok hlittle, hlittle']

variable (program) in
/-- Filling a tree that was laid out goes alike in both byte orders, up to the same fault if there is
one. -/
theorem fill_mirrored {arena : Arena} (hfresh : arena.Fresh laid) (source : σ) :
    let high := (program.ordered .big).fill (.ofTree laid) laid source
    let low := (program.ordered .little).fill (.ofTree laid) laid source
    high.1 = low.1 ∧ high.2.source = low.2.source ∧
      Mirrored program.arena.fillers high.2.root low.2.root := by
  have hleaves := hfresh.fillersOnLeaves
  have m : Mirrored program.arena.fillers laid laid := .of_fresh hfresh
  dsimp only
  cases hfirst : program.firstFault laid with
  | none =>
    have hsound := List.findSome?_eq_none_iff.mp hfirst
    obtain ⟨big, little, source', hbig, hlittle, m'⟩ :=
      fillAll_mirrored hleaves (fun v hv => hv) hsound m (.refl laid) source
    rw [Program.fill, Program.fill, Program.jobs_eq, hbig, hlittle]
    exact ⟨rfl, rfl, m'⟩
  | some fault =>
    obtain ⟨done, v, rest, hsplit, hv, hdone⟩ := List.findSome?_eq_some_iff.mp hfirst
    have hmem : ∀ w ∈ done, w ∈ laid.visits := fun w hw => hsplit ▸ List.mem_append_left _ hw
    obtain ⟨big, little, source', hbig, hlittle, m'⟩ :=
      fillAll_mirrored hleaves hmem hdone m (.refl laid) source
    -- the byte order is not among what a fault depends on
    have hfault : ∀ order, (program.ordered order).faultAt laid v = some fault := fun _ => hv
    have hbefore : ∀ order, ∀ w ∈ done, (program.ordered order).faultAt laid w = none :=
      fun _ => hdone
    obtain ⟨filled, source₁, hrun, hfill, -⟩ :=
      fill_of_fault hleaves hsplit (hbefore .big) (hfault .big) (.refl laid) source
    obtain ⟨filled', source₂, hrun', hfill', -⟩ :=
      fill_of_fault hleaves hsplit (hbefore .little) (hfault .little) (.refl laid) source
    rw [hbig] at hrun
    rw [hlittle] at hrun'
    rw [hfill, hfill', ← (Prod.mk.inj hrun).2, ← (Prod.mk.inj hrun').2]
    exact ⟨rfl, rfl, m'⟩

end Runs
end ArtifactLayout
