import ArtifactLayout.Proofs.Arena.Laid
import ArtifactLayout.Proofs.Factory.Grouping
import ArtifactLayout.Proofs.Factory.Limits
import ArtifactLayout.Proofs.Field.Writing
import ArtifactLayout.Proofs.Fill.Step

/-! # Blocks as long as their content

A block that takes its size from its filler is declared with the length that the filler tells
beforehand. When it is filled, in any pass and in either byte order, the filler gives just as many units:
constant content, a digest of whatever was read, and a checksum alike. So the only thing that can go
wrong is a read, and when none does, nothing stays of what was in the block.
-/

namespace ArtifactLayout
set_option autoImplicit false

open ArtifactLayout.Field

/-! ## Reading -/

namespace View

variable {view : View} {id : FieldId} {ids : List FieldId} {fault : Fault}

theorem filled_of_content_error (h : view.content id = .error fault) : view.filled id = .error fault := by
  rw [content] at h
  cases hf : view.filled id with
  | error first =>
    rw [hf] at h
    exact congrArg Except.error (Except.error.inj h)
  | ok f =>
    rw [hf] at h
    cases h

/-- Names that can all be read have content together; otherwise one of them cannot be read. -/
theorem contents_or_fault (view : View) (ids : List FieldId) :
    (∃ bytes, view.contents ids = .ok bytes) ∨
      ∃ id ∈ ids, ∃ fault, view.filled id = .error fault ∧ view.contents ids = .error fault := by
  induction ids with
  | nil => exact .inl ⟨[], rfl⟩
  | cons id ids ih =>
    rw [contents]
    cases hid : view.content id with
    | error fault =>
      exact .inr ⟨id, List.mem_cons_self, fault, filled_of_content_error hid, rfl⟩
    | ok bytes =>
      rcases ih with ⟨rest, hrest⟩ | ⟨other, hother, fault, hfault, hrest⟩
      · exact .inl ⟨bytes ++ rest, by rw [hrest]; rfl⟩
      · exact .inr ⟨other, List.mem_cons_of_mem id hother, fault, hfault, by rw [hrest]; rfl⟩

/-- A read fails on a name that is not bound or on a field that is not filled yet, never on a size. -/
theorem fault_of_filled (h : view.filled id = .error fault) :
    (∃ name, fault = .unbound name) ∨ ∃ source target, fault = .readBeforeFilled source target := by
  rw [filled, Scope.resolveFrom] at h
  cases hnearest : nearest? (view.scope.bindings.of id) view.origin with
  | none =>
    rw [hnearest] at h
    exact .inl ⟨_, (Except.error.inj h).symm⟩
  | some b =>
    rw [hnearest] at h
    by_cases hlate : view.position < b.stop
    · have hthrow : Except.error (.readBeforeFilled (view.scope.names.label id) view.targetLabel) =
          Except.error fault := (if_pos hlate).symm.trans h
      exact .inr ⟨_, _, (Except.error.inj hthrow).symm⟩
    · have hfield : view.scope.fieldAt view.root id b.path = .error fault := (if_neg hlate).symm.trans h
      rw [Scope.fieldAt] at hfield
      split at hfield
      · cases hfield
      · exact .inl ⟨_, (Except.error.inj hfield).symm⟩

end View

/-! ## Producing -/

section Produce
variable {σ : Type} [RandomSource σ]

/-- A filler that knows the length of its content gives as many units, if nothing is wrong with what it
reads, to a field of bytes that is as long. Nothing is drawn. -/
theorem produce_of_length {filler : Filler} {size : Nat} (hlength : filler.length? = some size)
    (view : View) {target : Field} (hsize : target.size = size) (hbits : target.unitBits = 8) (s : σ) :
    (∃ units, filler.produce view target s = (.ok units, s) ∧ units.length = size) ∨
      ∃ id ∈ filler.sources, ∃ fault, view.filled id = .error fault ∧
        filler.produce view target s = (.error fault, s) := by
  have hunits : ∀ bytes, asUnits bytes target.unitBits = bytes := fun bytes => by
    rw [asUnits, hbits, if_neg (by decide)]
  have hfitted : ∀ bytes : List UInt8, bytes.length = size → fitted bytes target = .ok bytes := by
    intro bytes hbytes
    rw [fitted, hunits]
    exact if_neg (by rw [hbytes, hsize]; exact Nat.lt_irrefl _)
  cases filler with
  | constant content =>
    have hcontent : content.length = size := Option.some.inj hlength
    refine .inl ⟨content, ?_, hcontent⟩
    rw [Filler.produce, Attempt.check_apply, hfitted content hcontent]
  | digest name algorithm sources =>
    have halgorithm : algorithm.size = size := Option.some.inj hlength
    rcases view.contents_or_fault sources with ⟨bytes, hbytes⟩ | ⟨id, hid, fault, hfault, hbytes⟩
    · have hdigest : (algorithm.digest bytes).toList.length = size := by
        rw [Digest.Algorithm.length_digest, halgorithm]
      refine .inl ⟨_, ?_, hdigest⟩
      rw [Filler.produce, Attempt.check_apply, hbytes]
      exact congrArg (·, s) (hfitted _ hdigest)
    · refine .inr ⟨id, hid, fault, hfault, ?_⟩
      rw [Filler.produce, Attempt.check_apply, hbytes]
      rfl
  | quantity q =>
    cases q with
    | checksumOf source =>
      cases hcontent : view.content source with
      | ok bytes =>
        refine .inl ⟨unitsOfNumber view.order (Checksum.crc32 bytes).toUInt64 target, ?_, ?_⟩
        · rw [Filler.produce, Attempt.check_apply, Quantity.eval, hcontent]
          rfl
        · exact (length_numberUnits _ _ _ _).trans hsize
      | error fault =>
        refine .inr ⟨source, List.mem_cons_self, fault, View.filled_of_content_error hcontent, ?_⟩
        rw [Filler.produce, Attempt.check_apply, Quantity.eval, hcontent]
        rfl
    | constant | sizeOf | countOf | numberIn => cases hlength
  | random | randomUnits => cases hlength

/-! ## Filling -/

variable (program : Program) (bindings : Bindings) (job : Program.Job) {root target : Field}
  {filler : Filler}

theorem fillOne_of_produce_error (hat : root.at? job.path = some target)
    (hfiller : program.arena.fillers[job.filler]? = some filler) {fault : Fault} {s s' : σ}
    (hproduce : filler.produce ⟨root, ⟨program.names, bindings⟩, job.path, job.position, program.order⟩
      target s = (.error fault, s')) :
    program.fillOne bindings job ⟨root, s⟩ = (.error fault, ⟨root, s'⟩) := by
  rw [Program.fillOne, Attempt.bind_of_error (contentOf_of_at hat hfiller hproduce)]

/-- A block for which there are as many units as it has bytes becomes these units. -/
theorem fillOne_of_block {tag : Tag} {content : Array UInt8} (hat : root.at? job.path = some target)
    (hblock : target = .leaf tag (.block content))
    (hfiller : program.arena.fillers[job.filler]? = some filler) {units : List UInt8} {s s' : σ}
    (hproduce : filler.produce ⟨root, ⟨program.names, bindings⟩, job.path, job.position, program.order⟩
      target s = (.ok units, s')) (hlength : units.length = content.size) :
    program.fillOne bindings job ⟨root, s⟩ =
      (.ok (), ⟨root.modifyAt (fun _ => .leaf tag (.block units.toArray)) job.path, s'⟩) := by
  subst hblock
  have hwritten : (Leaf.block content).withUnits units = .block units.toArray := by
    rw [Leaf.withUnits, splice_of_length_eq (by simpa using hlength)]
  have hwrite : (Field.leaf tag (.block content)).write units =
      .ok (.leaf tag (.block units.toArray)) := by
    rw [write_of_le (Nat.le_of_eq hlength), Field.withUnits, hwritten]
  rw [Program.fillOne, Attempt.bind_of_ok (contentOf_of_at hat hfiller hproduce)]
  dsimp only
  rw [hwrite, Attempt.bind_of_ok (Attempt.check_apply _ _)]
  rfl

end Produce

/-! ## Declared lengths -/

/-- A program that is made of a factory is held to the limit as the factory is, and its blocks are as
long as the content of their fillers. -/
theorem capped_of_finish {f : Factory} (hcapped : ∀ decl ∈ f.arena.decls.toList, decl.Capped f.arena)
    {fields : List DeclId} {program : Program} (h : f.finish fields = .ok program) :
    ∀ decl ∈ program.arena.decls.toList, decl.Capped program.arena := by
  have hne : fields ≠ [] := by
    rintro rfl
    cases h
  obtain ⟨stored, g, hrun, hadvance⟩ : Factory.Succeeds False [] (Factory.groupLoose fields) f :=
    Factory.succeeds_groupLoose f fields
  rw [Factory.finish_of_groupLoose hrun hne] at h
  split at h
  · cases h
  obtain rfl := Except.ok.inj h
  obtain ⟨decls, hdecls, hadded, -⟩ := hadvance.decls
  obtain ⟨fillers, hfillers, -⟩ := hadvance.fillers
  intro decl hdecl
  have hdecl : decl ∈ f.arena.decls.toList ++ decls := hdecls ▸ hdecl
  rcases List.mem_append.mp hdecl with hold | hnew
  · exact (hcapped decl hold).of_fillers hfillers
  · exact hadded decl hnew

/-- What is laid out for a block that takes its size from its filler. -/
theorem laid_of_auto {σ : Type} [RandomSource σ] {arena : Arena} {id : DeclId} {filler : FillerId}
    {size : Nat} {name : Option FieldId} (hauto : arena.decls[id]? = some (.auto filler size name))
    {depth : Nat} {s t : Allocation σ} {laid : Field}
    (h : arena.allocateDecl depth id s = (.ok laid, t)) :
    laid = .leaf ⟨name, some filler⟩ (.block (Array.replicate size 0)) := by
  cases depth with
  | zero => cases h
  | succ depth =>
    rw [Arena.allocateDecl, hauto] at h
    exact (of_leaf_ok h).2

/-- A block stays a block of its size, whatever is written into it. -/
theorem block_of_sameShape {target : Field} {tag : Tag} {size : Nat}
    (h : target.SameShape (.leaf tag (.block (Array.replicate size 0)))) :
    ∃ content : Array UInt8, content.size = size ∧ target = .leaf tag (.block content) := by
  obtain ⟨tag', leaf, rfl⟩ := h.exists_leaf
  have hsize := h.size_eq
  obtain ⟨rfl, hblank⟩ := Field.leaf.inj h
  cases leaf with
  | block content => exact ⟨content, by simpa [Field.size, Leaf.size] using hsize, rfl⟩
  | ranged | bitfield => cases hblank

/-! ## Whole blocks -/

/-- In a program that was made by any actions on a factory, a block that takes its size from its filler
is as long as the content of the filler. Wherever the block stands in a tree, in either byte order and
with any bindings: if all that its filler reads is bound and filled, the filler gives exactly as many
units as the block has, and the block is these units afterwards. If the step fails, it is with the fault
of a read, never for the size, and nothing has changed. -/
theorem auto_filled (registry : Registry) (actions : List Factory.Action) (fields : List DeclId)
    (program : Program)
    (hprogram : (Factory.Action.performAll actions (.ofRegistry registry)).finish fields = .ok program)
    (id : DeclId) (filler : FillerId) (size : Nat) (name : Option FieldId)
    (hauto : program.arena.decls[id]? = some (.auto filler size name)) :
    ∃ content, program.arena.fillers[filler]? = some content ∧ content.length? = some size ∧
      ∀ {σ : Type} [RandomSource σ] (depth : Nat) (s t : Allocation σ) (laid : Field),
        program.arena.allocateDecl depth id s = (.ok laid, t) → laid.filler = some filler ∧
        ∀ (order : ByteOrder) (bindings : Bindings) (root target : Field) (path : List Nat)
          (position : Nat) (source : σ), root.at? path = some target → target.SameShape laid →
          let program := { program with order := order }
          let view : View := ⟨root, ⟨program.names, bindings⟩, path, position, order⟩
          let step := program.fillOne bindings ⟨path, position, filler⟩
          ((∀ read ∈ content.sources, ∃ f, view.filled read = .ok f) →
            ∃ units, content.produce view target source = (.ok units, source) ∧
              units.length = target.size ∧ ∃ after, step ⟨root, source⟩ = (.ok (), ⟨after, source⟩) ∧
              after.at? path = some (.leaf target.tag (.block units.toArray))) ∧
          ∀ fault after, step ⟨root, source⟩ = (.error fault, after) →
            (∃ read ∈ content.sources, view.filled read = .error fault) ∧
              (∀ len size, fault ≠ .contentTooWide len size) ∧ after = ⟨root, source⟩ := by
  have hcapped := capped_of_finish (Factory.Action.capped_performAll registry actions) hprogram
  obtain ⟨content, hcontent, hlength⟩ : (Decl.auto filler size name).Capped program.arena :=
    hcapped _ (Array.mem_toList_iff.mpr (Array.mem_of_getElem? hauto))
  refine ⟨content, hcontent, hlength, ?_⟩
  intro σ _ depth s t laid hlaid
  obtain rfl := laid_of_auto hauto hlaid
  refine ⟨rfl, ?_⟩
  intro order bindings root target path position source hat hshape program' view step
  obtain ⟨block, hblock, rfl⟩ := block_of_sameShape hshape
  have hsize : (Field.leaf ⟨name, some filler⟩ (.block block)).size = size := hblock
  have hfiller : program'.arena.fillers[filler]? = some content := hcontent
  -- the filler gives the whole block, or one of its reads fails
  rcases produce_of_length hlength view hsize rfl source with
    ⟨units, hproduce, hunits⟩ | ⟨read, hread, fault, hfault, hproduce⟩
  · have hwhole : units.length = block.size := hunits.trans hblock.symm
    have hstep := fillOne_of_block program' bindings ⟨path, position, filler⟩ hat rfl hfiller hproduce hwhole
    refine ⟨fun _ => ⟨units, hproduce, hwhole, _, hstep, at?_modifyAt_self _ hat⟩, ?_⟩
    intro fault after hrun
    cases hstep.symm.trans hrun
  · have hstep := fillOne_of_produce_error program' bindings ⟨path, position, filler⟩ hat hfiller hproduce
    refine ⟨fun hreads => ?_, fun fault' after hrun => ?_⟩
    · obtain ⟨f, hf⟩ := hreads read hread
      rw [hf] at hfault
      cases hfault
    · obtain ⟨hsame, rfl⟩ := Prod.mk.inj (hstep.symm.trans hrun)
      obtain rfl := Except.error.inj hsame
      refine ⟨⟨read, hread, hfault⟩, fun len size hwide => ?_, rfl⟩
      subst hwide
      rcases View.fault_of_filled hfault with ⟨name, h⟩ | ⟨source, target, h⟩ <;> cases h

/-- The checksum of a field in front of it, written over what was in the block. -/
theorem auto_filled_sample :
    let f := Factory.Action.performAll [.call (.block none 3 (some "a")), .call (.call "crc32" ["a"]),
      .call (.auto 1 (some "sum"))] (.ofRegistry .standard)
    let program : Program := ⟨f.arena, [0, 1], f.names, .big⟩
    let source := ChaCha8.ofSeed 0
    let laid := Field.leaf ⟨some 1, some 1⟩ (.block (Array.replicate 4 0))
    let target := Field.leaf ⟨some 1, some 1⟩ (.block #[9, 9, 9, 9])
    let root := Field.group .none .compound [.leaf ⟨some 0, some 0⟩ (.block #[1, 2, 3]), target]
    let view : View := ⟨root, ⟨program.names, .ofTree root⟩, [1], 2, .little⟩
    (f.finish [0, 1] = .ok program ∧ program.arena.decls[1]? = some (.auto 1 4 (some 1)) ∧
      (program.arena.allocateDecl 1 1 ⟨maxUnits, source⟩).1 = .ok laid ∧ root.at? [1] = some target ∧
      target.SameShape laid ∧ view.filled 0 = .ok (.leaf ⟨some 0, some 0⟩ (.block #[1, 2, 3]))) ∧
    ∃ (units : List UInt8) (after : Field), units.length = 4 ∧
      { program with order := .little }.fillOne (.ofTree root) ⟨[1], 2, 1⟩ ⟨root, source⟩ =
        (.ok (), ⟨after, source⟩) ∧
      after.at? [1] = some (.leaf ⟨some 1, some 1⟩ (.block units.toArray)) := by
  intro f program source laid target root view
  have hprogram : f.finish [0, 1] = .ok program := by rfl
  have hauto : program.arena.decls[1]? = some (.auto 1 4 (some 1)) := by rfl
  have hlaid : (program.arena.allocateDecl 1 1 ⟨maxUnits, source⟩).1 = .ok laid := by rfl
  have hvisit : (⟨[1], 2, target⟩ : Visit) ∈ root.visits := mem_visits.mpr ⟨rfl, rfl⟩
  have hnearest : root.nearest? 0 [1] =
      some ⟨[0], 1, .leaf ⟨some 0, some 0⟩ (.block #[1, 2, 3])⟩ := by rfl
  have hfilled : view.filled 0 = .ok (.leaf ⟨some 0, some 0⟩ (.block #[1, 2, 3])) :=
    filled_of_nearest hvisit hnearest (Nat.le_refl 2)
  refine ⟨⟨hprogram, hauto, hlaid, rfl, rfl, hfilled⟩, ?_⟩
  obtain ⟨content, hcontent, -, hfill⟩ :=
    auto_filled .standard _ [0, 1] program hprogram 1 1 4 (some 1) hauto
  obtain rfl : Filler.quantity (.checksumOf 0) = content := Option.some.inj hcontent
  obtain ⟨-, hfill⟩ := hfill 1 ⟨maxUnits, source⟩ _ laid (Prod.ext hlaid rfl)
  obtain ⟨hwhole, -⟩ := hfill .little (.ofTree root) root target [1] 2 source rfl rfl
  obtain ⟨units, -, hunits, after, hstep, hat⟩ := hwhole fun read hread => by
    obtain rfl := List.mem_singleton.mp hread
    exact ⟨_, hfilled⟩
  exact ⟨units, after, hunits, hstep, hat⟩

end ArtifactLayout
