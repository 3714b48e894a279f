import ArtifactLayout.Proofs.Factory.History
import ArtifactLayout.Proofs.Fill.Run
import ArtifactLayout.Random.ChaCha8

/-! # When a pass fails

A fill fails with the fault of the first field that has one, and succeeds if there is none. This
depends on the shape of the tree alone.
-/

namespace ArtifactLayout
set_option autoImplicit false

open ArtifactLayout.Field

/-- The first thing that is wrong with filling a tree. -/
def Program.firstFault (program : Program) (laid : Field) : Option Fault :=
  laid.visits.findSome? (program.faultAt laid)

section Outcome
variable {σ : Type} [RandomSource σ] {program : Program} {laid root : Field}

theorem fill_of_sound (hleaves : laid.FillersOnLeaves)
    (hsound : ∀ v ∈ laid.visits, program.faultAt laid v = none) (s : root.SameShape laid)
    (source : σ) : ∃ filled source', program.fill (.ofTree laid) root source =
      (.ok (), ⟨filled, source'⟩) ∧ Frame laid.visits root filled := by
  obtain ⟨filled, source', hrun, hframe⟩ :=
    fillAll_of_sound hleaves (fun v hv => hv) hsound s source
  refine ⟨filled, source', ?_, hframe⟩
  rw [Program.fill, s.jobs_eq, Program.jobs_eq, hrun]

variable (program) in
/-- The outcome of a fill depends on the shape of the tree alone. -/
theorem fill_outcome (hleaves : laid.FillersOnLeaves) (s : root.SameShape laid) (source : σ) :
    (program.fill (.ofTree laid) root source).1 =
      match program.firstFault laid with
      | none => .ok ()
      | some fault => .error fault := by
  cases hfirst : program.firstFault laid with
  | none =>
    have hsound := List.findSome?_eq_none_iff.mp hfirst
    obtain ⟨filled, source', hrun, -⟩ := fill_of_sound hleaves hsound s source
    rw [hrun]
  | some fault =>
    obtain ⟨done, v, rest, hsplit, hfault, hdone⟩ := List.findSome?_eq_some_iff.mp hfirst
    obtain ⟨filled, source', -, hrun, -⟩ := fill_of_fault hleaves hsplit hdone hfault s source
    rw [hrun]

theorem sound_of_fill_ok (hleaves : laid.FillersOnLeaves) (s : root.SameShape laid) {source : σ}
    {final : Program.Filling σ} (h : program.fill (.ofTree laid) root source = (.ok (), final)) :
    ∀ v ∈ laid.visits, program.faultAt laid v = none := by
  have houtcome := fill_outcome program hleaves s source
  rw [h] at houtcome
  cases hfirst : program.firstFault laid with
  | none => exact List.findSome?_eq_none_iff.mp hfirst
  | some fault =>
    rw [hfirst] at houtcome
    cases houtcome

end Outcome

/-! ## Passes -/

theorem Arena.Fresh.fillersOnLeaves {arena : Arena} {laid : Field} (h : arena.Fresh laid) :
    laid.FillersOnLeaves := by
  intro v hv id hid
  exact (h.of_filler (mem_visits.mp hv).1 hid).1

theorem Program.Finished.exists_filler {program : Program} (hprogram : program.Finished) {laid : Field}
    (hfresh : program.arena.Fresh laid) {v : Visit} (hv : v ∈ laid.visits) {id : FillerId}
    (hid : v.field.filler = some id) : ∃ filler, program.arena.fillers[id]? = some filler ∧
      program.faultAt laid v = filler.fault program.names laid v := by
  obtain ⟨-, decl, hdecl, hfiller⟩ := hfresh.of_filler (mem_visits.mp hv).1 hid
  obtain ⟨filler, hlookup⟩ : ∃ filler, program.arena.fillers[id]? = some filler :=
    ⟨_, Array.getElem?_eq_getElem (hprogram.filler_lt decl hdecl id hfiller)⟩
  refine ⟨filler, hlookup, ?_⟩
  rw [Program.faultAt, hid]
  dsimp only
  rw [hlookup]

namespace Session
variable {σ τ : Type} [RandomSource σ] [RandomSource τ]

omit [RandomSource τ] in
theorem of_layOut_ok {pass after : Pass σ} {laid : Field} (h : layOut pass = (.ok laid, after)) :
    pass.session.program.arena.Fresh laid ∧
      after.session = ⟨pass.session.program, .ofTree laid⟩ := by
  rw [layOut] at h
  rcases hrun : pass.session.program.arena.allocateRoot pass.session.program.fields pass.source
    with ⟨_ | root, source⟩
  · rw [hrun] at h
    cases h
  · rw [hrun] at h
    cases h
    exact ⟨Arena.fresh_of_allocateRoot hrun, rfl⟩

/-- The fill of a tree of the shape that was laid out last succeeds iff no field of that shape has a
fault. Otherwise it fails with the fault of the first field that has one: what comes before that
field has been filled, and the field and all that comes after it are as they were. -/
theorem fill_fails_at_first_fault {pass after : Pass σ} {laid root : Field}
    (hprogram : pass.session.program.Finished) (hlaid : layOut pass = (.ok laid, after))
    (s : root.SameShape laid) (source : τ) :
    (∀ v ∈ laid.visits, ∀ id, v.field.filler = some id →
      ∃ filler, pass.session.program.arena.fillers[id]? = some filler ∧
        pass.session.program.faultAt laid v = filler.fault pass.session.program.names laid v) ∧
    ((after.session.fill root source).1 = .ok () ↔
      ∀ v ∈ laid.visits, pass.session.program.faultAt laid v = none) ∧
    ∀ fault, (after.session.fill root source).1 = .error fault →
      ∃ done v rest, laid.visits = done ++ v :: rest ∧
        (∀ w ∈ done, pass.session.program.faultAt laid w = none) ∧
        pass.session.program.faultAt laid v = some fault ∧
        pass.session.program.fillAll after.session.bindings (Program.jobsOf done)
          ⟨root, source⟩ = (.ok (), (after.session.fill root source).2) ∧
        ∀ w ∈ v :: rest,
          (after.session.fill root source).2.root.at? w.path = root.at? w.path := by
  obtain ⟨hfresh, hsession⟩ := of_layOut_ok hlaid
  have hleaves := hfresh.fillersOnLeaves
  rw [hsession, Session.fill]
  refine ⟨fun v hv id hid => hprogram.exists_filler hfresh hv hid, ?_, ?_⟩
  · constructor
    · intro hok
      exact sound_of_fill_ok hleaves s (Prod.ext hok rfl)
    · intro hsound
      obtain ⟨filled, source', hrun, -⟩ := fill_of_sound hleaves hsound s source
      rw [hrun]
  · intro fault herror
    rw [fill_outcome pass.session.program hleaves s source] at herror
    cases hfirst : pass.session.program.firstFault laid with
    | none =>
      rw [hfirst] at herror
      cases herror
    | some first =>
      rw [hfirst] at herror
      obtain rfl : first = fault := Except.error.inj herror
      obtain ⟨done, v, rest, hsplit, hfault, hdone⟩ := List.findSome?_eq_some_iff.mp hfirst
      obtain ⟨filled, source', hrun, hfill, hframe⟩ :=
        fill_of_fault hleaves hsplit hdone hfault s source
      refine ⟨done, v, rest, hsplit, hdone, hfault, ?_, fun w hw => ?_⟩
      · rw [hrun, hfill]
      · rw [hfill]
        exact hframe.at_eq w.path (not_prefix_of_earlier hsplit hw)

/-- Declarations of three bytes, of which two are given, and of their checksum, some of which stand
at the top. -/
def sampleProgram (fields : List DeclId) : Program where
  arena := {
    decls := #[.block 0 3 (some 0), .block 1 4 none]
    templates := #[]
    fillers := #[.constant [1, 2], .quantity (.checksumOf 0)] }
  fields := fields
  names := ⟨["data"]⟩
  order := .little

def sampleData : Field := .leaf ⟨some 0, some 0⟩ (.block #[0, 0, 0])

def sampleChecksum : Field := .leaf ⟨none, some 1⟩ (.block #[0, 0, 0, 0])

def sampleTree (fields : List Field) : Field := .group Tag.none .compound fields

open Factory in
theorem sampleProgram_finished : (sampleProgram [1, 0]).Finished := by
  have h₀ : Reached .standard (ofRegistry .standard) := .start
  have h₁ := h₀.call (.constant [1, 2]) ⟨nofun, nofun⟩
  have h₂ := h₁.call (.block (some 0) 3 (some "data"))
    ⟨fun id hid => Option.some.inj hid ▸ by decide, nofun⟩
  have h₃ := h₂.call (.call "crc32" ["data"]) ⟨nofun, nofun⟩
  have h₄ := h₃.call (.block (some 1) 4 none)
    ⟨fun id hid => Option.some.inj hid ▸ by decide, nofun⟩
  exact ⟨.standard, _, [1, 0], { sampleProgram [1, 0] with order := .big }, h₄, by decide, rfl, rfl⟩

/-- The hypotheses can be met: the checksum of what comes later cannot be filled. -/
theorem fill_fails_at_first_fault_sample :
    (sampleProgram [1, 0]).Finished ∧
    layOut ⟨.start (sampleProgram [1, 0]), ChaCha8.ofSeed 7⟩ =
      (.ok (sampleTree [sampleChecksum, sampleData]),
        ⟨⟨sampleProgram [1, 0], .ofTree (sampleTree [sampleChecksum, sampleData])⟩,
          ChaCha8.ofSeed 7⟩) ∧
    ∃ done v rest, (sampleTree [sampleChecksum, sampleData]).visits = done ++ v :: rest ∧
      (sampleProgram [1, 0]).faultAt (sampleTree [sampleChecksum, sampleData]) v =
        some (.readBeforeFilled "data" (placeText [0])) := by
  have hlaid : layOut ⟨.start (sampleProgram [1, 0]), ChaCha8.ofSeed 7⟩ =
      (.ok (sampleTree [sampleChecksum, sampleData]),
        ⟨⟨sampleProgram [1, 0], .ofTree (sampleTree [sampleChecksum, sampleData])⟩,
          ChaCha8.ofSeed 7⟩) := rfl
  obtain ⟨-, -, hfault⟩ := fill_fails_at_first_fault sampleProgram_finished hlaid
    (.refl (sampleTree [sampleChecksum, sampleData])) (ChaCha8.ofSeed 7)
  have herror : ((⟨sampleProgram [1, 0], .ofTree (sampleTree [sampleChecksum, sampleData])⟩ :
      Session).fill (sampleTree [sampleChecksum, sampleData]) (ChaCha8.ofSeed 7)).1 =
        .error (.readBeforeFilled "data" (placeText [0])) := rfl
  obtain ⟨done, v, rest, hsplit, -, hv, -⟩ := hfault _ herror
  exact ⟨sampleProgram_finished, hlaid, done, v, rest, hsplit, hv⟩

end Session
end ArtifactLayout
