import ArtifactLayout.Corpus.Generator
import ArtifactLayout.Proofs.Arena.FixedShape
import ArtifactLayout.Proofs.Pass.Basic

/-! # Passes of a fixed shape

If the shape of a program is fixed, all passes over it lay out the same tree, or fail in laying it out
with the same fault. Whether a tree can be filled depends on its shape, so all passes succeed or
all fail with the same fault, and a failed pass need not be tried again.
-/

namespace ArtifactLayout
set_option autoImplicit false

open ArtifactLayout.Field

namespace Session
variable {σ τ : Type} [RandomSource σ] [RandomSource τ] {a : Pass σ} {b : Pass τ}

theorem layOut_eq (hfixed : a.session.program.hasFixedShape = true)
    (hprogram : a.session.program = b.session.program) :
    (layOut a).1 = (layOut b).1 ∧
      ∀ root, (layOut a).1 = .ok root → (layOut a).2.session = (layOut b).2.session := by
  obtain ⟨⟨program, bindings⟩, source⟩ := a
  obtain ⟨⟨other, bindings'⟩, source'⟩ := b
  obtain rfl : program = other := hprogram
  have houtcome : (program.arena.allocateRoot program.fields source).1 =
      (program.arena.allocateRoot program.fields source').1 :=
    Arena.allocateRoot_eq hfixed program.fields source source'
  rw [layOut, layOut]
  dsimp only
  generalize program.arena.allocateRoot program.fields source = run at houtcome ⊢
  generalize program.arena.allocateRoot program.fields source' = other at houtcome ⊢
  obtain ⟨outcome, after⟩ := run
  obtain ⟨outcome', after'⟩ := other
  obtain rfl : outcome = outcome' := houtcome
  cases outcome with
  | error fault =>
    refine ⟨rfl, fun root hroot => ?_⟩
    cases hroot
  | ok laid => exact ⟨rfl, fun root hroot => rfl⟩

/-- All passes over a program of a fixed shape succeed, or all fail with the same fault. -/
theorem success_generate_eq (hfixed : a.session.program.hasFixedShape = true)
    (hprogram : a.session.program = b.session.program) :
    success (generate a).1 = success (generate b).1 := by
  obtain ⟨houtcome, -⟩ := layOut_eq hfixed hprogram
  rcases ha : layOut a with ⟨fault | laid, after⟩
  · have hb : layOut b = (.error fault, (layOut b).2) := by
      rw [ha] at houtcome
      exact Prod.ext houtcome.symm rfl
    rw [generate_of_layOut_error ha, generate_of_layOut_error hb]
  · have hb : layOut b = (.ok laid, (layOut b).2) := by
      rw [ha] at houtcome
      exact Prod.ext houtcome.symm rfl
    rw [success_generate ha, success_generate hb, hprogram]

end Session

/-! ## Retries -/

namespace Generator
variable {σ : Type} [RandomSource σ]

theorem tryNext_program (g : Generator σ) :
    g.tryNext.2.session.program = g.session.program :=
  Session.generate_program ⟨g.session, g.source⟩

theorem tryNext_error {g other : Generator σ} (hfixed : g.session.program.hasFixedShape = true)
    (hprogram : g.session.program = other.session.program) {fault : Fault}
    (h : g.tryNext.1 = .error fault) : other.tryNext.1 = .error fault := by
  have hsuccess := Session.success_generate_eq (a := ⟨g.session, g.source⟩)
    (b := ⟨other.session, other.source⟩) hfixed hprogram
  have h : (Session.generate ⟨g.session, g.source⟩).1 = .error fault := h
  change (Session.generate ⟨other.session, other.source⟩).1 = .error fault
  rw [h] at hsuccess
  cases hother : (Session.generate ⟨other.session, other.source⟩).1 with
  | ok root =>
    rw [hother] at hsuccess
    cases hsuccess
  | error fault' =>
    rw [hother] at hsuccess
    obtain rfl : fault = fault' := Except.error.inj hsuccess
    rfl

theorem retry_of_error {g : Generator σ} (hfixed : g.session.program.hasFixedShape = true)
    {fault : Fault} (h : g.tryNext.1 = .error fault) (left failures : Nat) :
    ∃ e, (retry left failures g).1 = .error e := by
  -- a failed pass leaves the program alone, so the next one fails whatever it draws
  induction left generalizing g failures with
  | zero =>
    have hrun : g.tryNext = (.error fault, g.tryNext.2) := Prod.ext h rfl
    rw [retry, hrun]
    exact ⟨_, rfl⟩
  | succ left ih =>
    have hrun : g.tryNext = (.error fault, g.tryNext.2) := Prod.ext h rfl
    rw [retry, hrun]
    have hprogram : g.session.program = g.tryNext.2.session.program := (tryNext_program g).symm
    refine ih (hprogram ▸ hfixed) ?_ (failures + 1)
    exact tryNext_error hfixed hprogram h

theorem retry_of_ok {g after : Generator σ} {root : Field} (h : g.tryNext = (.ok root, after))
    (left failures : Nat) : retry left failures g = (.ok root, after) := by
  cases left <;> rw [retry, h]

/-- If the shape is fixed, then one try gives a tree iff any number of tries would. -/
theorem next_ok_iff_retry_ok {g : Generator σ} (hfixed : g.session.program.hasFixedShape = true)
    (left : Nat) : (∃ root, g.next.1 = .ok root) ↔ ∃ root, (retry left 0 g).1 = .ok root := by
  rw [next]
  rcases hrun : g.tryNext with ⟨fault | root, after⟩
  · have h : g.tryNext.1 = .error fault := by rw [hrun]
    obtain ⟨e, he⟩ := retry_of_error hfixed h (g.limit - 1) 0
    obtain ⟨e', he'⟩ := retry_of_error hfixed h left 0
    rw [he, he']
    constructor
    · rintro ⟨root, hroot⟩
      cases hroot
    · rintro ⟨root, hroot⟩
      cases hroot
  · rw [retry_of_ok hrun, retry_of_ok hrun]

variable {τ : Type} [RandomSource τ]

/-- Over a program of a fixed shape all passes lay out the same tree with the same bindings, or fail
to do so with the same fault; all of them succeed, or all fail with the same fault; and a
generator that tries once gives a tree iff it would give one with any number of tries. -/
theorem fixed_shape_sound {a : Session.Pass σ} {b : Session.Pass τ}
    (hfixed : a.session.program.hasFixedShape = true)
    (hprogram : a.session.program = b.session.program) :
    (Session.layOut a).1 = (Session.layOut b).1 ∧
    (∀ root, (Session.layOut a).1 = .ok root →
      (Session.layOut a).2.session = (Session.layOut b).2.session) ∧
    Session.success (Session.generate a).1 = Session.success (Session.generate b).1 ∧
    ∀ g : Generator σ, g.session = a.session → g.source = a.source → ∀ maxFailures,
      (∃ root, g.next.1 = .ok root) ↔
        ∃ root, (retry (max 1 maxFailures - 1) 0 g).1 = .ok root := by
  obtain ⟨houtcome, hsession⟩ := Session.layOut_eq hfixed hprogram
  refine ⟨houtcome, hsession, Session.success_generate_eq hfixed hprogram, ?_⟩
  intro g hg _ maxFailures
  exact next_ok_iff_retry_ok (hg ▸ hfixed) _

/-- The hypotheses can be met: nothing is drawn for three bytes and their checksum. -/
theorem fixed_shape_sound_sample :
    (Session.sampleProgram [0, 1]).hasFixedShape = true ∧
    Session.success
        (Session.generate ⟨.start (Session.sampleProgram [0, 1]), ChaCha8.ofSeed 7⟩).1 =
      Session.success
        (Session.generate ⟨.start (Session.sampleProgram [0, 1]), ChaCha8.ofSeed 8⟩).1 := by
  have hfixed : (Session.sampleProgram [0, 1]).hasFixedShape = true := by
    simp [Program.hasFixedShape, Arena.hasFixedShape, Session.sampleProgram, Decl.hasFixedShape]
  have hsound := fixed_shape_sound (a := ⟨.start (Session.sampleProgram [0, 1]), ChaCha8.ofSeed 7⟩)
    (b := ⟨.start (Session.sampleProgram [0, 1]), ChaCha8.ofSeed 8⟩) hfixed rfl
  exact ⟨hfixed, hsound.2.2.1⟩

end Generator
end ArtifactLayout
