import ArtifactLayout.Proofs.Factory.History
import ArtifactLayout.Proofs.Factory.Operations

/-! # The arenas of finished programs

Actions that refer only to what is there lead to factories in which every declaration stands behind what
it lays out. So the arenas of finished programs are well-formed, and all that stands at the top is
there.
-/

namespace ArtifactLayout
set_option autoImplicit false

namespace Factory

variable {registry : Registry} {f : Factory}

theorem Call.Legal.fair {c : Call} (h : c.Legal f) : c.Fair True f := by
  refine ⟨fun id hid => h.decl_lt id ?_, fun _ => h.decl_lt⟩
  cases c with
  | compound | choice | defineTemplate => exact hid
  | _ => cases hid

theorem Action.Grounded.fair {a : Action} (h : a.Grounded f) : a.Fair True f := by
  cases a with
  | call c => exact Call.Legal.fair h
  | quantity q => trivial

theorem sound_of_reached (h : Reached registry f) : Sound True f := by
  induction h with
  | start => exact sound_ofRegistry registry
  | perform a _ ha ih => exact ih.leads ha.fair.leads

theorem Sound.wellFormed (h : Sound True f) : f.arena.WellFormed := by
  constructor
  · exact fun decl hdecl => h.below_lt_size trivial (h.fits decl hdecl)
  · intro number low high hdecl
    obtain ⟨-, name, hentry⟩ := h.fits _ hdecl
    exact h.entry_lt _ hentry
  · exact fun template htemplate c hc => (h.template_byte template htemplate c hc).lt
  · refine Arena.acyclic_of_lt fun child id hrefers => ?_
    obtain ⟨decl, hdecl, hchild⟩ := hrefers
    exact h.below_lt trivial id decl hdecl child hchild
  · exact fun filler low high name hdecl => h.fits _ hdecl
  · exact fun number low high hdecl => (h.fits _ hdecl).1
  · exact fun children name hdecl => (h.fits _ hdecl).1

end Factory

namespace Program

theorem Finished.sound {program : Program} (h : program.Finished) :
    ∃ f : Factory, Factory.Sound True f ∧ program.arena = f.arena ∧
      ∀ id ∈ program.fields, f.arena.IsByte id := by
  obtain ⟨registry, f, fields, made, hreached, hfields, hmade, hprogram⟩ := h
  have hrun : Factory.close fields f = (.ok made, (Factory.close fields f).2) :=
    Prod.ext hmade rfl
  have hgrows : Factory.Grows True _ (Factory.close fields) _ := Factory.grows_close fields
  obtain ⟨hok, -⟩ := hgrows f f ⟨.refl, hfields⟩
  obtain ⟨hleads, harena, hbytes⟩ := hok _ _ hrun
  refine ⟨_, (Factory.sound_of_reached hreached).leads hleads, ?_, ?_⟩
  · rw [hprogram]
    exact harena
  · rw [hprogram]
    exact hbytes

theorem Finished.wellFormed {program : Program} (h : program.Finished) : program.arena.WellFormed := by
  obtain ⟨f, hsound, harena, -⟩ := h.sound
  rw [harena]
  exact hsound.wellFormed

theorem Finished.fields_lt {program : Program} (h : program.Finished) :
    ∀ id ∈ program.fields, id < program.arena.decls.size := by
  obtain ⟨f, -, harena, hbytes⟩ := h.sound
  rw [harena]
  exact fun id hid => (hbytes id hid).lt

theorem Finished.ordered {program : Program} (h : program.Finished) (order : ByteOrder) :
    { program with order }.Finished := by
  obtain ⟨registry, f, fields, made, hreached, hfields, hmade, hprogram⟩ := h
  refine ⟨registry, f, fields, made, hreached, hfields, hmade, ?_⟩
  rw [hprogram]

end Program
end ArtifactLayout
