import ArtifactLayout.Proofs.Factory.Operations
import ArtifactLayout.Proofs.Field.Placement
import ArtifactLayout.Proofs.Pass.Basic

/-! # Alignment

Whatever a factory is asked for, bitfields end up in bit groups alone. So in all trees of its programs
only bit groups hold single bits, every other field starts at a byte, and the bytes of a tree are made
of the bits of its leaves in their order.
-/

namespace ArtifactLayout
set_option autoImplicit false

/-! ## Programs -/

namespace Factory

/-- The factories that some actions lead to. An action may be given any numbers, but it has to find the
declarations that it looks at. -/
inductive Used (registry : Registry) : Factory → Prop where
  | start : Used registry (ofRegistry registry)
  | perform {f : Factory} (a : Action) (h : Used registry f)
      (ha : ∀ id ∈ a.inspected, id < f.arena.decls.size) : Used registry (a.perform f).2

theorem sound_of_used {registry : Registry} {f : Factory} (h : Used registry f) : Sound False f := by
  induction h with
  | start => exact sound_ofRegistry registry
  | perform a _ ha ih => exact ih.leads (Action.Fair.of_inspected ha).leads

end Factory

namespace Program

/-- A program that was made by closing a factory after some actions, in either byte order. -/
def Closed (program : Program) : Prop :=
  ∃ registry f fields made, Factory.Used registry f ∧
    (∀ id ∈ fields, id < f.arena.decls.size) ∧ Factory.finish f fields = .ok made ∧
    program = { made with order := program.order }

/-- Bitfields are not laid out next to bytes: what stands in a compound, a choice or a template or at
the top is there and is not a bitfield. -/
structure Aligned (program : Program) : Prop where
  compound : ∀ children name, Decl.compound children name ∈ program.arena.decls →
    ∀ c ∈ children, program.arena.IsByte c
  choice : ∀ children name, Decl.choice children name ∈ program.arena.decls →
    ∀ c ∈ children, program.arena.IsByte c
  template : ∀ template ∈ program.arena.templates, ∀ c ∈ template.children,
    program.arena.IsByte c
  top : ∀ c ∈ program.fields, program.arena.IsByte c

theorem Closed.aligned {program : Program} (h : program.Closed) : program.Aligned := by
  obtain ⟨registry, f, fields, made, hused, hfields, hmade, hprogram⟩ := h
  have hrun : Factory.close fields f = (.ok made, (Factory.close fields f).2) :=
    Prod.ext hmade rfl
  have hgrows : Factory.Grows False _ (Factory.close fields) _ := Factory.grows_close fields
  obtain ⟨hok, -⟩ := hgrows f f ⟨.refl, hfields⟩
  obtain ⟨hleads, harena, hbytes⟩ := hok _ _ hrun
  have hsound := (Factory.sound_of_used hused).leads hleads
  rw [hprogram]
  constructor
  · intro children name hdecl
    have hfits := hsound.fits _ (harena ▸ hdecl)
    exact fun c hc => harena ▸ hfits c hc
  · intro children name hdecl
    have hfits := hsound.fits _ (harena ▸ hdecl)
    exact fun c hc => harena ▸ hfits.2 c hc
  · intro template htemplate c hc
    exact harena ▸ hsound.template_byte template (harena ▸ htemplate) c hc
  · exact fun c hc => harena ▸ hbytes c hc

end Program

/-! ## Trees -/

namespace Arena
variable {σ : Type} [RandomSource σ] {program : Program}

theorem unitBits_of_lays {arena : Arena} {id : DeclId} {s s' : σ} {plan : Plan}
    (h : arena.Lays id s plan s') (hbyte : arena.IsByte id) : plan.field.unitBits = 8 := by
  obtain ⟨decl, hdecl, hbyte⟩ := hbyte
  cases h with
  | bitfield hbit =>
    rw [hbit] at hdecl
    obtain rfl := Option.some.inj hdecl
    cases hbyte
  | block | auto | ranged | compound | choice | bits | copies => rfl

theorem unitBits_of_laysAll {arena : Arena} {ids : List DeclId} {s s' : σ} {plans : List Plan}
    (h : arena.LaysAll ids s plans s') (hbytes : ∀ id ∈ ids, arena.IsByte id) :
    ∀ c ∈ Plan.fields plans, c.unitBits = 8 := by
  induction ids generalizing s plans with
  | nil =>
    cases h
    exact fun c hc => absurd hc List.not_mem_nil
  | cons id ids ih =>
    cases h with
    | cons head tail =>
      intro c hc
      rcases List.mem_cons.mp hc with rfl | hc
      · exact unitBits_of_lays head (hbytes id List.mem_cons_self)
      · exact ih tail (fun id hid => hbytes id (List.mem_cons_of_mem _ hid)) c hc

theorem byteAligned_of_children {tag : Tag} {grouping : Grouping} {children : List Field}
    (h : ∀ c ∈ children, c.unitBits = 8) : (Field.group tag grouping children).ByteAligned := by
  intro tag' grouping' children' hgroup _
  injection hgroup with _ _ hchildren
  exact hchildren ▸ h

theorem ofEach_byteAligned (h : program.Aligned) : program.arena.OfEach σ Field.ByteAligned := by
  constructor
  · intro id s s' plan hlays
    cases hlays with
    | block | auto | bitfield | ranged => exact fun _ _ _ hgroup => nomatch hgroup
    | compound hdecl hall =>
      have hbytes := h.compound _ _ (Array.mem_of_getElem? hdecl)
      exact byteAligned_of_children (unitBits_of_laysAll hall hbytes)
    | choice hdecl _ hpick hchild =>
      have hbytes := h.choice _ _ (Array.mem_of_getElem? hdecl)
      refine byteAligned_of_children fun c hc => ?_
      obtain rfl := List.mem_singleton.mp hc
      exact unitBits_of_lays hchild (hbytes _ (List.mem_of_getElem? hpick))
    | bits hdecl hall =>
      intro tag grouping children hgroup hbits
      injection hgroup with _ hgrouping
      exact absurd hgrouping.symm hbits
    | copies hdecl htemplate hle hall =>
      refine byteAligned_of_children fun c hc => ?_
      obtain rfl := List.eq_of_mem_replicate hc
      rfl
  · intro template s s' plans htemplate hall
    exact byteAligned_of_children (unitBits_of_laysAll hall (h.template template htemplate))

theorem aligned_of_allocateRoot (h : program.Aligned) {s s' : σ} {root : Field}
    (hrun : program.arena.allocateRoot program.fields s = (.ok root, s')) :
    root.Everywhere Field.ByteAligned ∧ root.unitBits = 8 := by
  obtain ⟨plans, hall, rfl⟩ := lays_of_allocateRoot hrun
  refine ⟨Field.everywhere_group ?_ ((ofEach_byteAligned h).all_everywhere hall), rfl⟩
  exact byteAligned_of_children (unitBits_of_laysAll hall h.top)

end Arena

namespace Field.SameShape
variable {f g : Field}

theorem byteAligned (s : f.SameShape g) (h : g.ByteAligned) : f.ByteAligned := by
  rintro tag grouping children rfl hbits c hc
  cases g with
  | leaf tag' content => cases s
  | group tag' grouping' others =>
    have hblank : (group tag grouping children).blank = (group tag' grouping' others).blank := s
    rw [blank, blank, blanks_eq_map, blanks_eq_map] at hblank
    injection hblank with _ hgrouping hchildren
    have hc : c.blank ∈ others.map blank := hchildren ▸ List.mem_map_of_mem hc
    obtain ⟨d, hd, hdc⟩ := List.mem_map.mp hc
    rw [← unitBits_blank c, ← hdc, unitBits_blank]
    exact h tag' grouping' others rfl (hgrouping ▸ hbits) d hd

theorem everywhere_byteAligned (s : f.SameShape g) (h : g.Everywhere ByteAligned) :
    f.Everywhere ByteAligned := by
  intro path a ha
  obtain ⟨b, hb, hab⟩ := s.at? ha
  exact hab.byteAligned (h path b hb)

end Field.SameShape

/-! ## Passes -/

namespace Session
variable {σ : Type} [RandomSource σ]

theorem rendered_of_layOut {pass after : Pass σ} {laid root : Field}
    (h : pass.session.program.Aligned) (hlaid : layOut pass = (.ok laid, after))
    (s : root.SameShape laid) : root.Rendered := by
  rw [layOut] at hlaid
  rcases hrun : pass.session.program.arena.allocateRoot pass.session.program.fields pass.source
    with ⟨fault | tree, source⟩
  · rw [hrun] at hlaid
    cases hlaid
  · rw [hrun] at hlaid
    cases hlaid
    obtain ⟨haligned, hbyte⟩ := Arena.aligned_of_allocateRoot h hrun
    exact Field.rendered_of_aligned (s.everywhere_byteAligned haligned) (s.unitBits_eq.trans hbyte)

/-- Whatever actions a program was made by, it keeps bitfields in bit groups. Every tree of the shape of
one that it lays out, and every tree that it generates, is rendered bit by bit in the order of the
leaves. -/
theorem aligned_and_rendered {program : Program} (h : program.Closed) :
    program.Aligned ∧
    (∀ (pass after : Pass σ) (laid root : Field), pass.session.program = program →
      layOut pass = (.ok laid, after) → root.SameShape laid → root.Rendered) ∧
    ∀ (pass after : Pass σ) (root : Field), pass.session.program = program →
      generate pass = (.ok root, after) → root.Rendered := by
  refine ⟨h.aligned, ?_, ?_⟩
  · rintro pass after laid root rfl hlaid s
    exact rendered_of_layOut h.aligned hlaid s
  · rintro pass after root rfl hroot
    obtain ⟨laid, mid, hlaid, s⟩ := sameShape_of_generate_ok hroot
    exact rendered_of_layOut h.aligned hlaid s

/-- Bitfields of three and four bits and a byte, declared next to each other. -/
def looseProgram : Program where
  arena := {
    decls := #[.bitfield 0 3 none, .bitfield 0 4 none, .block 1 1 none, .bits [0, 1] none]
    templates := #[]
    fillers := #[.randomUnits, .random] }
  fields := [3, 2]
  names := ⟨[]⟩
  order := .big

open Factory in
theorem looseProgram_closed : looseProgram.Closed := by
  have h₀ : Used .standard (ofRegistry .standard) := .start
  have h₁ := h₀.perform (.call (.bitfield none 3 none)) nofun
  have h₂ := h₁.perform (.call (.bitfield none 4 none)) nofun
  have h₃ := h₂.perform (.call (.block none 1 none)) nofun
  exact ⟨.standard, _, [0, 1, 2], looseProgram, h₃, by decide, rfl, rfl⟩

/-- The hypothesis can be met: the bitfields share the first byte. -/
theorem aligned_and_rendered_sample :
    looseProgram.Closed ∧ looseProgram.Aligned ∧
    ∃ laid after, layOut ⟨.start looseProgram, ChaCha8.ofSeed 7⟩ = (.ok laid, after) ∧
      laid.size = 2 ∧ laid.bitStart [0, 1] = 3 ∧ laid.bitStart [1] = 8 ∧ laid.Rendered := by
  obtain ⟨haligned, hlaid, -⟩ := aligned_and_rendered (σ := ChaCha8) looseProgram_closed
  refine ⟨looseProgram_closed, haligned, _, _, rfl, rfl, rfl, rfl, ?_⟩
  exact hlaid ⟨.start looseProgram, ChaCha8.ofSeed 7⟩ _ _ _ rfl rfl (.refl _)

end Session
end ArtifactLayout
