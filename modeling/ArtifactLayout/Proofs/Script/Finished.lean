import ArtifactLayout.Proofs.Factory.WellFormed
import ArtifactLayout.Script.Build

/-! # Scripts make finished programs

Reading a script drives the factory by calls alone, each of which is given numbers that earlier calls
returned. So a program that was read from a script is finished.
-/

namespace ArtifactLayout
set_option autoImplicit false

namespace Factory
open Attempt

variable {registry : Registry} {f g h : Factory} {α : Type}

/-- More calls lead from one factory to another, and all that was there is still there. -/
structure Onward (registry : Registry) (f g : Factory) : Prop where
  reached : Reached registry g
  within : Within f g

theorem Onward.refl (hf : Reached registry f) : Onward registry f f := ⟨hf, .refl f⟩

theorem Onward.trans (o : Onward registry f g) (o' : Onward registry g h) : Onward registry f h :=
  ⟨o'.reached, o.within.trans o'.within⟩

theorem Reached.perform_ok (hf : Reached registry f) {c : Call} (hc : c.Legal f) {m : Attempt Factory α}
    {wrap : α → Made} (hperform : c.perform = do return wrap (← m)) {a : α}
    (hrun : m f = (.ok a, g)) : Onward registry f g ∧ (wrap a).There g := by
  have hcall : c.perform f = (.ok (wrap a), g) := by
    rw [hperform, bind_of_ok hrun]
    rfl
  have hreached := hf.call c hc
  rw [hcall] at hreached
  have hgrows : Grows True _ c.perform _ := grows_perform c
  obtain ⟨hok, -⟩ := hgrows f f ⟨.refl, hc.fair⟩
  obtain ⟨hleads, hthere⟩ := hok _ _ hcall
  exact ⟨⟨hreached, hleads.within⟩, hthere⟩

theorem Reached.supply (hf : Reached registry f) {m : Attempt Factory FillerId} (hm : Supplies m)
    {id : FillerId} (hrun : m f = (.ok id, g)) : id < g.arena.fillers.size :=
  ((hm f (stocked_of_reached hf)).1 id g hrun).le

end Factory

namespace Script
open Factory Attempt

variable {registry : Registry} {f g : Factory}

theorem of_check_bind_ok {α β : Type} {outcome : Except Fault α} {k : α → Attempt Factory β} {b : β}
    (h : (check outcome >>= k) f = (.ok b, g)) : ∃ a, outcome = .ok a ∧ k a f = (.ok b, g) := by
  obtain ⟨a, t, ha, h⟩ := of_bind_ok h
  obtain ⟨houtcome, rfl⟩ := Prod.mk.inj ha
  exact ⟨a, houtcome, h⟩

theorem of_source_ok (hf : Reached registry f) {source : Source} {id : FillerId}
    (h : source.build f = (.ok id, g)) : Onward registry f g ∧ id < g.arena.fillers.size := by
  cases source with
  | literal body =>
    obtain ⟨content, -, h⟩ := of_check_bind_ok h
    obtain ⟨honward, -⟩ := hf.perform_ok (c := .constant content) ⟨nofun, nofun⟩ rfl h
    exact ⟨honward, hf.supply (supplies_addFiller _) h⟩
  | numeral text =>
    obtain ⟨value, -, h⟩ := of_check_bind_ok h
    obtain ⟨honward, -⟩ := hf.perform_ok (c := .number value) ⟨nofun, nofun⟩ rfl h
    exact ⟨honward, hf.supply (supplies_addFiller _) h⟩
  | field name =>
    obtain ⟨honward, -⟩ := hf.perform_ok (c := .numberIn name) ⟨nofun, nofun⟩ rfl h
    exact ⟨honward, hf.supply (supplies_numberIn name) h⟩
  | call function arguments =>
    obtain ⟨honward, -⟩ := hf.perform_ok (c := .call function arguments) ⟨nofun, nofun⟩ rfl h
    exact ⟨honward, hf.supply (supplies_call function arguments) h⟩

theorem of_buildSource_ok (hf : Reached registry f) {source : Option Source}
    {filler : Option FillerId} (h : buildSource source f = (.ok filler, g)) :
    Onward registry f g ∧ ∀ id, filler = some id → id < g.arena.fillers.size := by
  cases source with
  | none =>
    cases h
    exact ⟨.refl hf, nofun⟩
  | some source =>
    obtain ⟨id, t, hid, h⟩ := of_bind_ok h
    cases h
    obtain ⟨honward, hlt⟩ := of_source_ok hf hid
    exact ⟨honward, fun _ h => Option.some.inj h ▸ hlt⟩

mutual

theorem of_item_ok : ∀ {item : Item} {f g : Factory} {id : DeclId}, Reached registry f →
    item.build f = (.ok id, g) → Onward registry f g ∧ id < g.arena.decls.size
  | .block size name source, f, g, id, hf, hbuild => by
    obtain ⟨units, -, h⟩ := of_check_bind_ok hbuild
    obtain ⟨filler, t, hfiller, h⟩ := of_bind_ok h
    obtain ⟨hsource, hlt⟩ := of_buildSource_ok hf hfiller
    obtain ⟨honward, hid⟩ :=
      hsource.reached.perform_ok (c := .block filler units name) ⟨hlt, nofun⟩ rfl h
    exact ⟨hsource.trans honward, hid⟩
  | .ranged low high name source, f, g, id, hf, hbuild => by
    obtain ⟨least, -, h⟩ := of_check_bind_ok hbuild
    obtain ⟨most, -, h⟩ := of_check_bind_ok h
    obtain ⟨filler, t, hfiller, h⟩ := of_bind_ok h
    obtain ⟨hsource, hlt⟩ := of_buildSource_ok hf hfiller
    obtain ⟨honward, hid⟩ :=
      hsource.reached.perform_ok (c := .ranged filler least most name) ⟨hlt, nofun⟩ rfl h
    exact ⟨hsource.trans honward, hid⟩
  | .bitfield width name source, f, g, id, hf, hbuild => by
    obtain ⟨units, -, h⟩ := of_check_bind_ok hbuild
    obtain ⟨filler, t, hfiller, h⟩ := of_bind_ok h
    obtain ⟨hsource, hlt⟩ := of_buildSource_ok hf hfiller
    obtain ⟨honward, hid⟩ :=
      hsource.reached.perform_ok (c := .bitfield filler units name) ⟨hlt, nofun⟩ rfl h
    exact ⟨hsource.trans honward, hid⟩
  | .auto name source, f, g, id, hf, hbuild => by
    obtain ⟨filler, t, hfiller, h⟩ := of_bind_ok hbuild
    obtain ⟨hsource, hlt⟩ := of_source_ok hf hfiller
    obtain ⟨honward, hid⟩ := hsource.reached.perform_ok (c := .auto filler name)
      ⟨fun _ h => Option.some.inj h ▸ hlt, nofun⟩ rfl h
    exact ⟨hsource.trans honward, hid⟩
  | .container .compound name body, f, g, id, hf, hbuild => by
    obtain ⟨children, t, hchildren, h⟩ := of_bind_ok hbuild
    obtain ⟨hbody, hlt⟩ := of_buildAll_ok hf hchildren
    obtain ⟨honward, hid⟩ :=
      hbody.reached.perform_ok (c := .compound children name) ⟨nofun, hlt⟩ rfl h
    exact ⟨hbody.trans honward, hid⟩
  | .container .choice name body, f, g, id, hf, hbuild => by
    obtain ⟨children, t, hchildren, h⟩ := of_bind_ok hbuild
    obtain ⟨hbody, hlt⟩ := of_buildAll_ok hf hchildren
    obtain ⟨honward, hid⟩ :=
      hbody.reached.perform_ok (c := .choice children name) ⟨nofun, hlt⟩ rfl h
    exact ⟨hbody.trans honward, hid⟩
  | .container .bits name body, f, g, id, hf, hbuild => by
    obtain ⟨children, t, hchildren, h⟩ := of_bind_ok hbuild
    obtain ⟨hbody, hlt⟩ := of_buildAll_ok hf hchildren
    obtain ⟨honward, hid⟩ :=
      hbody.reached.perform_ok (c := .bits children name) ⟨nofun, hlt⟩ rfl h
    exact ⟨hbody.trans honward, hid⟩
  | .copies template low none, f, g, id, hf, hbuild => by
    obtain ⟨least, -, h⟩ := of_check_bind_ok hbuild
    exact hf.perform_ok (c := .copies template least least) ⟨nofun, nofun⟩ rfl h
  | .copies template low (some high), f, g, id, hf, hbuild => by
    obtain ⟨least, -, h⟩ := of_check_bind_ok hbuild
    obtain ⟨most, -, h⟩ := of_check_bind_ok h
    exact hf.perform_ok (c := .copies template least most) ⟨nofun, nofun⟩ rfl h

theorem of_buildAll_ok : ∀ {items : List Item} {f g : Factory} {ids : List DeclId},
    Reached registry f → buildAll items f = (.ok ids, g) →
      Onward registry f g ∧ ∀ id ∈ ids, id < g.arena.decls.size
  | [], f, g, ids, hf, hbuild => by
    cases hbuild
    exact ⟨.refl hf, nofun⟩
  | item :: rest, f, g, ids, hf, hbuild => by
    obtain ⟨first, t, hfirst, h⟩ := of_bind_ok hbuild
    obtain ⟨others, t', hothers, h⟩ := of_bind_ok h
    cases h
    obtain ⟨hitem, hlt⟩ := of_item_ok hf hfirst
    obtain ⟨hrest, hall⟩ := of_buildAll_ok hitem.reached hothers
    refine ⟨hitem.trans hrest, fun id hid => ?_⟩
    rcases List.mem_cons.mp hid with rfl | hid
    · exact Nat.lt_of_lt_of_le hlt hrest.within.decls_le
    · exact hall id hid

end

theorem of_buildEntries_ok (hf : Reached registry f) {entries : List Entry} {ids : List DeclId}
    (h : buildEntries entries f = (.ok ids, g)) :
    Onward registry f g ∧ ∀ id ∈ ids, id < g.arena.decls.size := by
  induction entries generalizing f ids with
  | nil =>
    cases h
    exact ⟨.refl hf, nofun⟩
  | cons entry rest ih =>
    cases entry with
    | template name body =>
      obtain ⟨children, t, hchildren, h⟩ := of_bind_ok h
      obtain ⟨number, t', hnumber, h⟩ := of_bind_ok h
      obtain ⟨hbody, hlt⟩ := of_buildAll_ok hf hchildren
      obtain ⟨htemplate, -⟩ :=
        hbody.reached.perform_ok (c := .defineTemplate name children) ⟨nofun, hlt⟩ rfl hnumber
      obtain ⟨hrest, hall⟩ := ih htemplate.reached h
      exact ⟨(hbody.trans htemplate).trans hrest, hall⟩
    | item item =>
      obtain ⟨first, t, hfirst, h⟩ := of_bind_ok h
      obtain ⟨others, t', hothers, h⟩ := of_bind_ok h
      cases h
      obtain ⟨hitem, hlt⟩ := of_item_ok hf hfirst
      obtain ⟨hrest, hall⟩ := ih hitem.reached hothers
      refine ⟨hitem.trans hrest, fun id hid => ?_⟩
      rcases List.mem_cons.mp hid with rfl | hid
      · exact Nat.lt_of_lt_of_le hlt hrest.within.decls_le
      · exact hall id hid

theorem finished_of_parse {text : String} {program : Program}
    (h : parse registry text = .ok program) : program.Finished := by
  rw [parse] at h
  cases hscript : read? text.toList with
  | none =>
    rw [hscript] at h
    cases h
  | some script =>
    rw [hscript] at h
    obtain ⟨fields, f, hfields, hclose⟩ := of_bind_ok (Prod.ext h rfl)
    obtain ⟨honward, hlt⟩ := of_buildEntries_ok .start hfields
    exact ⟨registry, f, fields, program, honward.reached, hlt, congrArg Prod.fst hclose, rfl⟩

end Script
end ArtifactLayout
