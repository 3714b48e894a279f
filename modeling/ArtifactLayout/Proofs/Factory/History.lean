import ArtifactLayout.Proofs.Factory.Action
import ArtifactLayout.Proofs.Factory.Stock

/-! # Histories of a factory

A factory is used by actions in turn, each of which refers to what is there already; one that fails may
be followed by others. Programs are made by closing a factory after such a history.
-/

namespace ArtifactLayout
set_option autoImplicit false

namespace Factory
open Attempt

/-- The fillers and the declarations that a call refers to are there. -/
structure Call.Legal (c : Call) (f : Factory) : Prop where
  filler_lt : ∀ id, c.filler? = some id → id < f.arena.fillers.size
  decl_lt : ∀ id ∈ c.decls, id < f.arena.decls.size

/-- What an action refers to is there, apart from the fields that a quantity of its own reads: whether
there are such fields is not looked at before the quantity is written. -/
def Action.Grounded (f : Factory) : Action → Prop
  | call c => c.Legal f
  | quantity _ => True

/-- The factories that some actions lead to. -/
inductive Reached (registry : Registry) : Factory → Prop where
  | start : Reached registry (ofRegistry registry)
  | perform {f : Factory} (a : Action) (h : Reached registry f) (ha : a.Grounded f) :
      Reached registry (a.perform f).2

variable {registry : Registry} {f : Factory} {c : Call}

theorem Reached.call (h : Reached registry f) (c : Call) (hc : c.Legal f) :
    Reached registry (c.perform f).2 :=
  h.perform (.call c) hc

/-- A legal call done by `m` keeps a factory stocked. -/
abbrev Performs (c : Call) (m : Attempt Factory Made) : Prop :=
  Ensures (fun f => Stocked 0 f ∧ c.Legal f) m (fun _ => Stocked 0) (Stocked 0)

theorem Call.Legal.stocked (h : c.Legal f) (hf : Stocked 0 f) :
    Stocked (need c.filler?) f := by
  cases hfiller : c.filler? with
  | none => exact hf
  | some id => exact ⟨hf.filler_lt, hf.random_lt, hf.randomBit_lt, h.filler_lt id hfiller⟩

theorem Performs.of_supplies {m : Attempt Factory FillerId} (h : Supplies m) :
    Performs c (do return .filler (← m)) := by
  refine Ensures.bind (h.mono (fun f hf => hf.1) fun _ f hf => hf) fun id => ?_
  exact .pure fun f hf => hf.mono (Nat.zero_le _)

/-- The filler that the call refers to is in stock when it is done. -/
theorem Performs.of_need {α : Type} {m : Attempt Factory α} (wrap : α → Made)
    (h : Ensures (Stocked (need c.filler?)) m (fun _ => Stocked 0) (Stocked 0)) :
    Performs c (do return wrap (← m)) := by
  refine Ensures.bind (h.mono (fun f hf => hf.2.stocked hf.1) fun _ f hf => hf) fun a => ?_
  exact .pure fun f hf => hf

theorem Performs.of_keeps {α : Type} {m : Attempt Factory α} (wrap : α → Made) (h : Keeps 0 m) :
    Performs c (do return wrap (← m)) := by
  refine Ensures.bind (h.mono (fun f hf => hf.1) fun _ f hf => hf) fun a => ?_
  exact .pure fun f hf => hf

theorem performs_perform (c : Call) : Performs c c.perform := by
  cases c with
  | defaultFiller => exact .of_supplies supplies_defaultFiller
  | defaultBitFiller => exact .of_supplies supplies_defaultBitFiller
  | constant content => exact .of_supplies (supplies_addFiller _)
  | number value => exact .of_supplies (supplies_addFiller _)
  | numberIn name => exact .of_supplies (supplies_numberIn name)
  | call function arguments => exact .of_supplies (supplies_call function arguments)
  | block filler size name => exact .of_need .decl (keeps_block filler size name)
  | auto filler name => exact .of_keeps .decl (keeps_auto filler name)
  | bitfield filler width name => exact .of_need .decl (keeps_bitfield filler width name)
  | ranged filler low high name => exact .of_need .decl (keeps_ranged filler low high name)
  | compound children name => exact .of_keeps .decl (keeps_compound 0 children name)
  | choice children name => exact .of_keeps .decl (keeps_choice 0 children name)
  | bits children name => exact .of_keeps .decl (keeps_bits 0 children name)
  | defineTemplate name children =>
    exact .of_keeps .template (keeps_defineTemplate 0 name children)
  | copies name low high => exact .of_keeps .decl (keeps_copies 0 name low high)

theorem stocked_perform {a : Action} (h : Stocked 0 f) (ha : a.Grounded f) :
    Stocked 0 (a.perform f).2 := by
  cases a with
  | call c =>
    obtain ⟨hok, herror⟩ := performs_perform c f ⟨h, ha⟩
    show Stocked 0 (c.perform f).2
    rcases hrun : c.perform f with ⟨fault | made, g⟩
    · exact herror fault g hrun
    · exact hok made g hrun
  | quantity q => exact (h.push _).mono (Nat.zero_le _)

theorem stocked_of_reached (h : Reached registry f) : Stocked 0 f := by
  induction h with
  | start =>
    refine ⟨?_, ?_, ?_, Nat.zero_le _⟩
    · intro decl hdecl
      exact absurd hdecl (Array.not_mem_empty decl)
    · intro id hid
      cases hid
    · intro id hid
      cases hid
  | perform a _ ha ih => exact stocked_perform ih ha

/-- Closing a factory keeps its fillers, and the program is made of them. -/
theorem ensures_close (fields : List DeclId) :
    Ensures (Stocked 0) (close fields) (fun made f => f.arena = made.arena ∧ Stocked 0 f)
      (Stocked 0) := by
  rw [close]
  split
  · exact .throw fun f hf => hf
  · refine Ensures.bind .get fun f => ?_
    refine Ensures.mono (P := Stocked 0) ?_ (fun f hf => hf.2) fun _ f hf => hf
    split
    · exact .throw fun f hf => hf
    · refine Ensures.bind (keeps_groupLoose 0 fields) fun fields => ?_
      refine Ensures.bind .get fun f => .pure ?_
      rintro g ⟨rfl, hg⟩
      exact ⟨rfl, hg⟩

end Factory

namespace Program

/-- A program that was made by closing a factory after some actions, in either byte order. -/
def Finished (program : Program) : Prop :=
  ∃ registry f fields made, Factory.Reached registry f ∧
    (∀ id ∈ fields, id < f.arena.decls.size) ∧ Factory.finish f fields = .ok made ∧
    program = { made with order := program.order }

theorem Finished.filler_lt {program : Program} (h : program.Finished) :
    ∀ decl ∈ program.arena.decls, ∀ id, decl.filler? = some id →
      id < program.arena.fillers.size := by
  obtain ⟨registry, f, fields, made, hreached, -, hmade, hprogram⟩ := h
  have hrun : Factory.close fields f = (.ok made, (Factory.close fields f).2) :=
    Prod.ext hmade rfl
  obtain ⟨hok, -⟩ := Factory.ensures_close fields f (Factory.stocked_of_reached hreached)
  obtain ⟨harena, hstocked⟩ := hok _ _ hrun
  rw [hprogram]
  exact harena ▸ hstocked.filler_lt

end Program
end ArtifactLayout
