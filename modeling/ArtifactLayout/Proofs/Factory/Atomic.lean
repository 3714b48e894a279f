import ArtifactLayout.Proofs.Factory.Advance
import ArtifactLayout.Proofs.Factory.History

/-! # Actions are atomic

Each action checks all that it checks before it changes anything. So an action that fails has changed
nothing, and a history is the same without the actions that failed in it.
-/

namespace ArtifactLayout.Factory
set_option autoImplicit false

open Attempt

variable {strict : Prop} {ms : List Mention} {f g : Factory} {α : Type}

/-- On a factory an attempt is refused and changes nothing, or it succeeds and mentions some names. -/
def Atomic (strict : Prop) (ms : List Mention) (m : Attempt Factory α) (f : Factory) : Prop :=
  (∃ fault, fault ≠ .malformed ∧ m f = (.error fault, f)) ∨ Succeeds strict ms m f

namespace Atomic

theorem refused {m : Attempt Factory α} {fault : Fault} (hrun : m f = (.error fault, f))
    (h : fault ≠ .malformed) : Atomic strict ms m f :=
  .inl ⟨fault, h, hrun⟩

theorem of_succeeds {m : Attempt Factory α} (h : Succeeds strict ms m f) : Atomic strict ms m f :=
  .inr h

theorem get_bind {k : Factory → Attempt Factory α} (h : Atomic strict ms (k f) f) :
    Atomic strict ms (get >>= k) f :=
  h

theorem checkUnits_bind {units : Nat} {k : Unit → Attempt Factory α}
    (h : units ≤ maxUnits → Atomic strict ms (k ()) f) :
    Atomic strict ms (checkUnits units >>= k) f := by
  by_cases hunits : maxUnits < units
  · refine .inl ⟨.tooLarge units, nofun, ?_⟩
    rw [checkUnits, if_pos hunits]
    rfl
  · rw [checkUnits, if_neg hunits]
    exact h (Nat.le_of_not_lt hunits)

theorem made {m : Attempt Factory α} (h : Atomic strict ms m f) (wrap : α → Made) :
    Atomic strict ms (do return wrap (← m)) f := by
  rcases h with ⟨fault, hfault, hrun⟩ | ⟨a, g, hrun, hfg⟩
  · exact .inl ⟨fault, hfault, bind_of_error hrun _⟩
  · exact .inr ⟨wrap a, g, bind_of_ok hrun _, hfg⟩

end Atomic

/-! ## Fillers -/

theorem atomic_addFiller (f : Factory) (filler : Filler)
    (h : strict → ∀ id ∈ filler.sources, id < f.names.count) :
    Atomic strict [] (addFiller filler) f :=
  .of_succeeds ⟨_, _, rfl, .filler f filler h⟩

theorem atomic_numberIn (f : Factory) (name : String) :
    Atomic strict [.read name] (numberIn name) f :=
  .of_succeeds <| succeeds_reader f name (.quantity <| .numberIn ·) fun _ _ => List.mem_singleton.mp

theorem sources_apply {function : FillerFunction} {name : String} {sources : List FieldId} :
    ∀ id ∈ (function.apply name sources).sources, id ∈ sources := by
  cases function with
  | digest algorithm => exact fun id hid => hid
  | constant | random | randomUnits => nofun

theorem ValueFunction.sources_apply {function : ValueFunction} {source : FieldId} :
    ∀ id ∈ (Filler.quantity (function.apply source)).sources, id = source := by
  cases function with
  | constant value => nofun
  | size | count | checksum | number => exact fun id hid => List.mem_singleton.mp hid

theorem atomic_call (f : Factory) (function : String) (arguments : List String) :
    Atomic strict (arguments.map .read) (call function arguments) f := by
  refine .get_bind (.get_bind ?_)
  cases f.registry.filler? function with
  | some filler =>
    obtain ⟨ids, g, hrun, hfg, hids⟩ := succeeds_refers strict f arguments
    have hadd : Advance strict [] g _ := .filler g (filler.apply function ids)
      fun _ id hid => hids id (sources_apply id hid)
    refine .of_succeeds ⟨_, _, bind_of_ok hrun _, ?_⟩
    simpa using hfg.trans hadd
  | none =>
    cases f.registry.value? function with
    | none => exact .refused rfl nofun
    | some value =>
      match arguments with
      | [argument] =>
        exact .of_succeeds <| succeeds_reader f argument (.quantity <| value.apply ·) fun _ =>
          ValueFunction.sources_apply
      | [] | _ :: _ :: _ => exact .refused rfl nofun

/-! ## Declarations -/

theorem atomic_block (f : Factory) (filler : Option FillerId) (size : Nat) (name : Option String) :
    Atomic strict (name.toList.map .declared) (block filler size name) f :=
  .checkUnits_bind fun hsize => .of_succeeds <|
    succeeds_filled f filler (succeeds_defaultFiller f) name (fun id => .block id size)
      (fun _ _ => rfl) fun _ _ _ => hsize

theorem atomic_bitfield (f : Factory) (filler : Option FillerId) (width : Nat)
    (name : Option String) :
    Atomic strict (name.toList.map .declared) (bitfield filler width name) f :=
  .checkUnits_bind fun hwidth => .of_succeeds <|
    succeeds_filled f filler (succeeds_defaultBitFiller f) name (fun id => .bitfield id width)
      (fun _ _ => rfl) fun _ _ _ => hwidth

theorem atomic_ranged (f : Factory) (filler : Option FillerId) (low high : Nat)
    (name : Option String) :
    Atomic strict (name.toList.map .declared) (ranged filler low high name) f := by
  rw [ranged]
  split
  · exact .refused rfl (by simp)
  · exact .checkUnits_bind fun hhigh => .of_succeeds <|
      succeeds_filled f filler (succeeds_defaultFiller f) name (fun id => .ranged id low high)
        (fun _ _ => rfl) fun _ _ _ => hhigh

theorem atomic_auto (f : Factory) (filler : FillerId) (name : Option String) :
    Atomic strict (name.toList.map .declared) (auto filler name) f := by
  refine .get_bind ?_
  cases hfiller : f.arena.fillers[filler]? with
  | none => exact .refused rfl nofun
  | some content =>
    dsimp only
    cases hlength : content.length? with
    | none => exact .refused rfl nofun
    | some size =>
      exact .of_succeeds <| succeeds_declared f name (.auto filler size) (fun _ => rfl)
        fun _ => ⟨content, hfiller, hlength⟩

theorem atomic_compound (f : Factory) (children : List DeclId) (name : Option String) :
    Atomic strict (name.toList.map .declared) (compound children name) f :=
  .of_succeeds <| (succeeds_groupLoose f children).bind fun grouped g _ =>
    succeeds_declared g name (.compound grouped) (fun _ => rfl) fun _ => trivial

theorem atomic_choice (f : Factory) (children : List DeclId) (name : Option String) :
    Atomic strict (name.toList.map .declared) (choice children name) f := by
  rw [choice]
  split
  · exact .refused rfl (by simp)
  · refine .get_bind ?_
    have hbytes : Succeeds strict [] (children.mapM fun child =>
        if f.arena.isBitfield child then bits [child] none else pure child) f := by
      refine Succeeds.mapM (fun child _ g => ?_) f
      split
      · exact succeeds_bits g [child] none
      · exact .pure child g
    exact .of_succeeds <| hbytes.bind fun bytes g _ =>
      succeeds_declared g name (.choice bytes) (fun _ => rfl) fun _ => trivial

/-! ## Templates -/

theorem atomic_defineTemplate (f : Factory) (name : String) (children : List DeclId) :
    Atomic strict [] (defineTemplate name children) f := by
  refine .get_bind ?_
  split
  · exact .refused rfl nofun
  · have hgrouped : Succeeds strict [] (groupLoose children) f := succeeds_groupLoose f children
    refine .of_succeeds (hgrouped.bind fun grouped g _ => ?_)
    let made : Factory := { g with
      arena.templates := g.arena.templates.push ⟨name, grouped⟩
      templates := (name, g.arena.templates.size) :: g.templates }
    exact ⟨g.arena.templates.size, made, rfl, .of_eq rfl rfl rfl rfl rfl⟩

theorem atomic_copies (f : Factory) (name : String) (low high : Nat) :
    Atomic strict [] (copies name low high) f := by
  refine .get_bind ?_
  cases f.templates.lookup name with
  | none => exact .refused rfl nofun
  | some template =>
    dsimp only
    split
    · exact .refused rfl nofun
    · exact .checkUnits_bind fun hhigh => .of_succeeds ⟨_, _, rfl, .unnamed f rfl hhigh⟩

/-! ## Actions -/

/-- The names that a call mentions if it succeeds, in turn. -/
def Call.mentions : Call → List Mention
  | numberIn name => [.read name]
  | call _ arguments => arguments.map .read
  | block _ _ name | auto _ name | bitfield _ _ name | ranged _ _ _ name => name.toList.map .declared
  | compound _ name | choice _ name | bits _ name => name.toList.map .declared
  | defaultFiller | defaultBitFiller | constant _ | number _ | defineTemplate _ _ | copies _ _ _ => []

theorem atomic_perform (f : Factory) (c : Call) : Atomic strict c.mentions c.perform f := by
  cases c with
  | defaultFiller => exact (Atomic.of_succeeds (succeeds_defaultFiller f)).made .filler
  | defaultBitFiller => exact (Atomic.of_succeeds (succeeds_defaultBitFiller f)).made .filler
  | constant content => exact (atomic_addFiller f (.constant content) nofun).made .filler
  | number value =>
    exact (atomic_addFiller f (.quantity (.constant value)) nofun).made .filler
  | numberIn name => exact (atomic_numberIn f name).made .filler
  | call function arguments => exact (atomic_call f function arguments).made .filler
  | block filler size name => exact (atomic_block f filler size name).made .decl
  | auto filler name => exact (atomic_auto f filler name).made .decl
  | bitfield filler width name => exact (atomic_bitfield f filler width name).made .decl
  | ranged filler low high name => exact (atomic_ranged f filler low high name).made .decl
  | compound children name => exact (atomic_compound f children name).made .decl
  | choice children name => exact (atomic_choice f children name).made .decl
  | bits children name => exact (Atomic.of_succeeds (succeeds_bits f children name)).made .decl
  | defineTemplate name children => exact (atomic_defineTemplate f name children).made .template
  | copies name low high => exact (atomic_copies f name low high).made .decl

namespace Action

def mentions : Action → List Mention
  | call c => c.mentions
  | quantity _ => []

/-- All that an action refers to by its number is there. -/
def Legal (f : Factory) : Action → Prop
  | call c => c.Legal f
  | quantity q => ∀ id ∈ q.sources, id < f.names.count

theorem Legal.grounded {a : Action} (h : a.Legal f) : a.Grounded f := by
  cases a with
  | call c => exact h
  | quantity q => trivial

instance (a : Action) (f : Factory) : Decidable (a.Legal f) :=
  match a with
  | call c => decidable_of_iff ((∀ id ∈ c.filler?, id < f.arena.fillers.size) ∧
      ∀ id ∈ c.decls, id < f.arena.decls.size)
      ⟨fun h => ⟨fun id hid => h.1 id hid, h.2⟩, fun h => ⟨fun id hid => h.filler_lt id hid, h.decl_lt⟩⟩
  | quantity q => inferInstanceAs (Decidable (∀ id ∈ q.sources, id < f.names.count))

theorem atomic {a : Action} (h : strict → a.Legal f) : Atomic strict a.mentions a.perform f := by
  cases a with
  | call c => exact atomic_perform f c
  | quantity q => exact (atomic_addFiller f _ h).made .filler

theorem unchanged_of_error {a : Action} {fault : Fault} (h : a.perform f = (.error fault, g)) :
    g = f := by
  have hatomic : Atomic False a.mentions a.perform f := atomic False.elim
  rcases hatomic with ⟨fault', -, hrun⟩ | ⟨made, g', hrun, -⟩
  · rw [hrun] at h
    exact (congrArg Prod.snd h).symm
  · rw [hrun] at h
    cases h

/-! ## Histories -/

/-- Each of some actions in turn is legal. -/
def Legally : List Action → Factory → Prop
  | [], _ => True
  | a :: rest, f => a.Legal f ∧ Legally rest (a.perform f).2

instance decidableLegally : (actions : List Action) → (f : Factory) → Decidable (Legally actions f)
  | [], _ => .isTrue trivial
  | a :: rest, f =>
    have := decidableLegally rest (a.perform f).2
    inferInstanceAs (Decidable (a.Legal f ∧ Legally rest (a.perform f).2))

/-- What the actions of a history mention that succeeded. -/
def told (history : List (Action × Except Fault Made)) : List Mention :=
  (history.filter (·.2.isOk)).flatMap (·.1.mentions)

theorem told_cons (entry : Action × Except Fault Made) (rest : List (Action × Except Fault Made)) :
    told (entry :: rest) = (if entry.2.isOk then entry.1.mentions else []) ++ told rest := by
  rw [told, List.filter_cons]
  split
  · rw [List.flatMap_cons, told]
  · rfl

/-- Some actions in turn advance a factory by what those of them mention that succeed. -/
theorem advance_performAll (actions : List Action) (f : Factory) (h : strict → Legally actions f) :
    Advance strict (told (history actions f)) f (performAll actions f) := by
  induction actions generalizing f with
  | nil => exact .refl f
  | cons a rest ih =>
    have hrest := ih (a.perform f).2 fun hs => (h hs).2
    rw [history, told_cons]
    refine Advance.trans ?_ hrest
    rcases atomic fun hs => (h hs).1 with ⟨fault, -, hrun⟩ | ⟨made, g, hrun, hfg⟩
    · rw [hrun]
      exact .refl f
    · rw [hrun]
      exact hfg

/-- Leaving failed actions out of a history changes nothing that came of the others. -/
theorem history_of_sublist {actions : List Action} {f : Factory}
    {rest : List (Action × Except Fault Made)} (hrest : rest.Sublist (history actions f))
    (hkept : rest.filter (·.2.isOk) = (history actions f).filter (·.2.isOk)) :
    history (rest.map Prod.fst) f = rest ∧
      performAll (rest.map Prod.fst) f = performAll actions f := by
  induction actions generalizing f rest with
  | nil =>
    obtain rfl := List.sublist_nil.mp hrest
    exact ⟨rfl, rfl⟩
  | cons a actions ih =>
    rw [history] at hrest hkept
    rcases hrun : a.perform f with ⟨outcome, g⟩
    rw [hrun] at hrest hkept
    have hstep : performAll (a :: actions) f = performAll actions g := by
      rw [performAll, List.foldl_cons, hrun]
      rfl
    cases hrest with
    | cons _ hrest =>
      cases outcome with
      | error fault =>
        obtain rfl := unchanged_of_error hrun
        rw [hstep]
        exact ih hrest hkept
      | ok made =>
        -- a success cannot have been left out, for too few are left
        have hlength := (hrest.filter (·.2.isOk)).length_le
        rw [hkept, List.filter_cons_of_pos rfl, List.length_cons] at hlength
        omega
    | @cons_cons kept _ _ hrest =>
      have htail : kept.filter (·.2.isOk) = (history actions g).filter (·.2.isOk) := by
        cases outcome with
        | error fault => exact hkept
        | ok made => exact (List.cons.inj hkept).2
      obtain ⟨hhistory, hperformAll⟩ := ih hrest htail
      constructor
      · rw [List.map_cons, history, hrun, hhistory]
      · rw [hstep, ← hperformAll, List.map_cons, performAll, List.foldl_cons, hrun]
        rfl

/-- An action that fails leaves a factory as it was. So any failed actions may be left out of a history:
what came of the others stays the same, and so does the factory with all that it can be closed to. -/
theorem failures_leave_no_trace :
    (∀ (f g : Factory) (a : Action) (fault : Fault), a.perform f = (.error fault, g) → g = f) ∧
    ∀ (f : Factory) (actions : List Action) (rest : List (Action × Except Fault Made)),
      rest.Sublist (history actions f) →
      rest.filter (·.2.isOk) = (history actions f).filter (·.2.isOk) →
      history (rest.map Prod.fst) f = rest ∧
        performAll (rest.map Prod.fst) f = performAll actions f ∧
        ∀ fields, (performAll (rest.map Prod.fst) f).finish fields =
          (performAll actions f).finish fields := by
  refine ⟨fun f g a fault hrun => unchanged_of_error hrun, fun f actions rest hrest hkept => ?_⟩
  obtain ⟨hhistory, hperformAll⟩ := history_of_sublist hrest hkept
  exact ⟨hhistory, hperformAll, fun fields => by rw [hperformAll]⟩

/-- A name given to a block that is too large, and then to another block. -/
def sampleActions : List Action :=
  [.call (.numberIn "a"), .call (.block none 20000000 (some "b")), .call (.choice [] none),
    .call (.block (some 0) 2 (some "a"))]

/-- Both hypotheses can be met: two of the actions fail, and one of them is left out. -/
theorem failures_leave_no_trace_sample :
    let f := ofRegistry .standard
    let rest := (history sampleActions f).eraseIdx 1
    rest.Sublist (history sampleActions f) ∧
      rest.filter (·.2.isOk) = (history sampleActions f).filter (·.2.isOk) ∧
      (sampleActions[1].perform f).1 = .error (.tooLarge 20000000) ∧
      rest.map Prod.snd = [.ok (.filler 0), .error (.emptyChoice none), .ok (.decl 0)] ∧
      (history (rest.map Prod.fst) f = rest ∧
        performAll (rest.map Prod.fst) f = performAll sampleActions f) := by
  intro f rest
  have hrest : rest.Sublist (history sampleActions f) := List.eraseIdx_sublist _ _
  have hkept : rest.filter (·.2.isOk) = (history sampleActions f).filter (·.2.isOk) := rfl
  obtain ⟨hhistory, hperformAll, -⟩ := failures_leave_no_trace.2 f sampleActions rest hrest hkept
  exact ⟨hrest, hkept, rfl, rfl, hhistory, hperformAll⟩

end Action
end ArtifactLayout.Factory
