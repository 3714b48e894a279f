import ArtifactLayout.Proofs.Factory.Atomic

/-! # The limit on units

A call that names a number of units above the limit is refused, for that reason or for another that is
looked at before it. A block that takes its size from its filler is not checked: it is as long as the
filler says, so it is within the limit exactly if that length is. All other declarations are.
-/

namespace ArtifactLayout
set_option autoImplicit false

/-- The units that a declaration asks for: the most there can be of them, if the number is drawn. -/
def Decl.units? : Decl → Option Nat
  | block _ size _ | auto _ size _ => some size
  | bitfield _ width _ => some width
  | ranged _ _ high _ | copies _ _ high => some high
  | compound _ _ | choice _ _ | bits _ _ => none

namespace Arena

/-- How long a filler says that its content is. -/
def length? (arena : Arena) (filler : FillerId) : Option Nat :=
  arena.fillers[filler]?.bind Filler.length?

/-- The length that a declaration takes over from its filler. -/
def reported? (arena : Arena) : Decl → Option Nat
  | .auto filler _ _ => arena.length? filler
  | _ => none

end Arena

namespace Decl.Capped
variable {arena : Arena} {decl : Decl}

theorem length?_eq {filler : FillerId} {size : Nat} {name : Option FieldId}
    (h : (auto filler size name).Capped arena) : arena.length? filler = some size := by
  obtain ⟨content, hcontent, hlength⟩ := h
  rw [Arena.length?, hcontent]
  exact hlength

theorem units_le_iff (h : decl.Capped arena) {units : Nat} (hunits : decl.units? = some units) :
    units ≤ maxUnits ↔ ∀ length, arena.reported? decl = some length → length ≤ maxUnits := by
  cases decl with
  | auto filler size name =>
    obtain rfl : size = units := Option.some.inj hunits
    rw [Arena.reported?, h.length?_eq]
    simp
  | block | bitfield | ranged | copies =>
    obtain rfl := Option.some.inj hunits
    exact ⟨fun _ => nofun, fun _ => h⟩
  | compound | choice | bits => cases hunits

end Decl.Capped

namespace Factory
open Attempt

variable {f : Factory} {units : Nat}

namespace Call

/-- The units that a call asks for by number: the most there can be of them, if the number is drawn. -/
def units? : Call → Option Nat
  | block _ size _ => some size
  | bitfield _ width _ => some width
  | ranged _ _ high _ => some high
  | copies _ _ high => some high
  | _ => none

/-- The faults that are found in a call before its units are looked at: a template that is not known,
and bounds of which the lower one is above the upper one. -/
def misuse? (f : Factory) : Call → Option Fault
  | ranged _ low high _ => if high < low then some (.invalidBounds low high) else none
  | copies name low high =>
    if f.templates.lookup name = none then some (.unknownTemplate name)
    else if high < low then some (.invalidBounds low high)
    else none
  | _ => none

end Call

/-! ## Refusals -/

theorem checkUnits_of_lt (h : maxUnits < units) (f : Factory) :
    checkUnits units f = (.error (.tooLarge units), f) := by
  rw [checkUnits, if_pos h]
  rfl

theorem block_of_lt (h : maxUnits < units) (filler : Option FillerId) (name : Option String) :
    block filler units name f = (.error (.tooLarge units), f) :=
  bind_of_error (checkUnits_of_lt h f) _

theorem bitfield_of_lt (h : maxUnits < units) (filler : Option FillerId) (name : Option String) :
    bitfield filler units name f = (.error (.tooLarge units), f) :=
  bind_of_error (checkUnits_of_lt h f) _

theorem ranged_of_lt (h : maxUnits < units) (filler : Option FillerId) (low : Nat)
    (name : Option String) :
    ranged filler low units name f =
      (.error (((Call.ranged filler low units name).misuse? f).getD (.tooLarge units)), f) := by
  rw [ranged, Call.misuse?]
  split
  · rfl
  · exact bind_of_error (checkUnits_of_lt h f) _

theorem copies_of_lt (h : maxUnits < units) (name : String) (low : Nat) :
    copies name low units f =
      (.error (((Call.copies name low units).misuse? f).getD (.tooLarge units)), f) := by
  rw [copies, bind_of_ok (get_apply f), Call.misuse?]
  cases f.templates.lookup name with
  | none => rfl
  | some template =>
    dsimp only
    rw [if_neg (Option.some_ne_none template)]
    split
    · rfl
    · exact bind_of_error (checkUnits_of_lt h f) _

/-- A call for too many units is refused and changes nothing. -/
theorem perform_of_lt {c : Call} (hc : c.units? = some units) (h : maxUnits < units) :
    c.perform f = (.error ((c.misuse? f).getD (.tooLarge units)), f) := by
  cases c with
  | block filler size name =>
    obtain rfl := Option.some.inj hc
    exact bind_of_error (block_of_lt h filler name) _
  | bitfield filler width name =>
    obtain rfl := Option.some.inj hc
    exact bind_of_error (bitfield_of_lt h filler name) _
  | ranged filler low high name =>
    obtain rfl := Option.some.inj hc
    exact bind_of_error (ranged_of_lt h filler low name) _
  | copies name low high =>
    obtain rfl := Option.some.inj hc
    exact bind_of_error (copies_of_lt h name low) _
  | _ => cases hc

/-! ## Lengths that are taken over -/

/-- A block is declared at the length that its filler reports, whatever that is. -/
theorem auto_of_length {filler : FillerId} {size : Nat} (h : f.arena.length? filler = some size)
    (name : Option String) :
    ∃ id g, (Call.auto filler name).perform f = (.ok (.decl f.arena.decls.size), g) ∧
      g.arena.decls = f.arena.decls.push (.auto filler size id) := by
  obtain ⟨content, hcontent, hlength⟩ := Option.bind_eq_some_iff.mp h
  have hauto : auto filler name f = (do addDecl (.auto filler size (← declare name))) f := by
    rw [auto, bind_of_ok (get_apply f), hcontent]
    dsimp only
    rw [hlength]
  cases name with
  | none => exact ⟨none, _, bind_of_ok hauto _, rfl⟩
  | some name => exact ⟨some (f.names.register name).1, _, bind_of_ok hauto _, rfl⟩

/-! ## Every declaration -/

namespace Action

theorem capped_performAll (registry : Registry) (actions : List Action) :
    ∀ decl ∈ (performAll actions (ofRegistry registry)).arena.decls.toList,
      decl.Capped (performAll actions (ofRegistry registry)).arena := by
  have hadvance : Advance False _ (ofRegistry registry) _ := advance_performAll actions _ False.elim
  obtain ⟨added, hadded, hcapped, -⟩ := hadvance.decls
  intro decl hdecl
  rw [hadded] at hdecl
  exact hcapped decl hdecl

/-- After any actions, in any order and whether or not they failed, a declaration is within the limit
exactly if the length is that it takes over from its filler; those that take none over always are. A
call that names a larger number changes nothing and is refused: because it asks for too much, unless its
template is not known or its bounds are the wrong way round. A block is declared at the length that its
filler reports, above the limit too. -/
theorem units_limited (registry : Registry) (actions : List Action) :
    let f := performAll actions (ofRegistry registry)
    (∀ decl ∈ f.arena.decls, ∀ units, decl.units? = some units →
      (units ≤ maxUnits ↔ ∀ length, f.arena.reported? decl = some length → length ≤ maxUnits)) ∧
    (∀ filler size name, .auto filler size name ∈ f.arena.decls →
      f.arena.length? filler = some size) ∧
    (∀ (g : Factory) (c : Call) (units : Nat), c.units? = some units → maxUnits < units →
      c.perform g = (.error ((c.misuse? g).getD (.tooLarge units)), g)) ∧
    ∀ (g : Factory) (filler : FillerId) (size : Nat) (name : Option String),
      g.arena.length? filler = some size →
        ∃ id h, (Call.auto filler name).perform g = (.ok (.decl g.arena.decls.size), h) ∧
          h.arena.decls = g.arena.decls.push (.auto filler size id) := by
  intro f
  have hcapped : ∀ decl ∈ f.arena.decls, decl.Capped f.arena := fun decl hdecl =>
    capped_performAll registry actions decl (Array.mem_toList_iff.mpr hdecl)
  refine ⟨fun decl hdecl units hunits => (hcapped decl hdecl).units_le_iff hunits,
    fun filler size name hauto => (hcapped _ hauto).length?_eq, ?_, ?_⟩
  · exact fun g c units hc h => perform_of_lt hc h
  · exact fun g filler size name h => auto_of_length h name

/-- A block as long as a constant of three bytes, one copy too many of a template that is there, and the
same with the bounds exchanged. -/
theorem units_limited_sample :
    let f := performAll [.call (.constant [1, 2, 3]), .call (.auto 0 none),
      .call (.defineTemplate "t" [0])] (ofRegistry .standard)
    let c := Call.copies "t" 0 (maxUnits + 1)
    let crossed := Call.copies "t" (maxUnits + 2) (maxUnits + 1)
    (Decl.auto 0 3 none ∈ f.arena.decls ∧ f.arena.reported? (.auto 0 3 none) = some 3 ∧ 3 ≤ maxUnits) ∧
      (c.units? = some (maxUnits + 1) ∧ crossed.units? = some (maxUnits + 1) ∧
        maxUnits < maxUnits + 1) ∧
      c.perform f = (.error (.tooLarge (maxUnits + 1)), f) ∧
      crossed.perform f = (.error (.invalidBounds (maxUnits + 2) (maxUnits + 1)), f) := by
  intro f c crossed
  obtain ⟨hwithin, -, hrefused, -⟩ := units_limited .standard [.call (.constant [1, 2, 3]),
    .call (.auto 0 none), .call (.defineTemplate "t" [0])]
  have hdecl : Decl.auto 0 3 none ∈ f.arena.decls := Array.mem_of_getElem? (i := 0) rfl
  have hreported : f.arena.reported? (.auto 0 3 none) = some 3 := rfl
  refine ⟨⟨hdecl, hreported, (hwithin _ hdecl 3 rfl).mpr fun length hlength => ?_⟩,
    ⟨rfl, rfl, Nat.lt_succ_self _⟩, ?_, ?_⟩
  · obtain rfl := Option.some.inj (hreported.symm.trans hlength)
    decide
  · exact (hrefused f c (maxUnits + 1) rfl (Nat.lt_succ_self _)).trans rfl
  · exact (hrefused f crossed (maxUnits + 1) rfl (Nat.lt_succ_self _)).trans rfl

theorem auto_of_constant (content : List UInt8) :
    let f := performAll [.call (.constant content)] (ofRegistry .standard)
    (Call.auto 0 none).perform f =
      (.ok (.decl 0), { f with arena.decls := #[.auto 0 content.length none] }) :=
  rfl

/-- A constant of one byte more than the limit: a block that is as long is declared, so that not all
declarations are within the limit, while a block that is given the same number is refused. -/
theorem auto_above_limit :
    let f := performAll [.call (.constant (List.replicate (maxUnits + 1) 0))] (ofRegistry .standard)
    let g := { f with arena.decls := #[.auto 0 (maxUnits + 1) none] }
    (Call.auto 0 none).perform f = (.ok (.decl 0), g) ∧
      (¬ ∀ decl ∈ g.arena.decls, ∀ units, decl.units? = some units → units ≤ maxUnits) ∧
      (Call.block (some 0) (maxUnits + 1) none).perform f = (.error (.tooLarge (maxUnits + 1)), f) := by
  intro f g
  refine ⟨?_, fun hall => ?_, perform_of_lt rfl (Nat.lt_succ_self _)⟩
  · exact (auto_of_constant _).trans (by rw [List.length_replicate])
  · have hmem : Decl.auto 0 (maxUnits + 1) none ∈ g.arena.decls := List.mem_toArray.mpr List.mem_cons_self
    exact Nat.not_succ_le_self maxUnits (hall _ hmem (maxUnits + 1) rfl)

end Action
end Factory
end ArtifactLayout
