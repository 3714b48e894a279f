import ArtifactLayout.Factory.Call
import ArtifactLayout.Program
import ArtifactLayout.Proofs.Arena.Laid

/-! # The fillers of a factory

Whatever calls a factory has served, each of its declarations has a filler of the factory. So has each
declaration of a program that was made with it.
-/

namespace ArtifactLayout
set_option autoImplicit false

namespace Factory
open Attempt

/-- A factory with at least `n` fillers, among them those that its declarations have and those that
are shared by declarations without one of their own. -/
structure Stocked (n : Nat) (f : Factory) : Prop where
  filler_lt : ∀ decl ∈ f.arena.decls, ∀ id, decl.filler? = some id → id < f.arena.fillers.size
  random_lt : ∀ id, f.randomFiller = some id → id < f.arena.fillers.size
  randomBit_lt : ∀ id, f.randomBitFiller = some id → id < f.arena.fillers.size
  le : n ≤ f.arena.fillers.size

namespace Stocked
variable {n m : Nat} {f : Factory}

theorem mono (h : Stocked n f) (hle : m ≤ n) : Stocked m f :=
  ⟨h.filler_lt, h.random_lt, h.randomBit_lt, Nat.le_trans hle h.le⟩

theorem push (h : Stocked n f) (filler : Filler) :
    Stocked (f.arena.fillers.size + 1)
      { f with arena.fillers := f.arena.fillers.push filler } := by
  have hsize : (f.arena.fillers.push filler).size = f.arena.fillers.size + 1 := Array.size_push _
  constructor
  · intro decl hdecl id hid
    have := h.filler_lt decl hdecl id hid
    exact hsize ▸ Nat.lt_succ_of_lt this
  · intro id hid
    exact hsize ▸ Nat.lt_succ_of_lt (h.random_lt id hid)
  · intro id hid
    exact hsize ▸ Nat.lt_succ_of_lt (h.randomBit_lt id hid)
  · exact Nat.le_of_eq hsize.symm

end Stocked

/-- An attempt that keeps a factory stocked, whether it succeeds or not. -/
abbrev Keeps {α : Type} (n : Nat) (m : Attempt Factory α) : Prop :=
  Ensures (Stocked n) m (fun _ => Stocked n) (Stocked 0)

/-- An attempt that keeps a factory stocked and gives the number of a filler. -/
abbrev Supplies (m : Attempt Factory FillerId) : Prop :=
  Ensures (Stocked 0) m (fun id => Stocked (id + 1)) (Stocked 0)

theorem keeps_declare (n : Nat) (name : Option String) : Keeps n (declare name) := by
  cases name with
  | none => exact .pure fun f h => h
  | some name =>
    refine Ensures.bind .get fun f => ?_
    refine Ensures.bind (.modify (R := Stocked n) ?_) fun _ => .pure fun f h => h
    rintro f ⟨-, h⟩
    exact ⟨h.filler_lt, h.random_lt, h.randomBit_lt, h.le⟩

theorem keeps_refer (n : Nat) (name : String) : Keeps n (refer name) := by
  refine Ensures.bind .get fun f => ?_
  refine Ensures.bind (.modify (R := Stocked n) ?_) fun _ => .pure fun f h => h
  rintro f ⟨-, h⟩
  exact ⟨h.filler_lt, h.random_lt, h.randomBit_lt, h.le⟩

theorem supplies_addFiller (filler : Filler) : Supplies (addFiller filler) := by
  refine Ensures.bind .get fun f => ?_
  refine Ensures.bind (.modify (R := Stocked (f.arena.fillers.size + 1)) ?_) fun _ =>
    .pure fun f h => h
  rintro g ⟨rfl, h⟩
  exact h.push filler

theorem keeps_addDecl {n : Nat} {decl : Decl} (hdecl : ∀ id, decl.filler? = some id → id < n) :
    Keeps n (addDecl decl) := by
  refine Ensures.bind .get fun f => ?_
  refine Ensures.bind (.modify (R := Stocked n) ?_) fun _ => .pure fun f h => h
  rintro f ⟨-, h⟩
  refine ⟨?_, h.random_lt, h.randomBit_lt, h.le⟩
  intro other hother id hid
  obtain hother | rfl := Array.mem_push.mp hother
  · exact h.filler_lt other hother id hid
  · exact Nat.lt_of_lt_of_le (hdecl id hid) h.le

theorem keeps_checkUnits (n units : Nat) : Keeps n (checkUnits units) := by
  rw [checkUnits]
  split
  · exact .throw fun f h => h.mono (Nat.zero_le n)
  · exact .pure fun f h => h

/-! ## Fillers -/

theorem supplies_defaultFiller : Supplies defaultFiller := by
  refine Ensures.bind .get fun f => ?_
  cases hfiller : f.randomFiller with
  | some id =>
    refine Ensures.pure ?_
    rintro g ⟨rfl, h⟩
    exact ⟨h.filler_lt, h.random_lt, h.randomBit_lt, h.random_lt id hfiller⟩
  | none =>
    refine Ensures.bind ((supplies_addFiller .random).mono (fun g h => h.2) fun id g h => h)
      fun id => ?_
    refine Ensures.bind (.modify (R := Stocked (id + 1)) ?_) fun _ => .pure fun f h => h
    intro g h
    refine ⟨h.filler_lt, ?_, h.randomBit_lt, h.le⟩
    intro other hother
    cases hother
    exact h.le

theorem supplies_defaultBitFiller : Supplies defaultBitFiller := by
  refine Ensures.bind .get fun f => ?_
  cases hfiller : f.randomBitFiller with
  | some id =>
    refine Ensures.pure ?_
    rintro g ⟨rfl, h⟩
    exact ⟨h.filler_lt, h.random_lt, h.randomBit_lt, h.randomBit_lt id hfiller⟩
  | none =>
    refine Ensures.bind ((supplies_addFiller .randomUnits).mono (fun g h => h.2) fun id g h => h)
      fun id => ?_
    refine Ensures.bind (.modify (R := Stocked (id + 1)) ?_) fun _ => .pure fun f h => h
    intro g h
    refine ⟨h.filler_lt, h.random_lt, ?_, h.le⟩
    intro other hother
    cases hother
    exact h.le

theorem supplies_numberIn (name : String) : Supplies (numberIn name) :=
  Ensures.bind (keeps_refer 0 name) fun _ => supplies_addFiller _

theorem supplies_call (function : String) (arguments : List String) :
    Supplies (call function arguments) := by
  refine Ensures.bind .get fun f => Ensures.bind .get fun g => ?_
  refine Ensures.mono (P := Stocked 0) ?_ (fun g h => h.2.2) fun id g h => h
  cases f.registry.filler? function with
  | some filler =>
    exact Ensures.bind (.mapM fun name _ => keeps_refer 0 name) fun _ => supplies_addFiller _
  | none =>
    cases g.registry.value? function with
    | none => exact .throw fun g h => h
    | some value =>
      dsimp only
      split
      · exact Ensures.bind (keeps_refer 0 _) fun _ => supplies_addFiller _
      · exact .throw fun g h => h

/-- The fillers that have to be in stock for a declaration that may be given one. -/
def need : Option FillerId → Nat
  | none => 0
  | some id => id + 1

theorem supplies_elim (filler : Option FillerId) {shared : Attempt Factory FillerId}
    (hshared : Supplies shared) :
    Ensures (Stocked (need filler)) (filler.elim shared pure) (fun id => Stocked (id + 1))
      (Stocked 0) := by
  cases filler with
  | none => exact hshared
  | some id => exact .pure fun f h => h

/-! ## Declarations -/

/-- The last steps of each declaration with a filler. -/
theorem keeps_declared (filler : Option FillerId) {shared : Attempt Factory FillerId}
    (hshared : Supplies shared) (name : Option String) (decl : FillerId → Option FieldId → Decl)
    (hdecl : ∀ id name, (decl id name).filler? = some id) :
    Ensures (Stocked (need filler))
      (do
        let filler ← filler.elim shared pure
        addDecl (decl filler (← declare name)))
      (fun _ => Stocked 0) (Stocked 0) := by
  refine Ensures.bind (supplies_elim filler hshared) fun id => ?_
  refine Ensures.bind (keeps_declare (id + 1) name) fun number => ?_
  refine (keeps_addDecl ?_).mono (fun f h => h) fun _ f h => h.mono (Nat.zero_le _)
  intro other hother
  rw [hdecl] at hother
  cases hother
  exact Nat.lt_succ_self id

theorem keeps_block (filler : Option FillerId) (size : Nat) (name : Option String) :
    Ensures (Stocked (need filler)) (block filler size name) (fun _ => Stocked 0) (Stocked 0) :=
  Ensures.bind (keeps_checkUnits _ size) fun _ =>
    keeps_declared filler supplies_defaultFiller name (fun id name => .block id size name)
      fun _ _ => rfl

theorem keeps_bitfield (filler : Option FillerId) (width : Nat) (name : Option String) :
    Ensures (Stocked (need filler)) (bitfield filler width name) (fun _ => Stocked 0)
      (Stocked 0) :=
  Ensures.bind (keeps_checkUnits _ width) fun _ =>
    keeps_declared filler supplies_defaultBitFiller name (fun id name => .bitfield id width name)
      fun _ _ => rfl

theorem keeps_ranged (filler : Option FillerId) (low high : Nat) (name : Option String) :
    Ensures (Stocked (need filler)) (ranged filler low high name) (fun _ => Stocked 0)
      (Stocked 0) := by
  rw [ranged]
  split
  · exact .throw fun f h => h.mono (Nat.zero_le _)
  · refine Ensures.bind (keeps_checkUnits _ high) fun _ => ?_
    exact keeps_declared filler supplies_defaultFiller name (fun id name => .ranged id low high name)
      fun _ _ => rfl

theorem keeps_auto (filler : FillerId) (name : Option String) :
    Ensures (Stocked 0) (auto filler name) (fun _ => Stocked 0) (Stocked 0) := by
  refine Ensures.bind .get fun f => ?_
  cases hfiller : f.arena.fillers[filler]? with
  | none => exact .throw fun g h => h.2
  | some content =>
    dsimp only
    cases content.length? with
    | none => exact .throw fun g h => h.2
    | some size =>
      refine Ensures.mono (P := Stocked (filler + 1)) (Q := fun _ => Stocked (filler + 1)) ?_ ?_
        fun _ g h => h.mono (Nat.zero_le _)
      · refine Ensures.bind (keeps_declare (filler + 1) name) fun number => ?_
        refine keeps_addDecl fun other hother => ?_
        cases hother
        exact Nat.lt_succ_self filler
      -- the filler was found in the arena
      · rintro g ⟨rfl, h⟩
        have hlt := (Array.getElem?_eq_some_iff.mp hfiller).1
        exact ⟨h.filler_lt, h.random_lt, h.randomBit_lt, hlt⟩

theorem keeps_unfilled {n : Nat} (name : Option String) (decl : Option FieldId → Decl)
    (hdecl : ∀ name, (decl name).filler? = none) :
    Keeps n (do addDecl (decl (← declare name))) := by
  refine Ensures.bind (keeps_declare n name) fun number => keeps_addDecl fun id hid => ?_
  rw [hdecl] at hid
  cases hid

theorem keeps_bits (n : Nat) (children : List DeclId) (name : Option String) :
    Keeps n (bits children name) :=
  keeps_unfilled name (fun name => .bits children name) fun _ => rfl

theorem keeps_groupLoose (n : Nat) (children : List DeclId) : Keeps n (groupLoose children) := by
  refine Ensures.bind .get fun f => ?_
  refine Ensures.mono (P := Stocked n) ?_ (fun g h => h.2) fun _ g h => h
  refine Ensures.mapM fun segment _ => ?_
  cases segment with
  | single child => exact .pure fun g h => h
  | run loose => exact keeps_bits n loose none

theorem keeps_compound (n : Nat) (children : List DeclId) (name : Option String) :
    Keeps n (compound children name) :=
  Ensures.bind (keeps_groupLoose n children) fun children =>
    keeps_unfilled name (fun name => .compound children name) fun _ => rfl

theorem keeps_choice (n : Nat) (children : List DeclId) (name : Option String) :
    Keeps n (choice children name) := by
  rw [choice]
  split
  · exact .throw fun f h => h.mono (Nat.zero_le n)
  · refine Ensures.bind .get fun f => ?_
    refine Ensures.bind (S := fun _ => Stocked n) ?_ fun children =>
      keeps_unfilled name (fun name => .choice children name) fun _ => rfl
    refine Ensures.mono (P := Stocked n) ?_ (fun g h => h.2) fun _ g h => h
    refine Ensures.mapM fun child _ => ?_
    split
    · exact keeps_bits n [child] none
    · exact .pure fun g h => h

theorem keeps_defineTemplate (n : Nat) (name : String) (children : List DeclId) :
    Keeps n (defineTemplate name children) := by
  refine Ensures.bind .get fun f => ?_
  refine Ensures.mono (P := Stocked n) ?_ (fun g h => h.2) fun _ g h => h
  split
  · exact .throw fun f h => h.mono (Nat.zero_le n)
  · refine Ensures.bind (keeps_groupLoose n children) fun children => ?_
    refine Ensures.bind .get fun g => ?_
    refine Ensures.bind (.modify (R := Stocked n) ?_) fun _ => .pure fun f h => h
    rintro f ⟨-, h⟩
    exact ⟨h.filler_lt, h.random_lt, h.randomBit_lt, h.le⟩

theorem keeps_copies (n : Nat) (name : String) (low high : Nat) : Keeps n (copies name low high) := by
  refine Ensures.bind .get fun f => ?_
  refine Ensures.mono (P := Stocked n) ?_ (fun g h => h.2) fun _ g h => h
  cases f.templates.lookup name with
  | none => exact .throw fun f h => h.mono (Nat.zero_le n)
  | some template =>
    dsimp only
    split
    · exact .throw fun f h => h.mono (Nat.zero_le n)
    · refine Ensures.bind (keeps_checkUnits n high) fun _ => keeps_addDecl fun id hid => ?_
      cases hid

end Factory
end ArtifactLayout
