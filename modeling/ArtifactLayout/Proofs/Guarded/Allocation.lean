import ArtifactLayout.Field.Ranged
import ArtifactLayout.Proofs.Arena.Budget
import ArtifactLayout.Proofs.Guarded.Basic

/-! # Guarded allocation

Allocation with every index into the arena, every range that is drawn from, every picked alternative
and the price of a prototype guarded. In a well-formed arena none of them leaves its domain: an
allowance never grows, so the difference that prices a prototype is not below zero.
-/

namespace ArtifactLayout
set_option autoImplicit false

open Allocation

variable {σ α β : Type}

/-! ## What is left of an allowance -/

/-- An attempt that leaves no more of the allowance than there was. -/
def Saves (m : Attempt (Allocation σ) α) : Prop :=
  ∀ s a s', m s = (.ok a, s') → s'.remaining ≤ s.remaining

namespace Saves

theorem pure (a : α) : Saves (pure a : Attempt (Allocation σ) α) := by
  intro s b s' h
  cases h
  exact Nat.le_refl _

theorem throw (fault : Fault) : Saves (throw fault : Attempt (Allocation σ) α) := by
  intro s b s' h
  cases h

theorem get : Saves (get : Attempt (Allocation σ) (Allocation σ)) := by
  intro s b s' h
  cases h
  exact Nat.le_refl _

theorem bind {m : Attempt (Allocation σ) α} {k : α → Attempt (Allocation σ) β} (hm : Saves m)
    (hk : ∀ a, Saves (k a)) : Saves (m >>= k) := by
  intro s b s' h
  obtain ⟨a, t, ha, h⟩ := Attempt.of_bind_ok h
  exact Nat.le_trans (hk a t b s' h) (hm s a t ha)

theorem mapM {f : α → Attempt (Allocation σ) β} {items : List α} (h : ∀ a, Saves (f a)) :
    Saves (items.mapM f) := by
  induction items with
  | nil => exact pure []
  | cons a items ih =>
    rw [List.mapM_cons]
    exact (h a).bind fun b => ih.bind fun bs => pure _

theorem charge (units : Nat) : Saves (charge units : Attempt (Allocation σ) Unit) := by
  intro s a s' h
  rw [Allocation.charge] at h
  split at h
  · cases h
  · cases h
    exact Nat.sub_le _ _

theorem chargeField (units : Nat) : Saves (chargeField units : Attempt (Allocation σ) Unit) :=
  charge _

variable [RandomSource σ]

theorem draw {low high : Nat} (h : low ≤ high) :
    Saves (draw low high h : Attempt (Allocation σ) _) := by
  intro s a s' hrun
  cases hrun
  exact Nat.le_refl _

theorem instantiate {child : DeclId → Attempt (Allocation σ) Field} (h : ∀ id, Saves (child id))
    (template : Template) (low high : Nat) : Saves (template.instantiate child low high) := by
  rw [Template.instantiate]
  split
  · refine (draw _).bind fun copies => (chargeField 0).bind fun _ => get.bind fun before => ?_
    refine (chargeField 0).bind fun _ => (mapM h).bind fun children => get.bind fun after => ?_
    exact (charge _).bind fun _ => pure _
  · exact throw _

theorem allocateDecl (arena : Arena) (depth : Nat) (id : DeclId) :
    Saves (arena.allocateDecl depth id : Attempt (Allocation σ) Field) := by
  induction depth generalizing id with
  | zero => exact throw _
  | succ depth ih =>
    rw [Arena.allocateDecl]
    split
    · exact throw _
    · exact (chargeField _).bind fun _ => pure _
    · exact (chargeField _).bind fun _ => pure _
    · exact (chargeField _).bind fun _ => pure _
    · split
      · exact (draw _).bind fun size => (chargeField _).bind fun _ => pure _
      · exact throw _
    · exact (chargeField 0).bind fun _ => (mapM ih).bind fun children => pure _
    · split
      · refine (chargeField 0).bind fun _ => (draw _).bind fun pick => ?_
        exact (ih _).bind fun child => pure _
      · exact throw _
    · exact (chargeField 0).bind fun _ => (mapM ih).bind fun children => pure _
    · split
      · exact throw _
      · exact instantiate ih _ _ _

end Saves

/-! ## Guarded steps of an allocation -/

namespace Guarded
variable [RandomSource σ]

/-- A draw from a range, which must not be empty. -/
def drawIn (low high : Nat) : Guarded (Allocation σ) {n : Nat // low ≤ n ∧ n ≤ high} :=
  if h : low ≤ high then attempt (draw low high h) else within none

def instantiate (child : DeclId → Guarded (Allocation σ) Field) (template : Template)
    (low high : Nat) : Guarded (Allocation σ) Field := do
  if high < low then throw (.invalidBounds low high)
  else
    let copies ← drawIn low high
    attempt (chargeField 0)
    let before ← attempt get
    attempt (chargeField 0)
    let prototype := Field.group Tag.none .compound (← template.children.mapM child)
    let after ← attempt get
    let price ← within (sub? before.remaining after.remaining)
    attempt (charge (saturate (price * (copies.val - 1))))
    return .group Tag.none .repeated (List.replicate copies.val prototype)

def allocateDecl (arena : Arena) : Nat → DeclId → Guarded (Allocation σ) Field
  | 0, _ => throw (.tooLarge nodeWeight)
  | depth + 1, id => do
    match ← within arena.decls[id]? with
    | .block filler size name | .auto filler size name =>
      attempt (chargeField size)
      return .leaf ⟨name, some filler⟩ (.block (Array.replicate size 0))
    | .bitfield filler width name =>
      attempt (chargeField width)
      return .leaf ⟨name, some filler⟩ (.bitfield (Array.replicate width false))
    | .ranged filler low high name =>
      if high < low then throw (.invalidBounds low high)
      else
        let size ← drawIn low high
        attempt (chargeField size.val)
        let content ← attempt (Attempt.check (Leaf.ofSize low high size.val))
        return .leaf ⟨name, some filler⟩ content
    | .compound children name =>
      attempt (chargeField 0)
      return .group ⟨name, none⟩ .compound (← children.mapM (allocateDecl arena depth))
    | .choice children name =>
      if children = [] then throw .noAlternatives
      else
        attempt (chargeField 0)
        let top ← within (sub? children.length 1)
        let pick ← drawIn 0 top
        let child ← within children[pick.val]?
        return .group ⟨name, none⟩ .compound [← allocateDecl arena depth child]
    | .bits children name =>
      attempt (chargeField 0)
      return .group ⟨name, none⟩ .bits (← children.mapM (allocateDecl arena depth))
    | .copies template low high =>
      let template ← within arena.templates[template]?
      instantiate (allocateDecl arena depth) template low high

def allocateRoot (arena : Arena) (fields : List DeclId) (source : σ) :
    Option (Except Fault Field × σ) :=
  let build : Guarded (Allocation σ) Field := do
    attempt (chargeField 0)
    return .group Tag.none .compound (← fields.mapM (allocateDecl arena Arena.maxDepth))
  (build ⟨maxUnits, source⟩).map fun (outcome, s) => (outcome, s.source)

end Guarded

/-! ## Safety -/

open Guarded

namespace Safe
variable [RandomSource σ]

theorem drawIn {low high : Nat} (h : low ≤ high) (s : Allocation σ) :
    Safe (drawIn low high) (draw low high h) s := by
  rw [Guarded.drawIn, dif_pos h]
  exact of_attempt _ s

theorem instantiate {child : DeclId → Guarded (Allocation σ) Field}
    {plain : DeclId → Attempt (Allocation σ) Field} {template : Template}
    (hchild : ∀ id ∈ template.children, ∀ s, Safe (child id) (plain id) s)
    (hplain : ∀ id, Saves (plain id)) (low high : Nat) (s : Allocation σ) :
    Safe (Guarded.instantiate child template low high) (template.instantiate plain low high) s := by
  rw [Guarded.instantiate, Template.instantiate]
  by_cases hle : low ≤ high
  · rw [if_neg (Nat.not_lt.mpr hle), dif_pos hle]
    refine bind (drawIn hle s) fun copies s₁ _ => bind (of_attempt _ s₁) fun _ s₂ _ => ?_
    refine bind (of_attempt _ s₂) fun before s₃ hbefore => bind (of_attempt _ s₃) fun _ s₄ hnode => ?_
    refine bind (mapM hchild s₄) fun children s₅ hchildren => ?_
    refine bind (of_attempt _ s₅) fun after s₆ hafter => ?_
    cases hbefore
    cases hafter
    have hprice : s₅.remaining ≤ s₂.remaining :=
      Nat.le_trans (Saves.mapM hplain _ _ _ hchildren) (Saves.chargeField 0 _ _ _ hnode)
    exact of_within (sub?_of_le hprice) (bind (of_attempt _ s₅) fun _ s₆ _ => pure _ s₆)
  · rw [if_pos (Nat.lt_of_not_le hle), dif_neg hle]
    exact throw _ s

/-- What is laid out for a declaration of a well-formed arena is laid out without leaving a domain. -/
theorem allocateDecl {arena : Arena} (h : arena.WellFormed) (depth : Nat) {id : DeclId}
    (hid : id < arena.decls.size) (s : Allocation σ) :
    Safe (Guarded.allocateDecl arena depth id) (arena.allocateDecl depth id) s := by
  induction depth generalizing id s with
  | zero => exact throw _ s
  | succ depth ih =>
    have hdecl := Array.getElem?_eq_getElem hid
    have hmem := Array.getElem_mem hid
    have hbelow := fun child hchild s => ih (h.child_lt _ hmem child hchild) s
    rw [Guarded.allocateDecl, Arena.allocateDecl, hdecl]
    refine of_within rfl ?_
    generalize arena.decls[id] = decl at hmem hbelow
    cases decl with
    | block filler size name | auto filler size name | bitfield filler size name =>
      exact bind (of_attempt _ s) fun _ s' _ => pure _ s'
    | ranged filler low high name =>
      have hle := h.range_le _ _ _ _ hmem
      dsimp only
      rw [if_neg (Nat.not_lt.mpr hle), dif_pos hle]
      refine bind (drawIn hle s) fun size s₁ _ => bind (of_attempt _ s₁) fun _ s₂ _ => ?_
      have hsize : Leaf.ofSize low high size.val = .ok (.ranged low high (Array.replicate size.val 0)) :=
        if_pos size.property
      rw [hsize]
      exact of_bind rfl (pure _ s₂)
    | compound children name | bits children name =>
      refine bind (of_attempt _ s) fun _ s₁ _ => bind (mapM hbelow s₁) fun _ s₂ _ => pure _ s₂
    | choice children name =>
      have hne := h.choice_ne_nil _ _ hmem
      have hpos := List.length_pos_iff.mpr hne
      dsimp only
      rw [if_neg hne, dif_pos hne]
      refine bind (of_attempt _ s) fun _ s₁ _ => of_within (sub?_of_le hpos) ?_
      refine bind (drawIn (Nat.zero_le _) s₁) fun pick s₂ _ => ?_
      have hpick : pick.val < children.length := Nat.lt_of_le_pred hpos pick.property.2
      refine of_within (List.getElem?_eq_getElem hpick) ?_
      exact bind (hbelow _ (List.getElem_mem hpick) s₂) fun _ s₃ _ => pure _ s₃
    | copies number low high =>
      have htemplate := Array.getElem?_eq_getElem (h.template_lt _ _ _ hmem)
      dsimp only
      rw [htemplate]
      refine of_within rfl (instantiate ?_ (Saves.allocateDecl arena depth) low high s)
      rw [Arena.below, htemplate] at hbelow
      exact hbelow

theorem allocateRoot {arena : Arena} (h : arena.WellFormed) {fields : List DeclId}
    (hfields : ∀ id ∈ fields, id < arena.decls.size) (s : σ) :
    Guarded.allocateRoot arena fields s = some (arena.allocateRoot fields s) := by
  have hall : ∀ id ∈ fields, ∀ a : Allocation σ,
      Safe (Guarded.allocateDecl arena Arena.maxDepth id) (arena.allocateDecl Arena.maxDepth id) a :=
    fun id hid a => allocateDecl h Arena.maxDepth (hfields id hid) a
  have hbuild := bind (of_attempt (chargeField 0) ⟨maxUnits, s⟩) fun _ s₁ _ =>
    bind (mapM hall s₁) fun children s₂ _ => pure (Field.group Tag.none .compound children) s₂
  rw [Guarded.allocateRoot]
  dsimp only
  rw [hbuild, Option.map_some]
  rfl

end Safe
end ArtifactLayout
