import ArtifactLayout.Proofs.Arena.Plan
import ArtifactLayout.Proofs.Attempt

/-! # Metered steps

A step of an allocation is metered if it succeeds when the allowance covers its cost, and is refused
as too large otherwise. Metered steps in turn are metered by the sum of their costs, and all steps
of an allocation are metered, so its outcome can be read off the plan that is drawn.
-/

namespace ArtifactLayout
set_option autoImplicit false

open Allocation

variable {σ α β : Type}

/-- From an allowance and a source `s`, a step costs `cost`, gives `a` and leaves the source `s'`. -/
def Metered (allowance : Nat) (m : Attempt (Allocation σ) α) (s : σ) (cost : Nat) (a : α) (s' : σ) :
    Prop :=
  (cost ≤ allowance → m ⟨allowance, s⟩ = (.ok a, ⟨allowance - cost, s'⟩)) ∧
  (allowance < cost → ∃ units rest, m ⟨allowance, s⟩ = (.error (.tooLarge units), rest))

namespace Metered

variable {allowance cost cost' : Nat} {s t s' : σ}

theorem of_free {m : Attempt (Allocation σ) α} {a : α} (h : m ⟨allowance, s⟩ = (.ok a, ⟨allowance, s'⟩)) :
    Metered allowance m s 0 a s' := by
  constructor
  · intro _
    exact h
  · intro hlt
    omega

theorem pure (a : α) : Metered allowance (pure a) s 0 a s := of_free rfl

theorem bind {m : Attempt (Allocation σ) α} {k : α → Attempt (Allocation σ) β} {a : α} {b : β}
    (hm : Metered allowance m s cost a t)
    (hk : ∀ rest, rest + cost = allowance → Metered rest (k a) t cost' b s') :
    Metered allowance (m >>= k) s (cost + cost') b s' := by
  obtain ⟨hok, herror⟩ := hm
  by_cases hcost : cost ≤ allowance
  · rw [Metered, Attempt.bind_of_ok (hok hcost)]
    obtain ⟨hok', herror'⟩ := hk (allowance - cost) (by omega)
    constructor
    · intro hle
      rw [hok' (by omega), Nat.sub_sub]
    · intro hlt
      exact herror' (by omega)
  · obtain ⟨units, rest, hrun⟩ := herror (by omega)
    constructor
    · intro hle
      omega
    · intro _
      exact ⟨units, rest, Attempt.bind_of_error hrun k⟩

theorem bind_free {m : Attempt (Allocation σ) α} {k : α → Attempt (Allocation σ) β} {a : α} {b : β}
    (hm : Metered allowance m s 0 a t) (hk : Metered allowance (k a) t cost b s') :
    Metered allowance (m >>= k) s cost b s' := by
  have h : Metered allowance (m >>= k) s (0 + cost) b s' := bind hm fun rest hrest => by
    obtain rfl : rest = allowance := hrest
    exact hk
  rwa [Nat.zero_add] at h

theorem map {m : Attempt (Allocation σ) α} {a : α} (h : Metered allowance m s cost a s') (f : α → β) :
    Metered allowance (m >>= fun a => Pure.pure (f a)) s cost (f a) s' := by
  have hf : Metered allowance (m >>= fun a => Pure.pure (f a)) s (cost + 0) (f a) s' :=
    bind h fun rest _ => pure (f a)
  exact hf

end Metered

/-! ## Charges and draws -/

section Charge
variable {allowance : Nat} (hmax : allowance ≤ maxUnits)
include hmax

/-- A charge that is capped at the largest word is refused wherever the whole charge would be. -/
theorem metered_charge (units : Nat) (s : σ) :
    Metered allowance (charge (saturate units)) s units () s := by
  have hword : allowance < maxWord := Nat.lt_of_le_of_lt hmax (by decide)
  have hcapped : saturate units ≤ allowance ↔ units ≤ allowance := saturate_le_iff hword
  constructor
  · intro hle
    have hexact : saturate units = units := saturate_of_le (by omega)
    rw [hexact]
    exact if_neg (Nat.not_lt.mpr hle)
  · intro hlt
    have hlt : allowance < saturate units := by omega
    exact ⟨_, _, if_pos hlt⟩

theorem metered_chargeField (units : Nat) (s : σ) :
    Metered allowance (chargeField units) s (nodeWeight + units) () s := by
  rw [Nat.add_comm]
  exact metered_charge hmax (units + nodeWeight) s

end Charge

theorem metered_draw [RandomSource σ] {allowance low high : Nat} (h : low ≤ high) (s : σ) :
    Metered allowance (draw low high h) s 0 (RandomSource.between low high h s).1
      (RandomSource.between low high h s).2 := .of_free rfl

theorem metered_get {allowance : Nat} {s : σ} :
    Metered allowance (get : Attempt (Allocation σ) (Allocation σ)) s 0 ⟨allowance, s⟩ s :=
  .of_free rfl

/-! ## Fields with children -/

section Group
variable {allowance cost : Nat} {s s' : σ} {build : Attempt (Allocation σ) (List Field)}
  {children : List Field} (hmax : allowance ≤ maxUnits)
  (h : ∀ rest, rest + nodeWeight = allowance → Metered rest build s cost children s')
include hmax h

theorem metered_group (node : List Field → Field) :
    Metered allowance (do chargeField 0; return node (← build)) s (nodeWeight + cost)
      (node children) s' :=
  (metered_chargeField hmax 0 s).bind fun rest hrest => (h rest hrest).map node

/-- The first copy is paid for as it is built, the others at what it took from the allowance. -/
theorem metered_copies (count : Nat) :
    Metered allowance
      (do
        let before := (← get).remaining
        chargeField 0
        let prototype := Field.group Tag.none .compound (← build)
        let after := (← get).remaining
        charge (saturate ((before - after) * (count - 1)))
        return Field.group Tag.none .repeated (List.replicate count prototype))
      s ((nodeWeight + cost) * max 1 count)
      (Field.group Tag.none .repeated
        (List.replicate count (Field.group Tag.none .compound children))) s' := by
  have hcost : (nodeWeight + cost) * max 1 count =
      nodeWeight + (cost + (nodeWeight + cost) * (count - 1)) := by
    rw [show max 1 count = 1 + (count - 1) by omega, Nat.mul_add, Nat.mul_one, Nat.add_assoc]
  rw [hcost]
  refine metered_get.bind_free ((metered_chargeField hmax 0 s).bind fun rest hrest => ?_)
  refine (h rest hrest).bind fun rest' hrest' => metered_get.bind_free ?_
  have htook : allowance - rest' = nodeWeight + cost := by omega
  have hcharge := metered_charge (by omega : rest' ≤ maxUnits)
    ((nodeWeight + cost) * (count - 1)) s'
  dsimp only
  rw [htook]
  exact hcharge.map fun _ =>
    Field.group Tag.none .repeated (List.replicate count (Field.group Tag.none .compound children))

end Group

/-! ## Declarations -/

section Decl
variable [RandomSource σ]

theorem metered_instantiate {allowance cost low high : Nat} (hmax : allowance ≤ maxUnits)
    {child : DeclId → Attempt (Allocation σ) Field} {template : Template} (hle : low ≤ high) {s s' : σ}
    {children : List Field}
    (h : ∀ rest, rest + 2 * nodeWeight = allowance → Metered rest (template.children.mapM child)
      (RandomSource.between low high hle s).2 cost children s') :
    Metered allowance (template.instantiate child low high) s
      (nodeWeight + (nodeWeight + cost) * max 1 (RandomSource.between low high hle s).1.val)
      (Field.group Tag.none .repeated (List.replicate (RandomSource.between low high hle s).1.val
        (Field.group Tag.none .compound children))) s' := by
  rw [Template.instantiate, dif_pos hle]
  refine (metered_draw hle s).bind_free ((metered_chargeField hmax 0 _).bind fun rest hrest => ?_)
  exact metered_copies (by omega) (fun rest' hrest' => h rest' (by omega)) _

namespace Arena
variable {arena : Arena}

omit [RandomSource σ] in
theorem metered_leaf {allowance : Nat} (hmax : allowance ≤ maxUnits) (tag : Tag) {content : Leaf}
    {units : Nat} (hsize : content.size = units) (s : σ) :
    Metered allowance (do chargeField units; return Field.leaf tag content) s
      (nodeWeight + content.size) (Field.leaf tag content) s := by
  rw [hsize]
  exact (metered_chargeField hmax units s).map fun _ => Field.leaf tag content

/- The induction is on how the plan was drawn. Depth and allowance vary: each level pays `nodeWeight`
at least, so as long as the allowance is below `nodeWeight * depth` the levels do not run out. -/
mutual

/-- The allowance decides on a declaration by the cost of the plan that is drawn for it. -/
theorem metered_allocateDecl {id : DeclId} {s s' : σ} {plan : Plan}
    (h : arena.Lays id s plan s') {depth allowance : Nat} (hmax : allowance ≤ maxUnits)
    (hdepth : allowance < nodeWeight * depth) :
    Metered allowance (arena.allocateDecl depth id) s plan.cost plan.field s' := by
  obtain _ | depth := depth
  · omega
  rw [Nat.mul_succ] at hdepth
  cases h with
  | block hdecl =>
    rw [allocateDecl, hdecl]
    exact metered_leaf hmax _ (by simp [Leaf.size]) s
  | auto hdecl =>
    rw [allocateDecl, hdecl]
    exact metered_leaf hmax _ (by simp [Leaf.size]) s
  | bitfield hdecl =>
    rw [allocateDecl, hdecl]
    exact metered_leaf hmax _ (by simp [Leaf.size]) s
  | ranged hdecl hle =>
    rw [allocateDecl, hdecl]
    dsimp only
    rw [dif_pos hle]
    exact (metered_draw hle s).bind_free (metered_leaf hmax _ (by simp [Leaf.size]) _)
  | compound hdecl hall =>
    rw [allocateDecl, hdecl]
    exact metered_group hmax (fun rest hrest => metered_allocateAll hall (by omega) (by omega)) _
  | bits hdecl hall =>
    rw [allocateDecl, hdecl]
    exact metered_group hmax (fun rest hrest => metered_allocateAll hall (by omega) (by omega)) _
  | choice hdecl hne hpick hchild =>
    rw [allocateDecl, hdecl]
    dsimp only
    rw [dif_pos hne]
    obtain ⟨_, rfl⟩ := List.getElem?_eq_some_iff.mp hpick
    refine (metered_chargeField hmax 0 s).bind fun rest hrest => (metered_draw _ s).bind_free ?_
    exact (metered_allocateDecl hchild (by omega) (by omega)).map fun f =>
      Field.group _ .compound [f]
  | copies hdecl htemplate hle hall =>
    rw [allocateDecl, hdecl]
    dsimp only
    rw [htemplate]
    exact metered_instantiate hmax hle fun rest hrest =>
      metered_allocateAll hall (by omega) (by omega)

theorem metered_allocateAll {ids : List DeclId} {s s' : σ} {plans : List Plan}
    (h : arena.LaysAll ids s plans s') {depth allowance : Nat} (hmax : allowance ≤ maxUnits)
    (hdepth : allowance < nodeWeight * depth) :
    Metered allowance (ids.mapM (arena.allocateDecl depth)) s (Plan.costs plans)
      (Plan.fields plans) s' := by
  cases h with
  | nil => exact .pure []
  | cons head tail =>
    rw [List.mapM_cons]
    refine (metered_allocateDecl head hmax hdepth).bind fun rest hrest => ?_
    exact (metered_allocateAll tail (by omega) (by omega)).map _

end

end Arena
end Decl
end ArtifactLayout
