import Mathlib.Data.Fintype.EquivFin
import ArtifactLayout.Proofs.Arena.Metered
import ArtifactLayout.Proofs.Arena.Laid
import ArtifactLayout.Proofs.Field.Weight
import ArtifactLayout.Random.ChaCha8

/-! # The budget of an allocation

In a well-formed arena every request has a plan, and the cost of the plan alone decides whether the
request is granted: the tree of the plan is returned if the cost is within `maxUnits`, and the request
is refused as too large if it is not. The recursion of the allocation needs no bound of its own, as
each level of it is paid for.
-/

namespace ArtifactLayout
set_option autoImplicit false

/-! ## Costs and weights -/

namespace Plan
open ArtifactLayout.Field

theorem leafUnitsOf_replicate (n : Nat) (f : Field) :
    leafUnitsOf (List.replicate n f) = n * f.leafUnits := by
  induction n with
  | zero => rw [List.replicate_zero, leafUnitsOf, Nat.zero_mul]
  | succ n ih => rw [List.replicate_succ, leafUnitsOf, ih, Nat.succ_mul, Nat.add_comm]

theorem nodeCounts_replicate (n : Nat) (f : Field) :
    nodeCounts (List.replicate n f) = n * f.nodeCount := by
  induction n with
  | zero => rw [List.replicate_zero, nodeCounts, Nat.zero_mul]
  | succ n ih => rw [List.replicate_succ, nodeCounts, ih, Nat.succ_mul, Nat.add_comm]

theorem weight_group (tag : Tag) (grouping : Grouping) (children : List Field) :
    (Field.group tag grouping children).weight =
      nodeWeight + (leafUnitsOf children + nodeWeight * nodeCounts children) := by
  rw [weight, leafUnits, nodeCount, Nat.mul_add, Nat.mul_one]
  omega

mutual

/-- A tree weighs no more than its plan costs; it weighs less if some template is copied zero times. -/
theorem weight_field_le_cost : ∀ p : Plan, p.field.weight ≤ p.cost
  | leaf tag content => by
      rw [field, weight, leafUnits, nodeCount, cost]
      omega
  | group tag grouping children => by
      rw [field, weight_group, cost]
      exact Nat.add_le_add_left (weights_fields_le_costs children) nodeWeight
  | copies count children => by
      -- the cost counts one copy at least, the tree may have none
      have hchildren := weights_fields_le_costs children
      have hprototype := weight_group Tag.none .compound (fields children)
      rw [weight] at hprototype
      rw [field, weight_group, leafUnitsOf_replicate, nodeCounts_replicate, cost,
        Nat.mul_left_comm, ← Nat.mul_add, hprototype, Nat.mul_comm count]
      exact Nat.add_le_add_left
        (Nat.mul_le_mul (Nat.add_le_add_left hchildren nodeWeight) (Nat.le_max_right 1 count)) _

theorem weights_fields_le_costs : ∀ ps : List Plan,
    leafUnitsOf (fields ps) + nodeWeight * nodeCounts (fields ps) ≤ costs ps
  | [] => Nat.le_refl 0
  | p :: ps => by
      have hp := weight_field_le_cost p
      have hps := weights_fields_le_costs ps
      rw [weight] at hp
      rw [fields, leafUnitsOf, nodeCounts, costs, Nat.mul_add]
      omega

end

end Plan

/-! ## Well-formed arenas -/

/-- The declarations that the fields of a declaration are laid out for. -/
def Arena.below (arena : Arena) : Decl → List DeclId
  | .compound children _ | .choice children _ | .bits children _ => children
  | .copies template _ _ => (arena.templates[template]?.map Template.children).getD []
  | .block _ _ _ | .auto _ _ _ | .bitfield _ _ _ | .ranged _ _ _ _ => []

/-- A declaration lays out another one directly. -/
def Arena.Refers (arena : Arena) (child id : DeclId) : Prop :=
  ∃ decl, arena.decls[id]? = some decl ∧ child ∈ arena.below decl

/-- References stay in range and never lead back, bounds are in order, and choices offer something. -/
structure Arena.WellFormed (arena : Arena) : Prop where
  child_lt : ∀ decl ∈ arena.decls, ∀ child ∈ arena.below decl, child < arena.decls.size
  template_lt : ∀ number low high, Decl.copies number low high ∈ arena.decls →
    number < arena.templates.size
  template_child_lt : ∀ template ∈ arena.templates, ∀ child ∈ template.children,
    child < arena.decls.size
  acyclic : ∀ id, ¬ Relation.TransGen arena.Refers id id
  range_le : ∀ filler low high name, Decl.ranged filler low high name ∈ arena.decls → low ≤ high
  copies_le : ∀ number low high, Decl.copies number low high ∈ arena.decls → low ≤ high
  choice_ne_nil : ∀ children name, Decl.choice children name ∈ arena.decls → children ≠ []

namespace Arena

theorem acyclic_of_lt {arena : Arena} (h : ∀ child id, arena.Refers child id → child < id)
    (id : DeclId) : ¬ Relation.TransGen arena.Refers id id := by
  have hlt : ∀ {a b}, Relation.TransGen arena.Refers a b → a < b := by
    intro a b hab
    induction hab with
    | single hab => exact h _ _ hab
    | tail _ hbc ih => exact Nat.lt_trans ih (h _ _ hbc)
  exact fun hid => Nat.lt_irrefl id (hlt hid)

namespace WellFormed
variable {arena : Arena}

/-- What is proved of a declaration from the declarations below it holds of all declarations. -/
theorem induct (h : arena.WellFormed) {motive : DeclId → Prop}
    (step : ∀ id decl, arena.decls[id]? = some decl → (∀ child ∈ arena.below decl, motive child) →
      motive id) {id : DeclId} (hid : id < arena.decls.size) : motive id := by
  -- there are finitely many numbers in range, so without cycles there is no endless descent
  let refers : Fin arena.decls.size → Fin arena.decls.size → Prop :=
    fun a b => arena.Refers a.val b.val
  have hval : ∀ {a b}, Relation.TransGen refers a b → Relation.TransGen arena.Refers a.val b.val := by
    intro a b hab
    induction hab with
    | single hab => exact .single hab
    | tail _ hbc ih => exact .tail ih hbc
  have htrans : IsTrans _ (Relation.TransGen refers) := ⟨fun _ _ _ => Relation.TransGen.trans⟩
  have hirrefl : Std.Irrefl (Relation.TransGen refers) := ⟨fun a ha => h.acyclic a.val (hval ha)⟩
  have hwf : WellFounded (Relation.TransGen refers) := Finite.wellFounded_of_trans_of_irrefl _
  have hall : ∀ a : Fin arena.decls.size, motive a.val := by
    intro a
    induction a using hwf.induction with
    | h a ih =>
      have hdecl : arena.decls[a.val]? = some arena.decls[a.val] := Array.getElem?_eq_getElem a.isLt
      refine step a.val _ hdecl fun child hchild => ?_
      have hlt := h.child_lt _ (Array.getElem_mem a.isLt) child hchild
      exact ih ⟨child, hlt⟩ (.single ⟨_, hdecl, hchild⟩)
  exact hall ⟨id, hid⟩

variable {σ : Type} [RandomSource σ]

theorem exists_laysAll {ids : List DeclId} (h : ∀ id ∈ ids, ∀ s : σ, ∃ plan s', arena.Lays id s plan s')
    (s : σ) : ∃ plans s', arena.LaysAll ids s plans s' := by
  induction ids generalizing s with
  | nil => exact ⟨[], s, .nil⟩
  | cons id ids ih =>
    obtain ⟨plan, t, hplan⟩ := h id List.mem_cons_self s
    obtain ⟨plans, s', hplans⟩ := ih (fun i hi => h i (List.mem_cons_of_mem _ hi)) t
    exact ⟨plan :: plans, s', .cons hplan hplans⟩

theorem exists_lays (h : arena.WellFormed) {id : DeclId} (hid : id < arena.decls.size) (s : σ) :
    ∃ plan s', arena.Lays id s plan s' := by
  refine h.induct (motive := fun id => ∀ s : σ, ∃ plan s', arena.Lays id s plan s')
    (fun id decl hdecl ih s => ?_) hid s
  have hmem : decl ∈ arena.decls := Array.mem_of_getElem? hdecl
  cases decl with
  | block filler size name => exact ⟨_, _, .block hdecl⟩
  | auto filler size name => exact ⟨_, _, .auto hdecl⟩
  | bitfield filler width name => exact ⟨_, _, .bitfield hdecl⟩
  | ranged filler low high name => exact ⟨_, _, .ranged hdecl (h.range_le _ _ _ _ hmem)⟩
  | compound children name =>
    obtain ⟨plans, s', hall⟩ := exists_laysAll ih s
    exact ⟨_, s', .compound hdecl hall⟩
  | choice children name =>
    have hne := h.choice_ne_nil _ _ hmem
    have hpos := List.length_pos_iff.mpr hne
    obtain ⟨-, hpick⟩ := (RandomSource.between 0 (children.length - 1) (Nat.zero_le _) s).1.property
    obtain ⟨plan, s', hchild⟩ := ih _ (List.getElem_mem (Nat.lt_of_le_pred hpos hpick))
      (RandomSource.between 0 (children.length - 1) (Nat.zero_le _) s).2
    exact ⟨_, s', .choice hdecl hne (List.getElem?_eq_getElem _) hchild⟩
  | bits children name =>
    obtain ⟨plans, s', hall⟩ := exists_laysAll ih s
    exact ⟨_, s', .bits hdecl hall⟩
  | copies number low high =>
    have hle := h.copies_le _ _ _ hmem
    obtain ⟨template, htemplate⟩ : ∃ template, arena.templates[number]? = some template :=
      ⟨_, Array.getElem?_eq_getElem (h.template_lt _ _ _ hmem)⟩
    rw [below, htemplate] at ih
    obtain ⟨plans, s', hall⟩ := exists_laysAll ih (RandomSource.between low high hle s).2
    exact ⟨_, s', .copies hdecl htemplate hle hall⟩

end WellFormed
end Arena

/-! ## Requests -/

inductive Request where
  | decl (id : DeclId)
  | template (id : TemplateId) (low high : Nat)
  | root (fields : List DeclId)

namespace Request
variable {σ : Type} [RandomSource σ]

def run (arena : Arena) : Request → σ → Except Fault Field × σ
  | decl id => arena.allocate id
  | template id low high => arena.allocateTemplate id low high
  | root fields => arena.allocateRoot fields

/-- What is asked for exists, in a number that can be drawn. -/
def Admissible (arena : Arena) : Request → Prop
  | decl id => id < arena.decls.size
  | template id low high => id < arena.templates.size ∧ low ≤ high
  | root fields => ∀ id ∈ fields, id < arena.decls.size

/-- The plan of a request when nothing limits it. -/
inductive Lays (arena : Arena) : Request → σ → Plan → σ → Prop where
  | decl {id s plan s'} (h : arena.Lays id s plan s') : Lays arena (.decl id) s plan s'
  | template {id template low high s plans s'} (htemplate : arena.templates[id]? = some template)
      (hle : low ≤ high)
      (hall : arena.LaysAll template.children (RandomSource.between low high hle s).2 plans s') :
      Lays arena (.template id low high) s
        (.copies (RandomSource.between low high hle s).1.val plans) s'
  | root {fields s plans s'} (hall : arena.LaysAll fields s plans s') :
      Lays arena (.root fields) s (.group Tag.none .compound plans) s'

theorem lays_of_run_ok {arena : Arena} {request : Request} {s s' : σ} {root : Field}
    (h : request.run arena s = (.ok root, s')) :
    ∃ plan, request.Lays arena s plan s' ∧ root = plan.field := by
  cases request with
  | decl id =>
    rw [run, Arena.allocate] at h
    obtain ⟨b, hrun, rfl⟩ := Arena.of_withAllowance_ok h
    obtain ⟨plan, hplan, rfl⟩ := Arena.lays_of_allocateDecl hrun
    exact ⟨plan, .decl hplan, rfl⟩
  | template id low high =>
    rw [run, Arena.allocateTemplate] at h
    obtain ⟨b, hrun, rfl⟩ := Arena.of_withAllowance_ok h
    cases htemplate : arena.templates[id]? with
    | none =>
      rw [htemplate] at hrun
      cases hrun
    | some template =>
      rw [htemplate] at hrun
      obtain ⟨hle, t, t', children, hsource, hafter, hbuild, rfl⟩ := of_instantiate_ok hrun
      obtain ⟨plans, hall, rfl⟩ := Arena.lays_of_mapM Arena.lays_of_allocateDecl hbuild
      rw [hsource, hafter] at hall
      exact ⟨_, .template htemplate hle hall, rfl⟩
  | root fields =>
    obtain ⟨plans, hall, rfl⟩ := Arena.lays_of_allocateRoot h
    exact ⟨_, .root hall, rfl⟩

theorem Lays.everywhere {arena : Arena} {P : Field → Prop} (e : arena.OfEach σ P) {request : Request}
    {s s' : σ} {plan : Plan} (h : request.Lays arena s plan s') (hroot : P plan.field) :
    plan.field.Everywhere P := by
  cases h with
  | decl h => exact e.everywhere h
  | template htemplate _ hall =>
    refine Field.everywhere_group hroot fun c hc => ?_
    obtain rfl := List.eq_of_mem_replicate hc
    exact Field.everywhere_group (e.prototype (Array.mem_of_getElem? htemplate) hall)
      (e.all_everywhere hall)
  | root hall => exact Field.everywhere_group hroot (e.all_everywhere hall)

/-- The tree of a plan is what a request gives if `maxUnits` cover its cost; else it gives nothing. -/
structure DecidedBy (arena : Arena) (request : Request) (s : σ) (plan : Plan) (s' : σ) : Prop where
  granted : plan.cost ≤ maxUnits → request.run arena s = (.ok plan.field, s')
  refused : maxUnits < plan.cost → ∃ units, (request.run arena s).1 = .error (.tooLarge units)

omit [RandomSource σ] in
theorem decided_of_metered {build : Attempt (Allocation σ) Field} {s s' : σ} {cost : Nat} {f : Field}
    (h : Metered maxUnits build s cost f s') :
    (cost ≤ maxUnits → Arena.withAllowance build s = (.ok f, s')) ∧
    (maxUnits < cost → ∃ units, (Arena.withAllowance build s).1 = .error (.tooLarge units)) := by
  obtain ⟨hok, herror⟩ := h
  constructor
  · intro hle
    rw [Arena.withAllowance, hok hle]
  · intro hlt
    obtain ⟨units, rest, hrun⟩ := herror hlt
    exact ⟨units, by rw [Arena.withAllowance, hrun]⟩

theorem maxUnits_lt_maxDepth : maxUnits < nodeWeight * Arena.maxDepth := by decide

theorem decidedBy_of_lays {arena : Arena} {request : Request} {s s' : σ} {plan : Plan}
    (h : request.Lays arena s plan s') : request.DecidedBy arena s plan s' := by
  have hmax := Nat.le_refl maxUnits
  have hdepth := maxUnits_lt_maxDepth
  cases h with
  | decl h =>
    obtain ⟨hok, herror⟩ := decided_of_metered (Arena.metered_allocateDecl h hmax hdepth)
    exact ⟨hok, herror⟩
  | template htemplate hle hall =>
    -- the children are built once the copies and their prototype have been charged
    have hchildren := fun rest (hrest : rest + 2 * nodeWeight = maxUnits) =>
      Arena.metered_allocateAll hall (Nat.le_of_add_right_le (Nat.le_of_eq hrest))
        (Nat.lt_of_le_of_lt (Nat.le_of_add_right_le (Nat.le_of_eq hrest)) hdepth)
    obtain ⟨hok, herror⟩ := decided_of_metered (metered_instantiate hmax hle hchildren)
    constructor
    · intro hcost
      rw [run, Arena.allocateTemplate, htemplate]
      exact hok hcost
    · intro hcost
      rw [run, Arena.allocateTemplate, htemplate]
      exact herror hcost
  | root hall =>
    have hchildren := fun rest (hrest : rest + nodeWeight = maxUnits) =>
      Arena.metered_allocateAll hall (Nat.le_of_add_right_le (Nat.le_of_eq hrest))
        (Nat.lt_of_le_of_lt (Nat.le_of_add_right_le (Nat.le_of_eq hrest)) hdepth)
    obtain ⟨hok, herror⟩ :=
      decided_of_metered (metered_group hmax hchildren (Field.group Tag.none .compound))
    exact ⟨hok, herror⟩

theorem exists_lays {arena : Arena} (h : arena.WellFormed) {request : Request}
    (hask : request.Admissible arena) (s : σ) : ∃ plan s', request.Lays arena s plan s' := by
  cases request with
  | decl id =>
    obtain ⟨plan, s', hplan⟩ := h.exists_lays hask s
    exact ⟨plan, s', .decl hplan⟩
  | template id low high =>
    obtain ⟨hid, hle⟩ := hask
    have htemplate : arena.templates[id]? = some arena.templates[id] :=
      Array.getElem?_eq_getElem hid
    have hchildren : ∀ child ∈ arena.templates[id].children, child < arena.decls.size :=
      h.template_child_lt _ (Array.getElem_mem hid)
    obtain ⟨plans, s', hall⟩ := Arena.WellFormed.exists_laysAll
      (fun child hchild => h.exists_lays (hchildren child hchild))
      (RandomSource.between low high hle s).2
    exact ⟨_, s', .template htemplate hle hall⟩
  | root fields =>
    obtain ⟨plans, s', hall⟩ := Arena.WellFormed.exists_laysAll
      (fun id hid => h.exists_lays (hask id hid)) s
    exact ⟨_, s', .root hall⟩

/-- In a well-formed arena every request has a plan, whatever is drawn. The cost of the plan decides
whether its tree is returned or refused, and a tree that is returned is within the limits. -/
theorem run_decided_by_cost {arena : Arena} (h : arena.WellFormed) {request : Request}
    (hask : request.Admissible arena) (s : σ) :
    (∃ plan s', request.Lays arena s plan s') ∧
    (∀ plan s', request.Lays arena s plan s' → request.DecidedBy arena s plan s') ∧
    ∀ root, (request.run arena s).1 = .ok root → root.WithinLimits := by
  obtain ⟨plan, s', hplan⟩ := exists_lays h hask s
  refine ⟨⟨plan, s', hplan⟩, fun plan s' h => decidedBy_of_lays h, fun root hroot => ?_⟩
  have hdecided := decidedBy_of_lays hplan
  by_cases hcost : plan.cost ≤ maxUnits
  · rw [hdecided.granted hcost] at hroot
    obtain rfl : plan.field = root := Except.ok.inj hroot
    exact Field.withinLimits_of_weight_le (Nat.le_trans plan.weight_field_le_cost hcost)
  · obtain ⟨units, hrefused⟩ := hdecided.refused (Nat.lt_of_not_le hcost)
    rw [hrefused] at hroot
    cases hroot

/-- Three bits that are chosen, and up to two copies of them. -/
def sampleArena : Arena where
  decls := #[.bitfield 0 3 none, .copies 0 0 2, .choice [0] none, .ranged 0 1 4 none]
  templates := #[⟨"flags", [0]⟩]
  fillers := #[.random]

theorem sampleArena_wellFormed : sampleArena.WellFormed where
  child_lt := by decide
  template_lt := by simp +contextual [sampleArena]
  template_child_lt := by decide
  acyclic := by
    have hbelow : ∀ id, (h : id < sampleArena.decls.size) →
        ∀ child ∈ sampleArena.below sampleArena.decls[id], child < id := by decide
    refine Arena.acyclic_of_lt ?_
    rintro child id ⟨d, hd, hchild⟩
    obtain ⟨hid, rfl⟩ := Array.getElem?_eq_some_iff.mp hd
    exact hbelow id hid child hchild
  range_le := by simp +contextual [sampleArena]
  copies_le := by simp +contextual [sampleArena]
  choice_ne_nil := by simp [sampleArena]

/-- The hypotheses can be met: a script of two fields, one of them copied. -/
theorem run_decided_by_cost_sample :
    sampleArena.WellFormed ∧ (root [1, 2]).Admissible sampleArena ∧
    (∃ plan s', (root [1, 2]).Lays sampleArena (ChaCha8.ofSeed 7) plan s') ∧
    (∀ plan s', (root [1, 2]).Lays sampleArena (ChaCha8.ofSeed 7) plan s' →
      (root [1, 2]).DecidedBy sampleArena (ChaCha8.ofSeed 7) plan s') ∧
    ∀ tree, ((root [1, 2]).run sampleArena (ChaCha8.ofSeed 7)).1 = .ok tree → tree.WithinLimits := by
  have hrange : ∀ id ∈ [1, 2], id < sampleArena.decls.size := by decide
  have hask : (root [1, 2]).Admissible sampleArena := hrange
  exact ⟨sampleArena_wellFormed, hask,
    run_decided_by_cost sampleArena_wellFormed hask (ChaCha8.ofSeed 7)⟩

end Request
end ArtifactLayout
