import ArtifactLayout.Proofs.Arena.Plan
import ArtifactLayout.Proofs.Attempt
import ArtifactLayout.Proofs.Field.Preorder
import ArtifactLayout.Proofs.Field.Shape

/-! # Trees that were laid out

Every tree that an allocation returns is the tree of a plan. Its content is zero, its fillers stand
on leaves alone, and each of them is the filler of some declaration.
-/

namespace ArtifactLayout
set_option autoImplicit false

open Allocation

variable {σ : Type}

/-! ## The plan behind a tree -/

theorem source_of_charge {units : Nat} {a b : Allocation σ} (h : charge units a = (.ok (), b)) :
    b.source = a.source := by
  rw [charge] at h
  split at h
  · cases h
  · obtain rfl := (Prod.mk.inj h).2
    rfl

theorem source_of_chargeField {units : Nat} {a b : Allocation σ}
    (h : chargeField units a = (.ok (), b)) : b.source = a.source := source_of_charge h

theorem of_group_ok {build : Attempt (Allocation σ) (List Field)} {node : List Field → Field}
    {a b : Allocation σ} {f : Field} (h : (do chargeField 0; return node (← build)) a = (.ok f, b)) :
    ∃ (t : Allocation σ) (children : List Field), t.source = a.source ∧
      build t = (.ok children, b) ∧ f = node children := by
  obtain ⟨⟨⟩, t, hcharge, h⟩ := Attempt.of_bind_ok h
  obtain ⟨children, t', hbuild, h⟩ := Attempt.of_bind_ok h
  cases h
  exact ⟨t, children, source_of_chargeField hcharge, hbuild, rfl⟩

theorem of_leaf_ok {units : Nat} {leaf f : Field} {a b : Allocation σ}
    (h : (do chargeField units; return leaf : Attempt (Allocation σ) Field) a = (.ok f, b)) :
    b.source = a.source ∧ f = leaf := by
  obtain ⟨⟨⟩, t, hcharge, h⟩ := Attempt.of_bind_ok h
  cases h
  exact ⟨source_of_chargeField hcharge, rfl⟩

variable [RandomSource σ]

theorem of_draw_ok {low high : Nat} {hle : low ≤ high} {a b : Allocation σ}
    {n : {n : Nat // low ≤ n ∧ n ≤ high}} (h : draw low high hle a = (.ok n, b)) :
    n = (RandomSource.between low high hle a.source).1 ∧
      b.source = (RandomSource.between low high hle a.source).2 := by
  cases h
  exact ⟨rfl, rfl⟩

theorem of_instantiate_ok {child : DeclId → Attempt (Allocation σ) Field} {template : Template}
    {low high : Nat} {a b : Allocation σ} {f : Field}
    (h : template.instantiate child low high a = (.ok f, b)) :
    ∃ (hle : low ≤ high) (t t' : Allocation σ) (children : List Field),
      t.source = (RandomSource.between low high hle a.source).2 ∧ t'.source = b.source ∧
      template.children.mapM child t = (.ok children, t') ∧
      f = .group Tag.none .repeated
        (List.replicate (RandomSource.between low high hle a.source).1.val
          (.group Tag.none .compound children)) := by
  rw [Template.instantiate] at h
  by_cases hle : low ≤ high
  · rw [dif_pos hle] at h
    obtain ⟨n, t, hdraw, h⟩ := Attempt.of_bind_ok h
    obtain ⟨rfl, hsource⟩ := of_draw_ok hdraw
    obtain ⟨⟨⟩, t₁, hnode, h⟩ := Attempt.of_bind_ok h
    obtain ⟨_, t₂, hget, h⟩ := Attempt.of_bind_ok h
    cases hget
    obtain ⟨⟨⟩, t₃, hprototype, h⟩ := Attempt.of_bind_ok h
    obtain ⟨children, t₄, hbuild, h⟩ := Attempt.of_bind_ok h
    obtain ⟨_, t₅, hget, h⟩ := Attempt.of_bind_ok h
    cases hget
    obtain ⟨⟨⟩, t₆, hcopies, h⟩ := Attempt.of_bind_ok h
    cases h
    refine ⟨hle, t₃, t₄, children, ?_, (source_of_charge hcopies).symm, hbuild, rfl⟩
    rw [source_of_chargeField hprototype, source_of_chargeField hnode, hsource]
  · rw [dif_neg hle] at h
    cases h

namespace Arena
variable {arena : Arena}

theorem lays_of_mapM {child : DeclId → Attempt (Allocation σ) Field}
    (hchild : ∀ {id a b f}, child id a = (.ok f, b) →
      ∃ plan, arena.Lays id a.source plan b.source ∧ f = plan.field)
    {ids : List DeclId} {a b : Allocation σ} {fs : List Field}
    (h : ids.mapM child a = (.ok fs, b)) :
    ∃ plans, arena.LaysAll ids a.source plans b.source ∧ fs = Plan.fields plans := by
  induction ids generalizing a fs with
  | nil =>
    cases h
    exact ⟨[], .nil, rfl⟩
  | cons id ids ih =>
    rw [List.mapM_cons] at h
    obtain ⟨f, t, hf, h⟩ := Attempt.of_bind_ok h
    obtain ⟨rest, t', hrest, h⟩ := Attempt.of_bind_ok h
    cases h
    obtain ⟨plan, hplan, rfl⟩ := hchild hf
    obtain ⟨plans, hplans, rfl⟩ := ih hrest
    exact ⟨plan :: plans, .cons hplan hplans, rfl⟩

/-- A tree that was laid out for a declaration is the tree of the plan that was drawn for it. -/
theorem lays_of_allocateDecl {depth : Nat} {id : DeclId} {a b : Allocation σ} {f : Field}
    (h : arena.allocateDecl depth id a = (.ok f, b)) :
    ∃ plan, arena.Lays id a.source plan b.source ∧ f = plan.field := by
  induction depth generalizing id a b f with
  | zero => cases h
  | succ depth ih =>
    rw [allocateDecl] at h
    cases hdecl : arena.decls[id]? with
    | none =>
      rw [hdecl] at h
      cases h
    | some decl =>
      rw [hdecl] at h
      cases decl with
      | block filler size name =>
        obtain ⟨hsource, rfl⟩ := of_leaf_ok h
        rw [hsource]
        exact ⟨_, .block hdecl, rfl⟩
      | auto filler size name =>
        obtain ⟨hsource, rfl⟩ := of_leaf_ok h
        rw [hsource]
        exact ⟨_, .auto hdecl, rfl⟩
      | bitfield filler width name =>
        obtain ⟨hsource, rfl⟩ := of_leaf_ok h
        rw [hsource]
        exact ⟨_, .bitfield hdecl, rfl⟩
      | ranged filler low high name =>
        dsimp only at h
        by_cases hle : low ≤ high
        · rw [dif_pos hle] at h
          obtain ⟨n, t, hdraw, h⟩ := Attempt.of_bind_ok h
          obtain ⟨rfl, hdrawn⟩ := of_draw_ok hdraw
          obtain ⟨hsource, rfl⟩ := of_leaf_ok h
          rw [hsource, hdrawn]
          exact ⟨_, .ranged hdecl hle, rfl⟩
        · rw [dif_neg hle] at h
          cases h
      | compound children name =>
        obtain ⟨t, fs, hsource, hbuild, rfl⟩ := of_group_ok h
        obtain ⟨plans, hall, rfl⟩ := lays_of_mapM ih hbuild
        exact ⟨_, .compound hdecl (hsource ▸ hall), rfl⟩
      | choice children name =>
        dsimp only at h
        by_cases hne : children = []
        · rw [dif_neg (not_not_intro hne)] at h
          cases h
        · rw [dif_pos hne] at h
          obtain ⟨⟨⟩, t, hcharge, h⟩ := Attempt.of_bind_ok h
          obtain ⟨pick, t', hdraw, h⟩ := Attempt.of_bind_ok h
          obtain ⟨rfl, hdrawn⟩ := of_draw_ok hdraw
          obtain ⟨f, t'', hchild, h⟩ := Attempt.of_bind_ok h
          cases h
          obtain ⟨plan, hplan, rfl⟩ := ih hchild
          rw [hdrawn] at hplan
          obtain ⟨allowance, source⟩ := t
          obtain rfl : source = a.source := source_of_chargeField hcharge
          exact ⟨_, .choice hdecl hne (List.getElem?_eq_getElem _) hplan, rfl⟩
      | bits children name =>
        obtain ⟨t, fs, hsource, hbuild, rfl⟩ := of_group_ok h
        obtain ⟨plans, hall, rfl⟩ := lays_of_mapM ih hbuild
        exact ⟨_, .bits hdecl (hsource ▸ hall), rfl⟩
      | copies number low high =>
        dsimp only at h
        cases htemplate : arena.templates[number]? with
        | none =>
          rw [htemplate] at h
          cases h
        | some template =>
          rw [htemplate] at h
          obtain ⟨hle, t, t', fs, hsource, hafter, hbuild, rfl⟩ := of_instantiate_ok h
          obtain ⟨plans, hall, rfl⟩ := lays_of_mapM ih hbuild
          rw [hsource, hafter] at hall
          exact ⟨_, .copies hdecl htemplate hle hall, rfl⟩

omit [RandomSource σ] in
theorem of_withAllowance_ok {build : Attempt (Allocation σ) Field} {s s' : σ} {f : Field}
    (h : withAllowance build s = (.ok f, s')) :
    ∃ b, build ⟨maxUnits, s⟩ = (.ok f, b) ∧ b.source = s' := by
  obtain ⟨houtcome, hsource⟩ := Prod.mk.inj h
  exact ⟨(build ⟨maxUnits, s⟩).2, Prod.ext houtcome rfl, hsource⟩

theorem lays_of_allocateRoot {fields : List DeclId} {s s' : σ} {root : Field}
    (h : arena.allocateRoot fields s = (.ok root, s')) :
    ∃ plans, arena.LaysAll fields s plans s' ∧ root = (Plan.group Tag.none .compound plans).field := by
  obtain ⟨b, hrun, rfl⟩ := of_withAllowance_ok h
  obtain ⟨t, children, hsource, hbuild, rfl⟩ := of_group_ok hrun
  obtain ⟨plans, hall, rfl⟩ := lays_of_mapM lays_of_allocateDecl hbuild
  rw [hsource] at hall
  exact ⟨plans, hall, rfl⟩

end Arena

/-! ## What is laid out -/

/-- The filler that a declaration gives its field. -/
def Decl.filler? : Decl → Option FillerId
  | block filler _ _ | auto filler _ _ | bitfield filler _ _ | ranged filler _ _ _ => some filler
  | compound _ _ | choice _ _ | bits _ _ | copies _ _ _ => none

/-- A tree as it is laid out: its content is zero, and each of its fillers stands on a leaf and is
that of a declaration. -/
structure Arena.Fresh (arena : Arena) (f : Field) : Prop where
  blank_eq : f.blank = f
  of_filler : ∀ {path : List Nat} {g : Field} {id : FillerId}, f.at? path = some g →
    g.filler = some id →
      (∃ tag content, g = .leaf tag content) ∧ ∃ decl ∈ arena.decls, decl.filler? = some id

namespace Arena
variable {arena : Arena}

omit [RandomSource σ] in
theorem fresh_leaf {id : DeclId} {decl : Decl} (hdecl : arena.decls[id]? = some decl) {tag : Tag}
    (hfiller : decl.filler? = tag.filler) {content : Leaf} (hblank : content.blank = content) :
    arena.Fresh (.leaf tag content) := by
  constructor
  · rw [Field.blank, hblank]
  · intro path g filler hg hid
    cases path with
    | nil =>
      obtain rfl : Field.leaf tag content = g := Option.some.inj hg
      have hmem : decl ∈ arena.decls := Array.mem_of_getElem? hdecl
      exact ⟨⟨tag, content, rfl⟩, decl, hmem, hfiller.trans hid⟩
    | cons i path => cases hg

omit [RandomSource σ] in
theorem fresh_group {tag : Tag} (hfiller : tag.filler = none) {grouping : Grouping}
    {children : List Field} (h : ∀ c ∈ children, arena.Fresh c) :
    arena.Fresh (.group tag grouping children) := by
  constructor
  · have hmap : children.map Field.blank = children := by
      rw [List.map_congr_left fun c hc => (h c hc).blank_eq, List.map_id']
    rw [Field.blank, Field.blanks_eq_map, hmap]
  · intro path g filler hg hid
    cases path with
    | nil =>
      obtain rfl : Field.group tag grouping children = g := Option.some.inj hg
      rw [Field.filler, Field.tag, hfiller] at hid
      cases hid
    | cons i path =>
      obtain ⟨c, hc, hat⟩ := Field.at?_cons_eq_some hg
      exact (h c (List.mem_of_getElem? hc)).of_filler hat hid

mutual

theorem fresh_of_lays {id : DeclId} {s s' : σ} {plan : Plan} (h : arena.Lays id s plan s') :
    arena.Fresh plan.field := by
  cases h with
  | block hdecl => exact fresh_leaf hdecl rfl (by simp [Leaf.blank])
  | auto hdecl => exact fresh_leaf hdecl rfl (by simp [Leaf.blank])
  | bitfield hdecl => exact fresh_leaf hdecl rfl (by simp [Leaf.blank])
  | ranged hdecl hle => exact fresh_leaf hdecl rfl (by simp [Leaf.blank])
  | compound hdecl hall => exact fresh_group rfl (fresh_of_laysAll hall)
  | choice hdecl hne hpick hchild =>
    refine fresh_group rfl fun c hc => ?_
    obtain rfl := List.mem_singleton.mp hc
    exact fresh_of_lays hchild
  | bits hdecl hall => exact fresh_group rfl (fresh_of_laysAll hall)
  | copies hdecl htemplate hle hall =>
    refine fresh_group rfl fun c hc => ?_
    obtain rfl := List.eq_of_mem_replicate hc
    exact fresh_group rfl (fresh_of_laysAll hall)

theorem fresh_of_laysAll {ids : List DeclId} {s s' : σ} {plans : List Plan}
    (h : arena.LaysAll ids s plans s') : ∀ c ∈ Plan.fields plans, arena.Fresh c := by
  cases h with
  | nil => exact fun c hc => absurd hc List.not_mem_nil
  | cons head tail =>
    intro c hc
    obtain rfl | hc := List.mem_cons.mp hc
    · exact fresh_of_lays head
    · exact fresh_of_laysAll tail c hc

end

theorem fresh_of_allocateRoot {fields : List DeclId} {s s' : σ} {root : Field}
    (h : arena.allocateRoot fields s = (.ok root, s')) : arena.Fresh root := by
  obtain ⟨plans, hall, rfl⟩ := lays_of_allocateRoot h
  exact fresh_group rfl (fresh_of_laysAll hall)

/-! ## What holds of every field -/

end Arena

/-- Something holds of the field that is laid out for any declaration, whatever lies below it, and of
the prototype of any template. -/
structure Arena.OfEach (σ : Type) [RandomSource σ] (arena : Arena) (P : Field → Prop) : Prop where
  decl : ∀ {id : DeclId} {s s' : σ} {plan : Plan}, arena.Lays id s plan s' → P plan.field
  prototype : ∀ {template : Template} {s s' : σ} {plans : List Plan},
    template ∈ arena.templates → arena.LaysAll template.children s plans s' →
      P (.group Tag.none .compound (Plan.fields plans))

namespace Arena
variable {arena : Arena} {P : Field → Prop}

mutual

theorem OfEach.everywhere (e : arena.OfEach σ P) {id : DeclId} {s s' : σ} {plan : Plan}
    (h : arena.Lays id s plan s') : plan.field.Everywhere P := by
  have hroot := e.decl h
  cases h with
  | block | auto | bitfield | ranged => exact Field.everywhere_leaf hroot
  | compound _ hall | bits _ hall => exact Field.everywhere_group hroot (e.all_everywhere hall)
  | choice _ _ _ hchild =>
    refine Field.everywhere_group hroot fun c hc => ?_
    obtain rfl := List.mem_singleton.mp hc
    exact e.everywhere hchild
  | copies _ htemplate _ hall =>
    refine Field.everywhere_group hroot fun c hc => ?_
    obtain rfl := List.eq_of_mem_replicate hc
    exact Field.everywhere_group (e.prototype (Array.mem_of_getElem? htemplate) hall)
      (e.all_everywhere hall)

theorem OfEach.all_everywhere (e : arena.OfEach σ P) {ids : List DeclId} {s s' : σ}
    {plans : List Plan} (h : arena.LaysAll ids s plans s') :
    ∀ c ∈ Plan.fields plans, c.Everywhere P := by
  cases h with
  | nil => exact fun c hc => absurd hc List.not_mem_nil
  | cons head tail =>
    intro c hc
    obtain rfl | hc := List.mem_cons.mp hc
    · exact e.everywhere head
    · exact e.all_everywhere tail c hc

end

end Arena
end ArtifactLayout
