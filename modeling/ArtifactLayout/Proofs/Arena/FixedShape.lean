import ArtifactLayout.Proofs.Arena.Draws

/-! # Allocations of a fixed shape

Two runs of an allocation agree if they have the same outcome, take as much of the allowance and make
the same draws, each from a range of one number, whatever the sources are that they draw from. If the
shape of an arena is fixed, there are no other draws, so all runs from one allowance agree.
-/

namespace ArtifactLayout
set_option autoImplicit false

open Allocation

variable {σ τ α β : Type} [RandomSource σ] [RandomSource τ]

/-- Two runs with the same outcome, the same rest of the allowance and the same draws. -/
structure Agree (a : Allocation σ) (b : Allocation τ) (run : Except Fault α × Allocation σ)
    (other : Except Fault α × Allocation τ) : Prop where
  outcome : run.1 = other.1
  remaining : run.2.remaining = other.2.remaining
  drawn : ∃ draws : List Draw, (∀ d ∈ draws, d.low = d.high) ∧ Drawn a.source draws run.2.source ∧
    Drawn b.source draws other.2.source

namespace Agree
variable {a : Allocation σ} {b : Allocation τ}

/-- Runs that draw nothing. -/
theorem of_still {run : Except Fault α × Allocation σ} {other : Except Fault α × Allocation τ}
    (houtcome : run.1 = other.1) (hremaining : run.2.remaining = other.2.remaining)
    (hrun : run.2.source = a.source) (hother : other.2.source = b.source) : Agree a b run other :=
  ⟨houtcome, hremaining, [], List.forall_mem_nil _, hrun ▸ .nil, hother ▸ .nil⟩

theorem pure (x : α) (h : a.remaining = b.remaining) :
    Agree a b ((pure x : Attempt (Allocation σ) α) a) ((pure x : Attempt (Allocation τ) α) b) :=
  .of_still rfl h rfl rfl

theorem throw (fault : Fault) (h : a.remaining = b.remaining) :
    Agree a b ((throw fault : Attempt (Allocation σ) α) a)
      ((throw fault : Attempt (Allocation τ) α) b) :=
  .of_still rfl h rfl rfl

theorem bind {m : Attempt (Allocation σ) α} {n : Attempt (Allocation τ) α}
    {k : α → Attempt (Allocation σ) β} {l : α → Attempt (Allocation τ) β} (h : Agree a b (m a) (n b))
    (hk : ∀ x (a : Allocation σ) (b : Allocation τ), a.remaining = b.remaining →
      Agree a b (k x a) (l x b)) : Agree a b ((m >>= k) a) ((n >>= l) b) := by
  obtain ⟨houtcome, hremaining, draws, hfixed, hdrawn, hdrawn'⟩ := h
  rcases hm : m a with ⟨fault | x, a'⟩
  · have hn : n b = (.error fault, (n b).2) := by
      rw [hm] at houtcome
      exact Prod.ext houtcome.symm rfl
    rw [Attempt.bind_of_error hm, Attempt.bind_of_error hn]
    rw [hm] at hremaining hdrawn
    exact ⟨rfl, hremaining, draws, hfixed, hdrawn, hdrawn'⟩
  · have hn : n b = (.ok x, (n b).2) := by
      rw [hm] at houtcome
      exact Prod.ext houtcome.symm rfl
    rw [Attempt.bind_of_ok hm, Attempt.bind_of_ok hn]
    rw [hm] at hremaining hdrawn
    obtain ⟨houtcome, hremaining, more, hfixed', hmore, hmore'⟩ := hk x a' (n b).2 hremaining
    exact ⟨houtcome, hremaining, draws ++ more, List.forall_mem_append.mpr ⟨hfixed, hfixed'⟩,
      hdrawn.append hmore, hdrawn'.append hmore'⟩

theorem get_bind {k : Allocation σ → Attempt (Allocation σ) β}
    {l : Allocation τ → Attempt (Allocation τ) β} (h : Agree a b (k a a) (l b b)) :
    Agree a b ((get >>= k) a) ((get >>= l) b) := h

theorem mapM {γ : Type} {f : γ → Attempt (Allocation σ) α} {g : γ → Attempt (Allocation τ) α}
    (hfg : ∀ c (a : Allocation σ) (b : Allocation τ), a.remaining = b.remaining →
      Agree a b (f c a) (g c b)) (cs : List γ) (h : a.remaining = b.remaining) :
    Agree a b (cs.mapM f a) (cs.mapM g b) := by
  induction cs generalizing a b with
  | nil => exact .pure [] h
  | cons c cs ih =>
    rw [List.mapM_cons, List.mapM_cons]
    refine (hfg c a b h).bind fun x a b h => ?_
    exact (ih h).bind fun xs a b h => .pure (x :: xs) h

theorem charge (units : Nat) (h : a.remaining = b.remaining) :
    Agree a b (Allocation.charge units a) (Allocation.charge units b) := by
  rw [Allocation.charge, Allocation.charge, h]
  split
  · exact .of_still rfl h rfl rfl
  · exact .of_still rfl rfl rfl rfl

theorem chargeField (units : Nat) (h : a.remaining = b.remaining) :
    Agree a b (Allocation.chargeField units a) (Allocation.chargeField units b) := charge _ h

theorem draw {low high : Nat} (hle : low ≤ high) (hge : high ≤ low)
    (h : a.remaining = b.remaining) :
    Agree a b (Allocation.draw low high hle a) (Allocation.draw low high hle b) := by
  -- a range of one number leaves a draw no choice
  have hvalue : (RandomSource.between low high hle a.source).1 =
      (RandomSource.between low high hle b.source).1 := by
    have hrun := (RandomSource.between low high hle a.source).1.property
    have hother := (RandomSource.between low high hle b.source).1.property
    exact Subtype.ext (by omega)
  have hdraw : Draw.of low high hle a.source = Draw.of low high hle b.source := by
    rw [Draw.of, Draw.of, Draw.mk.injEq]
    exact ⟨rfl, rfl, congrArg Subtype.val hvalue⟩
  refine ⟨congrArg Except.ok hvalue, h, [Draw.of low high hle a.source], ?_, .cons hle .nil, ?_⟩
  · intro d hd
    obtain rfl := List.mem_singleton.mp hd
    exact Nat.le_antisymm hle hge
  · rw [hdraw]
    exact .cons hle .nil

end Agree

/-! ## Arenas -/

section Arena
variable {a : Allocation σ} {b : Allocation τ}

theorem agree_group {build : Attempt (Allocation σ) (List Field)}
    {other : Attempt (Allocation τ) (List Field)}
    (hbuild : ∀ (a : Allocation σ) (b : Allocation τ), a.remaining = b.remaining →
      Agree a b (build a) (other b)) (node : List Field → Field) (h : a.remaining = b.remaining) :
    Agree a b ((do chargeField 0; return node (← build) : Attempt (Allocation σ) Field) a)
      ((do chargeField 0; return node (← other) : Attempt (Allocation τ) Field) b) :=
  (Agree.chargeField 0 h).bind fun _ a b h =>
    (hbuild a b h).bind fun children _ _ h => .pure (node children) h

theorem agree_leaf (units : Nat) (leaf : Field) (h : a.remaining = b.remaining) :
    Agree a b ((do chargeField units; return leaf : Attempt (Allocation σ) Field) a)
      ((do chargeField units; return leaf : Attempt (Allocation τ) Field) b) :=
  (Agree.chargeField units h).bind fun _ _ _ h => .pure leaf h

theorem agree_instantiate {child : DeclId → Attempt (Allocation σ) Field}
    {other : DeclId → Attempt (Allocation τ) Field}
    (hchild : ∀ id (a : Allocation σ) (b : Allocation τ), a.remaining = b.remaining →
      Agree a b (child id a) (other id b))
    (template : Template) {low high : Nat} (hfixed : low = high) (h : a.remaining = b.remaining) :
    Agree a b (template.instantiate child low high a) (template.instantiate other low high b) := by
  rw [Template.instantiate, Template.instantiate]
  have hle : low ≤ high := Nat.le_of_eq hfixed
  rw [dif_pos hle, dif_pos hle]
  refine (Agree.draw hle (Nat.le_of_eq hfixed.symm) h).bind fun copies a b h => ?_
  refine (Agree.chargeField 0 h).bind fun _ a b h => .get_bind ?_
  have hbefore := h
  refine (Agree.chargeField 0 h).bind fun _ a' b' h => ?_
  refine (Agree.mapM hchild template.children h).bind fun children a' b' h => .get_bind ?_
  rw [hbefore, h]
  exact (Agree.charge _ h).bind fun _ a b h => .pure _ h

namespace Arena
variable {arena : Arena}

/-- If no declaration leaves its shape to chance, neither does any allocation. -/
theorem agree_allocateDecl (hfixed : arena.hasFixedShape = true) (depth : Nat) (id : DeclId)
    (a : Allocation σ) (b : Allocation τ) (h : a.remaining = b.remaining) :
    Agree a b (arena.allocateDecl depth id a) (arena.allocateDecl depth id b) := by
  induction depth generalizing id a b with
  | zero => exact .throw _ h
  | succ depth ih =>
    rw [allocateDecl, allocateDecl]
    cases hdecl : arena.decls[id]? with
    | none => exact .throw _ h
    | some decl =>
      have hshape : decl.hasFixedShape = true :=
        Array.all_eq_true_iff_forall_mem.mp hfixed decl (Array.mem_of_getElem? hdecl)
      have hchildren := fun children (a : Allocation σ) (b : Allocation τ) h =>
        Agree.mapM (a := a) (b := b) ih children h
      cases decl with
      | block filler size name => exact agree_leaf size _ h
      | auto filler size name => exact agree_leaf size _ h
      | bitfield filler width name => exact agree_leaf width _ h
      | ranged filler low high name =>
        have hfixed : low = high := beq_iff_eq.mp hshape
        have hle : low ≤ high := Nat.le_of_eq hfixed
        dsimp only
        rw [dif_pos hle, dif_pos hle]
        refine (Agree.draw hle (Nat.le_of_eq hfixed.symm) h).bind fun size a b h => ?_
        exact agree_leaf size.val _ h
      | compound children name => exact agree_group (hchildren children) _ h
      | choice children name =>
        have hfixed : children.length ≤ 1 := of_decide_eq_true hshape
        dsimp only
        by_cases hne : children = []
        · rw [dif_neg (not_not_intro hne), dif_neg (not_not_intro hne)]
          exact .throw _ h
        · rw [dif_pos hne, dif_pos hne]
          refine (Agree.chargeField 0 h).bind fun _ a b h => ?_
          refine (Agree.draw (Nat.zero_le _) (by omega) h).bind fun pick a b h => ?_
          exact (ih _ a b h).bind fun child a b h => .pure _ h
      | bits children name => exact agree_group (hchildren children) _ h
      | copies number low high =>
        have hfixed : low = high := beq_iff_eq.mp hshape
        dsimp only
        cases arena.templates[number]? with
        | none => exact .throw _ h
        | some template => exact agree_instantiate ih template hfixed h

end Arena
end Arena

/-! ## Requests -/

namespace Request

/-- A request that leaves no number of copies to chance. -/
def Fixed : Request → Prop
  | template _ low high => low = high
  | decl _ | root _ => True

/-- Sources do not matter for what is laid out, nor for what is drawn on the way. -/
theorem run_agrees {arena : Arena} (hfixed : arena.hasFixedShape = true) {request : Request}
    (hrequest : request.Fixed) (s : σ) (t : τ) :
    (request.run arena s).1 = (request.run arena t).1 ∧
      ∃ draws : List Draw, (∀ d ∈ draws, d.low = d.high) ∧ Drawn s draws (request.run arena s).2 ∧
        Drawn t draws (request.run arena t).2 := by
  have hdecl : ∀ (id : DeclId) (a : Allocation σ) (b : Allocation τ), a.remaining = b.remaining →
      Agree a b (arena.allocateDecl Arena.maxDepth id a) (arena.allocateDecl Arena.maxDepth id b) :=
    Arena.agree_allocateDecl hfixed Arena.maxDepth
  have hstart : (⟨maxUnits, s⟩ : Allocation σ).remaining = (⟨maxUnits, t⟩ : Allocation τ).remaining := rfl
  cases request with
  | decl id =>
    have hagree := hdecl id _ _ hstart
    exact ⟨hagree.outcome, hagree.drawn⟩
  | template id low high =>
    rw [run, run, Arena.allocateTemplate, Arena.allocateTemplate]
    cases arena.templates[id]? with
    | none => exact ⟨rfl, [], List.forall_mem_nil _, .nil, .nil⟩
    | some template =>
      have hagree := agree_instantiate hdecl template hrequest hstart
      exact ⟨hagree.outcome, hagree.drawn⟩
  | root fields =>
    have hagree := agree_group (fun _ _ h => .mapM hdecl fields h) (Field.group Tag.none .compound) hstart
    exact ⟨hagree.outcome, hagree.drawn⟩

end Request

theorem Arena.allocateRoot_eq {arena : Arena} (hfixed : arena.hasFixedShape = true)
    (fields : List DeclId) (s : σ) (t : τ) :
    (arena.allocateRoot fields s).1 = (arena.allocateRoot fields t).1 := by
  have hrequest : (Request.root fields).Fixed := trivial
  exact (Request.run_agrees hfixed hrequest s t).1

end ArtifactLayout
