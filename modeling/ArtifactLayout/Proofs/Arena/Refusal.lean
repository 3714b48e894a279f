import ArtifactLayout.Proofs.Arena.Calls

/-! # Refusals

Where references stay in range, bounds are in order and choices offer something, an allocation has one
thing left to go wrong: it may run out of its allowance. That declarations lead back to themselves makes
no difference to this.
-/

namespace ArtifactLayout
set_option autoImplicit false

open Allocation

/-- References stay in range, bounds are in order, and choices offer something. -/
structure Arena.Proper (arena : Arena) : Prop where
  child_lt : ∀ decl ∈ arena.decls, ∀ child ∈ arena.below decl, child < arena.decls.size
  template_lt : ∀ number low high, Decl.copies number low high ∈ arena.decls →
    number < arena.templates.size
  template_child_lt : ∀ template ∈ arena.templates, ∀ child ∈ template.children,
    child < arena.decls.size
  range_le : ∀ filler low high name, Decl.ranged filler low high name ∈ arena.decls → low ≤ high
  copies_le : ∀ number low high, Decl.copies number low high ∈ arena.decls → low ≤ high
  choice_ne_nil : ∀ children name, Decl.choice children name ∈ arena.decls → children ≠ []

section Grants
variable {σ α β : Type}

/-- An attempt gives something with `P`, or is refused for the allowance alone. -/
def Grants (P : α → Prop) (m : Attempt (Allocation σ) α) : Prop :=
  ∀ s, (∃ a t, m s = (.ok a, t) ∧ P a) ∨ ∃ units t, m s = (.error (.tooLarge units), t)

namespace Grants
variable {P : α → Prop} {Q : β → Prop} {m : Attempt (Allocation σ) α}
  {k : α → Attempt (Allocation σ) β}

theorem pure {a : α} (h : P a) : Grants P (pure a : Attempt (Allocation σ) α) :=
  fun s => .inl ⟨a, s, rfl, h⟩

theorem get : Grants (fun _ => True) (get : Attempt (Allocation σ) (Allocation σ)) :=
  fun s => .inl ⟨s, s, rfl, trivial⟩

theorem bind (hm : Grants P m) (hk : ∀ a, P a → Grants Q (k a)) : Grants Q (m >>= k) := by
  intro s
  rcases hm s with ⟨a, t, hrun, ha⟩ | ⟨units, t, hrun⟩
  · rw [Attempt.bind_of_ok hrun]
    exact hk a ha t
  · exact .inr ⟨units, t, Attempt.bind_of_error hrun k⟩

theorem charge (units : Nat) :
    Grants (fun _ => True) (Allocation.charge units : Attempt (Allocation σ) Unit) := by
  intro s
  rw [Allocation.charge]
  split
  · exact .inr ⟨_, _, rfl⟩
  · exact .inl ⟨_, _, rfl, trivial⟩

theorem draw [RandomSource σ] {low high : Nat} (h : low ≤ high) :
    Grants (fun _ => True) (Allocation.draw low high h : Attempt (Allocation σ) _) :=
  fun _ => .inl ⟨_, _, rfl, trivial⟩

theorem mapM {l : List β} {f : β → Attempt (Allocation σ) α} (h : ∀ b ∈ l, Grants P (f b)) :
    Grants (fun _ => True) (l.mapM f) := by
  induction l with
  | nil => exact .pure trivial
  | cons b l ih =>
    rw [List.mapM_cons]
    refine (h b List.mem_cons_self).bind fun a _ => ?_
    exact (ih fun c hc => h c (List.mem_cons_of_mem b hc)).bind fun _ _ => .pure trivial

theorem opened (units : Nat) {opened : Opened} {Q : Opened → Prop} (h : Q opened) :
    Grants Q (do chargeField units; return opened : Attempt (Allocation σ) Opened) :=
  (charge _).bind fun _ _ => .pure h

theorem run {child : DeclId → Attempt (Allocation σ) Field} {opened : Opened}
    (h : ∀ c ∈ opened.children, Grants (fun _ => True) (child c)) :
    Grants (fun _ => True) (opened.run child) :=
  (mapM h).bind fun _ _ => get.bind fun _ _ => (charge _).bind fun _ _ => .pure trivial

end Grants

variable [RandomSource σ] {arena : Arena}

theorem Arena.Proper.grants_enterTemplate (h : arena.Proper) {id : TemplateId} {low high : Nat}
    (hid : id < arena.templates.size) (hle : low ≤ high) :
    Grants (fun opened => ∀ c ∈ opened.children, c < arena.decls.size)
      (arena.enterTemplate id low high : Attempt (Allocation σ) Opened) := by
  have htemplate : arena.templates[id]? = some arena.templates[id] := Array.getElem?_eq_getElem hid
  rw [enterTemplate, htemplate]
  dsimp only
  rw [Template.enter, dif_pos hle]
  refine (Grants.draw hle).bind fun copies _ => (Grants.charge _).bind fun _ _ => ?_
  exact Grants.get.bind fun _ _ => .opened 0 (h.template_child_lt _ (Array.getElem_mem hid))

theorem Arena.Proper.grants_enter (h : arena.Proper) {request : Request}
    (hask : request.Admissible arena) :
    Grants (fun opened => ∀ c ∈ opened.children, c < arena.decls.size)
      (request.enter arena : Attempt (Allocation σ) Opened) := by
  cases request with
  | template id low high => exact h.grants_enterTemplate hask.1 hask.2
  | root fields => exact .opened 0 hask
  | decl id =>
    have hid : id < arena.decls.size := hask
    have hmem : arena.decls[id] ∈ arena.decls := Array.getElem_mem hid
    have hbelow := h.child_lt _ hmem
    rw [Request.enter, enterDecl, Array.getElem?_eq_getElem hid]
    dsimp only
    cases hdecl : arena.decls[id] with
    | block filler size name => exact .opened size (List.forall_mem_nil _)
    | auto filler size name => exact .opened size (List.forall_mem_nil _)
    | bitfield filler width name => exact .opened width (List.forall_mem_nil _)
    | ranged filler low high name =>
      rw [hdecl] at hmem
      rw [Decl.enter, dif_pos (h.range_le _ _ _ _ hmem)]
      exact (Grants.draw _).bind fun size _ => .opened size.val (List.forall_mem_nil _)
    | compound children name =>
      rw [hdecl] at hbelow
      exact .opened 0 hbelow
    | choice children name =>
      rw [hdecl] at hmem hbelow
      rw [Decl.enter, if_pos (h.choice_ne_nil _ _ hmem)]
      refine (Grants.charge _).bind fun _ _ => (Grants.draw _).bind fun pick _ => .pure fun c hc => ?_
      exact hbelow c (List.mem_of_getElem? (Option.mem_toList.mp hc))
    | bits children name =>
      rw [hdecl] at hbelow
      exact .opened 0 hbelow
    | copies number low high =>
      rw [hdecl] at hmem
      exact h.grants_enterTemplate (h.template_lt _ _ _ hmem) (h.copies_le _ _ _ hmem)

theorem Arena.Proper.grants_allocateDecl (h : arena.Proper) (depth : Nat) {id : DeclId}
    (hid : id < arena.decls.size) :
    Grants (fun _ => True) (arena.allocateDecl depth id : Attempt (Allocation σ) Field) := by
  induction depth generalizing id with
  | zero => exact fun s => .inr ⟨nodeWeight, s, rfl⟩
  | succ depth ih =>
    have hask : (Request.decl id).Admissible arena := hid
    rw [allocateDecl_succ]
    exact (h.grants_enter hask).bind fun opened hchildren => .run fun c hc => ih (hchildren c hc)

/-- In a proper arena a request is granted or refused as too large. -/
theorem Request.granted_or_tooLarge (h : arena.Proper) {request : Request}
    (hask : request.Admissible arena) (s : σ) :
    (∃ root, (request.run arena s).1 = .ok root) ∨
      ∃ units, (request.run arena s).1 = .error (.tooLarge units) := by
  obtain ⟨depth, -, hrun⟩ := exists_run_eq (σ := σ) arena request
  have hgrants : Grants (fun _ => True)
      (request.enter arena >>= Opened.run (arena.allocateDecl depth) : Attempt (Allocation σ) Field) :=
    (h.grants_enter hask).bind fun opened hchildren =>
      .run fun c hc => h.grants_allocateDecl depth (hchildren c hc)
  rw [hrun, Arena.withAllowance]
  rcases hgrants ⟨maxUnits, s⟩ with ⟨root, t, hroot, -⟩ | ⟨units, t, hrefused⟩
  · exact .inl ⟨root, by rw [hroot]⟩
  · exact .inr ⟨units, by rw [hrefused]⟩

end Grants
end ArtifactLayout
