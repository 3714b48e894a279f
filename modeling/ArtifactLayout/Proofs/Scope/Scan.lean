import ArtifactLayout.Proofs.Scope.Bindings

/-! # Lookup by scanning

After a tree was laid out, the bindings of a name stand in pre-order, and the lookup of the nearest one
gives what a scan over all of them gives: a binding that shares as much of the path as any, the last in
pre-order of those. It fails only for a name that no field of the tree carries.
-/

namespace ArtifactLayout
set_option autoImplicit false

/-- If later items have higher numbers, the item found is the one with the highest score, and of those
the one with the highest number. -/
theorem lastBest_eq_some_iff_of_pairwise {α : Type} (score : α → Nat) {number : α → Nat}
    {xs : List α} {y : α} (h : xs.Pairwise fun a b => number a < number b) :
    lastBest score xs = some y ↔
      y ∈ xs ∧ ∀ x ∈ xs, score x ≤ score y ∧ (score x = score y → number x ≤ number y) := by
  constructor
  · intro hy
    obtain ⟨before, after, rfl, hbefore, hafter⟩ := lastBest_eq_some.mp hy
    obtain ⟨-, -, hacross⟩ := List.pairwise_append.mp h
    refine ⟨by simp, fun x hx => ?_⟩
    rcases List.mem_append.mp hx with hx | hx
    · exact ⟨hbefore x hx, fun _ => Nat.le_of_lt (hacross x hx y List.mem_cons_self)⟩
    · rcases List.mem_cons.mp hx with rfl | hx
      · exact ⟨Nat.le_refl _, fun _ => Nat.le_refl _⟩
      · have hlt := hafter x hx
        exact ⟨Nat.le_of_lt hlt, fun heq => absurd heq (Nat.ne_of_lt hlt)⟩
  · rintro ⟨hmem, hbest⟩
    obtain ⟨before, after, rfl⟩ := List.append_of_mem hmem
    obtain ⟨-, hlater, -⟩ := List.pairwise_append.mp h
    refine lastBest_eq_some.mpr ⟨before, after, rfl, fun x hx => ?_, fun x hx => ?_⟩
    · exact (hbest x (List.mem_append_left _ hx)).1
    · have hnumber := List.rel_of_pairwise_cons hlater hx
      obtain ⟨hle, htie⟩ := hbest x (List.mem_append_right _ (List.mem_cons_of_mem y hx))
      exact Nat.lt_of_le_of_ne hle fun heq => Nat.not_le_of_lt hnumber (htie heq)

namespace Scope

theorem pairwise_start_of (root : Field) (id : FieldId) :
    ((Bindings.ofTree root).of id).toList.Pairwise fun a b => a.start < b.start := by
  rw [Field.toList_of_ofTree, List.pairwise_map]
  exact root.pairwise_position_visits.filter _

theorem resolveFrom_eq_scan (names : Names) (root : Field) (id : FieldId) (origin : List Nat) :
    (⟨names, .ofTree root⟩ : Scope).resolveFrom id origin =
      match lastBest (fun b => sharedLength b.path origin) ((Bindings.ofTree root).of id).toList with
      | some b => .ok b
      | none => .error (.unbound (names.label id)) := by
  rw [← nearest?_eq_lastBest origin (root.ordered_ofTree id)]
  rfl

/-- The lookup of a name from any path gives what a scan over its bindings gives: the binding that
shares the longest beginning with the path, and of those that share as much the last in pre-order.
It fails iff the name has no binding, which is to say that no field of the tree carries it. -/
theorem lookup_agrees_with_scan (names : Names) (root : Field) (id : FieldId) (origin : List Nat) :
    let bound := ((Bindings.ofTree root).of id).toList
    let resolved := (⟨names, .ofTree root⟩ : Scope).resolveFrom id origin
    resolved = (match lastBest (fun b => sharedLength b.path origin) bound with
      | some b => .ok b
      | none => .error (.unbound (names.label id))) ∧
    (∀ b, resolved = .ok b ↔ b ∈ bound ∧ ∀ a ∈ bound,
      sharedLength a.path origin ≤ sharedLength b.path origin ∧
        (sharedLength a.path origin = sharedLength b.path origin → a.start ≤ b.start)) ∧
    (∀ fault, resolved = .error fault ↔ bound = [] ∧ fault = .unbound (names.label id)) ∧
    (bound = [] ↔ ∀ v ∈ root.visits, v.field.id ≠ some id) := by
  have hscan := resolveFrom_eq_scan names root id origin
  have hbest := fun b => lastBest_eq_some_iff_of_pairwise (y := b)
    (fun a => sharedLength a.path origin) (pairwise_start_of root id)
  dsimp only
  refine ⟨hscan, fun b => ?_, fun fault => ?_, ?_⟩
  · rw [← hbest b, hscan]
    cases lastBest (fun b => sharedLength b.path origin) ((Bindings.ofTree root).of id).toList with
    | none => simp
    | some found => simp
  · rw [hscan]
    cases hfound :
        lastBest (fun b => sharedLength b.path origin) ((Bindings.ofTree root).of id).toList with
    | none => simp [lastBest_eq_none.mp hfound, eq_comm]
    | some found => simp [List.ne_nil_of_mem (mem_of_lastBest hfound)]
  · rw [Field.toList_of_ofTree, List.map_eq_nil_iff, Field.named, List.filter_eq_nil_iff]
    simp

end Scope
end ArtifactLayout
