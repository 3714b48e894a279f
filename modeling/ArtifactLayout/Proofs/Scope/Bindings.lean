import ArtifactLayout.Proofs.Field.Preorder
import ArtifactLayout.Proofs.Scope.Nearest

/-! # The bindings of a tree

The bindings of a name are the places of the fields that carry it, in pre-order. So a reference finds
the field that a scan over the named fields of the tree finds, and which one that is depends on the
shape of the tree only.
-/

namespace ArtifactLayout
set_option autoImplicit false

namespace Bindings

theorem lookup_addTo (groups : List (FieldId × Array Binding)) (id id' : FieldId) (b : Binding) :
    (addTo groups id b).lookup id' =
      if id = id' then some (((groups.lookup id').getD #[]).push b) else groups.lookup id' := by
  induction groups with
  | nil =>
    rw [addTo, List.lookup_cons]
    by_cases h : id = id'
    · simp [h]
    · rw [if_neg h, beq_false_of_ne (Ne.symm h)]
  | cons group groups ih =>
    obtain ⟨known, bs⟩ := group
    rw [addTo]
    by_cases hk : known = id
    · subst hk
      by_cases h : known = id'
      · simp [h]
      · rw [if_pos rfl, if_neg h, List.lookup_cons, List.lookup_cons, beq_false_of_ne (Ne.symm h)]
    · rw [if_neg hk, List.lookup_cons, List.lookup_cons]
      by_cases h : id' = known
      · subst h
        simp [Ne.symm hk]
      · rw [beq_false_of_ne h]
        exact ih

theorem of_add (bindings : Bindings) (id id' : FieldId) (b : Binding) :
    (bindings.add id b).of id' =
      if id = id' then (bindings.of id').push b else bindings.of id' := by
  rw [of, add, lookup_addTo]
  split <;> rfl

/-- Bindings that are added come behind those of their name that were there. -/
theorem toList_of_foldl_add (entries : List (FieldId × Binding)) (bindings : Bindings) (id : FieldId) :
    ((entries.foldl (fun bs entry => bs.add entry.1 entry.2) bindings).of id).toList =
      (bindings.of id).toList ++ (entries.filter fun entry => entry.1 = id).map Prod.snd := by
  induction entries generalizing bindings with
  | nil => simp
  | cons entry entries ih =>
    rw [List.foldl_cons, ih, of_add]
    by_cases h : entry.1 = id <;> simp [h]

end Bindings

namespace Field

def Visit.place (v : Visit) : Binding := ⟨v.path, v.position, v.position + v.field.nodeCount⟩

/-- The fields that carry a name, in pre-order. -/
def named (root : Field) (id : FieldId) : List Visit :=
  root.visits.filter fun v => v.field.id = some id

/-- The field that a name stands for at a path: among those that carry the name one whose path shares
the most with it, and the last of those. -/
def nearest? (root : Field) (id : FieldId) (origin : List Nat) : Option Visit :=
  lastBest (fun v => sharedLength v.path origin) (root.named id)

theorem mem_named {root : Field} {id : FieldId} {v : Visit} :
    v ∈ root.named id ↔ v ∈ root.visits ∧ v.field.id = some id := by
  simp [named]

theorem mem_of_nearest? {root : Field} {id : FieldId} {origin : List Nat} {v : Visit}
    (h : root.nearest? id origin = some v) : v ∈ root.visits ∧ v.field.id = some id :=
  mem_named.mp (mem_of_lastBest h)

theorem toList_of_ofTree (root : Field) (id : FieldId) :
    ((Bindings.ofTree root).of id).toList = (root.named id).map Visit.place := by
  have hempty : (Bindings.empty.of id).toList = [] := rfl
  rw [Bindings.ofTree, Bindings.toList_of_foldl_add, hempty, List.nil_append, named]
  induction root.visits with
  | nil => rfl
  | cons v vs ih =>
    cases hid : v.field.id with
    | none => simpa [Visit.binding?, hid] using ih
    | some known =>
      by_cases h : known = id
      · simpa [Visit.binding?, Visit.place, hid, h] using ih
      · simpa [Visit.binding?, hid, h] using ih

theorem ordered_ofTree (root : Field) (id : FieldId) : Ordered ((Bindings.ofTree root).of id) := by
  rw [Ordered, toList_of_ofTree, List.pairwise_map]
  exact root.pairwise_path_visits.filter _

/-- A reference is resolved to the place of the nearest field. -/
theorem resolveFrom_ofTree (names : Names) (root : Field) (id : FieldId) (origin : List Nat) :
    (⟨names, .ofTree root⟩ : Scope).resolveFrom id origin =
      match root.nearest? id origin with
      | some v => .ok v.place
      | none => .error (.unbound (names.label id)) := by
  rw [Scope.resolveFrom, nearest?_eq_lastBest origin (root.ordered_ofTree id), toList_of_ofTree,
    lastBest_map]
  have hscore : ((fun b : Binding => sharedLength b.path origin) ∘ Visit.place) =
      fun v : Visit => sharedLength v.path origin := rfl
  rw [hscore, nearest?]
  cases lastBest (fun v : Visit => sharedLength v.path origin) (root.named id) with
  | none => rfl
  | some v => rfl

/-! ## Shapes -/

@[simp] theorem Visit.path_blank (v : Visit) : v.blank.path = v.path := rfl

@[simp] theorem Visit.position_blank (v : Visit) : v.blank.position = v.position := rfl

@[simp] theorem Visit.field_blank (v : Visit) : v.blank.field = v.field.blank := rfl

namespace Visit
variable {v w : Visit} (h : v.blank = w.blank)
include h

theorem path_eq : v.path = w.path := by
  rw [← path_blank v, h, path_blank]

theorem position_eq : v.position = w.position := by
  rw [← position_blank v, h, position_blank]

theorem sameShape : v.field.SameShape w.field := by
  rw [SameShape, ← field_blank, h, field_blank]

end Visit

theorem named_blank (root : Field) (id : FieldId) :
    root.blank.named id = (root.named id).map Visit.blank := by
  rw [named, named, visits_blank, List.filter_map]
  congr 2
  funext v
  simp

theorem nearest?_blank (root : Field) (id : FieldId) (origin : List Nat) :
    root.blank.nearest? id origin = (root.nearest? id origin).map Visit.blank := by
  rw [nearest?, named_blank, lastBest_map]
  rfl

theorem ofTree_blank (root : Field) : Bindings.ofTree root.blank = Bindings.ofTree root := by
  rw [Bindings.ofTree, Bindings.ofTree, visits_blank, List.filterMap_map]
  congr 2
  funext v
  simp [Visit.binding?]

namespace SameShape
variable {f g : Field}

theorem ofTree_eq (s : f.SameShape g) : Bindings.ofTree f = Bindings.ofTree g := by
  rw [← ofTree_blank f, s, ofTree_blank]

theorem nearest?_eq_none (s : f.SameShape g) {id : FieldId} {origin : List Nat} :
    f.nearest? id origin = none ↔ g.nearest? id origin = none := by
  rw [← Option.map_eq_none_iff (f := Visit.blank), ← nearest?_blank, s, nearest?_blank,
    Option.map_eq_none_iff]

/-- In trees of one shape a reference leads to the same path. -/
theorem nearest? (s : f.SameShape g) {id : FieldId} {origin : List Nat} {v : Visit}
    (h : f.nearest? id origin = some v) :
    ∃ w, g.nearest? id origin = some w ∧ w.blank = v.blank := by
  have hw : (g.nearest? id origin).map Visit.blank = some v.blank := by
    rw [← nearest?_blank, ← s, nearest?_blank, h, Option.map_some]
  exact Option.map_eq_some_iff.mp hw

/-- If the field there is the same in both, it is what the reference finds. -/
theorem nearest?_of_at? (s : f.SameShape g) {id : FieldId} {origin : List Nat} {v : Visit}
    (h : f.nearest? id origin = some v) (hat : g.at? v.path = some v.field) :
    g.nearest? id origin = some v := by
  obtain ⟨w, hw, hblank⟩ := s.nearest? h
  have hpath : w.path = v.path := Visit.path_eq hblank
  have hposition : w.position = v.position := Visit.position_eq hblank
  have hfield : w.field = v.field := by
    obtain ⟨hwat, -⟩ := mem_visits.mp (mem_of_nearest? hw).1
    rw [hpath, hat] at hwat
    exact (Option.some.inj hwat).symm
  rw [hw]
  obtain ⟨vpath, vposition, vfield⟩ := v
  obtain ⟨wpath, wposition, wfield⟩ := w
  simp_all

end SameShape
end Field
end ArtifactLayout
