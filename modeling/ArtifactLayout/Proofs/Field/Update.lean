import ArtifactLayout.Field.Access
import ArtifactLayout.Field.Number
import ArtifactLayout.Proofs.Field.Preorder

/-! # Changing content

A leaf written in place leaves the shape of the tree and every field that does not contain it as they
were. Units written through a container leave the shape as well.
-/

namespace ArtifactLayout
set_option autoImplicit false

/-! ## Writing a leaf -/

theorem splice_zero {α : Type} {old new : List α} (h : new.length ≤ old.length) :
    splice old 0 new = new ++ old.drop new.length := by
  rw [splice, List.take_zero, List.nil_append, Nat.sub_zero, List.take_of_length_le h, Nat.zero_add]

namespace Leaf

/-- What a leaf keeps of a unit: a bit only its lowest bit. -/
def kept : Leaf → UInt8 → UInt8
  | block _, unit | ranged _ _ _, unit => unit
  | bitfield _, unit => (unit.toNat.testBit 0).toUInt8

theorem kept_of_unitBits {l : Leaf} (h : l.unitBits ≠ 1) (unit : UInt8) : l.kept unit = unit := by
  cases l with
  | block content => rfl
  | ranged low high content => rfl
  | bitfield content => exact absurd rfl h

theorem kept_toUInt8 (l : Leaf) (b : Bool) : l.kept b.toUInt8 = b.toUInt8 := by
  cases l <;> cases b <;> rfl

theorem map_kept_numberUnits (l : Leaf) (order : ByteOrder) (n : UInt64) (size : Nat) :
    (Field.numberUnits order n l.unitBits size).map l.kept =
      Field.numberUnits order n l.unitBits size := by
  by_cases hbits : l.unitBits = 1
  · unfold Field.numberUnits
    rw [if_pos hbits, List.map_map]
    exact List.map_congr_left fun i _ => l.kept_toUInt8 _
  · rw [List.map_congr_left fun unit _ => kept_of_unitBits hbits unit, List.map_id']

theorem units_withUnits (l : Leaf) {us : List UInt8} (h : us.length ≤ l.size) :
    (l.withUnits us).units = us.map l.kept ++ l.units.drop us.length := by
  cases l with
  | block content =>
    have hkept : us.map (block content).kept = us := List.map_id us
    rw [hkept]
    exact splice_zero h
  | ranged low high content =>
    have hkept : us.map (ranged low high content).kept = us := List.map_id us
    rw [hkept]
    exact splice_zero h
  | bitfield content =>
    have hfits : (us.map (·.toNat.testBit 0)).length ≤ content.toList.length := by
      rw [List.length_map]
      exact h
    rw [withUnits, units, splice_zero hfits, List.map_append, List.map_map, List.length_map,
      List.map_drop]
    rfl

theorem length_units (l : Leaf) : l.units.length = l.size := by
  cases l <;> simp [units, size]

theorem blank_setUnit (l : Leaf) (i : Nat) (v : UInt8) : (l.setUnit i v).blank = l.blank := by
  cases l <;> simp [blank, setUnit]

end Leaf

namespace Field

/-! ## Writing it in its place -/

theorem modifyAt_nil (change : Field → Field) (f : Field) : f.modifyAt change [] = change f := by
  cases f <;> rfl

theorem children_modifyAt_cons (change : Field → Field) (f : Field) (i : Nat) (path : List Nat) :
    (f.modifyAt change (i :: path)).children = f.children.modify i (modifyAt change · path) := by
  cases f with
  | leaf tag content => simp [modifyAt, children]
  | group tag grouping children =>
    rw [modifyAt, Field.children, modifyChild_eq_modify]
    rfl

theorem at?_modifyAt_self (change : Field → Field) {f g : Field} {path : List Nat}
    (h : f.at? path = some g) : (f.modifyAt change path).at? path = some (change g) := by
  induction path generalizing f with
  | nil =>
    obtain rfl : f = g := Option.some.inj h
    rw [modifyAt_nil, at?_nil]
  | cons i path ih =>
    obtain ⟨c, hc, hp⟩ := at?_cons_eq_some h
    have hi : (f.modifyAt change (i :: path)).children[i]? = some (c.modifyAt change path) := by
      rw [children_modifyAt_cons, List.getElem?_modify_eq, hc, Option.map_eq_map, Option.map_some]
    rw [at?_cons_of_child hi, ih hp]

/-- A leaf is no part of the fields that do not contain it. -/
theorem at?_modifyAt_of_not_below {f : Field} {tag tag' : Tag} {content content' : Leaf}
    {p q : List Nat} (hp : f.at? p = some (leaf tag content)) (hq : ¬ q <+: p) :
    (f.modifyAt (fun _ => leaf tag' content') p).at? q = f.at? q := by
  induction p generalizing f q with
  | nil =>
    obtain rfl : f = leaf tag content := Option.some.inj hp
    cases q with
    | nil => exact absurd List.prefix_rfl hq
    | cons j q => rfl
  | cons i p ih =>
    obtain ⟨c, hc, hcp⟩ := at?_cons_eq_some hp
    cases q with
    | nil => exact absurd List.nil_prefix hq
    | cons j q =>
      rw [at?_cons, at?_cons, children_modifyAt_cons]
      by_cases hij : i = j
      · subst hij
        rw [List.getElem?_modify_eq, hc]
        exact ih hcp fun h => hq (List.cons_prefix_cons.mpr ⟨rfl, h⟩)
      · rw [List.getElem?_modify_ne _ _ hij]

/-- A change that keeps the shape of one field keeps the shape of the tree. -/
theorem sameShape_modifyAt {change : Field → Field} {f g : Field} {path : List Nat}
    (h : f.at? path = some g) (hg : (change g).SameShape g) :
    (f.modifyAt change path).SameShape f := by
  induction path generalizing f with
  | nil =>
    obtain rfl : f = g := Option.some.inj h
    rwa [modifyAt_nil]
  | cons i path ih =>
    obtain ⟨c, hc, hp⟩ := at?_cons_eq_some h
    cases f with
    | leaf tag content => simp [children] at hc
    | group tag grouping cs =>
      have hc : cs[i]? = some c := hc
      have hblank : (cs.modify i (modifyAt change · path)).map blank = cs.map blank := by
        refine List.ext_getElem? fun j => ?_
        rw [List.getElem?_map, List.getElem?_map]
        by_cases hij : i = j
        · subst hij
          rw [List.getElem?_modify_eq, hc, Option.map_eq_map, Option.map_some, Option.map_some,
            Option.map_some]
          exact congrArg some (ih hp)
        · rw [List.getElem?_modify_ne _ _ hij]
      rw [SameShape, modifyAt, modifyChild_eq_modify, blank, blank, blanks_eq_map, blanks_eq_map,
        hblank]

/-! ## Writing through a container -/

mutual

theorem blank_withUnits : ∀ (f : Field) (us : List UInt8), (f.withUnits us).blank = f.blank
  | leaf tag content, us => congrArg (leaf tag) (content.blank_withUnits us)
  | group tag .bits children, _ => congrArg (group tag .bits) (blanks_withBits children _)
  | group tag .compound children, us => congrArg (group tag .compound) (blanks_withJoined children us)
  | group tag .repeated children, us => congrArg (group tag .repeated) (blanks_withJoined children us)

theorem blanks_withJoined : ∀ (cs : List Field) (us : List UInt8),
    blanks (withJoined cs us) = blanks cs
  | [], _ => rfl
  | c :: cs, us => by rw [withJoined, blanks, blanks, blank_withUnits c, blanks_withJoined cs]

theorem blanks_withBits : ∀ (cs : List Field) (bs : List Bool), blanks (withBits cs bs) = blanks cs
  | [], _ => rfl
  | c :: cs, bs => by rw [withBits, blanks, blanks, blank_withUnits c, blanks_withBits cs]

end

mutual

theorem blank_setUnit : ∀ (f : Field) (i : Nat) (v : UInt8), (f.setUnit i v).blank = f.blank
  | leaf tag content, i, v => congrArg (leaf tag) (content.blank_setUnit i v)
  | group tag .bits children, _, _ => congrArg (group tag .bits) (blanks_withBits children _)
  | group tag .compound children, i, v =>
      congrArg (group tag .compound) (blanks_setJoined children i v)
  | group tag .repeated children, i, v =>
      congrArg (group tag .repeated) (blanks_setJoined children i v)

theorem blanks_setJoined : ∀ (cs : List Field) (i : Nat) (v : UInt8),
    blanks (setJoined cs i v) = blanks cs
  | [], _, _ => rfl
  | c :: cs, i, v => by
      rw [setJoined]
      split
      · rw [blanks, blanks, blank_setUnit c]
      · rw [blanks, blanks, blanks_setJoined cs]

end

theorem sameShape_of_set {f g : Field} {i : Nat} {v : UInt8} (h : f.set i v = .ok g) :
    g.SameShape f := by
  unfold set at h
  split at h
  · obtain rfl := Except.ok.inj h
    exact blank_setUnit f i v
  · cases h

end Field
end ArtifactLayout
