import ArtifactLayout.Scope

/-! # Shapes

The shape of a tree is what remains of it when all content is zero: kinds, sizes, names, fillers and
children. Two trees have the same shape if they differ in content alone. Sizes, paths and pre-order
numbers, and with them the bindings of a tree, depend on its shape only.
-/

namespace ArtifactLayout
set_option autoImplicit false

/-- The leaf with all its content zero. -/
def Leaf.blank : Leaf → Leaf
  | block content => block (Array.replicate content.size 0)
  | ranged low high content => ranged low high (Array.replicate content.size 0)
  | bitfield content => bitfield (Array.replicate content.size false)

namespace Leaf

@[simp] theorem kind_blank (l : Leaf) : l.blank.kind = l.kind := by cases l <;> rfl

@[simp] theorem size_blank (l : Leaf) : l.blank.size = l.size := by
  cases l <;> simp [blank, size]

@[simp] theorem unitBits_blank (l : Leaf) : l.blank.unitBits = l.unitBits := by cases l <;> rfl

@[simp] theorem blank_withUnits (l : Leaf) (us : List UInt8) : (l.withUnits us).blank = l.blank := by
  cases l <;> simp [blank, withUnits]

end Leaf

namespace Field

mutual

/-- The tree with all its content zero. -/
def blank : Field → Field
  | leaf tag content => leaf tag content.blank
  | group tag grouping children => group tag grouping (blanks children)

def blanks : List Field → List Field
  | [] => []
  | c :: cs => c.blank :: blanks cs

end

/-- Trees that differ in content alone. -/
def SameShape (f g : Field) : Prop := f.blank = g.blank

theorem blanks_eq_map (cs : List Field) : blanks cs = cs.map blank := by
  induction cs with
  | nil => rfl
  | cons c cs ih => rw [blanks, ih, List.map_cons]

/-! ## What a shape determines -/

@[simp] theorem tag_blank (f : Field) : f.blank.tag = f.tag := by cases f <;> rfl

@[simp] theorem id_blank (f : Field) : f.blank.id = f.id := congrArg Tag.id f.tag_blank

@[simp] theorem filler_blank (f : Field) : f.blank.filler = f.filler :=
  congrArg Tag.filler f.tag_blank

@[simp] theorem kind_blank (f : Field) : f.blank.kind = f.kind := by
  cases f with
  | leaf tag content => exact content.kind_blank
  | group tag grouping children => rfl

@[simp] theorem unitBits_blank (f : Field) : f.blank.unitBits = f.unitBits := by
  cases f with
  | leaf tag content => exact content.unitBits_blank
  | group tag grouping children => rfl

@[simp] theorem children_blank (f : Field) : f.blank.children = f.children.map blank := by
  cases f with
  | leaf tag content => rfl
  | group tag grouping children => exact blanks_eq_map children

mutual

@[simp] theorem size_blank : ∀ f : Field, f.blank.size = f.size
  | leaf tag content => content.size_blank
  | group tag .bits children => by
      rw [blank, size, size, totalBits_blanks children]
  | group tag .compound children => by
      rw [blank, size, size, totalUnits_blanks children] <;> simp
  | group tag .repeated children => by
      rw [blank, size, size, totalUnits_blanks children] <;> simp

theorem totalUnits_blanks : ∀ cs : List Field, totalUnits (blanks cs) = totalUnits cs
  | [] => rfl
  | c :: cs => by rw [blanks, totalUnits, totalUnits, size_blank c, totalUnits_blanks cs]

theorem totalBits_blanks : ∀ cs : List Field, totalBits (blanks cs) = totalBits cs
  | [] => rfl
  | c :: cs => by
      rw [blanks, totalBits, totalBits, size_blank c, unitBits_blank, totalBits_blanks cs]

end

mutual

@[simp] theorem nodeCount_blank : ∀ f : Field, f.blank.nodeCount = f.nodeCount
  | leaf tag content => rfl
  | group tag grouping children => by rw [blank, nodeCount, nodeCount, nodeCounts_blanks children]

theorem nodeCounts_blanks : ∀ cs : List Field, nodeCounts (blanks cs) = nodeCounts cs
  | [] => rfl
  | c :: cs => by rw [blanks, nodeCounts, nodeCounts, nodeCount_blank c, nodeCounts_blanks cs]

end

theorem at?_blank (f : Field) (path : List Nat) : f.blank.at? path = (f.at? path).map blank := by
  induction path generalizing f with
  | nil => rfl
  | cons i path ih =>
    rw [at?, at?, children_blank, List.getElem?_map]
    cases f.children[i]? with
    | none => rfl
    | some c => exact ih c

def Visit.blank (v : Visit) : Visit := { v with field := v.field.blank }

mutual

theorem visitsFrom_blank (path : List Nat) (position : Nat) :
    ∀ f : Field, visitsFrom path position f.blank = (visitsFrom path position f).map Visit.blank
  | leaf tag content => rfl
  | group tag grouping children => by
      rw [Field.blank, visitsFrom, visitsFrom, List.map_cons,
        childVisits_blanks path 0 (position + 1) children]
      rfl

theorem childVisits_blanks (path : List Nat) (index position : Nat) :
    ∀ cs : List Field, childVisits path index position (blanks cs) =
      (childVisits path index position cs).map Visit.blank
  | [] => rfl
  | c :: cs => by
      rw [blanks, childVisits, childVisits, List.map_append, nodeCount_blank,
        visitsFrom_blank (path ++ [index]) position c,
        childVisits_blanks path (index + 1) (position + c.nodeCount) cs]

end

theorem visits_blank (f : Field) : f.blank.visits = f.visits.map Visit.blank :=
  visitsFrom_blank [] 0 f

namespace SameShape
variable {f g h : Field}

theorem refl (f : Field) : f.SameShape f := rfl

theorem symm (s : f.SameShape g) : g.SameShape f := Eq.symm s

theorem trans (s : f.SameShape g) (t : g.SameShape h) : f.SameShape h := Eq.trans s t

theorem size_eq (s : f.SameShape g) : f.size = g.size := by
  rw [← size_blank f, s, size_blank]

theorem filler_eq (s : f.SameShape g) : f.filler = g.filler := by
  rw [← filler_blank f, s, filler_blank]

theorem nodeCount_eq (s : f.SameShape g) : f.nodeCount = g.nodeCount := by
  rw [← nodeCount_blank f, s, nodeCount_blank]

theorem length_children_eq (s : f.SameShape g) : f.children.length = g.children.length := by
  rw [← List.length_map (f := blank), ← children_blank, s, children_blank, List.length_map]

theorem unitBits_eq (s : f.SameShape g) : f.unitBits = g.unitBits := by
  rw [← unitBits_blank f, s, unitBits_blank]

theorem at? (s : f.SameShape g) {path : List Nat} {a : Field} (ha : f.at? path = some a) :
    ∃ b, g.at? path = some b ∧ a.SameShape b := by
  have hb : (g.at? path).map blank = some a.blank := by
    rw [← at?_blank, ← s, at?_blank, ha, Option.map_some]
  obtain ⟨b, hb, hab⟩ := Option.map_eq_some_iff.mp hb
  exact ⟨b, hb, hab.symm⟩

theorem exists_leaf {tag : Tag} {content : Leaf} (s : f.SameShape (leaf tag content)) :
    ∃ tag content, f = leaf tag content := by
  cases f with
  | leaf tag content => exact ⟨tag, content, rfl⟩
  | group tag grouping children => cases s

theorem exists_group {tag : Tag} {grouping : Grouping} {cs : List Field}
    (s : f.SameShape (group tag grouping cs)) :
    ∃ tag ds, f = group tag grouping ds ∧ blanks ds = blanks cs := by
  cases f with
  | leaf tag content => cases s
  | group tag' grouping' ds =>
    obtain ⟨-, rfl, hds⟩ := Field.group.inj s
    exact ⟨tag', ds, rfl, hds⟩

end SameShape

/-- A child of one of two runs of the same shape has a counterpart of its shape in the other. -/
theorem getElem?_of_blanks {cs ds : List Field} (h : blanks ds = blanks cs) {k : Nat} {d : Field}
    (hd : ds[k]? = some d) : ∃ c, cs[k]? = some c ∧ d.SameShape c := by
  rw [blanks_eq_map, blanks_eq_map] at h
  have hk := congrArg (·[k]?) h
  simp only [List.getElem?_map, hd, Option.map_some] at hk
  obtain ⟨c, hc, hblank⟩ := Option.map_eq_some_iff.mp hk.symm
  exact ⟨c, hc, hblank.symm⟩

end Field
end ArtifactLayout
