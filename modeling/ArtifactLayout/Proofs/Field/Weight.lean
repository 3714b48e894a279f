import ArtifactLayout.Proofs.Field.Preorder

/-! # The weight of a tree

The units of its leaves, and `nodeWeight` for each of its fields. A tree of at most `maxUnits` weighs
so little that sizes and offsets counted in words are the true ones.
-/

namespace ArtifactLayout.Field
set_option autoImplicit false

mutual

/-- The units of all leaves of a tree. -/
def leafUnits : Field → Nat
  | leaf _ content => content.size
  | group _ _ children => leafUnitsOf children

def leafUnitsOf : List Field → Nat
  | [] => 0
  | c :: cs => c.leafUnits + leafUnitsOf cs

end

/-- What a tree counts for against `maxUnits`. -/
def weight (f : Field) : Nat := f.leafUnits + nodeWeight * f.nodeCount

mutual

/-- The size as it is counted: sums stop at the largest word. -/
def countedSize : Field → Nat
  | leaf _ content => content.size
  | group _ .bits children => (countedBits 0 children + 7) / 8
  | group _ _ children => countedUnits 0 children

def countedUnits (n : Nat) : List Field → Nat
  | [] => n
  | c :: cs => countedUnits (saturate (n + c.countedSize)) cs

def countedBits (n : Nat) : List Field → Nat
  | [] => n
  | c :: cs => countedBits (saturate (n + c.countedSize * c.unitBits)) cs

end

/-! ## Sizes are bounded by the leaves -/

theorem unitBits_le (f : Field) : f.unitBits ≤ 8 := by
  cases f with
  | leaf tag content =>
    cases content with
    | block content => exact Nat.le_refl 8
    | ranged low high content => exact Nat.le_refl 8
    | bitfield content => exact Nat.le_of_ble_eq_true rfl
  | group tag grouping children => exact Nat.le_refl 8

mutual

theorem size_le_leafUnits : ∀ f : Field, f.size ≤ f.leafUnits
  | leaf tag content => Nat.le_refl _
  | group tag .bits children => by
      have hbits := totalBits_le_leafUnitsOf children
      rw [size, leafUnits]
      omega
  | group tag .compound children => totalUnits_le_leafUnitsOf children
  | group tag .repeated children => totalUnits_le_leafUnitsOf children

theorem totalUnits_le_leafUnitsOf : ∀ cs : List Field, totalUnits cs ≤ leafUnitsOf cs
  | [] => Nat.le_refl 0
  | c :: cs => Nat.add_le_add (size_le_leafUnits c) (totalUnits_le_leafUnitsOf cs)

theorem totalBits_le_leafUnitsOf : ∀ cs : List Field, totalBits cs ≤ 8 * leafUnitsOf cs
  | [] => Nat.zero_le _
  | c :: cs => by
      have hsize := size_le_leafUnits c
      have hrest := totalBits_le_leafUnitsOf cs
      have hbits : c.size * c.unitBits ≤ c.leafUnits * 8 := Nat.mul_le_mul hsize c.unitBits_le
      rw [totalBits, leafUnitsOf]
      omega

end

theorem leafUnitsOf_append (as bs : List Field) :
    leafUnitsOf (as ++ bs) = leafUnitsOf as + leafUnitsOf bs := by
  induction as with
  | nil => rw [List.nil_append, leafUnitsOf, Nat.zero_add]
  | cons a as ih => rw [List.cons_append, leafUnitsOf, leafUnitsOf, ih, Nat.add_assoc]

theorem leafUnitsOf_take_le (cs : List Field) (k : Nat) :
    leafUnitsOf (cs.take k) ≤ leafUnitsOf cs := by
  have h := leafUnitsOf_append (cs.take k) (cs.drop k)
  rw [List.take_append_drop] at h
  omega

theorem leafUnitsOf_children_le (f : Field) : leafUnitsOf f.children ≤ f.leafUnits := by
  cases f with
  | leaf tag content => exact Nat.zero_le _
  | group tag grouping children => exact Nat.le_refl _

theorem leafUnits_le_of_mem {f c : Field} (h : c ∈ f.children) : c.leafUnits ≤ f.leafUnits := by
  have hchildren := f.leafUnitsOf_children_le
  obtain ⟨as, bs, hsplit⟩ := List.append_of_mem h
  rw [hsplit, leafUnitsOf_append, leafUnitsOf] at hchildren
  omega

theorem leafUnits_le_of_at? {f g : Field} {path : List Nat} (h : f.at? path = some g) :
    g.leafUnits ≤ f.leafUnits := by
  induction path generalizing f with
  | nil =>
    cases h
    exact Nat.le_refl _
  | cons i path ih =>
    obtain ⟨c, hc, hat⟩ := at?_cons_eq_some h
    exact Nat.le_trans (ih hat) (leafUnits_le_of_mem (List.mem_of_getElem? hc))

/-! ## Counting in words -/

/-- What a container counts, units or bits, fits a word. -/
def CountFits : Field → Prop
  | leaf _ _ => True
  | group _ .bits children => totalBits children ≤ maxWord
  | group _ _ children => totalUnits children ≤ maxWord

mutual

/-- A size is counted truly if no count in the tree passes a word. -/
theorem countedSize_eq : ∀ {f : Field}, f.Everywhere CountFits → f.countedSize = f.size
  | leaf tag content, _ => rfl
  | group tag .bits children, h => by
      have hfits : totalBits children ≤ maxWord := h [] _ rfl
      have hall : ∀ c ∈ children, c.Everywhere CountFits := fun c hc => h.of_mem hc
      rw [countedSize, size, countedBits_eq hall (by omega), Nat.zero_add]
  | group tag .compound children, h => by
      have hfits : totalUnits children ≤ maxWord := h [] _ rfl
      have hunits : countedUnits 0 children = 0 + totalUnits children :=
        countedUnits_eq (fun c hc => h.of_mem hc) (by omega)
      exact hunits.trans (Nat.zero_add _)
  | group tag .repeated children, h => by
      have hfits : totalUnits children ≤ maxWord := h [] _ rfl
      have hunits : countedUnits 0 children = 0 + totalUnits children :=
        countedUnits_eq (fun c hc => h.of_mem hc) (by omega)
      exact hunits.trans (Nat.zero_add _)

theorem countedUnits_eq : ∀ {n : Nat} {cs : List Field}, (∀ c ∈ cs, c.Everywhere CountFits) →
    n + totalUnits cs ≤ maxWord → countedUnits n cs = n + totalUnits cs
  | n, [], _, _ => rfl
  | n, c :: cs, h, hn => by
      have hrest : ∀ d ∈ cs, d.Everywhere CountFits := fun d hd => h d (List.mem_cons_of_mem c hd)
      rw [totalUnits] at hn
      rw [countedUnits, countedSize_eq (h c List.mem_cons_self), saturate_of_le (by omega),
        countedUnits_eq hrest (by omega), totalUnits, Nat.add_assoc]

theorem countedBits_eq : ∀ {n : Nat} {cs : List Field}, (∀ c ∈ cs, c.Everywhere CountFits) →
    n + totalBits cs ≤ maxWord → countedBits n cs = n + totalBits cs
  | n, [], _, _ => rfl
  | n, c :: cs, h, hn => by
      have hrest : ∀ d ∈ cs, d.Everywhere CountFits := fun d hd => h d (List.mem_cons_of_mem c hd)
      rw [totalBits] at hn
      rw [countedBits, countedSize_eq (h c List.mem_cons_self), saturate_of_le (by omega),
        countedBits_eq hrest (by omega), totalBits, Nat.add_assoc]

end

/-- No count passes a word if the bits of all leaves fit one. -/
theorem countFits_of_leafUnits {f : Field} (h : 8 * f.leafUnits ≤ maxWord) : f.Everywhere CountFits := by
  intro path g hg
  have hleaf := leafUnits_le_of_at? hg
  rcases g with ⟨tag, content⟩ | ⟨tag, grouping, children⟩
  · trivial
  have hbits := totalBits_le_leafUnitsOf children
  have hunits := totalUnits_le_leafUnitsOf children
  rw [leafUnits] at hleaf
  cases grouping with
  | bits => exact Nat.le_trans hbits (by omega)
  | compound | repeated => exact Nat.le_trans hunits (by omega)

/-- What holds of every tree that an allocation may return. -/
structure WithinLimits (f : Field) : Prop where
  weight_le : f.weight ≤ maxUnits
  size_lt : ∀ v ∈ f.visits, v.field.size < maxUnits
  /-- Sizes counted in words are true. -/
  countedSize_eq : ∀ v ∈ f.visits, v.field.countedSize = v.field.size
  /-- No offset in units stops short. -/
  units_lt : ∀ v ∈ f.visits, ∀ k, countedUnits 0 (v.field.children.take k) =
    totalUnits (v.field.children.take k) ∧ totalUnits (v.field.children.take k) < maxWord
  /-- No offset in bits stops short. -/
  bits_lt : ∀ v ∈ f.visits, ∀ k, countedBits 0 (v.field.children.take k) =
    totalBits (v.field.children.take k) ∧ totalBits (v.field.children.take k) < maxWord

theorem withinLimits_of_weight_le {f : Field} (h : f.weight ≤ maxUnits) : f.WithinLimits := by
  have hpos : 0 < f.nodeCount := f.nodeCount_pos
  have hleaf : f.leafUnits < maxUnits := by
    rw [weight, nodeWeight] at h
    omega
  -- even counted in bits, the leaves are far from filling a word
  have hword : 8 * maxUnits < maxWord := by decide
  have hpart : ∀ v ∈ f.visits, v.field.leafUnits < maxUnits := by
    intro v hv
    exact Nat.lt_of_le_of_lt (leafUnits_le_of_at? (mem_visits.mp hv).1) hleaf
  have hrun : ∀ v ∈ f.visits, ∀ k, leafUnitsOf (v.field.children.take k) < maxUnits := by
    intro v hv k
    have htake := leafUnitsOf_take_le v.field.children k
    have hchildren := v.field.leafUnitsOf_children_le
    have := hpart v hv
    omega
  have hfits : f.Everywhere CountFits := countFits_of_leafUnits (by omega)
  have hall : ∀ v ∈ f.visits, ∀ k, ∀ c ∈ v.field.children.take k, c.Everywhere CountFits :=
    fun v hv k c hc => (hfits.below (mem_visits.mp hv).1).of_mem (List.mem_of_mem_take hc)
  constructor
  · exact h
  · intro v hv
    exact Nat.lt_of_le_of_lt v.field.size_le_leafUnits (hpart v hv)
  · intro v hv
    exact Field.countedSize_eq (hfits.below (mem_visits.mp hv).1)
  · intro v hv k
    have hlt := hrun v hv k
    have hunits := totalUnits_le_leafUnitsOf (v.field.children.take k)
    refine ⟨?_, by omega⟩
    rw [countedUnits_eq (hall v hv k) (by omega), Nat.zero_add]
  · intro v hv k
    have hlt := hrun v hv k
    have hbits := totalBits_le_leafUnitsOf (v.field.children.take k)
    refine ⟨?_, by omega⟩
    rw [countedBits_eq (hall v hv k) (by omega), Nat.zero_add]

end ArtifactLayout.Field
