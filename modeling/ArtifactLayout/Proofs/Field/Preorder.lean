import ArtifactLayout.Proofs.Field.Shape

/-! # Pre-order

The walk over a tree meets the field at every path once, paths in lexicographic order, and numbers
them without gaps. `Field.ordinal` computes the number from the path alone; a field below another
comes within the numbers that the other's tree covers.
-/

namespace ArtifactLayout.Field
set_option autoImplicit false

/-- The pre-order number of the field at the end of a path. -/
def ordinal : Field → List Nat → Nat
  | _, [] => 0
  | f, i :: path => 1 + nodeCounts (f.children.take i) + (f.children[i]?).elim 0 (ordinal · path)

@[simp] theorem ordinal_nil (f : Field) : f.ordinal [] = 0 := rfl

theorem ordinal_cons {f c : Field} {i : Nat} (h : f.children[i]? = some c) (path : List Nat) :
    f.ordinal (i :: path) = 1 + nodeCounts (f.children.take i) + c.ordinal path := by
  rw [ordinal, h]
  rfl

@[simp] theorem at?_nil (f : Field) : f.at? [] = some f := rfl

theorem at?_cons (f : Field) (i : Nat) (path : List Nat) :
    f.at? (i :: path) = f.children[i]?.bind (at? · path) := rfl

theorem at?_cons_of_child {f c : Field} {i : Nat} (h : f.children[i]? = some c) (path : List Nat) :
    f.at? (i :: path) = c.at? path := by
  rw [at?_cons, h]
  rfl

theorem at?_cons_eq_some {f g : Field} {i : Nat} {path : List Nat} (h : f.at? (i :: path) = some g) :
    ∃ c, f.children[i]? = some c ∧ c.at? path = some g :=
  Option.bind_eq_some_iff.mp h

theorem at?_append {f g : Field} {p : List Nat} (h : f.at? p = some g) (q : List Nat) :
    f.at? (p ++ q) = g.at? q := by
  induction p generalizing f with
  | nil =>
    obtain rfl : f = g := Option.some.inj h
    rfl
  | cons i p ih =>
    obtain ⟨c, hc, hp⟩ := at?_cons_eq_some h
    rw [List.cons_append, at?_cons_of_child hc, ih hp]

/-! ## What holds of every field -/

/-- Something holds of a field and of all that lies below it. -/
def Everywhere (P : Field → Prop) (f : Field) : Prop := ∀ path g, f.at? path = some g → P g

theorem everywhere_leaf {P : Field → Prop} {tag : Tag} {content : Leaf} (h : P (leaf tag content)) :
    (leaf tag content).Everywhere P := by
  intro path g hg
  cases path with
  | nil =>
    obtain rfl : leaf tag content = g := Option.some.inj hg
    exact h
  | cons i path => cases hg

theorem everywhere_group {P : Field → Prop} {tag : Tag} {grouping : Grouping} {children : List Field}
    (h : P (group tag grouping children)) (hchildren : ∀ c ∈ children, c.Everywhere P) :
    (group tag grouping children).Everywhere P := by
  intro path g hg
  cases path with
  | nil =>
    obtain rfl : group tag grouping children = g := Option.some.inj hg
    exact h
  | cons i path =>
    obtain ⟨c, hc, hat⟩ := at?_cons_eq_some hg
    exact hchildren c (List.mem_of_getElem? hc) path g hat

theorem Everywhere.child {P : Field → Prop} {f c : Field} (h : f.Everywhere P) {i : Nat}
    (hc : f.children[i]? = some c) : c.Everywhere P := by
  intro path g hg
  exact h (i :: path) g (by rw [at?_cons_of_child hc, hg])

theorem Everywhere.of_mem {P : Field → Prop} {f c : Field} (h : f.Everywhere P)
    (hc : c ∈ f.children) : c.Everywhere P := by
  obtain ⟨i, hi⟩ := List.mem_iff_getElem?.mp hc
  exact h.child hi

theorem Everywhere.below {P : Field → Prop} {f g : Field} (h : f.Everywhere P) {path : List Nat}
    (hg : f.at? path = some g) : g.Everywhere P := by
  intro rest e he
  exact h (path ++ rest) e (by rw [at?_append hg, he])

/-! ## Counting -/

theorem nodeCount_eq (f : Field) : f.nodeCount = 1 + nodeCounts f.children := by
  cases f with
  | leaf tag content => rfl
  | group tag grouping children => rw [nodeCount]; rfl

theorem nodeCount_pos (f : Field) : 0 < f.nodeCount := by
  rw [nodeCount_eq]
  omega

theorem nodeCounts_split {cs : List Field} {i : Nat} {c : Field} (h : cs[i]? = some c) :
    nodeCounts cs = nodeCounts (cs.take i) + c.nodeCount + nodeCounts (cs.drop (i + 1)) := by
  induction cs generalizing i with
  | nil => simp at h
  | cons d cs ih =>
    cases i with
    | zero =>
      obtain rfl : d = c := by simpa using h
      simp [nodeCounts]
    | succ i =>
      have hi := ih (by simpa using h)
      simp only [List.take_succ_cons, List.drop_succ_cons, nodeCounts]
      omega

/-- What lies below a field ends no later than the field does. -/
theorem ordinal_add_nodeCount_le_nodeCount {f g : Field} {path : List Nat} (h : f.at? path = some g) :
    f.ordinal path + g.nodeCount ≤ f.nodeCount := by
  induction path generalizing f with
  | nil =>
    obtain rfl : f = g := Option.some.inj h
    simp
  | cons i path ih =>
    obtain ⟨c, hc, hp⟩ := at?_cons_eq_some h
    have hle := ih hp
    have hsplit := nodeCounts_split hc
    rw [ordinal_cons hc, nodeCount_eq f]
    omega

theorem ordinal_lt_nodeCount {f g : Field} {path : List Nat} (h : f.at? path = some g) :
    f.ordinal path < f.nodeCount := by
  have hle := ordinal_add_nodeCount_le_nodeCount h
  have hpos := g.nodeCount_pos
  omega

theorem ordinal_append {f g : Field} {p : List Nat} (h : f.at? p = some g) (q : List Nat) :
    f.ordinal (p ++ q) = f.ordinal p + g.ordinal q := by
  induction p generalizing f with
  | nil =>
    obtain rfl : f = g := Option.some.inj h
    simp
  | cons i p ih =>
    obtain ⟨c, hc, hp⟩ := at?_cons_eq_some h
    rw [List.cons_append, ordinal_cons hc, ordinal_cons hc, ih hp]
    omega

/-- The fields in front of a later child include all those of an earlier one. -/
theorem nodeCounts_take_add_le {cs : List Field} {i j : Nat} {c : Field} (hc : cs[i]? = some c)
    (hij : i < j) : nodeCounts (cs.take i) + c.nodeCount ≤ nodeCounts (cs.take j) := by
  have hci : (cs.take j)[i]? = some c := by rw [List.getElem?_take_of_lt hij, hc]
  have hsplit := nodeCounts_split hci
  rw [List.take_take, Nat.min_eq_left (Nat.le_of_lt hij)] at hsplit
  omega

/-! ## The fields that a walk meets -/

mutual

theorem mem_visitsFrom (path : List Nat) (position : Nat) (v : Visit) :
    ∀ f : Field, v ∈ visitsFrom path position f ↔
      ∃ q, v.path = path ++ q ∧ f.at? q = some v.field ∧ v.position = position + f.ordinal q
  | leaf tag content => by
      rw [visitsFrom, List.mem_singleton]
      constructor
      · rintro rfl
        exact ⟨[], by simp, rfl, by simp⟩
      · rintro ⟨q, hpath, hat, hpos⟩
        cases q with
        | nil =>
          obtain ⟨vpath, vposition, vfield⟩ := v
          simp_all
        | cons i q => simp [at?_cons, children] at hat
  | group tag grouping children => by
      rw [visitsFrom, List.mem_cons, mem_childVisits path 0 (position + 1) v children]
      constructor
      · rintro (rfl | ⟨i, c, q, hc, hpath, hat, hpos⟩)
        · exact ⟨[], by simp, rfl, by simp⟩
        · have hchild : (group tag grouping children).children[i]? = some c := hc
          refine ⟨i :: q, by simpa using hpath, ?_, ?_⟩
          · rw [at?_cons_of_child hchild, hat]
          · rw [ordinal_cons hchild, hpos, Field.children]
            omega
      · rintro ⟨q, hpath, hat, hpos⟩
        cases q with
        | nil =>
          left
          obtain ⟨vpath, vposition, vfield⟩ := v
          simp_all
        | cons i q =>
          right
          obtain ⟨c, hc, hq⟩ := at?_cons_eq_some hat
          refine ⟨i, c, q, hc, by simpa using hpath, hq, ?_⟩
          rw [hpos, ordinal_cons hc, Field.children]
          omega

theorem mem_childVisits (path : List Nat) (index position : Nat) (v : Visit) :
    ∀ cs : List Field, v ∈ childVisits path index position cs ↔
      ∃ i c q, cs[i]? = some c ∧ v.path = path ++ (index + i) :: q ∧ c.at? q = some v.field ∧
        v.position = position + nodeCounts (cs.take i) + c.ordinal q
  | [] => by simp [childVisits]
  | c :: cs => by
      rw [childVisits, List.mem_append, mem_visitsFrom (path ++ [index]) position v c,
        mem_childVisits path (index + 1) (position + c.nodeCount) v cs]
      constructor
      · rintro (⟨q, hpath, hat, hpos⟩ | ⟨i, d, q, hd, hpath, hat, hpos⟩)
        · exact ⟨0, c, q, rfl, by simpa using hpath, hat, by simpa [nodeCounts] using hpos⟩
        · refine ⟨i + 1, d, q, hd, ?_, hat, ?_⟩
          · rw [hpath, show index + 1 + i = index + (i + 1) by omega]
          · rw [hpos, List.take_succ_cons, nodeCounts]
            omega
      -- a path starts with the first child or with one of the others
      · rintro ⟨i, d, q, hd, hpath, hat, hpos⟩
        cases i with
        | zero =>
          left
          obtain rfl : c = d := by simpa using hd
          exact ⟨q, by simpa using hpath, hat, by simpa [nodeCounts] using hpos⟩
        | succ i =>
          right
          refine ⟨i, d, q, by simpa using hd, ?_, hat, ?_⟩
          · rw [hpath, show index + 1 + i = index + (i + 1) by omega]
          · rw [hpos, List.take_succ_cons, nodeCounts]
            omega

end

/-- A walk meets exactly the fields at the paths of the tree, under their numbers. -/
theorem mem_visits {f : Field} {v : Visit} :
    v ∈ f.visits ↔ f.at? v.path = some v.field ∧ v.position = f.ordinal v.path := by
  rw [visits, mem_visitsFrom]
  constructor
  · rintro ⟨q, hpath, hat, hpos⟩
    obtain rfl : v.path = q := by simpa using hpath
    exact ⟨hat, by omega⟩
  · rintro ⟨hat, hpos⟩
    exact ⟨v.path, rfl, hat, by omega⟩

/-- What lies below a field is numbered within the field's tree. -/
theorem position_lt_of_below {f : Field} {v w : Visit} (hv : v ∈ f.visits) (hw : w ∈ f.visits)
    (h : v.path <+: w.path) : w.position < v.position + v.field.nodeCount := by
  obtain ⟨vat, vpos⟩ := mem_visits.mp hv
  obtain ⟨wat, wpos⟩ := mem_visits.mp hw
  obtain ⟨q, hq⟩ := h
  have hat : v.field.at? q = some w.field := by rw [← at?_append vat, hq, wat]
  have hlt := ordinal_lt_nodeCount hat
  rw [vpos, wpos, ← hq, ordinal_append vat]
  omega

/-- What lies below a field is numbered from the field on. -/
theorem position_le_of_below {f : Field} {v w : Visit} (hv : v ∈ f.visits) (hw : w ∈ f.visits)
    (h : v.path <+: w.path) : v.position ≤ w.position := by
  obtain ⟨vat, vpos⟩ := mem_visits.mp hv
  obtain ⟨-, wpos⟩ := mem_visits.mp hw
  obtain ⟨q, hq⟩ := h
  rw [vpos, wpos, ← hq, ordinal_append vat]
  omega

/-- A field that stands before another one and does not contain it is complete before it starts. -/
theorem ordinal_add_nodeCount_le {f g h : Field} {p q : List Nat} (hp : f.at? p = some g)
    (hq : f.at? q = some h) (hlt : p < q) (hbelow : ¬ p <+: q) :
    f.ordinal p + g.nodeCount ≤ f.ordinal q := by
  induction p generalizing f q with
  | nil => exact absurd List.nil_prefix hbelow
  | cons i p ih =>
    cases q with
    | nil => exact absurd hlt (List.not_lt_nil _)
    | cons j q =>
      obtain ⟨c, hc, hcp⟩ := at?_cons_eq_some hp
      obtain ⟨d, hd, hdq⟩ := at?_cons_eq_some hq
      rw [ordinal_cons hc, ordinal_cons hd]
      rcases List.cons_lt_cons_iff.mp hlt with hij | ⟨rfl, hrest⟩
      · -- the child that contains the first field comes before the one that contains the second
        have hwithin := ordinal_add_nodeCount_le_nodeCount hcp
        have htake := nodeCounts_take_add_le hc hij
        omega
      · obtain rfl : c = d := Option.some.inj (hc.symm.trans hd)
        have := ih hcp hdq hrest fun hpq => hbelow (List.cons_prefix_cons.mpr ⟨rfl, hpq⟩)
        omega

/-- Two fields of which neither contains the other are numbered one after the other. -/
theorem disjoint_positions {f : Field} {v w : Visit} (hv : v ∈ f.visits) (hw : w ∈ f.visits)
    (hvw : ¬ v.path <+: w.path) (hwv : ¬ w.path <+: v.path) :
    v.position + v.field.nodeCount ≤ w.position ∨ w.position + w.field.nodeCount ≤ v.position := by
  obtain ⟨vat, vpos⟩ := mem_visits.mp hv
  obtain ⟨wat, wpos⟩ := mem_visits.mp hw
  rw [vpos, wpos]
  by_cases hlt : v.path < w.path
  · exact .inl (ordinal_add_nodeCount_le vat wat hlt hvw)
  · by_cases hgt : w.path < v.path
    · exact .inr (ordinal_add_nodeCount_le wat vat hgt hwv)
    · have heq : v.path = w.path := List.le_antisymm hgt hlt
      exact absurd (heq ▸ List.prefix_rfl) hvw

/-! ## The order of a walk -/

mutual

theorem map_position_visitsFrom (path : List Nat) (position : Nat) :
    ∀ f : Field, (visitsFrom path position f).map Visit.position = List.range' position f.nodeCount
  | leaf tag content => rfl
  | group tag grouping children => by
      rw [visitsFrom, List.map_cons, map_position_childVisits path 0 (position + 1) children,
        nodeCount, Nat.add_comm 1, List.range'_succ]

theorem map_position_childVisits (path : List Nat) (index position : Nat) :
    ∀ cs : List Field,
      (childVisits path index position cs).map Visit.position = List.range' position (nodeCounts cs)
  | [] => rfl
  | c :: cs => by
      rw [childVisits, List.map_append, map_position_visitsFrom (path ++ [index]) position c,
        map_position_childVisits path (index + 1) (position + c.nodeCount) cs, nodeCounts,
        ← List.range'_append_1]

end

theorem map_position_visits (f : Field) : f.visits.map Visit.position = List.range f.nodeCount := by
  rw [visits, map_position_visitsFrom, List.range_eq_range']

theorem pairwise_position_visits (f : Field) :
    f.visits.Pairwise fun v w => v.position < w.position := by
  have h : (f.visits.map Visit.position).Pairwise (· < ·) := by
    rw [map_position_visits]
    exact List.pairwise_lt_range
  exact List.pairwise_map.mp h

mutual

theorem pairwise_path_visitsFrom (path : List Nat) (position : Nat) :
    ∀ f : Field, (visitsFrom path position f).Pairwise fun v w => v.path < w.path
  | leaf tag content => by
      rw [visitsFrom]
      exact List.pairwise_singleton _ _
  | group tag grouping children => by
      rw [visitsFrom, List.pairwise_cons]
      refine ⟨fun w hw => ?_, pairwise_path_childVisits path 0 (position + 1) children⟩
      obtain ⟨i, c, q, -, hpath, -, -⟩ := (mem_childVisits path 0 (position + 1) w children).mp hw
      have h : path ++ [] < path ++ (0 + i) :: q := List.append_left_lt (List.nil_lt_cons _ _)
      rwa [List.append_nil, ← hpath] at h

theorem pairwise_path_childVisits (path : List Nat) (index position : Nat) :
    ∀ cs : List Field, (childVisits path index position cs).Pairwise fun v w => v.path < w.path
  | [] => by
      rw [childVisits]
      exact List.Pairwise.nil
  | c :: cs => by
      rw [childVisits, List.pairwise_append]
      refine ⟨pairwise_path_visitsFrom (path ++ [index]) position c,
        pairwise_path_childVisits path (index + 1) (position + c.nodeCount) cs, fun v hv w hw => ?_⟩
      obtain ⟨p, vpath, -, -⟩ := (mem_visitsFrom (path ++ [index]) position v c).mp hv
      obtain ⟨i, d, q, -, wpath, -, -⟩ :=
        (mem_childVisits path (index + 1) (position + c.nodeCount) w cs).mp hw
      rw [vpath, wpath, List.append_assoc, List.singleton_append]
      exact List.append_left_lt (List.cons_lt_cons_iff.mpr (.inl (by omega)))

end

/-- A walk goes through the paths in lexicographic order. -/
theorem pairwise_path_visits (f : Field) : f.visits.Pairwise fun v w => v.path < w.path :=
  pairwise_path_visitsFrom [] 0 f

end ArtifactLayout.Field
