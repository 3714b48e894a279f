import ArtifactLayout.Proofs.Field.Preorder

/-! # Traversals with a visitor

A visitor is called on every field of a tree and hands a state on from one call to the next. It may be
shown the fields alone, or be told the path and the number of each as well; then the path is kept as a
stack of child indices and the number in a counter. Either way the calls are made in the order of
`visits`.
-/

namespace ArtifactLayout.Field
set_option autoImplicit false

variable {σ : Type}

/-! ## Fields alone -/

mutual

/-- Calls a visitor on a field, then on all that lies below it. -/
def accept (visitor : Field → σ → σ) : Field → σ → σ
  | leaf tag content, s => visitor (leaf tag content) s
  | group tag grouping children, s =>
    acceptAll visitor children (visitor (group tag grouping children) s)

def acceptAll (visitor : Field → σ → σ) : List Field → σ → σ
  | [], s => s
  | c :: cs, s => acceptAll visitor cs (accept visitor c s)

end

mutual

theorem accept_eq_foldl (visitor : Field → σ → σ) (path : List Nat) (position : Nat) :
    ∀ (f : Field) (s : σ), accept visitor f s =
      (visitsFrom path position f).foldl (fun s v => visitor v.field s) s
  | leaf tag content, s => rfl
  | group tag grouping children, s => by
      rw [accept, visitsFrom, List.foldl_cons,
        acceptAll_eq_foldl visitor path 0 (position + 1) children]

theorem acceptAll_eq_foldl (visitor : Field → σ → σ) (path : List Nat) (index position : Nat) :
    ∀ (cs : List Field) (s : σ), acceptAll visitor cs s =
      (childVisits path index position cs).foldl (fun s v => visitor v.field s) s
  | [], s => rfl
  | c :: cs, s => by
      rw [acceptAll, childVisits, List.foldl_append,
        accept_eq_foldl visitor (path ++ [index]) position c,
        acceptAll_eq_foldl visitor path (index + 1) (position + c.nodeCount) cs]

end

/-! ## Fields with their paths and numbers -/

/-- Where a walk stands: the path of the field that comes next, its number, and the state of the
visitor. -/
structure Walk (σ : Type) where
  path : List Nat
  next : Nat
  state : σ

namespace Walk

def enter (w : Walk σ) (index : Nat) : Walk σ := { w with path := w.path ++ [index] }

def leave (w : Walk σ) : Walk σ := { w with path := w.path.dropLast }

def visit (w : Walk σ) (visitor : Field → List Nat → Nat → σ → σ) (f : Field) : Walk σ :=
  ⟨w.path, w.next + 1, visitor f w.path w.next w.state⟩

end Walk

mutual

/-- Calls a visitor on a field and all that lies below it, each with its path and its number. -/
def walkFrom (visitor : Field → List Nat → Nat → σ → σ) : Field → Walk σ → Walk σ
  | leaf tag content, w => w.visit visitor (leaf tag content)
  | group tag grouping children, w =>
    walkChildren visitor 0 children (w.visit visitor (group tag grouping children))

def walkChildren (visitor : Field → List Nat → Nat → σ → σ) (index : Nat) :
    List Field → Walk σ → Walk σ
  | [], w => w
  | c :: cs, w => walkChildren visitor (index + 1) cs (walkFrom visitor c (w.enter index)).leave

end

def walk (visitor : Field → List Nat → Nat → σ → σ) (root : Field) (s : σ) : σ :=
  (walkFrom visitor root ⟨[], 0, s⟩).state

/-- The state that a visitor is left with by some calls. -/
def shown (visitor : Field → List Nat → Nat → σ → σ) (s : σ) (vs : List Visit) : σ :=
  vs.foldl (fun s v => visitor v.field v.path v.position s) s

mutual

/-- A walk below a field leaves the stack as it was and has counted the fields. -/
theorem walkFrom_eq (visitor : Field → List Nat → Nat → σ → σ) :
    ∀ (f : Field) (w : Walk σ), walkFrom visitor f w =
      ⟨w.path, w.next + f.nodeCount, shown visitor w.state (visitsFrom w.path w.next f)⟩
  | leaf tag content, w => rfl
  | group tag grouping children, w => by
      rw [walkFrom, walkChildren_eq visitor 0 children, visitsFrom, nodeCount, ← Nat.add_assoc]
      rfl

theorem walkChildren_eq (visitor : Field → List Nat → Nat → σ → σ) (index : Nat) :
    ∀ (cs : List Field) (w : Walk σ), walkChildren visitor index cs w =
      ⟨w.path, w.next + nodeCounts cs, shown visitor w.state (childVisits w.path index w.next cs)⟩
  | [], w => rfl
  | c :: cs, w => by
      have hchild := walkFrom_eq visitor c (w.enter index)
      have hleave : (walkFrom visitor c (w.enter index)).leave = ⟨w.path, w.next + c.nodeCount,
          shown visitor w.state (visitsFrom (w.path ++ [index]) w.next c)⟩ := by
        rw [hchild, Walk.leave, Walk.enter, List.dropLast_concat]
      rw [walkChildren, hleave, walkChildren_eq visitor (index + 1) cs, childVisits, nodeCounts,
        ← Nat.add_assoc, shown, shown, shown, List.foldl_append]

end

theorem walk_eq_foldl (visitor : Field → List Nat → Nat → σ → σ) (root : Field) (s : σ) :
    walk visitor root s =
      root.visits.foldl (fun s v => visitor v.field v.path v.position s) s := by
  rw [walk, walkFrom_eq]
  rfl

/-! ## Each field once -/

/-- The calls with a given path: one for the field that is found there, none if there is no field. -/
theorem visits_at (root : Field) (path : List Nat) :
    (root.visits.filter fun v => v.path = path).map Visit.field = (root.at? path).toList := by
  cases hat : root.at? path with
  | none =>
    have hnone : (root.visits.filter fun v => v.path = path) = [] := by
      refine List.filter_eq_nil_iff.mpr fun v hv hpath => ?_
      obtain ⟨hv, -⟩ := mem_visits.mp hv
      rw [of_decide_eq_true hpath, hat] at hv
      cases hv
    rw [hnone]
    rfl
  | some f =>
    have hmem : (⟨path, root.ordinal path, f⟩ : Visit) ∈ root.visits := mem_visits.mpr ⟨hat, rfl⟩
    obtain ⟨before, after, hsplit⟩ := List.append_of_mem hmem
    have hordered := root.pairwise_path_visits
    rw [hsplit] at hordered ⊢
    obtain ⟨-, hafter, hbefore⟩ := List.pairwise_append.mp hordered
    -- paths grow along the walk, so no other call has this one
    have hnone : ∀ vs : List Visit, (∀ v ∈ vs, v.path ≠ path) →
        (vs.filter fun v => v.path = path) = [] := by
      intro vs hvs
      exact List.filter_eq_nil_iff.mpr fun v hv hpath => hvs v hv (of_decide_eq_true hpath)
    have hfirst := hnone before fun v hv hpath => by
      have hlt : v.path < path := hbefore v hv _ List.mem_cons_self
      exact List.lt_irrefl path (hpath ▸ hlt)
    have hlast := hnone after fun v hv hpath => by
      have hlt : path < v.path := List.rel_of_pairwise_cons hafter hv
      exact List.lt_irrefl path (hpath ▸ hlt)
    rw [List.filter_append, List.filter_cons_of_pos (by simp), hfirst, hlast]
    rfl

/-- What comes behind all of a field's tree, said by the number behind it. -/
theorem stop_le_iff {root : Field} {v w : Visit} (hv : v ∈ root.visits) (hw : w ∈ root.visits) :
    v.position + v.field.nodeCount ≤ w.position ↔
      ∀ u ∈ root.visits, v.path <+: u.path → u.position < w.position := by
  constructor
  · intro hle u hu hbelow
    have := position_lt_of_below hv hu hbelow
    omega
  · intro hall
    by_cases hbelow : v.path <+: w.path
    · exact absurd (hall w hw hbelow) (Nat.lt_irrefl _)
    · have hlt := hall v hv List.prefix_rfl
      by_cases habove : w.path <+: v.path
      · have := position_le_of_below hw hv habove
        omega
      · have := disjoint_positions hv hw hbelow habove
        have hpos := w.field.nodeCount_pos
        omega

end ArtifactLayout.Field
