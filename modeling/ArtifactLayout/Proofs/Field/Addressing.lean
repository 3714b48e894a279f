import ArtifactLayout.Proofs.Field.Update
import ArtifactLayout.Proofs.Guarded.Units

/-! # Addressing over a history

A run of children, those of a compound or the copies of a template, answers a lookup from the child that
it found last, if that one holds the unit, and from its table of starts otherwise. Whatever was pushed,
looked up, read and written before, both give the same answer, and it is the only right one: the
children split the units of the run without gap or overlap.
-/

namespace ArtifactLayout
set_option autoImplicit false

open ArtifactLayout.Field

namespace Field
variable {weight : Field → Nat} {cs ds : List Field}

/-! ## Places and children -/

theorem startOf_mono {k k' : Nat} (h : k ≤ k') : startOf weight cs k ≤ startOf weight cs k' := by
  obtain ⟨gap, rfl⟩ := Nat.exists_eq_add_of_le h
  rw [startOf, startOf, List.take_add, List.map_append, List.sum_append]
  exact Nat.le_add_right _ _

/-- A child that comes later starts past the whole of an earlier one. -/
theorem Holds.lt_startOf {i k k' inner : Nat} {c : Field} (h : Holds weight cs i k inner c)
    (hk : k < k') : i < startOf weight cs k' := by
  have hnext := startOf_succ weight h.child
  have hmono : startOf weight cs (k + 1) ≤ startOf weight cs k' := startOf_mono hk
  have hstart := h.start
  have hinner := h.inner_lt
  omega

/-- No place is held twice. -/
theorem Holds.unique {i k inner k' inner' : Nat} {c c' : Field} (h : Holds weight cs i k inner c)
    (h' : Holds weight cs i k' inner' c') : k = k' ∧ inner = inner' := by
  have hstart := h.start
  have hstart' := h'.start
  rcases Nat.lt_trichotomy k k' with hlt | rfl | hlt
  · have hpast := h.lt_startOf hlt
    omega
  · exact ⟨rfl, by omega⟩
  · have hpast := h'.lt_startOf hlt
    omega

/-- A table of starts depends on what the children take up only. -/
theorem startsFrom_congr (h : cs.map weight = ds.map weight) (start : Nat) :
    startsFrom weight start cs = startsFrom weight start ds := by
  induction cs generalizing ds start with
  | nil =>
    cases ds with
    | nil => rfl
    | cons d ds => cases h
  | cons c cs ih =>
    cases ds with
    | nil => cases h
    | cons d ds =>
      obtain ⟨hweight, hrest⟩ := List.cons.inj h
      rw [startsFrom, startsFrom, hweight, ih hrest]

theorem map_size_set {k : Nat} {f g : Field} (hf : cs[k]? = some f) (hg : g.size = f.size) :
    (cs.set k g).map size = cs.map size := by
  obtain ⟨hk, rfl⟩ := List.getElem?_eq_some_iff.mp hf
  rw [List.map_set, hg, ← List.getElem_map size (h := by simpa using hk), List.set_getElem_self]

theorem map_size_modify (k : Nat) {edit : Field → Field} (h : ∀ c, (edit c).size = c.size) :
    (cs.modify k edit).map size = cs.map size := by
  refine List.ext_getElem? fun j => ?_
  rw [List.getElem?_map, List.getElem?_map, List.getElem?_modify]
  cases cs[j]? with
  | none => rfl
  | some c =>
    simp only [Option.map_some, Option.map_eq_map]
    split
    · rw [h]
    · rfl

end Field

namespace Run
variable {r : Run} {cs : List Field}

/-! ## What a run is after each step -/

/-- Children of the same sizes have the same places. -/
theorem Over.withChildren (h : r.Over cs) {children : Array Field}
    (hsizes : children.toList.map size = cs.map size) :
    Over { r with children } children.toList where
  children := rfl
  starts := h.starts.trans (startsFrom_congr hsizes.symm 0)
  total := by rw [h.total, hsizes]
  last := h.last

theorem Over.get (h : r.Over cs) (i : Nat) : (r.get i).2.Over cs := by
  obtain ⟨-, hover, -⟩ := h.locate i
  rw [Run.get]
  rcases hrun : r.locate i with ⟨fault | ⟨child, inner⟩, after⟩
  · rw [hrun] at hover
    exact hover
  · rw [hrun] at hover
    dsimp only
    split <;> exact hover

theorem Over.set (h : r.Over cs) (i : Nat) (v : UInt8) :
    ∃ ds, (r.set i v).2.Over ds ∧ ds.map size = cs.map size := by
  obtain ⟨-, hover, -⟩ := h.locate i
  rw [Run.set]
  rcases hrun : r.locate i with ⟨fault | ⟨child, inner⟩, after⟩
  · rw [hrun] at hover
    exact ⟨cs, hover, rfl⟩
  · rw [hrun] at hover
    dsimp only at hover ⊢
    rw [setIn]
    cases hchild : after.children[child]? with
    | none => exact ⟨cs, hover, rfl⟩
    | some f =>
      rw [Option.map_some]
      cases hset : f.set inner v with
      | error fault => exact ⟨cs, hover, rfl⟩
      | ok g =>
        have hf : cs[child]? = some f := by rw [← hover.children, Array.getElem?_toList, hchild]
        have hsizes : (after.children.setIfInBounds child g).toList.map size = cs.map size := by
          rw [Array.toList_setIfInBounds, hover.children]
          exact map_size_set hf (sameShape_of_set hset).size_eq
        exact ⟨_, hover.withChildren hsizes, hsizes⟩

theorem Over.change (h : r.Over cs) (k : Nat) {edit : Field → Field}
    (keeps : ∀ c, (edit c).size = c.size) :
    ∃ ds, Over { r with children := r.children.modify k edit } ds ∧ ds.map size = cs.map size := by
  have hsizes : (r.children.modify k edit).toList.map size = cs.map size := by
    rw [Array.toList_modify, h.children]
    exact map_size_modify k keeps
  exact ⟨_, h.withChildren hsizes, hsizes⟩

/-! ## Histories -/

/-- What may be done to a run. -/
inductive Access where
  | push (child : Field)
  | locate (i : Nat)
  | search (i : Nat)
  | get (i : Nat)
  | set (i : Nat) (v : UInt8)
  /-- A change of one child past the run, which keeps the size of the child. -/
  | change (k : Nat) (edit : Field → Field) (keeps : ∀ c, (edit c).size = c.size)
  /-- A copy, with which the history goes on. It takes along what was found last. -/
  | copy

def access (r : Run) : Access → Run
  | .push child => r.push child
  | .locate i => (r.locate i).2
  | .search _ => r
  | .get i => (r.get i).2
  | .set i v => (r.set i v).2
  | .change k edit _ => { r with children := r.children.modify k edit }
  | .copy => r

/-- The children that an access adds. -/
def Access.pushed : Access → List Field
  | .push child => [child]
  | _ => []

theorem Over.access (h : r.Over cs) (a : Access) :
    ∃ ds, (r.access a).Over ds ∧ ds.map size = (cs ++ a.pushed).map size := by
  cases a with
  | push child => exact ⟨_, h.push child, rfl⟩
  | locate i =>
    obtain ⟨-, hover, -⟩ := h.locate i
    exact ⟨cs, hover, by simp [Access.pushed]⟩
  | search i => exact ⟨cs, h, by simp [Access.pushed]⟩
  | get i => exact ⟨cs, h.get i, by simp [Access.pushed]⟩
  | set i v =>
    obtain ⟨ds, hover, hsizes⟩ := h.set i v
    exact ⟨ds, hover, by simpa [Access.pushed] using hsizes⟩
  | change k edit keeps =>
    obtain ⟨ds, hover, hsizes⟩ := h.change k keeps
    exact ⟨ds, hover, by simpa [Access.pushed] using hsizes⟩
  | copy => exact ⟨cs, h, by simp [Access.pushed]⟩

/-- After any history a run is one over its first children and those that were pushed, up to what they
hold. -/
theorem Over.history (h : r.Over cs) (history : List Access) :
    ∃ ds, (history.foldl Run.access r).Over ds ∧
      ds.map size = (cs ++ history.flatMap Access.pushed).map size := by
  induction history generalizing r cs with
  | nil => exact ⟨cs, h, by simp⟩
  | cons a history ih =>
    obtain ⟨ds, hover, hsizes⟩ := h.access a
    obtain ⟨es, hover', hsizes'⟩ := ih hover
    refine ⟨es, hover', ?_⟩
    rw [hsizes', List.map_append, hsizes, List.flatMap_cons, ← List.append_assoc, ← List.map_append]

/-! ## Lookups -/

theorem Over.locate_of_holds (h : r.Over cs) {i k inner : Nat} {c : Field}
    (hholds : Holds size cs i k inner c) : (r.locate i).1 = .ok (k, inner) := by
  obtain ⟨-, -, hfound, -⟩ := h.locate i
  obtain ⟨k', inner', c', hholds', hlocate⟩ := hfound hholds.lt_sum
  obtain ⟨rfl, rfl⟩ := hholds.unique hholds'
  exact hlocate

theorem Over.search_of_holds (h : r.Over cs) {i k inner : Nat} {c : Field}
    (hholds : Holds size cs i k inner c) : r.search i = .ok (k, inner) := by
  obtain ⟨k', inner', c', hholds', hsearch, -⟩ := h.search hholds.lt_sum
  obtain ⟨rfl, rfl⟩ := hholds.unique hholds'
  exact hsearch

theorem Over.holds_of_locate (h : r.Over cs) {i k inner : Nat}
    (hlocate : (r.locate i).1 = .ok (k, inner)) : ∃ c, Holds size cs i k inner c := by
  obtain ⟨-, -, hfound, hmissed⟩ := h.locate i
  by_cases hi : i < (cs.map size).sum
  · obtain ⟨k', inner', c, hholds, hlocate'⟩ := hfound hi
    rw [hlocate] at hlocate'
    obtain ⟨rfl, rfl⟩ := Prod.mk.inj (Except.ok.inj hlocate')
    exact ⟨c, hholds⟩
  · rw [hmissed (Nat.le_of_not_lt hi)] at hlocate
    cases hlocate

/-- Whatever was done to a run before, a lookup finds what a search of the table of starts finds. For a
unit of the run that is the one child that holds the unit, and the place of the unit in it; every place
in every child is found for one unit; and an index that is too large is named with the total. -/
theorem locate_exact (children : List Field) (history : List Access) :
    let r := history.foldl access (ofList children)
    let cs := r.children.toList
    cs.map size = (children ++ history.flatMap Access.pushed).map size ∧
    r.total = (cs.map size).sum ∧
    (∀ i, (r.locate i).1 = r.search i) ∧
    (∀ i < r.total, ∃ k inner, (r.locate i).1 = .ok (k, inner) ∧ (∃ c, Holds size cs i k inner c) ∧
      ∀ k' inner' c', Holds size cs i k' inner' c' → k' = k ∧ inner' = inner) ∧
    (∀ i, r.total ≤ i → (r.locate i).1 = .error (.indexOutOfRange i r.total)) ∧
    ∀ k inner c, cs[k]? = some c → inner < c.size → ∃! i, (r.locate i).1 = .ok (k, inner) := by
  dsimp only
  obtain ⟨cs, hover, hsizes⟩ := (over_ofList children).history history
  generalize history.foldl access (ofList children) = r at hover
  rw [hover.children, hover.total]
  refine ⟨hsizes, rfl, fun i => ?_, fun i hi => ?_, fun i hi => ?_, fun k inner c hc hinner => ?_⟩
  · obtain ⟨-, -, hfound, hmissed⟩ := hover.locate i
    by_cases hi : i < (cs.map size).sum
    · obtain ⟨k, inner, c, hholds, hlocate⟩ := hfound hi
      rw [hlocate, hover.search_of_holds hholds]
    · rw [hmissed (Nat.le_of_not_lt hi), Run.search, hover.total, if_neg hi]
  · obtain ⟨-, -, hfound, -⟩ := hover.locate i
    obtain ⟨k, inner, c, hholds, hlocate⟩ := hfound hi
    refine ⟨k, inner, hlocate, ⟨c, hholds⟩, fun k' inner' c' hholds' => ?_⟩
    exact hholds'.unique hholds
  · obtain ⟨-, -, -, hmissed⟩ := hover.locate i
    exact hmissed hi
  · refine ⟨startOf size cs k + inner, hover.locate_of_holds ⟨hc, rfl, hinner⟩, fun i hi => ?_⟩
    obtain ⟨c', hholds⟩ := hover.holds_of_locate hi
    exact hholds.start

/-- Children of size zero are passed over at the front, in the middle and at the end. -/
example :
    let gap := Field.leaf .none (.block #[])
    let unit := Field.leaf .none (.block #[0])
    let r := ofList [gap, gap, unit, gap, unit, gap]
    (r.locate 0).1 = .ok (2, 0) ∧ (r.locate 1).1 = .ok (4, 0) ∧
      (r.locate 2).1 = .error (.indexOutOfRange 2 2) := by
  decide

end Run
end ArtifactLayout
