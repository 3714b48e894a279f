import ArtifactLayout.Proofs.Field.Traversal
import ArtifactLayout.Proofs.Scope.Bindings

/-! # Binding in one pass

The names of a tree can be bound while its fields are numbered. When a named field is entered, its
binding is put behind those of its name, with an end still to come; when the pass leaves the field, the
binding is found again by the name and its place among the bindings of the name, and gets its end. By
then fields below have been bound, some of them perhaps under the same name, but these stand further
back. So a pass leaves the bindings of `Bindings.ofTree`.
-/

namespace ArtifactLayout
set_option autoImplicit false

namespace Bindings

/-- Gives the binding at one place among those of a name another end; nothing changes without one. -/
def closeIn : List (FieldId × Array Binding) → FieldId → Nat → Nat → List (FieldId × Array Binding)
  | [], _, _, _ => []
  | (known, bs) :: rest, id, index, stop =>
    if known = id then (known, bs.modify index fun b => { b with stop := stop }) :: rest
    else (known, bs) :: closeIn rest id index stop

def close (bindings : Bindings) (id : FieldId) (index stop : Nat) : Bindings :=
  ⟨closeIn bindings.groups id index stop⟩

end Bindings

/-- Where a pass stands: the bindings so far, the path of the field that comes next and its number. -/
structure Survey where
  bindings : Bindings
  path : List Nat
  next : Nat

namespace Survey

/-- The name of a field and the place that its binding gets among those of the name. -/
def slot? (s : Survey) (f : Field) : Option (FieldId × Nat) :=
  f.id.map fun id => (id, (s.bindings.of id).size)

/-- Numbers a field and binds its name, the end left open. -/
def arrive (s : Survey) (f : Field) : Survey where
  bindings := f.id.elim s.bindings fun id => s.bindings.add id ⟨s.path, s.next, s.next⟩
  path := s.path
  next := s.next + 1

/-- Ends a binding in front of the next field. -/
def depart (s : Survey) (slot : Option (FieldId × Nat)) : Survey :=
  { s with bindings := slot.elim s.bindings fun (id, index) => s.bindings.close id index s.next }

def enter (s : Survey) (index : Nat) : Survey := { s with path := s.path ++ [index] }

def leave (s : Survey) : Survey := { s with path := s.path.dropLast }

end Survey

namespace Field

mutual

/-- Numbers and binds a field and all that lies below it. -/
def survey : Field → Survey → Survey
  | leaf tag content, s => (s.arrive (leaf tag content)).depart (s.slot? (leaf tag content))
  | group tag grouping children, s =>
    (surveyAll 0 children (s.arrive (group tag grouping children))).depart
      (s.slot? (group tag grouping children))

def surveyAll (index : Nat) : List Field → Survey → Survey
  | [], s => s
  | c :: cs, s => surveyAll (index + 1) cs (survey c (s.enter index)).leave

end

end Field

/-- Binds the names of a tree anew, whatever was bound before. -/
def Scope.identify (scope : Scope) (root : Field) : Scope :=
  { scope with bindings := (root.survey ⟨.empty, [], 0⟩).bindings }

/-! ## A binding that is ended late -/

namespace Bindings

/-- Other bindings may come in between, since they are put behind. -/
theorem closeIn_addTo (groups : List (FieldId × Array Binding)) {id : FieldId} {index : Nat}
    (hindex : index < ((groups.lookup id).getD #[]).size) (stop : Nat) (id' : FieldId) (b : Binding) :
    closeIn (addTo groups id' b) id index stop = addTo (closeIn groups id index stop) id' b := by
  induction groups with
  | nil => exact absurd hindex (Nat.not_lt_zero _)
  | cons group groups ih =>
    obtain ⟨known, bs⟩ := group
    by_cases hid : known = id
    · subst hid
      have hpush : (bs.push b).modify index (fun b => { b with stop := stop }) =
          (bs.modify index fun b => { b with stop := stop }).push b := by
        have hlt : index < bs.size := by simpa using hindex
        apply Array.ext_getElem?
        intro i
        grind
      by_cases hid' : known = id'
      · simp [addTo, closeIn, hid', hpush]
      · simp [addTo, closeIn, hid']
    · have hrest : index < ((groups.lookup id).getD #[]).size := by
        rwa [List.lookup_cons, beq_false_of_ne (Ne.symm hid)] at hindex
      by_cases hid' : known = id'
      · subst hid'
        simp [addTo, closeIn, hid]
      · simp [addTo, closeIn, hid, hid', ih hrest]

theorem close_foldl_add (entries : List (FieldId × Binding)) (bindings : Bindings) {id : FieldId}
    {index : Nat} (hindex : index < (bindings.of id).size) (stop : Nat) :
    (entries.foldl (fun bs entry => bs.add entry.1 entry.2) bindings).close id index stop =
      entries.foldl (fun bs entry => bs.add entry.1 entry.2) (bindings.close id index stop) := by
  induction entries generalizing bindings with
  | nil => rfl
  | cons entry entries ih =>
    have hgrown : index < ((bindings.add entry.1 entry.2).of id).size := by
      rw [of_add]
      split
      · rw [Array.size_push]
        omega
      · exact hindex
    have hadd : (bindings.add entry.1 entry.2).close id index stop =
        (bindings.close id index stop).add entry.1 entry.2 :=
      congrArg Bindings.mk (closeIn_addTo bindings.groups hindex stop entry.1 entry.2)
    rw [List.foldl_cons, List.foldl_cons, ih _ hgrown, hadd]

theorem closeIn_addTo_self (groups : List (FieldId × Array Binding)) (id : FieldId) (b : Binding)
    (stop : Nat) :
    closeIn (addTo groups id b) id ((groups.lookup id).getD #[]).size stop =
      addTo groups id { b with stop := stop } := by
  induction groups with
  | nil => simp [addTo, closeIn]
  | cons group groups ih =>
    obtain ⟨known, bs⟩ := group
    by_cases hid : known = id
    · subst hid
      have hlast : (bs.push b).modify bs.size (fun b => { b with stop := stop }) =
          bs.push { b with stop := stop } := by
        apply Array.ext_getElem?
        intro i
        grind
      simp [addTo, closeIn, hlast]
    · have hrest : ((known, bs) :: groups).lookup id = groups.lookup id := by
        rw [List.lookup_cons, beq_false_of_ne (Ne.symm hid)]
      rw [hrest]
      simp [addTo, closeIn, hid, ih]

/-- The end that the last binding of a name gets could have been given at once. -/
theorem close_add (bindings : Bindings) (id : FieldId) (b : Binding) (stop : Nat) :
    (bindings.add id b).close id (bindings.of id).size stop =
      bindings.add id { b with stop := stop } :=
  congrArg Bindings.mk (closeIn_addTo_self bindings.groups id b stop)

/-! ## Counting -/

theorem foldl_size_addTo (groups : List (FieldId × Array Binding)) (id : FieldId) (b : Binding) (n : Nat) :
    (addTo groups id b).foldl (fun n group => n + group.2.size) n =
      groups.foldl (fun n group => n + group.2.size) (n + 1) := by
  induction groups generalizing n with
  | nil => simp [addTo]
  | cons group groups ih =>
    obtain ⟨known, bs⟩ := group
    rw [addTo]
    split
    · rw [List.foldl_cons, List.foldl_cons, Array.size_push, Nat.add_right_comm n 1, Nat.add_assoc]
    · rw [List.foldl_cons, List.foldl_cons, ih, Nat.add_right_comm]

theorem count_add (bindings : Bindings) (id : FieldId) (b : Binding) :
    (bindings.add id b).count = bindings.count + 1 := by
  rw [count, add, foldl_size_addTo, count]
  exact List.foldl_hom (· + 1) fun n group => Nat.add_right_comm n 1 group.2.size

theorem count_foldl_add (entries : List (FieldId × Binding)) (bindings : Bindings) :
    (entries.foldl (fun bs entry => bs.add entry.1 entry.2) bindings).count =
      bindings.count + entries.length := by
  induction entries generalizing bindings with
  | nil => rfl
  | cons entry entries ih =>
    rw [List.foldl_cons, ih, count_add, List.length_cons]
    omega

end Bindings

namespace Field

/-- Every named field has one binding. -/
theorem count_ofTree (root : Field) :
    (Bindings.ofTree root).count = root.visits.countP fun v => v.field.id.isSome := by
  have hempty : Bindings.empty.count = 0 := rfl
  rw [Bindings.ofTree, Bindings.count_foldl_add, hempty, Nat.zero_add, List.length_filterMap_eq_countP]
  congr 1
  funext v
  simp [Visit.binding?]

/-! ## What a pass leaves -/

/-- Some bindings with those of the named fields among some visits behind them. -/
def bound (bindings : Bindings) (vs : List Visit) : Bindings :=
  (vs.filterMap Visit.binding?).foldl (fun bs entry => bs.add entry.1 entry.2) bindings

/-- A field that is left after the fields below it is bound as if its end had been known. -/
theorem depart_eq (s : Survey) (f : Field) (vs : List Visit) :
    (Survey.mk (bound (s.arrive f).bindings vs) s.path (s.next + f.nodeCount)).depart (s.slot? f) =
      ⟨bound s.bindings (⟨s.path, s.next, f⟩ :: vs), s.path, s.next + f.nodeCount⟩ := by
  cases hid : f.id with
  | none => simp [Survey.depart, Survey.slot?, Survey.arrive, bound, Visit.binding?, hid]
  | some id =>
    have hplace : (s.bindings.of id).size <
        ((s.bindings.add id ⟨s.path, s.next, s.next⟩).of id).size := by
      rw [Bindings.of_add, if_pos rfl, Array.size_push]
      exact Nat.lt_succ_self _
    simp [Survey.depart, Survey.slot?, Survey.arrive, bound, Visit.binding?, hid,
      Bindings.close_foldl_add _ _ hplace, Bindings.close_add]

mutual

theorem survey_eq : ∀ (f : Field) (s : Survey),
    survey f s = ⟨bound s.bindings (visitsFrom s.path s.next f), s.path, s.next + f.nodeCount⟩
  | leaf tag content, s => depart_eq s (leaf tag content) []
  | group tag grouping children, s => by
      have hbelow := surveyAll_eq 0 children (s.arrive (group tag grouping children))
      have hnext : (s.arrive (group tag grouping children)).next + nodeCounts children =
          s.next + (group tag grouping children).nodeCount := by
        rw [Survey.arrive, nodeCount, Nat.add_assoc]
      rw [survey, hbelow, hnext, visitsFrom]
      exact depart_eq s (group tag grouping children) (childVisits s.path 0 (s.next + 1) children)

theorem surveyAll_eq (index : Nat) : ∀ (cs : List Field) (s : Survey),
    surveyAll index cs s =
      ⟨bound s.bindings (childVisits s.path index s.next cs), s.path, s.next + nodeCounts cs⟩
  | [], s => rfl
  | c :: cs, s => by
      have hchild : (survey c (s.enter index)).leave =
          ⟨bound s.bindings (visitsFrom (s.path ++ [index]) s.next c), s.path, s.next + c.nodeCount⟩ := by
        rw [survey_eq c, Survey.leave, Survey.enter, List.dropLast_concat]
      rw [surveyAll, hchild, surveyAll_eq (index + 1) cs, childVisits, nodeCounts, ← Nat.add_assoc,
        bound, bound, bound, List.filterMap_append, List.foldl_append]

end

/-- Binding anew in one pass leaves the bindings of the tree, and nothing of those before. -/
theorem identify_eq (scope : Scope) (root : Field) :
    scope.identify root = { scope with bindings := .ofTree root } := by
  rw [Scope.identify, survey_eq]
  rfl

/-! ## One numbering -/

/-- The traversals of a tree and its bindings, whatever was bound before, go by one numbering of its
fields. -/
structure OneNumbering (root : Field) : Prop where
  /-- Fields come with the numbers from zero on, in the order of their paths. -/
  numbered : root.visits.map Visit.position = List.range root.nodeCount
  ordered : root.visits.Pairwise fun v w => v.path < w.path
  /-- At every path the field that is found there is met once, and no other. -/
  met : ∀ path, (root.visits.filter fun v => v.path = path).map Visit.field = (root.at? path).toList
  /-- Visitors are called on the fields in this order, with or without paths and numbers. -/
  walked : ∀ {σ : Type} (visitor : Field → List Nat → Nat → σ → σ) (s : σ),
    walk visitor root s = root.visits.foldl (fun s v => visitor v.field v.path v.position s) s
  accepted : ∀ {σ : Type} (visitor : Field → σ → σ) (s : σ),
    accept visitor root s = root.visits.foldl (fun s v => visitor v.field s) s
  /-- Binding in one pass leaves the bindings that fields are filled by. -/
  identified : ∀ scope : Scope, scope.identify root = { scope with bindings := .ofTree root }
  /-- The bindings of a name are the places of the fields that carry it. -/
  bound : ∀ (scope : Scope) (id : FieldId), ((scope.identify root).bindings.of id).toList =
    (root.visits.filter fun v => v.field.id = some id).map fun v =>
      ⟨v.path, v.position, v.position + v.field.nodeCount⟩
  sorted : ∀ (scope : Scope) (id : FieldId),
    ((scope.identify root).bindings.of id).toList.Pairwise fun b c => b.path < c.path
  counted : ∀ scope : Scope, (scope.identify root).bindings.count =
    root.visits.countP fun v => v.field.id.isSome
  /-- A place ends in front of a field when all of the tree there has come before the field. -/
  complete : ∀ v ∈ root.visits, ∀ w ∈ root.visits,
    v.position + v.field.nodeCount ≤ w.position ↔
      ∀ u ∈ root.visits, v.path <+: u.path → u.position < w.position
  /-- No place ends in front of the field itself or of one below it. -/
  incomplete : ∀ v ∈ root.visits, ∀ w ∈ root.visits, v.path <+: w.path →
    ¬ v.position + v.field.nodeCount ≤ w.position

theorem one_numbering (root : Field) : root.OneNumbering where
  numbered := root.map_position_visits
  ordered := root.pairwise_path_visits
  met := root.visits_at
  walked visitor s := walk_eq_foldl visitor root s
  accepted visitor s := accept_eq_foldl visitor [] 0 root s
  identified scope := identify_eq scope root
  bound scope id := by
    rw [identify_eq]
    exact root.toList_of_ofTree id
  sorted scope id := by
    rw [identify_eq]
    exact root.ordered_ofTree id
  counted scope := by
    rw [identify_eq]
    exact root.count_ofTree
  complete v hv w hw := stop_le_iff hv hw
  incomplete v hv w hw hbelow := Nat.not_le.mpr (position_lt_of_below hv hw hbelow)

/-- A named field below one of the same name: each has a binding with its own end. -/
example :
    ((Scope.mk .empty .empty).identify
      (group ⟨some 0, none⟩ .compound [leaf .none (.block #[]),
        group ⟨some 0, none⟩ .compound [leaf .none (.block #[])], leaf .none (.block #[])])).bindings.of 0 =
      #[⟨[], 0, 5⟩, ⟨[1], 2, 4⟩] := by decide +kernel

end Field
end ArtifactLayout
