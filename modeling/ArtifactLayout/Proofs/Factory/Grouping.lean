import ArtifactLayout.Proofs.Factory.Consistent
import ArtifactLayout.Proofs.Factory.Segments

/-! # Grouping of bitfields

Neighbouring bitfields among the children of a container, of a template or of a script are put into bit
groups. Nothing is lost and nothing moves: with its members in the place of every new group, the children
are those that were given; the new groups are the longest runs of bitfields; everything else stands alone,
where it stood.

The same comes out of going through the children once, with a run of bitfields that is still open, and
asking the arena as it has grown by then.
-/

namespace ArtifactLayout
set_option autoImplicit false

namespace Arena

/-- What stands for a declaration: the members of a bit group that is not among the first declarations,
otherwise the declaration itself. -/
def members (arena : Arena) (first id : DeclId) : List DeclId :=
  if id < first then [id]
  else match arena.decls[id]? with
    | some (.bits children _) => children
    | _ => [id]

end Arena

namespace Factory
open Attempt

variable {f g : Factory} {children stored : List DeclId}

/-- One factory and a list of children have been made of another by grouping. -/
structure Grouped (f : Factory) (children stored : List DeclId) (g : Factory) : Prop where
  /-- Groups are added that have members and no name, and nothing else changes. -/
  added : ∃ runs : List (List DeclId), [] ∉ runs ∧
    g = { f with arena.decls := (f.arena.decls.toList ++ runs.map fun run => Decl.bits run none).toArray }
  /-- Each new group stands among the children once, in the order in which they were made. -/
  fresh : stored.filter (fun id => f.arena.decls.size ≤ id) =
    List.range' f.arena.decls.size (g.arena.decls.size - f.arena.decls.size)
  restored : stored.flatMap (g.arena.members f.arena.decls.size) = children
  /-- In the place of a new group there was a longest run of bitfields. -/
  group : ∀ left id right, stored = left ++ id :: right → f.arena.decls.size ≤ id →
    LongestRun f.arena.isBitfield children (left.flatMap (g.arena.members f.arena.decls.size))
      (g.arena.members f.arena.decls.size id) (right.flatMap (g.arena.members f.arena.decls.size))
  /-- In the place of every longest run of bitfields there is a new group. -/
  run : ∀ before run after, LongestRun f.arena.isBitfield children before run after →
    ∃ left id right, stored = left ++ id :: right ∧ f.arena.decls.size ≤ id ∧
      g.arena.members f.arena.decls.size id = run ∧
      left.flatMap (g.arena.members f.arena.decls.size) = before ∧
      right.flatMap (g.arena.members f.arena.decls.size) = after
  /-- Everything else, bit groups that were there included, keeps its number and its place. -/
  other : ∀ before c after, children = before ++ c :: after → f.arena.isBitfield c = false →
    ∃ left right, stored = left ++ c :: right ∧
      left.flatMap (g.arena.members f.arena.decls.size) = before ∧
      right.flatMap (g.arena.members f.arena.decls.size) = after
  /-- No bit group is a member of a new group. -/
  apart : ∀ id ∈ stored, f.arena.decls.size ≤ id → ∀ c ∈ g.arena.members f.arena.decls.size id,
    ∃ filler width name, f.arena.decls[c]? = some (.bitfield filler width name)
  no_bitfield : ∀ id ∈ stored, g.arena.isBitfield id = false

/-! ## Segments in place -/

/-- The runs among some segments, in turn. -/
def runsOf {α : Type} : List (Segment α) → List (List α)
  | [] => []
  | .single _ :: rest => runsOf rest
  | .run xs :: rest => xs :: runsOf rest

/-- The numbers of some segments if the groups for the runs are numbered from `next` on. -/
def placed (next : DeclId) : List (Segment DeclId) → List DeclId
  | [] => []
  | .single c :: rest => c :: placed next rest
  | .run _ :: rest => next :: placed (next + 1) rest

def withGroups (f : Factory) (runs : List (List DeclId)) : Factory :=
  { f with arena.decls := (f.arena.decls.toList ++ runs.map fun run => Decl.bits run none).toArray }

def place : Segment DeclId → Attempt Factory DeclId
  | .single child => pure child
  | .run loose => bits loose none

theorem bits_apply (children : List DeclId) (f : Factory) :
    bits children none f =
      (.ok f.arena.decls.size, { f with arena.decls := f.arena.decls.push (.bits children none) }) := rfl

@[simp] theorem withGroups_nil (f : Factory) : f.withGroups [] = f := by
  simp [withGroups]

theorem withGroups_push (f : Factory) (run : List DeclId) (runs : List (List DeclId)) :
    ({ f with arena.decls := f.arena.decls.push (.bits run none) } : Factory).withGroups runs =
      f.withGroups (run :: runs) := by
  simp [withGroups]

@[simp] theorem size_withGroups (f : Factory) (runs : List (List DeclId)) :
    (f.withGroups runs).arena.decls.size = f.arena.decls.size + runs.length := by
  simp [withGroups]

theorem mapM_place (segments : List (Segment DeclId)) (f : Factory) :
    segments.mapM place f =
      (.ok (placed f.arena.decls.size segments), f.withGroups (runsOf segments)) := by
  induction segments generalizing f with
  | nil => rw [runsOf, withGroups_nil]; rfl
  | cons segment rest ih =>
    rw [List.mapM_cons]
    cases segment with
    | single c =>
      rw [place, bind_of_ok (pure_apply c f), bind_of_ok (ih f)]
      rfl
    | run loose =>
      rw [place, bind_of_ok (bits_apply loose f), bind_of_ok (ih _), withGroups_push, Array.size_push]
      rfl

theorem within_withGroups (f : Factory) (runs : List (List DeclId)) : Within f (f.withGroups runs) := by
  refine ⟨fun id decl hdecl => ?_, fun _ _ h => h, fun _ h => h, Nat.le_refl _⟩
  have hlt := (Array.getElem?_eq_some_iff.mp hdecl).1
  rw [withGroups, List.getElem?_toArray, List.getElem?_append_left (by simpa using hlt),
    Array.getElem?_toList, hdecl]

theorem isBitfield_of_isByte {arena : Arena} {id : DeclId} (h : arena.IsByte id) :
    arena.isBitfield id = false := by
  obtain ⟨decl, hdecl, hbyte⟩ := h
  rw [Arena.isBitfield, hdecl]
  exact hbyte

theorem isBitfield_of_within (w : Within f g) {id : DeclId} (hid : id < f.arena.decls.size) :
    g.arena.isBitfield id = f.arena.isBitfield id := by
  have hdecl := Array.getElem?_eq_getElem hid
  rw [Arena.isBitfield, Arena.isBitfield, w.decl _ _ hdecl, hdecl]

/-! ## Segments back from their numbers -/

/-- The segment that a declaration was placed for. -/
def segmentOf (arena : Arena) (first id : DeclId) : Segment DeclId :=
  if id < first then .single id
  else match arena.decls[id]? with
    | some (.bits children _) => .run children
    | _ => .single id

theorem items_segmentOf (arena : Arena) (first id : DeclId) :
    (segmentOf arena first id).items = arena.members first id := by
  rw [segmentOf, Arena.members]
  split
  · rfl
  · split <;> rfl

theorem eq_of_segmentOf_single {arena : Arena} {first id c : DeclId}
    (h : segmentOf arena first id = .single c) : id = c := by
  rw [segmentOf] at h
  split at h
  · exact Segment.single.inj h
  · split at h
    · cases h
    · exact Segment.single.inj h

/-- Only a bit group that came later was placed for a run. -/
theorem of_segmentOf_run {arena : Arena} {first id : DeclId} {xs : List DeclId}
    (h : segmentOf arena first id = .run xs) :
    first ≤ id ∧ ∃ name, arena.decls[id]? = some (.bits xs name) := by
  rw [segmentOf] at h
  split at h
  · cases h
  · rename_i hle
    refine ⟨Nat.le_of_not_lt hle, ?_⟩
    split at h
    · rename_i children name hdecl
      obtain rfl := Segment.run.inj h
      exact ⟨name, hdecl⟩
    · cases h

theorem map_segmentOf_placed {arena : Arena} {first next : DeclId} (hnext : first ≤ next)
    {segments : List (Segment DeclId)} (hsingle : ∀ c, .single c ∈ segments → c < first)
    (hgroups : ∀ i run, (runsOf segments)[i]? = some run →
      arena.decls[next + i]? = some (.bits run none)) :
    (placed next segments).map (segmentOf arena first) = segments := by
  induction segments generalizing next with
  | nil => rfl
  | cons segment rest ih =>
    have hrest : ∀ c, .single c ∈ rest → c < first := fun c hc => hsingle c (List.mem_cons_of_mem _ hc)
    cases segment with
    | single c =>
      have hc : segmentOf arena first c = .single c := by
        rw [segmentOf, if_pos (hsingle c List.mem_cons_self)]
      rw [placed, List.map_cons, hc, ih hnext hrest hgroups]
    | run xs =>
      have hfirst : segmentOf arena first next = .run xs := by
        have hdecl : arena.decls[next]? = some (.bits xs none) := hgroups 0 xs rfl
        rw [segmentOf, if_neg (Nat.not_lt.mpr hnext), hdecl]
      have hlater : ∀ i run, (runsOf rest)[i]? = some run →
          arena.decls[next + 1 + i]? = some (.bits run none) := by
        intro i run hrun
        rw [Nat.succ_add_eq_add_succ]
        exact hgroups (i + 1) run hrun
      rw [placed, List.map_cons, hfirst, ih (Nat.le_succ_of_le hnext) hrest hlater]

theorem filter_placed {first next : DeclId} (hnext : first ≤ next) {segments : List (Segment DeclId)}
    (hsingle : ∀ c, .single c ∈ segments → c < first) :
    (placed next segments).filter (fun id => first ≤ id) =
      List.range' next (runsOf segments).length := by
  induction segments generalizing next with
  | nil => rfl
  | cons segment rest ih =>
    have hrest : ∀ c, .single c ∈ rest → c < first := fun c hc => hsingle c (List.mem_cons_of_mem _ hc)
    cases segment with
    | single c =>
      have hc : ¬ first ≤ c := Nat.not_le.mpr (hsingle c List.mem_cons_self)
      rw [placed, List.filter_cons_of_neg (by simpa using hc), ih hnext hrest, runsOf]
    | run xs =>
      rw [placed, List.filter_cons_of_pos (by simpa using hnext), ih (Nat.le_succ_of_le hnext) hrest,
        runsOf, List.length_cons, List.range'_succ]

theorem mem_of_mem_runsOf {segments : List (Segment DeclId)} {run : List DeclId}
    (h : run ∈ runsOf segments) : Segment.run run ∈ segments := by
  induction segments with
  | nil => cases h
  | cons segment rest ih =>
    cases segment with
    | single c => exact List.mem_cons_of_mem _ (ih h)
    | run xs =>
      rcases List.mem_cons.mp h with rfl | h
      · exact List.mem_cons_self
      · exact List.mem_cons_of_mem _ (ih h)

/-! ## What grouping gives -/

/-- The children as they are stored. -/
def grouped (f : Factory) (children : List DeclId) : List DeclId :=
  placed f.arena.decls.size (Segment.ofList f.arena.isBitfield children)

/-- The factory with the new groups. -/
def afterGrouping (f : Factory) (children : List DeclId) : Factory :=
  f.withGroups (runsOf (Segment.ofList f.arena.isBitfield children))

theorem groupLoose_eq (children : List DeclId) (f : Factory) :
    groupLoose children f = (.ok (f.grouped children), f.afterGrouping children) :=
  mapM_place _ f

section Given
variable (hchildren : ∀ c ∈ children, c < f.arena.decls.size)
include hchildren

/-- What the grouped children were placed for are the segments of the children. -/
theorem map_segmentOf_grouped :
    (f.grouped children).map (segmentOf (f.afterGrouping children).arena f.arena.decls.size) =
      Segment.ofList f.arena.isBitfield children := by
  refine map_segmentOf_placed (Nat.le_refl _) (fun c hc => ?_) fun i run hrun => ?_
  · exact hchildren c (Segment.single_mem_ofList hc).1
  · rw [afterGrouping, withGroups, List.getElem?_toArray, List.getElem?_append_right (by simp)]
    simp [hrun]

theorem segmentOf_mem {id : DeclId} (hid : id ∈ f.grouped children) :
    segmentOf (f.afterGrouping children).arena f.arena.decls.size id ∈
      Segment.ofList f.arena.isBitfield children := by
  rw [← map_segmentOf_grouped hchildren]
  exact List.mem_map_of_mem hid

/-- A new group was placed for a run. -/
theorem segmentOf_of_le {id : DeclId} (hid : id ∈ f.grouped children) (hle : f.arena.decls.size ≤ id) :
    segmentOf (f.afterGrouping children).arena f.arena.decls.size id =
      .run ((f.afterGrouping children).arena.members f.arena.decls.size id) := by
  rw [← items_segmentOf]
  cases h : segmentOf (f.afterGrouping children).arena f.arena.decls.size id with
  | run xs => rfl
  | single c =>
    have hmem := segmentOf_mem hchildren hid
    rw [h] at hmem
    obtain rfl := eq_of_segmentOf_single h
    exact absurd (hchildren id (Segment.single_mem_ofList hmem).1) (Nat.not_lt.mpr hle)

/-- The places of some segments of the children. -/
theorem grouped_split {before after : List (Segment DeclId)} {segment : Segment DeclId}
    (h : Segment.ofList f.arena.isBitfield children = before ++ segment :: after) :
    ∃ left id right, f.grouped children = left ++ id :: right ∧
      segmentOf (f.afterGrouping children).arena f.arena.decls.size id = segment ∧
      left.flatMap ((f.afterGrouping children).arena.members f.arena.decls.size) =
        before.flatMap Segment.items ∧
      right.flatMap ((f.afterGrouping children).arena.members f.arena.decls.size) =
        after.flatMap Segment.items := by
  have hitems : Segment.items ∘ segmentOf (f.afterGrouping children).arena f.arena.decls.size =
      (f.afterGrouping children).arena.members f.arena.decls.size :=
    funext (items_segmentOf _ _)
  rw [← map_segmentOf_grouped hchildren] at h
  obtain ⟨left, rest, hsplit, rfl, hrest⟩ := List.map_eq_append_iff.mp h
  obtain ⟨id, right, rfl, hsegment, rfl⟩ := List.map_eq_cons_iff.mp hrest
  refine ⟨left, id, right, hsplit, hsegment, ?_, ?_⟩
  · rw [List.flatMap_map, ← hitems]
    rfl
  · rw [List.flatMap_map, ← hitems]
    rfl

theorem grouped_restored :
    (f.grouped children).flatMap ((f.afterGrouping children).arena.members f.arena.decls.size) =
      children := by
  rw [← funext (items_segmentOf _ _), ← List.flatMap_map, map_segmentOf_grouped hchildren,
    Segment.flatMap_items_ofList]

theorem grouped_group {left right : List DeclId} {id : DeclId}
    (h : f.grouped children = left ++ id :: right) (hle : f.arena.decls.size ≤ id) :
    LongestRun f.arena.isBitfield children
      (left.flatMap ((f.afterGrouping children).arena.members f.arena.decls.size))
      ((f.afterGrouping children).arena.members f.arena.decls.size id)
      (right.flatMap ((f.afterGrouping children).arena.members f.arena.decls.size)) := by
  have hmem : id ∈ f.grouped children := h ▸ List.mem_append_right _ List.mem_cons_self
  have hsegments := map_segmentOf_grouped hchildren
  rw [h, List.map_append, List.map_cons, segmentOf_of_le hchildren hmem hle] at hsegments
  have hrun := Segment.longestRun_of_ofList hsegments.symm
  rwa [List.flatMap_map, List.flatMap_map, funext (items_segmentOf _ _)] at hrun

theorem grouped_isByte {id : DeclId} (hid : id ∈ f.grouped children) :
    (f.afterGrouping children).arena.IsByte id := by
  have hgrows : Grows False _ (groupLoose children) _ := grows_groupLoose children
  exact ((hgrows f f ⟨.refl, hchildren⟩).1 _ _ (groupLoose_eq children f)).2 id hid

theorem grouped_apart {id : DeclId} (hid : id ∈ f.grouped children) (hle : f.arena.decls.size ≤ id)
    {c : DeclId} (hc : c ∈ (f.afterGrouping children).arena.members f.arena.decls.size id) :
    ∃ filler width name, f.arena.decls[c]? = some (.bitfield filler width name) := by
  have hmem := segmentOf_mem hchildren hid
  rw [segmentOf_of_le hchildren hid hle] at hmem
  obtain ⟨-, hpasses⟩ := Segment.sorted_of_mem_ofList _ _ hmem
  have htest := hpasses c hc
  rw [Arena.isBitfield] at htest
  cases hdecl : f.arena.decls[c]? with
  | none =>
    rw [hdecl] at htest
    cases htest
  | some decl =>
    rw [hdecl] at htest
    cases decl with
    | bitfield filler width name => exact ⟨filler, width, name, rfl⟩
    | _ => cases htest

theorem grouped_grouped : Grouped f children (f.grouped children) (f.afterGrouping children) where
  added := by
    refine ⟨_, fun hnil => ?_, rfl⟩
    exact (Segment.sorted_of_mem_ofList children _ (mem_of_mem_runsOf hnil)).1 rfl
  fresh := by
    rw [grouped, filter_placed (Nat.le_refl _) fun c hc => hchildren c (Segment.single_mem_ofList hc).1,
      afterGrouping, size_withGroups, Nat.add_sub_cancel_left]
  restored := grouped_restored hchildren
  group left id right h hle := grouped_group hchildren h hle
  run before run after h := by
    obtain ⟨left, id, right, hsplit, hsegment, hbefore, hafter⟩ :=
      grouped_split hchildren (Segment.ofList_of_longestRun h)
    obtain ⟨hle, -⟩ := of_segmentOf_run hsegment
    rw [Segment.flatMap_items_ofList] at hbefore hafter
    refine ⟨left, id, right, hsplit, hle, ?_, hbefore, hafter⟩
    rw [← items_segmentOf, hsegment, Segment.items]
  other before c after h hbyte := by
    have hcut := Segment.ofList_append_cons hbyte before after
    rw [← h] at hcut
    obtain ⟨left, id, right, hsplit, hsegment, hbefore, hafter⟩ := grouped_split hchildren hcut
    obtain rfl := eq_of_segmentOf_single hsegment
    rw [Segment.flatMap_items_ofList] at hbefore hafter
    exact ⟨left, right, hsplit, hbefore, hafter⟩
  apart id hid hle c hc := grouped_apart hchildren hid hle hc
  no_bitfield id hid := isBitfield_of_isByte (grouped_isByte hchildren hid)

end Given

/-! ## Grouping again -/

/-- Children among which there is no bitfield are stored as they are. -/
theorem groupLoose_of_byte (h : ∀ c ∈ children, f.arena.isBitfield c = false) :
    groupLoose children f = (.ok children, f) := by
  have hplaced : ∀ (cs : List DeclId) (next : DeclId), placed next (cs.map .single) = cs := by
    intro cs next
    induction cs with
    | nil => rfl
    | cons c cs ih => rw [List.map_cons, placed, ih]
  have hruns : ∀ cs : List DeclId, runsOf (cs.map Segment.single) = [] := by
    intro cs
    induction cs with
    | nil => rfl
    | cons c cs ih => rw [List.map_cons, runsOf, ih]
  rw [groupLoose_eq, grouped, afterGrouping, Segment.ofList_of_fails h, hplaced, hruns, withGroups_nil]

/-! ## Grouping in one go -/

/-- Closes the run that is open, if there is anything in it. -/
def closeRun (run stored : List DeclId) : Attempt Factory (List DeclId) := do
  if run = [] then return stored
  return stored ++ [← bits run none]

/-- Goes through the children with a run that is still open and what is stored so far. -/
def groupOnward : List DeclId → List DeclId → List DeclId → Attempt Factory (List DeclId)
  | [], run, stored => closeRun run stored
  | child :: rest, run, stored => do
    if (← get).arena.isBitfield child then groupOnward rest (run ++ [child]) stored
    else
      let stored ← closeRun run stored
      groupOnward rest [] (stored ++ [child])

theorem closeRun_eq {test : DeclId → Bool} {run : List DeclId} (hrun : ∀ c ∈ run, test c = true)
    (stored : List DeclId) (g : Factory) :
    closeRun run stored g = (.ok (stored ++ placed g.arena.decls.size (Segment.ofList test run)),
      g.withGroups (runsOf (Segment.ofList test run))) := by
  rw [closeRun]
  by_cases hne : run = []
  · subst hne
    rw [if_pos rfl, Segment.ofList, runsOf, withGroups_nil, placed, List.append_nil]
    rfl
  · rw [if_neg hne, Segment.ofList_of_passes hne hrun, bind_of_ok (bits_apply run g), runsOf, runsOf,
      ← withGroups_push, withGroups_nil]
    rfl

theorem runsOf_append (segments segments' : List (Segment DeclId)) :
    runsOf (segments ++ segments') = runsOf segments ++ runsOf segments' := by
  induction segments with
  | nil => rfl
  | cons segment rest ih => cases segment <;> simp [runsOf, ih]

theorem placed_append (next : DeclId) (segments segments' : List (Segment DeclId)) :
    placed next (segments ++ segments') =
      placed next segments ++ placed (next + (runsOf segments).length) segments' := by
  induction segments generalizing next with
  | nil => rfl
  | cons segment rest ih =>
    cases segment with
    | single c => simp [placed, runsOf, ih]
    | run xs => simp [placed, runsOf, ih, Nat.add_assoc, Nat.add_comm 1]

theorem withGroups_withGroups (f : Factory) (runs runs' : List (List DeclId)) :
    (f.withGroups runs).withGroups runs' = f.withGroups (runs ++ runs') := by
  simp [withGroups]

/-- The groups that are made on the way are not among the children that are still to come. -/
theorem groupOnward_eq (hchildren : ∀ c ∈ children, c < f.arena.decls.size) {run : List DeclId}
    (hrun : ∀ c ∈ run, f.arena.isBitfield c = true) (w : Within f g) :
    groupOnward children run stored g =
      (.ok (stored ++ placed g.arena.decls.size (Segment.ofList f.arena.isBitfield (run ++ children))),
        g.withGroups (runsOf (Segment.ofList f.arena.isBitfield (run ++ children)))) := by
  induction children generalizing run stored g with
  | nil => rw [groupOnward, List.append_nil, closeRun_eq hrun]
  | cons child rest ih =>
    obtain ⟨hchild, hrest⟩ := List.forall_mem_cons.mp hchildren
    rw [groupOnward, bind_of_ok (get_apply g), isBitfield_of_within w hchild]
    split
    · rename_i hbit
      have hlonger : ∀ c ∈ run ++ [child], f.arena.isBitfield c = true :=
        List.forall_mem_append.mpr ⟨hrun, by simpa using hbit⟩
      rw [ih hrest hlonger w, List.append_assoc, List.singleton_append]
    · rename_i hbit
      have hbyte : f.arena.isBitfield child = false := eq_false_of_ne_true hbit
      rw [bind_of_ok (closeRun_eq hrun stored g),
        ih hrest (List.forall_mem_nil _) (w.trans (within_withGroups g _)), List.nil_append,
        Segment.ofList_append_cons hbyte, runsOf_append, placed_append, withGroups_withGroups, runsOf,
        placed, size_withGroups]
      simp only [List.append_assoc, List.singleton_append]

/-! ## The operations that group -/

theorem compound_of_groupLoose {grouped : Factory} (h : groupLoose children f = (.ok stored, grouped))
    (name : Option String) :
    ∃ id g, declare name grouped = (.ok id, g) ∧ g.arena = grouped.arena ∧
      compound children name f = (.ok grouped.arena.decls.size,
        { g with arena.decls := grouped.arena.decls.push (.compound stored id) }) := by
  rw [compound, bind_of_ok h]
  cases name with
  | none => exact ⟨_, _, rfl, rfl, rfl⟩
  | some name => exact ⟨_, _, rfl, rfl, rfl⟩

theorem defineTemplate_of_groupLoose (h : groupLoose children f = (.ok stored, g)) (name : String) :
    defineTemplate name children f =
      if (f.templates.lookup name).isSome then (.error (.templateRedefined name), f)
      else (.ok g.arena.templates.size, { g with
        arena.templates := g.arena.templates.push ⟨name, stored⟩
        templates := (name, g.arena.templates.size) :: g.templates }) := by
  rw [defineTemplate, bind_of_ok (get_apply f)]
  split
  · rfl
  · exact bind_of_ok h _

theorem finish_of_groupLoose (h : groupLoose children f = (.ok stored, g)) (hne : children ≠ []) :
    f.finish children = match f.referenced.toList.find? fun id => id ∉ f.declared with
      | some id => .error (.undeclaredField (f.names.label id))
      | none => .ok ⟨g.arena, stored, g.names, .big⟩ := by
  rw [finish_eq f hne, outcome, bind_of_ok h]
  rfl

/-- Children that are there can always be grouped, and going through them once gives the same. A
container and a template are made of the grouped children in the factory with the new groups, a program
of the grouped fields; a template whose name is taken makes no groups. At any later time the grouped
children are stored as they are. -/
theorem grouping_exact (f : Factory) (children : List DeclId)
    (hchildren : ∀ c ∈ children, c < f.arena.decls.size) :
    ∃ stored g, Grouped f children stored g ∧
      groupLoose children f = (.ok stored, g) ∧ groupOnward children [] [] f = (.ok stored, g) ∧
      (∀ name, ∃ id named, declare name g = (.ok id, named) ∧ named.arena = g.arena ∧
        compound children name f = (.ok g.arena.decls.size,
          { named with arena.decls := g.arena.decls.push (.compound stored id) })) ∧
      (∀ name, defineTemplate name children f =
        if (f.templates.lookup name).isSome then (.error (.templateRedefined name), f)
        else (.ok g.arena.templates.size, { g with
          arena.templates := g.arena.templates.push ⟨name, stored⟩
          templates := (name, g.arena.templates.size) :: g.templates })) ∧
      (children ≠ [] → f.finish children =
        match f.referenced.toList.find? fun id => id ∉ f.declared with
        | some id => .error (.undeclaredField (f.names.label id))
        | none => .ok ⟨g.arena, stored, g.names, .big⟩) ∧
      ∀ later, Within g later → groupLoose stored later = (.ok stored, later) := by
  have hrun := groupLoose_eq children f
  have hexact := grouped_grouped hchildren
  refine ⟨f.grouped children, f.afterGrouping children, hexact, hrun, ?_, compound_of_groupLoose hrun,
    defineTemplate_of_groupLoose hrun, finish_of_groupLoose hrun, fun later w => ?_⟩
  · rw [groupOnward_eq hchildren (List.forall_mem_nil _) (.refl f)]
    rfl
  · exact groupLoose_of_byte fun c hc =>
      isBitfield_of_isByte (w.isByte (grouped_isByte hchildren hc))

/-- Runs at both ends and one in between, a bitfield that is given three times, and a bit group that
stands next to a run. -/
theorem grouping_exact_sample :
    let f := (Call.performAll [.bitfield none 3 none, .bitfield none 5 (some "b"), .block none 1 none,
      .bitfield none 2 none, .bits [0] none] (ofRegistry .standard)).2
    (∀ c ∈ [0, 1, 2, 3, 0, 4, 0], c < f.arena.decls.size) ∧
      ∃ g, Grouped f [0, 1, 2, 3, 0, 4, 0] [5, 2, 6, 4, 7] g ∧
        g.arena.decls.toList.drop 5 = [.bits [0, 1] none, .bits [3, 0] none, .bits [0] none] ∧
        groupLoose [5, 2, 6, 4, 7] g = (.ok [5, 2, 6, 4, 7], g) := by
  intro f
  have hchildren : ∀ c ∈ [0, 1, 2, 3, 0, 4, 0], c < f.arena.decls.size := by decide +kernel
  obtain ⟨stored, g, hexact, hrun, -, -, -, -, hagain⟩ := grouping_exact f _ hchildren
  have hstored : groupLoose [0, 1, 2, 3, 0, 4, 0] f =
      (.ok [5, 2, 6, 4, 7], f.withGroups [[0, 1], [3, 0], [0]]) := by rfl
  obtain ⟨hok, rfl⟩ := Prod.mk.inj (hrun.symm.trans hstored)
  obtain rfl := Except.ok.inj hok
  exact ⟨hchildren, _, hexact, by decide +kernel, hagain _ (.refl _)⟩

end Factory
end ArtifactLayout
