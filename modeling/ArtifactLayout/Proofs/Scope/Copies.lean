import ArtifactLayout.Proofs.Arena.Draws
import ArtifactLayout.Proofs.Scope.Bindings

/-! # References within copies

The copies of a template are alike, so a reference made at one place of two of them leads to one place
of each if the copies carry the name, and to one and the same field outside of them if not. In either
case what is read is complete for both readers or for neither.
-/

namespace ArtifactLayout
set_option autoImplicit false

/-! ## Shared beginnings of paths that go through a child -/

theorem sharedLength_append (r p o : List Nat) :
    sharedLength (r ++ p) (r ++ o) = r.length + sharedLength p o := by
  induction r with
  | nil => simp
  | cons x r ih =>
    rw [List.cons_append, List.cons_append, sharedLength, if_pos rfl, ih, List.length_cons]
    omega

/-- Only what lies below a child shares more with a path through the child than with the parent. -/
theorem sharedLength_through {r p : List Nat} {k : Nat} (h : ¬ r ++ [k] <+: p) (o : List Nat) :
    sharedLength p (r ++ k :: o) = sharedLength p r := by
  induction r generalizing p with
  | nil =>
    cases p with
    | nil => rfl
    | cons x p =>
      have hne : x ≠ k := by
        rintro rfl
        exact h (List.cons_prefix_cons.mpr ⟨rfl, List.nil_prefix⟩)
      rw [List.nil_append, sharedLength, if_neg hne]
      rfl
  | cons y r ih =>
    cases p with
    | nil => rfl
    | cons x p =>
      rw [List.cons_append, sharedLength, sharedLength]
      by_cases hxy : x = y
      · subst hxy
        rw [if_pos rfl, if_pos rfl, ih fun hp => h (List.cons_prefix_cons.mpr ⟨rfl, hp⟩)]
      · rw [if_neg hxy, if_neg hxy]

theorem sharedLength_le_length_of_not_below {r p : List Nat} {k : Nat} (h : ¬ r ++ [k] <+: p)
    (o : List Nat) : sharedLength p (r ++ k :: o) ≤ r.length := by
  rw [sharedLength_through h]
  exact sharedLength_le_right p r

theorem eq_append_of_below {r p : List Nat} {k : Nat} (h : r ++ [k] <+: p) :
    ∃ q, p = r ++ k :: q := by
  obtain ⟨q, rfl⟩ := h
  exact ⟨q, by rw [List.append_assoc, List.singleton_append]⟩

namespace Field

/-! ## The nearest field, by what it must satisfy -/

/-- The nearest field of a name shares as much of the origin as any other one does, and more than any
later one. -/
theorem nearest?_eq_some_iff {root : Field} {id : FieldId} {origin : List Nat} {v : Visit} :
    root.nearest? id origin = some v ↔ v ∈ root.named id ∧
      ∀ w ∈ root.named id, sharedLength w.path origin ≤ sharedLength v.path origin ∧
        (v.position < w.position → sharedLength w.path origin < sharedLength v.path origin) := by
  have hordered : (root.named id).Pairwise fun v w => v.position < w.position :=
    root.pairwise_position_visits.filter _
  rw [nearest?]
  constructor
  · intro h
    obtain ⟨before, after, hsplit, hbefore, hafter⟩ := lastBest_eq_some.mp h
    rw [hsplit] at hordered ⊢
    obtain ⟨-, hright, hcross⟩ := List.pairwise_append.mp hordered
    refine ⟨by simp, fun w hw => ?_⟩
    rcases List.mem_append.mp hw with hw | hw
    · have hlt := hcross w hw v List.mem_cons_self
      exact ⟨hbefore w hw, fun hlater => absurd hlater (Nat.lt_asymm hlt)⟩
    · rcases List.mem_cons.mp hw with rfl | hw
      · exact ⟨Nat.le_refl _, fun hlater => absurd hlater (Nat.lt_irrefl _)⟩
      · exact ⟨Nat.le_of_lt (hafter w hw), fun _ => hafter w hw⟩
  · rintro ⟨hv, hbest⟩
    obtain ⟨k, hk⟩ := List.mem_iff_getElem?.mp hv
    refine lastBest_of_getElem? hk (fun w hw => (hbest w hw).1) fun i w hi hlt => ?_
    have hw : w ∈ root.named id := List.mem_of_getElem? hi
    exact (hbest w hw).2 (pairwise_getElem? hordered hlt hk hi)

/-- Origins that share as much with each field of a name have the same nearest one. -/
theorem nearest?_congr {root : Field} {id : FieldId} {o o' : List Nat}
    (h : ∀ w ∈ root.named id, sharedLength w.path o = sharedLength w.path o') :
    root.nearest? id o = root.nearest? id o' := by
  refine Option.ext fun v => ?_
  rw [nearest?_eq_some_iff, nearest?_eq_some_iff]
  refine and_congr_right fun hv => forall₂_congr fun w hw => ?_
  rw [h w hw, h v hv]

theorem nearest?_eq_none_iff {root : Field} {id : FieldId} {origin : List Nat} :
    root.nearest? id origin = none ↔ root.named id = [] := lastBest_eq_none

/-! ## Copies -/

/-- The copies of every template are alike, and their group has no name. -/
def UniformCopies (f : Field) : Prop :=
  ∀ tag copies, f = group tag .repeated copies →
    tag = Tag.none ∧ ∃ count copy, copies = List.replicate count copy

section Copies
variable {root copy : Field} {r : List Nat} {count : Nat}
  (hat : root.at? r = some (group Tag.none .repeated (List.replicate count copy)))
include hat

theorem at?_copy {k : Nat} (hk : k < count) (q : List Nat) :
    root.at? (r ++ k :: q) = copy.at? q := by
  rw [at?_append hat, at?_cons_of_child]
  exact List.getElem?_replicate_of_lt hk

/-- A field in a copy is numbered behind the copies in front. -/
theorem ordinal_copy {k : Nat} (hk : k < count) (q : List Nat) :
    root.ordinal (r ++ k :: q) =
      root.ordinal r + 1 + k * copy.nodeCount + copy.ordinal q := by
  have hchild : (group Tag.none .repeated (List.replicate count copy)).children[k]? = some copy :=
    List.getElem?_replicate_of_lt hk
  rw [ordinal_append hat, ordinal_cons hchild, Field.children, List.take_replicate,
    Nat.min_eq_left (Nat.le_of_lt hk), Plan.nodeCounts_replicate]
  omega

/-- The field at one place of a copy, met on a walk. -/
theorem mem_visits_copy {k : Nat} (hk : k < count) {q : List Nat} {g : Field} {position : Nat} :
    ⟨r ++ k :: q, position, g⟩ ∈ root.visits ↔ copy.at? q = some g ∧
      position = root.ordinal r + 1 + k * copy.nodeCount + copy.ordinal q := by
  rw [mem_visits, at?_copy hat hk, ordinal_copy hat hk]

/-- A field of the tree is in a copy, or its path does not go through the group. -/
theorem below_copy_or_not_below {v : Visit} (hv : v ∈ root.visits) (hid : v.field.id.isSome) :
    (∃ j < count, ∃ q, v.path = r ++ j :: q) ∨ ¬ r <+: v.path := by
  by_cases hbelow : r <+: v.path
  · left
    obtain ⟨x, hx⟩ := hbelow
    have hvat : (group Tag.none .repeated (List.replicate count copy)).at? x = some v.field := by
      rw [← at?_append hat, hx, (mem_visits.mp hv).1]
    cases x with
    | nil =>
      rw [← Option.some.inj hvat] at hid
      cases hid
    | cons j q =>
      obtain ⟨c, hc, -⟩ := at?_cons_eq_some hvat
      have hj : j < (List.replicate count copy).length := (List.getElem?_eq_some_iff.mp hc).1
      rw [List.length_replicate] at hj
      exact ⟨j, hj, q, hx.symm⟩
  · exact .inr hbelow

variable {id : FieldId}

/-- If one copy carries a name, the nearest field of the name is in the copy. -/
theorem nearest?_in_copy {k : Nat} (hk : k < count) {q : List Nat} {g : Field}
    (hg : copy.at? q = some g) (hid : g.id = some id) (p : List Nat) :
    ∃ v q', root.nearest? id (r ++ k :: p) = some v ∧ v.path = r ++ k :: q' := by
  have hw : ⟨r ++ k :: q, _, g⟩ ∈ root.visits := (mem_visits_copy hat hk).mpr ⟨hg, rfl⟩
  have hw : ⟨r ++ k :: q, _, g⟩ ∈ root.named id := mem_named.mpr ⟨hw, hid⟩
  cases hv : root.nearest? id (r ++ k :: p) with
  | none =>
    rw [nearest?_eq_none_iff.mp hv] at hw
    exact absurd hw List.not_mem_nil
  | some v =>
    -- any field of the copy shares the way into it, one outside of it does not
    have hle := ((nearest?_eq_some_iff.mp hv).2 _ hw).1
    have hshared : r.length < sharedLength (r ++ k :: q) (r ++ k :: p) := by
      rw [sharedLength_append, sharedLength, if_pos rfl]
      omega
    dsimp only at hle
    have hbelow : r ++ [k] <+: v.path := by
      by_contra hnot
      have := sharedLength_le_length_of_not_below hnot p
      omega
    obtain ⟨q', hq'⟩ := eq_append_of_below hbelow
    exact ⟨v, q', rfl, hq'⟩

/-- The nearest field in one copy has its like in another one, which is nearest there. -/
theorem nearest?_in_other_copy {k l : Nat} (hk : k < count) (hl : l < count) {p q : List Nat}
    {v : Visit} (h : root.nearest? id (r ++ k :: p) = some v) (hpath : v.path = r ++ k :: q) :
    root.nearest? id (r ++ l :: p) =
      some ⟨r ++ l :: q, root.ordinal r + 1 + l * copy.nodeCount + copy.ordinal q, v.field⟩ := by
  obtain ⟨vpath, vposition, g⟩ := v
  obtain rfl : vpath = r ++ k :: q := hpath
  obtain ⟨hv, hbest⟩ := nearest?_eq_some_iff.mp h
  obtain ⟨hvroot, hid⟩ := mem_named.mp hv
  obtain ⟨hg, rfl⟩ := (mem_visits_copy hat hk).mp hvroot
  have hshared : ∀ j x, sharedLength (r ++ j :: x) (r ++ j :: p) = r.length + (sharedLength x p + 1) := by
    intro j x
    rw [sharedLength_append, sharedLength, if_pos rfl]
  refine nearest?_eq_some_iff.mpr ⟨mem_named.mpr ⟨(mem_visits_copy hat hl).mpr ⟨hg, rfl⟩, hid⟩, ?_⟩
  rintro ⟨wpath, wposition, w⟩ hw
  obtain ⟨hwroot, hwid⟩ := mem_named.mp hw
  by_cases hbelow : r ++ [l] <+: wpath
  · -- another field of this copy has its like in the first one
    obtain ⟨x, rfl⟩ := eq_append_of_below hbelow
    obtain ⟨hwat, rfl⟩ := (mem_visits_copy hat hl).mp hwroot
    have hlike := hbest ⟨r ++ k :: x, _, w⟩
      (mem_named.mpr ⟨(mem_visits_copy hat hk).mpr ⟨hwat, rfl⟩, hwid⟩)
    dsimp only at hlike ⊢
    rw [hshared, hshared] at hlike ⊢
    refine ⟨hlike.1, fun hlt => hlike.2 ?_⟩
    omega
  · have hle := sharedLength_le_length_of_not_below hbelow p
    dsimp only
    rw [hshared]
    exact ⟨by omega, fun _ => by omega⟩

/-- If the copies do not carry a name, all of them refer to the same field. -/
theorem nearest?_outside_copies (hnone : ∀ q g, copy.at? q = some g → g.id ≠ some id) {k l : Nat}
    (p : List Nat) : root.nearest? id (r ++ k :: p) = root.nearest? id (r ++ l :: p) := by
  have hoff : ∀ w ∈ root.named id, ∀ j, ¬ r ++ [j] <+: w.path := by
    intro w hw j hbelow
    obtain ⟨hwroot, hwid⟩ := mem_named.mp hw
    rcases below_copy_or_not_below hat hwroot (hwid ▸ rfl) with ⟨i, hi, q, hq⟩ | hnot
    · have hwat := (mem_visits.mp hwroot).1
      rw [hq, at?_copy hat hi] at hwat
      exact hnone q _ hwat hwid
    · exact hnot ((List.prefix_append r [j]).trans hbelow)
  refine nearest?_congr fun w hw => ?_
  rw [sharedLength_through (hoff w hw k), sharedLength_through (hoff w hw l)]

theorem not_below_of_nearest? (hnone : ∀ q g, copy.at? q = some g → g.id ≠ some id)
    {origin : List Nat} {v : Visit} (h : root.nearest? id origin = some v) : ¬ r <+: v.path := by
  obtain ⟨hv, hid⟩ := mem_of_nearest? h
  rcases below_copy_or_not_below hat hv (hid ▸ rfl) with ⟨j, hj, q, hq⟩ | hnot
  · have hvat := (mem_visits.mp hv).1
    rw [hq, at?_copy hat hj] at hvat
    exact absurd hid (hnone q _ hvat)
  · exact hnot

omit hat in
/-- A field that does not stand in a tree below is complete before all of that tree or before none of
it. -/
theorem complete_iff_of_not_below {v w w' : Visit} (hv : v ∈ root.visits) (hw : w ∈ root.visits)
    (hw' : w' ∈ root.visits) {top : Visit} (htop : top ∈ root.visits) (hvtop : ¬ top.path <+: v.path)
    (hbelow : top.path <+: w.path) (hbelow' : top.path <+: w'.path) :
    v.position + v.field.nodeCount ≤ w.position ↔ v.position + v.field.nodeCount ≤ w'.position := by
  have hend := position_lt_of_below htop hw hbelow
  have hend' := position_lt_of_below htop hw' hbelow'
  have hstart := position_le_of_below htop hw hbelow
  have hstart' := position_le_of_below htop hw' hbelow'
  by_cases habove : v.path <+: top.path
  · -- the field contains the whole tree
    have hin := position_lt_of_below hv hw (habove.trans hbelow)
    have hin' := position_lt_of_below hv hw' (habove.trans hbelow')
    omega
  · have := disjoint_positions hv htop habove hvtop
    omega

/-- What two copies refer to from one place is complete before both referring fields or before neither. -/
theorem complete_in_copies_iff {k l : Nat} (hk : k < count) (hl : l < count) {p : List Nat}
    {v v' w w' : Visit} (hv : v ∈ root.visits) (hv' : v' ∈ root.visits) (hpath : v.path = r ++ k :: p)
    (hpath' : v'.path = r ++ l :: p) (hw : root.nearest? id v.path = some w)
    (hw' : root.nearest? id v'.path = some w') :
    w.position + w.field.nodeCount ≤ v.position ↔ w'.position + w'.field.nodeCount ≤ v'.position := by
  rw [hpath] at hw
  rw [hpath'] at hw'
  by_cases hcarry : ∃ q g, copy.at? q = some g ∧ g.id = some id
  · obtain ⟨q, g, hg, hid⟩ := hcarry
    obtain ⟨u, q', hu, hupath⟩ := nearest?_in_copy hat hk hg hid p
    obtain rfl : u = w := Option.some.inj (hu.symm.trans hw)
    rw [nearest?_in_other_copy hat hk hl hw hupath] at hw'
    obtain rfl := Option.some.inj hw'
    -- from one copy to the other, both ends of the test move by whole copies
    have huposition := (mem_visits.mp (mem_of_nearest? hw).1).2
    have hposition := (mem_visits.mp hv).2
    have hposition' := (mem_visits.mp hv').2
    rw [hupath, ordinal_copy hat hk] at huposition
    rw [hpath, ordinal_copy hat hk] at hposition
    rw [hpath', ordinal_copy hat hl] at hposition'
    dsimp only
    omega
  · have hnone : ∀ q g, copy.at? q = some g → g.id ≠ some id :=
      fun q g hg hid => hcarry ⟨q, g, hg, hid⟩
    rw [← nearest?_outside_copies hat hnone, hw] at hw'
    obtain rfl := Option.some.inj hw'
    have htop : ⟨r, root.ordinal r, _⟩ ∈ root.visits := mem_visits.mpr ⟨hat, rfl⟩
    refine complete_iff_of_not_below (mem_of_nearest? hw).1 hv hv' htop
      (not_below_of_nearest? hat hnone hw) ?_ ?_
    · rw [hpath]
      exact List.prefix_append r _
    · rw [hpath']
      exact List.prefix_append r _

end Copies
end Field

/-! ## Trees that were laid out -/

variable {σ : Type} [RandomSource σ] {arena : Arena}

theorem Arena.ofEach_uniformCopies : arena.OfEach σ Field.UniformCopies := by
  constructor
  · intro id s s' plan h tag copies hgroup
    cases h with
    | copies =>
      injection hgroup with htag _ hcopies
      exact ⟨htag.symm, _, _, hcopies.symm⟩
    | block | auto | bitfield | ranged => cases hgroup
    | compound | choice | bits => injection hgroup with _ hgrouping; cases hgrouping
  · intro template s s' plans _ _ tag copies hgroup
    injection hgroup with _ hgrouping
    cases hgrouping

namespace Request

theorem uniformCopies_of_run_ok {request : Request} {s s' : σ} {root : Field}
    (h : request.run arena s = (.ok root, s')) : root.Everywhere Field.UniformCopies := by
  obtain ⟨plan, hplan, rfl⟩ := lays_of_run_ok h
  refine hplan.everywhere Arena.ofEach_uniformCopies ?_
  cases hplan with
  | decl h => exact Arena.ofEach_uniformCopies.decl h
  | template htemplate hle hall =>
    intro tag copies hgroup
    injection hgroup with htag _ hcopies
    exact ⟨htag.symm, _, _, hcopies.symm⟩
  | root hall =>
    intro tag copies hgroup
    injection hgroup with _ hgrouping
    cases hgrouping

/-- In a tree that was laid out, a reference made at one place of two copies of a template leads, if
the copies carry the name, to one place of each; if they do not, to one and the same field outside of
all copies, or nowhere from either. What it leads to is complete before both referring fields or
before neither. -/
theorem copies_resolve_alike {request : Request} {s s' : σ} {root : Field}
    (h : request.run arena s = (.ok root, s')) {r : List Nat} {tag : Tag} {copies : List Field}
    (hat : root.at? r = some (.group tag .repeated copies)) {k l : Nat} {copy other : Field}
    (hk : copies[k]? = some copy) (hl : copies[l]? = some other) (names : Names) (id : FieldId)
    (p : List Nat) :
    let scope : Scope := ⟨names, .ofTree root⟩
    ((∃ q g, copy.at? q = some g ∧ g.id = some id) →
      ∃ q g b b', copy.at? q = some g ∧ g.id = some id ∧
        scope.resolveFrom id (r ++ k :: p) = .ok b ∧ b.path = r ++ k :: q ∧
        scope.resolveFrom id (r ++ l :: p) = .ok b' ∧ b'.path = r ++ l :: q) ∧
    ((∀ q g, copy.at? q = some g → g.id ≠ some id) →
      (∃ b, scope.resolveFrom id (r ++ k :: p) = .ok b ∧
        scope.resolveFrom id (r ++ l :: p) = .ok b ∧ ¬ r <+: b.path) ∨
      (scope.resolveFrom id (r ++ k :: p) = .error (.unbound (names.label id)) ∧
        scope.resolveFrom id (r ++ l :: p) = .error (.unbound (names.label id)))) ∧
    ∀ v ∈ root.visits, ∀ v' ∈ root.visits, v.path = r ++ k :: p → v'.path = r ++ l :: p →
      ∀ b b', scope.resolveFrom id v.path = .ok b → scope.resolveFrom id v'.path = .ok b' →
        (b.stop ≤ v.position ↔ b'.stop ≤ v'.position) := by
  obtain ⟨rfl, count, prototype, rfl⟩ := uniformCopies_of_run_ok h r _ hat tag copies rfl
  obtain ⟨hkcount, rfl⟩ : k < count ∧ prototype = copy := by
    simpa [List.getElem?_replicate] using hk
  obtain ⟨hlcount, -⟩ : l < count ∧ prototype = other := by
    simpa [List.getElem?_replicate] using hl
  simp only [Field.resolveFrom_ofTree]
  refine ⟨?_, fun hnone => ?_, ?_⟩
  · rintro ⟨q, g, hg, hid⟩
    obtain ⟨v, q', hv, hpath⟩ := Field.nearest?_in_copy hat hkcount hg hid p
    obtain ⟨hvroot, hvid⟩ := Field.mem_of_nearest? hv
    have hvat := (Field.mem_visits.mp hvroot).1
    rw [hpath, Field.at?_copy hat hkcount] at hvat
    rw [Field.nearest?_in_other_copy hat hkcount hlcount hv hpath, hv]
    exact ⟨q', v.field, _, _, hvat, hvid, rfl, hpath, rfl, rfl⟩
  · rw [← Field.nearest?_outside_copies hat hnone (k := k) (l := l) p]
    cases hv : root.nearest? id (r ++ k :: p) with
    | none => exact .inr ⟨rfl, rfl⟩
    | some v => exact .inl ⟨_, rfl, rfl, Field.not_below_of_nearest? hat hnone hv⟩
  · intro v hv v' hv' hpath hpath' b b' hb hb'
    cases hw : root.nearest? id v.path with
    | none =>
      rw [hw] at hb
      cases hb
    | some w =>
      cases hw' : root.nearest? id v'.path with
      | none =>
        rw [hw'] at hb'
        cases hb'
      | some w' =>
        rw [hw] at hb
        rw [hw'] at hb'
        obtain rfl := Except.ok.inj hb
        obtain rfl := Except.ok.inj hb'
        exact Field.complete_in_copies_iff hat hkcount hlcount hv hv' hpath hpath' hw hw'

/-- Two records of three bytes and their checksum. -/
def sampleRecords : Arena where
  decls := #[.block 0 3 (some 0), .block 1 4 none, .copies 0 2 2]
  templates := #[⟨"record", [0, 1]⟩]
  fillers := #[.random, .quantity (.checksumOf 0)]

def sampleRecord : Field :=
  .group Tag.none .compound
    [.leaf ⟨some 0, some 0⟩ (.block #[0, 0, 0]), .leaf ⟨none, some 1⟩ (.block #[0, 0, 0, 0])]

def sampleRecordsTree : Field :=
  .group Tag.none .compound [.group Tag.none .repeated [sampleRecord, sampleRecord]]

theorem run_sampleRecords (s : σ) :
    ∃ s', (root [2]).run sampleRecords s = (.ok sampleRecordsTree, s') := by
  let record : List Plan := [.leaf ⟨some 0, some 0⟩ (.block (Array.replicate 3 0)),
    .leaf ⟨none, some 1⟩ (.block (Array.replicate 4 0))]
  have hrecord : ∀ t : σ, sampleRecords.LaysAll [0, 1] t record t :=
    fun t => .cons (.block rfl) (.cons (.block rfl) .nil)
  have hplan : (root [2]).Lays sampleRecords s (.group Tag.none .compound
      [.copies (RandomSource.between 2 2 (Nat.le_refl 2) s).1.val record]) _ :=
    .root (.cons (.copies rfl rfl (Nat.le_refl 2) (hrecord _)) .nil)
  -- between equal bounds there is only one number to draw
  have hcount : (RandomSource.between 2 2 (Nat.le_refl 2) s).1.val = 2 := by
    have := (RandomSource.between 2 2 (Nat.le_refl 2) s).1.property
    omega
  rw [hcount] at hplan
  exact ⟨_, (decidedBy_of_lays hplan).granted (by decide)⟩

/-- The hypotheses can be met: each checksum is that of the data of its own record. -/
theorem copies_resolve_alike_sample :
    ∃ s', (root [2]).run sampleRecords (ChaCha8.ofSeed 7) = (.ok sampleRecordsTree, s') ∧
      sampleRecordsTree.at? [0] = some (.group Tag.none .repeated [sampleRecord, sampleRecord]) ∧
      ∃ q g b b', sampleRecord.at? q = some g ∧ g.id = some 0 ∧
        (⟨⟨["data"]⟩, .ofTree sampleRecordsTree⟩ : Scope).resolveFrom 0 [0, 0, 1] = .ok b ∧
        b.path = [0] ++ 0 :: q ∧
        (⟨⟨["data"]⟩, .ofTree sampleRecordsTree⟩ : Scope).resolveFrom 0 [0, 1, 1] = .ok b' ∧
        b'.path = [0] ++ 1 :: q := by
  obtain ⟨s', hrun⟩ := run_sampleRecords (ChaCha8.ofSeed 7)
  have hat : sampleRecordsTree.at? [0] =
      some (.group Tag.none .repeated [sampleRecord, sampleRecord]) := rfl
  obtain ⟨hinside, -, -⟩ :=
    copies_resolve_alike hrun hat (k := 0) (l := 1) rfl rfl ⟨["data"]⟩ 0 [1]
  exact ⟨s', hrun, hat, hinside ⟨[0], _, rfl, rfl⟩⟩

end Request
end ArtifactLayout
