import ArtifactLayout.Proofs.Field.Preorder
import ArtifactLayout.Proofs.Field.Units
import ArtifactLayout.Proofs.Search

/-! # Where the bits of a field go

A tree in which only bit groups hold fields of single bits puts the bits of its leaves one after the
other in pre-order, each at a place of its own. `Field.bitStart` computes the place from the path; what
is left of the content are zeros that fill up the last bytes of bit groups.
-/

namespace ArtifactLayout.Field
set_option autoImplicit false

/-- The number of bits that a field takes in its container. -/
def width (f : Field) : Nat := f.size * f.unitBits

/-- The content of a field bit by bit. -/
def bits (f : Field) : List Bool := Bits.ofUnits f.unitBits f.units

/-- The index of the first bit of the field at the end of a path. -/
def bitStart : Field → List Nat → Nat
  | _, [] => 0
  | f, i :: path => totalBits (f.children.take i) + (f.children[i]?).elim 0 (bitStart · path)

/-- Children are addressed in bits, or have units of eight bits. -/
def ByteAligned (f : Field) : Prop :=
  ∀ tag grouping children, f = group tag grouping children → grouping ≠ .bits →
    ∀ c ∈ children, c.unitBits = 8

@[simp] theorem length_bits (f : Field) : f.bits.length = f.width := by
  rw [bits, length_ofUnits, length_units, width, Nat.mul_comm]

@[simp] theorem bitStart_nil (f : Field) : f.bitStart [] = 0 := rfl

theorem bitStart_cons {f c : Field} {i : Nat} (h : f.children[i]? = some c) (path : List Nat) :
    f.bitStart (i :: path) = totalBits (f.children.take i) + c.bitStart path := by
  rw [bitStart, h]
  rfl

/-! ## The bits of a run of fields -/

theorem joinedUnits_eq_flatMap (cs : List Field) : joinedUnits cs = cs.flatMap units := by
  induction cs with
  | nil => rfl
  | cons c cs ih => rw [joinedUnits, ih, List.flatMap_cons]

theorem joinedBits_eq_flatMap (cs : List Field) : joinedBits cs = cs.flatMap bits := by
  induction cs with
  | nil => rfl
  | cons c cs ih =>
    rw [joinedBits, ih, List.flatMap_cons]
    rfl

theorem eq_take_append_of_getElem? {cs : List Field} {i : Nat} {c : Field} (h : cs[i]? = some c) :
    cs = cs.take i ++ c :: cs.drop (i + 1) := by
  obtain ⟨hi, rfl⟩ := List.getElem?_eq_some_iff.mp h
  rw [← List.drop_eq_getElem_cons hi, List.take_append_drop]

theorem joinedBits_split {cs : List Field} {i : Nat} {c : Field} (h : cs[i]? = some c) :
    joinedBits cs = joinedBits (cs.take i) ++ (c.bits ++ joinedBits (cs.drop (i + 1))) := by
  have hsplit := congrArg joinedBits (eq_take_append_of_getElem? h)
  rwa [joinedBits_eq_flatMap (cs.take i ++ c :: cs.drop (i + 1)), List.flatMap_append,
    List.flatMap_cons, ← joinedBits_eq_flatMap, ← joinedBits_eq_flatMap] at hsplit

theorem totalBits_split {cs : List Field} {i : Nat} {c : Field} (h : cs[i]? = some c) :
    totalBits cs = totalBits (cs.take i) + (c.width + totalBits (cs.drop (i + 1))) := by
  have hlength := congrArg List.length (joinedBits_split h)
  rwa [List.length_append, List.length_append, length_joinedBits, length_joinedBits,
    length_joinedBits, length_bits] at hlength

/-- The bits in front of a later child include all those of an earlier one. -/
theorem totalBits_take_add_le {cs : List Field} {i j : Nat} {c : Field} (hc : cs[i]? = some c)
    (hij : i < j) : totalBits (cs.take i) + c.width ≤ totalBits (cs.take j) := by
  have hci : (cs.take j)[i]? = some c := by rw [List.getElem?_take_of_lt hij, hc]
  have hsplit := totalBits_split hci
  rw [List.take_take, Nat.min_eq_left (Nat.le_of_lt hij)] at hsplit
  omega

theorem ofUnits_joinedUnits {cs : List Field} (h : ∀ c ∈ cs, c.unitBits = 8) :
    Bits.ofUnits 8 (joinedUnits cs) = joinedBits cs := by
  induction cs with
  | nil => rfl
  | cons c cs ih =>
    rw [joinedUnits, joinedBits, Bits.ofUnits_append, h c List.mem_cons_self,
      ih fun d hd => h d (List.mem_cons_of_mem c hd)]

/-! ## The bits of a group -/

/-- The zeros behind the bits of the last child. -/
def padding (grouping : Grouping) (children : List Field) : Nat :=
  if grouping = .bits then 8 * ((totalBits children + 7) / 8) - totalBits children else 0

theorem units_of_ne_bits {tag : Tag} {grouping : Grouping} {children : List Field}
    (h : grouping ≠ .bits) : (group tag grouping children).units = joinedUnits children := by
  cases grouping with
  | bits => exact absurd rfl h
  | compound => rw [units]; simp
  | repeated => rw [units]; simp

theorem bits_group {tag : Tag} {grouping : Grouping} {children : List Field}
    (h : (group tag grouping children).ByteAligned) :
    (group tag grouping children).bits =
      joinedBits children ++ List.replicate (padding grouping children) false := by
  by_cases hbits : grouping = .bits
  · subst hbits
    rw [bits, units, unitBits, Bits.ofUnits_pack, length_joinedBits, padding, if_pos rfl]
  · rw [bits, units_of_ne_bits hbits, unitBits,
      ofUnits_joinedUnits (h tag grouping children rfl hbits), padding, if_neg hbits,
      List.replicate_zero, List.append_nil]

theorem toBytes_of_unitBits {f : Field} (h : f.unitBits = 8) : f.toBytes = f.units := if_pos h

theorem toBytes_of_ne_bits {tag : Tag} {grouping : Grouping} {children : List Field}
    (h : (group tag grouping children).ByteAligned) (hbits : grouping ≠ .bits) :
    (group tag grouping children).toBytes = children.flatMap toBytes := by
  have hchildren : ∀ c ∈ children, c.toBytes = c.units :=
    fun c hc => toBytes_of_unitBits (h tag grouping children rfl hbits c hc)
  rw [toBytes_of_unitBits rfl, units_of_ne_bits hbits, joinedUnits_eq_flatMap, List.flatMap_def,
    List.flatMap_def, List.map_congr_left hchildren]

/-! ## Places -/

theorem width_eq_of_group {tag : Tag} {grouping : Grouping} {children : List Field}
    (h : (group tag grouping children).ByteAligned) :
    (group tag grouping children).width = totalBits children + padding grouping children := by
  rw [← length_bits, bits_group h, List.length_append, length_joinedBits, List.length_replicate]

theorem totalBits_children_le {f : Field} (h : f.ByteAligned) : totalBits f.children ≤ f.width := by
  cases f with
  | leaf tag content => exact Nat.zero_le _
  | group tag grouping children =>
    rw [width_eq_of_group h]
    exact Nat.le_add_right _ _

theorem bits_prefix {f : Field} (h : f.ByteAligned) : joinedBits f.children <+: f.bits := by
  cases f with
  | leaf tag content => exact List.nil_prefix
  | group tag grouping children =>
    rw [bits_group h]
    exact List.prefix_append _ _

theorem bitStart_add_width_le {f g : Field} (h : f.Everywhere ByteAligned) {path : List Nat}
    (hat : f.at? path = some g) : f.bitStart path + g.width ≤ f.width := by
  induction path generalizing f with
  | nil =>
    obtain rfl : f = g := Option.some.inj hat
    simp
  | cons i path ih =>
    obtain ⟨c, hc, hcat⟩ := at?_cons_eq_some hat
    have hchild := ih (h.child hc) hcat
    have hsplit := totalBits_split hc
    have htotal := totalBits_children_le (h [] f rfl)
    rw [bitStart_cons hc]
    omega

/-- The bits of a field stand at its place in the bits of the tree. -/
theorem getElem?_bits_of_at? {f g : Field} (h : f.Everywhere ByteAligned) {path : List Nat}
    (hat : f.at? path = some g) {i : Nat} (hi : i < g.width) :
    f.bits[f.bitStart path + i]? = g.bits[i]? := by
  induction path generalizing f with
  | nil =>
    obtain rfl : f = g := Option.some.inj hat
    rw [bitStart_nil, Nat.zero_add]
  | cons k path ih =>
    obtain ⟨c, hc, hcat⟩ := at?_cons_eq_some hat
    have hwithin := bitStart_add_width_le (h.child hc) hcat
    have hplace : c.bitStart path + i < c.bits.length := by
      rw [length_bits]
      omega
    have hrun : (joinedBits f.children)[f.bitStart (k :: path) + i]? = g.bits[i]? := by
      rw [joinedBits_split hc, bitStart_cons hc, Nat.add_assoc,
        List.getElem?_append_right (by rw [length_joinedBits]; omega), length_joinedBits,
        Nat.add_sub_cancel_left, List.getElem?_append_left hplace, ih (h.child hc) hcat]
    obtain ⟨rest, hrest⟩ := bits_prefix (h [] f rfl)
    have hshort : f.bitStart (k :: path) + i < (joinedBits f.children).length := by
      have hsplit := totalBits_split hc
      rw [length_joinedBits, bitStart_cons hc]
      omega
    rw [← hrest, List.getElem?_append_left hshort, hrun]

/-- The bits of a field end before those of what comes after it begin. -/
theorem bitStart_add_width_le_bitStart {f g g' : Field} (h : f.Everywhere ByteAligned)
    {p q : List Nat} (hp : f.at? p = some g) (hq : f.at? q = some g') (hlt : p < q)
    (hbelow : ¬ p <+: q) : f.bitStart p + g.width ≤ f.bitStart q := by
  induction p generalizing f q with
  | nil => exact absurd List.nil_prefix hbelow
  | cons i p ih =>
    cases q with
    | nil => exact absurd hlt (List.not_lt_nil _)
    | cons j q =>
      obtain ⟨c, hc, hcp⟩ := at?_cons_eq_some hp
      obtain ⟨d, hd, hdq⟩ := at?_cons_eq_some hq
      rw [bitStart_cons hc, bitStart_cons hd]
      rcases List.cons_lt_cons_iff.mp hlt with hij | ⟨rfl, hrest⟩
      · have hwithin := bitStart_add_width_le (h.child hc) hcp
        have htake := totalBits_take_add_le hc hij
        omega
      · obtain rfl : c = d := Option.some.inj (hc.symm.trans hd)
        have := ih (h.child hc) hcp hdq hrest
          fun hpq => hbelow (List.cons_prefix_cons.mpr ⟨rfl, hpq⟩)
        omega

/-- The bit with an index belongs to some leaf. -/
def Covers (f : Field) (n : Nat) : Prop :=
  ∃ path tag content, f.at? path = some (leaf tag content) ∧ f.bitStart path ≤ n ∧
    n < f.bitStart path + (leaf tag content).width

theorem Covers.of_child {f c : Field} {i n : Nat} (hc : f.children[i]? = some c) (h : c.Covers n) :
    f.Covers (totalBits (f.children.take i) + n) := by
  obtain ⟨path, tag, content, hat, hstart, hstop⟩ := h
  refine ⟨i :: path, tag, content, ?_, ?_, ?_⟩
  · rw [at?_cons_of_child hc, hat]
  · rw [bitStart_cons hc]
    omega
  · rw [bitStart_cons hc]
    omega

mutual

/-- Bits that belong to no leaf are zero. -/
theorem covers_or_zero : ∀ {f : Field}, f.Everywhere ByteAligned → ∀ {n : Nat},
    f.bits[n]? = some true → f.Covers n
  | leaf tag content, _, n, hn => by
      have hlt := (List.getElem?_eq_some_iff.mp hn).1
      rw [length_bits] at hlt
      exact ⟨[], tag, content, rfl, Nat.zero_le n, by simpa using hlt⟩
  | group tag grouping children, h, n, hn => by
      rw [bits_group (h [] _ rfl)] at hn
      by_cases hrun : n < (joinedBits children).length
      · rw [List.getElem?_append_left hrun] at hn
        have hchildren : ∀ c ∈ children, c.Everywhere ByteAligned := by
          intro c hc
          obtain ⟨i, hi⟩ := List.mem_iff_getElem?.mp hc
          exact h.child hi
        obtain ⟨i, c, m, hc, rfl, hm⟩ := children_cover_or_zero hchildren hn
        exact hm.of_child hc
      · rw [List.getElem?_append_right (Nat.le_of_not_lt hrun)] at hn
        have hfalse := List.eq_of_mem_replicate (List.mem_of_getElem? hn)
        cases hfalse

theorem children_cover_or_zero : ∀ {cs : List Field},
    (∀ c ∈ cs, c.Everywhere ByteAligned) → ∀ {n : Nat},
    (joinedBits cs)[n]? = some true →
      ∃ i c m, cs[i]? = some c ∧ n = totalBits (cs.take i) + m ∧ c.Covers m
  | [], _, n, hn => by simp [joinedBits] at hn
  | c :: cs, h, n, hn => by
      have hbits : joinedBits (c :: cs) = c.bits ++ joinedBits cs := rfl
      rw [hbits] at hn
      by_cases hhead : n < c.bits.length
      · rw [List.getElem?_append_left hhead] at hn
        refine ⟨0, c, n, rfl, ?_, covers_or_zero (h c List.mem_cons_self) hn⟩
        rw [List.take_zero, totalBits, Nat.zero_add]
      · rw [List.getElem?_append_right (Nat.le_of_not_lt hhead), length_bits] at hn
        rw [length_bits] at hhead
        obtain ⟨i, d, m, hd, hm, hcovers⟩ :=
          children_cover_or_zero (fun d hd => h d (List.mem_cons_of_mem c hd)) hn
        refine ⟨i + 1, d, m, by simpa using hd, ?_, hcovers⟩
        rw [List.take_succ_cons, totalBits]
        rw [width] at hhead hm
        omega

end

/-! ## Rendering -/

/-- What the bytes of a tree are made of. -/
structure Rendered (root : Field) : Prop where
  length_eq : root.toBytes.length = root.size
  /-- Groups of bytes are the bytes of their children one after the other. -/
  joined : ∀ v ∈ root.visits, ∀ tag grouping children, v.field = group tag grouping children →
    grouping ≠ .bits →
      (∀ c ∈ children, c.unitBits = 8) ∧ v.field.toBytes = children.flatMap toBytes
  /-- Groups of bits are the bits of their children, highest first, and zeros up to a whole byte. -/
  packed : ∀ v ∈ root.visits, ∀ tag children, v.field = group tag .bits children →
    Bits.ofUnits 8 v.field.toBytes = children.flatMap bits ++
      List.replicate (8 * ((totalBits children + 7) / 8) - totalBits children) false
  /-- Every bit of a field stands at its place. -/
  placed : ∀ v ∈ root.visits, ∀ i < v.field.width,
    (Bits.ofUnits 8 root.toBytes)[root.bitStart v.path + i]? = v.field.bits[i]?
  /-- Leaves stand one after the other. -/
  ordered : ∀ v ∈ root.visits, ∀ w ∈ root.visits, (∃ tag content, v.field = leaf tag content) →
    v.position < w.position → root.bitStart v.path + v.field.width ≤ root.bitStart w.path
  padded : ∀ n, ¬ root.Covers n → (Bits.ofUnits 8 root.toBytes)[n]? ≠ some true

theorem path_lt_of_position_lt {root : Field} {v w : Visit} (hv : v ∈ root.visits)
    (hw : w ∈ root.visits) (hlt : v.position < w.position) : v.path < w.path := by
  obtain ⟨i, hi⟩ := List.mem_iff_getElem?.mp hv
  obtain ⟨j, hj⟩ := List.mem_iff_getElem?.mp hw
  rcases Nat.lt_trichotomy i j with hij | rfl | hji
  · exact pairwise_getElem? root.pairwise_path_visits hij hi hj
  · rw [hi] at hj
    obtain rfl := Option.some.inj hj
    exact absurd hlt (Nat.lt_irrefl _)
  · have := pairwise_getElem? root.pairwise_position_visits hji hj hi
    omega

theorem not_below_leaf {root : Field} {v w : Visit} (hv : v ∈ root.visits) (hw : w ∈ root.visits)
    {tag : Tag} {content : Leaf} (hleaf : v.field = leaf tag content)
    (hlt : v.position < w.position) : ¬ v.path <+: w.path := by
  intro hbelow
  have hend := position_lt_of_below hv hw hbelow
  rw [hleaf, nodeCount] at hend
  omega

theorem rendered_of_aligned {root : Field} (h : root.Everywhere ByteAligned)
    (hroot : root.unitBits = 8) : root.Rendered := by
  have hbits : Bits.ofUnits 8 root.toBytes = root.bits := by
    rw [toBytes_of_unitBits hroot, bits, hroot]
  have haligned : ∀ v ∈ root.visits, v.field.ByteAligned :=
    fun v hv => h v.path v.field (mem_visits.mp hv).1
  constructor
  · rw [toBytes_of_unitBits hroot, length_units]
  · intro v hv tag grouping children hgroup hgrouping
    have hv := haligned v hv
    rw [hgroup] at hv ⊢
    exact ⟨hv tag grouping children rfl hgrouping, toBytes_of_ne_bits hv hgrouping⟩
  · intro v hv tag children hgroup
    have hv := haligned v hv
    rw [hgroup] at hv ⊢
    have hgroupbits := bits_group hv
    rw [padding, if_pos rfl, joinedBits_eq_flatMap] at hgroupbits
    exact hgroupbits
  · intro v hv i hi
    rw [hbits]
    exact getElem?_bits_of_at? h (mem_visits.mp hv).1 hi
  · rintro v hv w hw ⟨tag, content, hleaf⟩ hlt
    have hpath := path_lt_of_position_lt hv hw hlt
    have hbelow := not_below_leaf hv hw hleaf hlt
    exact bitStart_add_width_le_bitStart h (mem_visits.mp hv).1 (mem_visits.mp hw).1 hpath hbelow
  · intro n hn htrue
    rw [hbits] at htrue
    exact hn (covers_or_zero h htrue)

end ArtifactLayout.Field
