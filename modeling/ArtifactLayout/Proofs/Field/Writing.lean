import ArtifactLayout.Proofs.Field.Lookup
import ArtifactLayout.Proofs.Field.Update

/-! # Laws of writing

Writing all units of a field leaves nothing of what it held: it keeps of each unit the bits that it has
room for, and of a bit group the bits behind the last child have no room. To write fewer units, or to
replace one, is to write all units back with those changed. The laws of reading and writing single units
follow from these two facts, on every tree.
-/

namespace ArtifactLayout
set_option autoImplicit false

/-! ## Splicing -/

section Splice
variable {α β : Type}

theorem getElem?_splice (old new : List α) (start n : Nat) :
    (splice old start new)[n]? =
      if start ≤ n ∧ n < start + new.length ∧ n < old.length then new[n - start]? else old[n]? := by
  simp only [splice, List.getElem?_append, List.getElem?_take, List.getElem?_drop, List.length_take]
  grind

theorem splice_append (as bs new : List α) :
    splice (as ++ bs) 0 new = splice as 0 (new.take as.length) ++ splice bs 0 (new.drop as.length) := by
  refine List.ext_getElem? fun n => ?_
  simp only [List.getElem?_append, getElem?_splice, length_splice, List.getElem?_take,
    List.getElem?_drop, List.length_append, List.length_take, List.length_drop]
  grind

theorem splice_of_length_eq {old new : List α} (h : new.length = old.length) :
    splice old 0 new = new := by
  rw [splice_zero (Nat.le_of_eq h), List.drop_eq_nil_of_le (Nat.le_of_eq h.symm), List.append_nil]

theorem splice_of_length_le {old new : List α} (h : old.length ≤ new.length) :
    splice old 0 new = new.take old.length := by
  refine List.ext_getElem? fun n => ?_
  simp only [getElem?_splice, List.getElem?_take]
  grind

theorem map_splice (f : α → β) (old new : List α) (start : Nat) :
    (splice old start new).map f = splice (old.map f) start (new.map f) := by
  simp [splice]

theorem splice_singleton (old : List α) (i : Nat) (a : α) : splice old i [a] = old.set i a := by
  refine List.ext_getElem? fun n => ?_
  simp only [getElem?_splice, List.getElem?_set]
  grind

end Splice

namespace Bits

theorem ofUnit_injective {u v : UInt8} (h : ofUnit 8 u = ofUnit 8 v) : u = v := by
  refine UInt8.toNat_inj.mp (Nat.eq_of_testBit_eq fun i => ?_)
  by_cases hi : i < 8
  · have hplace := congrArg (fun bits => bits[7 - i]?) h
    have hindex : 7 - (7 - i) = i := by omega
    simpa [ofUnit, show 7 - i < 8 by omega, hindex] using hplace
  · have hlt : ∀ byte : UInt8, byte.toNat < 2 ^ i := fun byte =>
      Nat.lt_of_lt_of_le byte.toNat_lt (Nat.pow_le_pow_right (by decide) (by omega))
    rw [Nat.testBit_lt_two_pow (hlt u), Nat.testBit_lt_two_pow (hlt v)]

theorem ofUnits_injective {us vs : List UInt8} (h : ofUnits 8 us = ofUnits 8 vs) : us = vs := by
  induction us generalizing vs with
  | nil =>
    cases vs with
    | nil => rfl
    | cons v vs => simp [ofUnits, ofUnit] at h
  | cons u us ih =>
    cases vs with
    | nil => simp [ofUnits, ofUnit] at h
    | cons v vs =>
      obtain ⟨hunit, hrest⟩ := List.append_inj h (by simp)
      rw [ofUnit_injective hunit, ih hrest]

theorem pack_ofUnits (us : List UInt8) : pack (ofUnits 8 us) = us := by
  refine ofUnits_injective ?_
  have hwhole : 8 * ((8 * us.length + 7) / 8) - 8 * us.length = 0 := by omega
  rw [ofUnits_pack, length_ofUnits, hwhole, List.replicate_zero, List.append_nil]

theorem map_testBit_toUInt8 (bits : List Bool) :
    (bits.map Bool.toUInt8).map (·.toNat.testBit 0) = bits := by
  have hbit : ∀ b : Bool, b.toUInt8.toNat.testBit 0 = b := by decide
  rw [List.map_map]
  exact List.map_id'' hbit bits

theorem ofUnits_one (us : List UInt8) : ofUnits 1 us = us.map (·.toNat.testBit 0) := by
  induction us with
  | nil => rfl
  | cons u us ih =>
    rw [List.map_cons, ← ih]
    rfl

theorem length_toUnits {width : Nat} (hwidth : width = 1 ∨ width = 8) {bits : List Bool} {n : Nat}
    (h : bits.length = n * width) : (toUnits width bits).length = n := by
  rcases hwidth with rfl | rfl
  · simpa [toUnits] using h
  · simp [toUnits, h]
    omega

theorem ofUnits_toUnits {width : Nat} (hwidth : width = 1 ∨ width = 8) {bits : List Bool} {n : Nat}
    (h : bits.length = n * width) : ofUnits width (toUnits width bits) = bits := by
  rcases hwidth with rfl | rfl
  · rw [toUnits, if_pos rfl, ofUnits_one, map_testBit_toUInt8]
  · have hwhole : 8 * ((n * 8 + 7) / 8) - n * 8 = 0 := by omega
    simp [toUnits, ofUnits_pack, h, hwhole]

theorem ofUnit_and (width : Nat) (u v : UInt8) :
    ofUnit width (u &&& v) = List.zipWith and (ofUnit width u) (ofUnit width v) := by
  refine List.ext_getElem (by simp) fun i hi hi' => ?_
  simp [ofUnit, UInt8.toNat_and, Nat.testBit_and]

theorem ofUnits_and (width : Nat) (us vs : List UInt8) :
    ofUnits width (List.zipWith (· &&& ·) us vs) =
      List.zipWith and (ofUnits width us) (ofUnits width vs) := by
  induction us generalizing vs with
  | nil => simp [ofUnits]
  | cons u us ih =>
    cases vs with
    | nil => simp [ofUnits]
    | cons v vs =>
      simp only [ofUnits, List.zipWith_cons_cons, List.flatMap_cons]
      rw [List.zipWith_append (by simp), ofUnit_and]
      exact congrArg _ (ih vs)

theorem zipWith_and_replicate_false (bits : List Bool) :
    List.zipWith and bits (List.replicate bits.length false) = List.replicate bits.length false := by
  induction bits with
  | nil => rfl
  | cons b bits ih => simp [List.replicate_succ, ih]

/-- Behind the bits that there is room for nothing is left. -/
theorem zipWith_and_padded {bits room : List Bool} {n : Nat} (h : bits.length = room.length + n) :
    List.zipWith and bits (room ++ List.replicate n false) =
      List.zipWith and (bits.take room.length) room ++ List.replicate n false := by
  have htake : (bits.take room.length).length = room.length := by
    rw [List.length_take, h]
    omega
  have hdrop : (bits.drop room.length).length = n := by
    rw [List.length_drop, h, Nat.add_sub_cancel_left]
  conv_lhs => rw [← List.take_append_drop room.length bits]
  rw [List.zipWith_append htake, ← hdrop, zipWith_and_replicate_false]

/-- Units that replace packed ones from an index on replace their bits. -/
theorem splice_ofUnits_splice_pack (bits : List Bool) (i : Nat) (us : List UInt8) :
    splice bits 0 (ofUnits 8 (splice (pack bits) i us)) = splice bits (8 * i) (ofUnits 8 us) := by
  have h8 : 0 < 8 := by decide
  refine List.ext_getElem? fun n => ?_
  by_cases hn : n < bits.length
  · have hold : (pack bits)[n / 8]?.map (fun unit => unit.toNat.testBit (8 - 1 - n % 8)) =
        bits[n]? := by
      rw [← getElem?_ofUnits h8, ofUnits_pack, List.getElem?_append_left hn]
    have hwithin : n < 8 * ((bits.length + 7) / 8) := by omega
    rw [getElem?_splice, length_ofUnits, length_splice, length_pack, if_pos (by omega), Nat.sub_zero,
      getElem?_ofUnits h8, getElem?_splice, getElem?_splice, length_ofUnits, length_pack]
    by_cases hi : 8 * i ≤ n ∧ n < 8 * i + 8 * us.length
    · rw [if_pos (by omega), if_pos (by omega), getElem?_ofUnits h8,
        show (n - 8 * i) / 8 = n / 8 - i by omega, show (n - 8 * i) % 8 = n % 8 by omega]
    · rw [if_neg (by omega), if_neg (by omega), hold]
  · rw [List.getElem?_eq_none (by simpa using hn), List.getElem?_eq_none (by simpa using hn)]

end Bits

namespace Leaf

/-- The leaf with all bits of its content set. -/
def full : Leaf → Leaf
  | block content => block (Array.replicate content.size 255)
  | ranged low high content => ranged low high (Array.replicate content.size 255)
  | bitfield content => bitfield (Array.replicate content.size true)

theorem blank_full (l : Leaf) : l.full.blank = l.blank := by cases l <;> simp [full, blank]

theorem full_blank (l : Leaf) : l.blank.full = l.full := by cases l <;> simp [full, blank]

theorem withUnits_units (l : Leaf) : l.withUnits l.units = l := by
  cases l with
  | block content | ranged low high content =>
    simp only [withUnits, units, splice_of_length_eq rfl]
  | bitfield content =>
    simp only [withUnits, units, Bits.map_testBit_toUInt8, splice_of_length_eq rfl]

/-- What a leaf held before is lost when it is written full. -/
theorem withUnits_blank (l : Leaf) {us : List UInt8} (h : us.length = l.size) :
    l.blank.withUnits us = l.withUnits us := by
  cases l <;> simp_all [blank, withUnits, splice_of_length_eq, size]

theorem kept_eq_and (l : Leaf) (unit : UInt8) : l.kept unit = unit &&& l.kept 255 := by
  cases l with
  | block content | ranged low high content => exact UInt8.and_neg_one.symm
  | bitfield content =>
    refine UInt8.toNat_inj.mp ?_
    change (unit.toNat.testBit 0).toUInt8.toNat = (unit &&& 1).toNat
    rw [UInt8.toNat_and, Nat.testBit_zero, show (1 : UInt8).toNat = 1 from rfl, Nat.and_one_is_mod]
    rcases Nat.mod_two_eq_zero_or_one unit.toNat with h | h <;> rw [h] <;> rfl

theorem units_full (l : Leaf) : l.full.units = List.replicate l.size (l.kept 255) := by
  cases l <;> simp [full, units, size, kept]

/-- A leaf that is written full keeps of each unit the bits it has room for. -/
theorem units_withUnits_full (l : Leaf) {us : List UInt8} (h : us.length = l.size) :
    (l.withUnits us).units = List.zipWith (· &&& ·) us l.full.units := by
  rw [units_withUnits l (Nat.le_of_eq h), List.drop_eq_nil_of_le (by rw [length_units, h]),
    List.append_nil, units_full]
  refine List.ext_getElem (by simp [h]) fun i hi hi' => ?_
  simp only [List.getElem_map, List.getElem_zipWith, List.getElem_replicate]
  exact l.kept_eq_and _

theorem setUnit_eq_withUnits (l : Leaf) (i : Nat) (v : UInt8) :
    l.setUnit i v = l.withUnits (l.units.set i v) := by
  cases l with
  | block content | ranged low high content =>
    simp [setUnit, withUnits, units, splice_of_length_eq, ← Array.toList_setIfInBounds]
  | bitfield content =>
    have hbits := Bits.map_testBit_toUInt8 content.toList
    rw [setUnit, withUnits, units, List.map_set, hbits, splice_of_length_eq (by simp)]
    simp [← Array.toList_setIfInBounds]

theorem withUnits_splice_units (l : Leaf) (us : List UInt8) :
    l.withUnits (splice l.units 0 us) = l.withUnits us := by
  cases l with
  | block content | ranged low high content =>
    simp only [withUnits, units, splice_of_length_eq (length_splice _ _ _)]
  | bitfield content =>
    have hbits := Bits.map_testBit_toUInt8 content.toList
    simp only [withUnits, units, map_splice, hbits, splice_of_length_eq (length_splice _ _ _)]

end Leaf

namespace Field

theorem unitBits_eq_one_or_eight (f : Field) : f.unitBits = 1 ∨ f.unitBits = 8 := by
  cases f with
  | leaf tag content => cases content <;> simp [unitBits, Leaf.unitBits]
  | group tag grouping children => exact .inr rfl

/-! ## All bits set -/

mutual

/-- The tree with all bits of its leaves set. -/
def full : Field → Field
  | leaf tag content => leaf tag content.full
  | group tag grouping children => group tag grouping (fulls children)

def fulls : List Field → List Field
  | [] => []
  | c :: cs => c.full :: fulls cs

end

/-- The bits that a field has room for in the unit with an index. -/
def mask (f : Field) (i : Nat) : UInt8 := f.full.units.getD i 0

mutual

theorem blank_full : ∀ f : Field, f.full.blank = f.blank
  | leaf tag content => congrArg (leaf tag) content.blank_full
  | group tag grouping children => congrArg (group tag grouping) (blanks_fulls children)

theorem blanks_fulls : ∀ cs : List Field, blanks (fulls cs) = blanks cs
  | [] => rfl
  | c :: cs => by rw [fulls, blanks, blanks, blank_full c, blanks_fulls cs]

end

mutual

theorem full_blank : ∀ f : Field, f.blank.full = f.full
  | leaf tag content => congrArg (leaf tag) content.full_blank
  | group tag grouping children => congrArg (group tag grouping) (fulls_blanks children)

theorem fulls_blanks : ∀ cs : List Field, fulls (blanks cs) = fulls cs
  | [] => rfl
  | c :: cs => by rw [blanks, fulls, fulls, full_blank c, fulls_blanks cs]

end

theorem sameShape_full (f : Field) : f.full.SameShape f := blank_full f

@[simp] theorem size_full (f : Field) : f.full.size = f.size := f.sameShape_full.size_eq

@[simp] theorem unitBits_full (f : Field) : f.full.unitBits = f.unitBits :=
  f.sameShape_full.unitBits_eq

@[simp] theorem totalBits_fulls (cs : List Field) : totalBits (fulls cs) = totalBits cs := by
  rw [← totalBits_blanks, blanks_fulls, totalBits_blanks]

/-- The bits that a field has room for depend on its shape alone. -/
theorem SameShape.mask_eq {f g : Field} (s : f.SameShape g) : f.mask = g.mask := by
  have hfull : f.full = g.full := by rw [← full_blank f, s, full_blank]
  unfold mask
  rw [hfull]

/-! ## Writing what was read -/

theorem joinedBits_cons (c : Field) (cs : List Field) : joinedBits (c :: cs) = c.bits ++ joinedBits cs :=
  rfl

/-- Bits that a field has no room for may be anything in the units that are written. -/
theorem withUnits_toUnits_ofUnits (f : Field) (us : List UInt8) :
    f.withUnits (Bits.toUnits f.unitBits (Bits.ofUnits f.unitBits us)) = f.withUnits us := by
  have hbytes : Bits.toUnits 8 (Bits.ofUnits 8 us) = us := Bits.pack_ofUnits us
  cases f with
  | leaf tag content =>
    cases content with
    | block content | ranged low high content => exact congrArg _ hbytes
    | bitfield content =>
      have hbits := Bits.map_testBit_toUInt8 (us.map (·.toNat.testBit 0))
      simp only [unitBits, Leaf.unitBits, Bits.ofUnits_one, Bits.toUnits, if_pos, withUnits,
        Leaf.withUnits, hbits]
  | group tag grouping children => exact congrArg _ hbytes

mutual

theorem withUnits_units : ∀ f : Field, f.withUnits f.units = f
  | leaf tag content => congrArg (leaf tag) content.withUnits_units
  | group tag .bits children => by
      have hbits : splice (joinedBits children) 0 (Bits.ofUnits 8 (Bits.pack (joinedBits children))) =
          joinedBits children := by
        rw [splice_of_length_le (by simp [Bits.ofUnits_pack]), Bits.ofUnits_pack, List.take_left']
        rfl
      rw [units, withUnits, hbits, withBits_joinedBits children]
  | group tag .compound children => congrArg (group tag .compound) (withJoined_joinedUnits children)
  | group tag .repeated children => congrArg (group tag .repeated) (withJoined_joinedUnits children)

theorem withJoined_joinedUnits : ∀ cs : List Field, withJoined cs (joinedUnits cs) = cs
  | [] => rfl
  | c :: cs => by
      have hlength := length_units c
      rw [joinedUnits, withJoined, List.take_left' hlength, List.drop_left' hlength,
        withUnits_units c, withJoined_joinedUnits cs]

theorem withBits_joinedBits : ∀ cs : List Field, withBits cs (joinedBits cs) = cs
  | [] => rfl
  | c :: cs => by
      have hlength : c.bits.length = c.size * c.unitBits := length_bits c
      rw [joinedBits_cons, withBits]
      rw [List.take_left' hlength, List.drop_left' hlength, bits, withUnits_toUnits_ofUnits,
        withUnits_units c, withBits_joinedBits cs]

end

/-! ## Writing a field full -/

/-- The units of a bit group have at least the bits of its children. -/
theorem length_take_ofUnits {tag : Tag} {cs : List Field} {us : List UInt8}
    (h : us.length = (group tag .bits cs).size) :
    ((Bits.ofUnits 8 us).take (totalBits cs)).length = totalBits cs := by
  rw [size] at h
  rw [List.length_take, length_ofUnits]
  omega

/-- A bit group that is written full deals out all bits but those behind its last child. -/
theorem splice_joinedBits {cs : List Field} {us : List UInt8}
    (h : us.length = (totalBits cs + 7) / 8) :
    splice (joinedBits cs) 0 (Bits.ofUnits 8 us) = (Bits.ofUnits 8 us).take (totalBits cs) := by
  rw [splice_of_length_le (by rw [length_ofUnits, length_joinedBits]; omega), length_joinedBits]

mutual

/-- What a field held before is lost when it is written full. -/
theorem withUnits_blank : ∀ (f : Field) {us : List UInt8}, us.length = f.size →
    f.blank.withUnits us = f.withUnits us
  | leaf tag content, us, h => congrArg (leaf tag) (content.withUnits_blank h)
  | group tag .bits children, us, h => by
      have hbits := length_take_ofUnits h
      rw [size] at h
      rw [blank, withUnits, withUnits, splice_joinedBits h,
        splice_joinedBits (by rwa [totalBits_blanks]), totalBits_blanks, withBits_blanks children hbits]
  | group tag .compound children, us, h => congrArg (group tag .compound) (withJoined_blanks children h)
  | group tag .repeated children, us, h => congrArg (group tag .repeated) (withJoined_blanks children h)

theorem withJoined_blanks : ∀ (cs : List Field) {us : List UInt8}, us.length = totalUnits cs →
    withJoined (blanks cs) us = withJoined cs us
  | [], _, _ => rfl
  | c :: cs, us, h => by
      rw [totalUnits] at h
      rw [blanks, withJoined, withJoined, size_blank, withUnits_blank c (by simp; omega),
        withJoined_blanks cs (by simp; omega)]

theorem withBits_blanks : ∀ (cs : List Field) {bs : List Bool}, bs.length = totalBits cs →
    withBits (blanks cs) bs = withBits cs bs
  | [], _, _ => rfl
  | c :: cs, bs, h => by
      rw [totalBits] at h
      have hunits : (Bits.toUnits c.unitBits (bs.take (c.size * c.unitBits))).length = c.size :=
        Bits.length_toUnits c.unitBits_eq_one_or_eight (by simp; omega)
      rw [blanks, withBits, withBits]
      rw [size_blank, unitBits_blank, withUnits_blank c hunits, withBits_blanks cs (by simp; omega)]

end

theorem unitBits_withUnits (f : Field) (us : List UInt8) : (f.withUnits us).unitBits = f.unitBits :=
  SameShape.unitBits_eq (blank_withUnits f us)

/-- What is kept of units is kept of bits. -/
theorem bits_withUnits_of_kept {f : Field} {bs : List Bool} (h : bs.length = f.width)
    (kept : ∀ {us : List UInt8}, us.length = f.size →
      (f.withUnits us).units = List.zipWith (· &&& ·) us f.full.units) :
    (f.withUnits (Bits.toUnits f.unitBits bs)).bits = List.zipWith and bs f.full.bits := by
  rw [bits, unitBits_withUnits, kept (Bits.length_toUnits f.unitBits_eq_one_or_eight h),
    Bits.ofUnits_and, Bits.ofUnits_toUnits f.unitBits_eq_one_or_eight h, bits, unitBits_full]

mutual

/-- A field that is written full keeps of each unit the bits it has room for. -/
theorem units_withUnits_full : ∀ (f : Field) {us : List UInt8}, us.length = f.size →
    (f.withUnits us).units = List.zipWith (· &&& ·) us f.full.units
  | leaf tag content, us, h => content.units_withUnits_full h
  | group tag .bits children, us, h => by
      have hbits := length_take_ofUnits h
      have hroom : (joinedBits (fulls children)).length = totalBits children := by
        rw [length_joinedBits, totalBits_fulls]
      have hlength : (Bits.ofUnits 8 us).length = (joinedBits (fulls children)).length +
          (8 * ((totalBits children + 7) / 8) - totalBits children) := by
        rw [length_ofUnits, h, hroom, size]
        omega
      have hpadded := Bits.zipWith_and_padded hlength
      rw [hroom] at hpadded
      refine Bits.ofUnits_injective ?_
      rw [withUnits, units, splice_joinedBits h, joinedBits_withBits children hbits, full, units,
        Bits.ofUnits_and, Bits.ofUnits_pack, Bits.ofUnits_pack, List.length_zipWith, hbits, hroom,
        Nat.min_self, hpadded]
  | group tag .compound children, us, h => joinedUnits_withJoined children h
  | group tag .repeated children, us, h => joinedUnits_withJoined children h

theorem joinedUnits_withJoined : ∀ (cs : List Field) {us : List UInt8}, us.length = totalUnits cs →
    joinedUnits (withJoined cs us) = List.zipWith (· &&& ·) us (joinedUnits (fulls cs))
  | [], _, _ => by simp [withJoined, joinedUnits, fulls]
  | c :: cs, us, h => by
      rw [totalUnits] at h
      have htake : (us.take c.size).length = c.size := by simp; omega
      rw [withJoined, joinedUnits, units_withUnits_full c htake,
        joinedUnits_withJoined cs (by simp; omega), fulls, joinedUnits,
        ← List.zipWith_append (by rw [htake, length_units, size_full]), List.take_append_drop]

theorem joinedBits_withBits : ∀ (cs : List Field) {bs : List Bool}, bs.length = totalBits cs →
    joinedBits (withBits cs bs) = List.zipWith and bs (joinedBits (fulls cs))
  | [], _, _ => by simp [withBits, joinedBits, fulls]
  | c :: cs, bs, h => by
      rw [totalBits] at h
      have htake : (bs.take (c.size * c.unitBits)).length = c.size * c.unitBits := by simp; omega
      have hbits := bits_withUnits_of_kept htake (units_withUnits_full c)
      have hfull : c.full.bits.length = c.size * c.unitBits := by
        rw [length_bits, width, size_full, unitBits_full]
      rw [withBits, joinedBits_cons, hbits, joinedBits_withBits cs (by simp; omega), fulls,
        joinedBits_cons,
        ← List.zipWith_append (by rw [htake, hfull]), List.take_append_drop]

end

section Full
variable {f g : Field} {us vs : List UInt8}

/-- Nothing is left of what was written before. -/
theorem SameShape.withUnits_eq (s : f.SameShape g) (h : us.length = g.size) :
    f.withUnits us = g.withUnits us := by
  rw [← withUnits_blank f (s.size_eq ▸ h), s, withUnits_blank g h]

theorem withUnits_withUnits (h : vs.length = f.size) :
    (f.withUnits us).withUnits vs = f.withUnits vs :=
  SameShape.withUnits_eq (blank_withUnits f us) h

/-- Only the bits that a field has room for matter. -/
theorem withUnits_masked (h : us.length = f.size) :
    f.withUnits (List.zipWith (· &&& ·) us f.full.units) = f.withUnits us :=
  calc f.withUnits (List.zipWith (· &&& ·) us f.full.units)
    _ = (f.withUnits us).withUnits (List.zipWith (· &&& ·) us f.full.units) :=
      (withUnits_withUnits (by simp [h, length_units])).symm
    _ = (f.withUnits us).withUnits (f.withUnits us).units := by rw [units_withUnits_full f h]
    _ = f.withUnits us := withUnits_units _

theorem getElem_full {i : Nat} (hi : i < f.full.units.length) : f.full.units[i] = f.mask i := by
  rw [mask, List.getD_eq_getElem?_getD, List.getElem?_eq_getElem hi, Option.getD_some]

theorem getElem?_full {i : Nat} (h : i < f.size) : f.full.units[i]? = some (f.mask i) := by
  have hi : i < f.full.units.length := by rwa [length_units, size_full]
  rw [List.getElem?_eq_getElem hi, getElem_full hi]

theorem withUnits_set_mask (h : us.length = f.size) (i : Nat) (v : UInt8) :
    f.withUnits (us.set i (v &&& f.mask i)) = f.withUnits (us.set i v) := by
  have hkept : List.zipWith (· &&& ·) (us.set i (v &&& f.mask i)) f.full.units =
      List.zipWith (· &&& ·) (us.set i v) f.full.units := by
    refine List.ext_getElem (by simp) fun n hn hn' => ?_
    simp only [List.getElem_zipWith, List.getElem_set, getElem_full]
    split
    · rename_i hi
      rw [hi, UInt8.and_assoc, UInt8.and_self]
    · rfl
  rw [← withUnits_masked (by simpa using h), hkept, withUnits_masked (by simpa using h)]

/-- A field holds no bits that it has no room for. -/
theorem unit_and_mask {i : Nat} {unit : UInt8} (h : f.units[i]? = some unit) :
    unit &&& f.mask i = unit := by
  have hread := units_withUnits_full f (length_units f)
  obtain ⟨hi, rfl⟩ := List.getElem?_eq_some_iff.mp h
  have hfull : i < f.full.units.length := by rwa [length_units, size_full, ← length_units]
  rw [withUnits_units] at hread
  conv_rhs => rw [List.getElem_of_eq hread hi]
  rw [List.getElem_zipWith, getElem_full hfull]

end Full

section Bits
variable {cs : List Field} {bs : List Bool}

theorem totalBits_withBits (cs : List Field) (bs : List Bool) :
    totalBits (withBits cs bs) = totalBits cs := by
  rw [← totalBits_blanks, blanks_withBits, totalBits_blanks]

theorem withBits_withBits {bs' : List Bool} (h : bs'.length = totalBits cs) :
    withBits (withBits cs bs) bs' = withBits cs bs' := by
  rw [← withBits_blanks (withBits cs bs) (by rw [h, totalBits_withBits]), blanks_withBits,
    withBits_blanks cs h]

theorem withBits_masked (h : bs.length = totalBits cs) :
    withBits cs (List.zipWith and bs (joinedBits (fulls cs))) = withBits cs bs :=
  calc withBits cs (List.zipWith and bs (joinedBits (fulls cs)))
    _ = withBits (withBits cs bs) (List.zipWith and bs (joinedBits (fulls cs))) :=
      (withBits_withBits (by simp [h, length_joinedBits])).symm
    _ = withBits (withBits cs bs) (joinedBits (withBits cs bs)) := by rw [joinedBits_withBits cs h]
    _ = withBits cs bs := withBits_joinedBits _

/-- One bit that is replaced after all were dealt out might have been replaced before. -/
theorem withBits_set (h : bs.length = totalBits cs) (n : Nat) (b : Bool) :
    withBits (withBits cs bs) ((joinedBits (withBits cs bs)).set n b) = withBits cs (bs.set n b) := by
  have hkept : List.zipWith and ((List.zipWith and bs (joinedBits (fulls cs))).set n b)
      (joinedBits (fulls cs)) = List.zipWith and (bs.set n b) (joinedBits (fulls cs)) := by
    refine List.ext_getElem (by simp) fun m hm hm' => ?_
    simp only [List.getElem_zipWith, List.getElem_set]
    split <;> simp
  have hlength : (List.zipWith and bs (joinedBits (fulls cs))).length = totalBits cs := by
    simp [h, length_joinedBits]
  rw [joinedBits_withBits cs h, withBits_withBits (by simpa using hlength),
    ← withBits_masked (by simpa using hlength), hkept, withBits_masked (by simpa using h)]

end Bits

/-! ## Replacing one unit -/

mutual

/-- To replace a unit is to write all units back, that one changed. -/
theorem setUnit_eq_withUnits : ∀ (f : Field) (i : Nat) (v : UInt8),
    f.setUnit i v = f.withUnits (f.units.set i v)
  | leaf tag content, i, v => congrArg (leaf tag) (content.setUnit_eq_withUnits i v)
  | group tag .bits children, i, v => by
      have hbits := Bits.splice_ofUnits_splice_pack (joinedBits children) i [v]
      rw [splice_singleton] at hbits
      rw [setUnit, units, withUnits, hbits]
      simp [Bits.ofUnits]
  | group tag .compound children, i, v =>
      congrArg (group tag .compound) (setJoined_eq_withJoined children i v)
  | group tag .repeated children, i, v =>
      congrArg (group tag .repeated) (setJoined_eq_withJoined children i v)

theorem setJoined_eq_withJoined : ∀ (cs : List Field) (i : Nat) (v : UInt8),
    setJoined cs i v = withJoined cs ((joinedUnits cs).set i v)
  | [], _, _ => rfl
  | c :: cs, i, v => by
      rw [setJoined, joinedUnits, List.set_append, length_units]
      split
      · rw [withJoined, List.take_left' (by simp [length_units]), List.drop_left' (by simp [length_units]),
          setUnit_eq_withUnits c, withJoined_joinedUnits]
      · rw [withJoined, List.take_left' (length_units c), List.drop_left' (length_units c),
          withUnits_units, setJoined_eq_withJoined cs]

end

mutual

/-- To write fewer units than a field has is to write all units back, the first ones changed. -/
theorem withUnits_splice_units : ∀ (f : Field) (us : List UInt8),
    f.withUnits (splice f.units 0 us) = f.withUnits us
  | leaf tag content, us => congrArg (leaf tag) (content.withUnits_splice_units us)
  | group tag .bits children, us => by
      rw [units, withUnits, withUnits, Bits.splice_ofUnits_splice_pack]
  | group tag .compound children, us =>
      congrArg (group tag .compound) (withJoined_splice_joinedUnits children us)
  | group tag .repeated children, us =>
      congrArg (group tag .repeated) (withJoined_splice_joinedUnits children us)

theorem withJoined_splice_joinedUnits : ∀ (cs : List Field) (us : List UInt8),
    withJoined cs (splice (joinedUnits cs) 0 us) = withJoined cs us
  | [], _ => rfl
  | c :: cs, us => by
      rw [joinedUnits, splice_append, length_units, withJoined, withJoined,
        List.take_left' (by simp [length_units]), List.drop_left' (by simp [length_units]),
        withUnits_splice_units c, withJoined_splice_joinedUnits cs]

end

/-! ## What a replaced unit leaves -/

theorem units_setUnit (f : Field) (i : Nat) (v : UInt8) :
    (f.setUnit i v).units = f.units.set i (v &&& f.mask i) := by
  rw [setUnit_eq_withUnits, units_withUnits_full f (by rw [List.length_set, length_units])]
  refine List.ext_getElem (by simp [length_units]) fun n hn hn' => ?_
  rw [List.length_set] at hn'
  have hfull : n < f.full.units.length := by rwa [length_units, size_full, ← length_units]
  rw [List.getElem_zipWith, List.getElem_set, List.getElem_set, getElem_full hfull]
  split
  · rename_i hi
    rw [hi]
  · exact unit_and_mask (List.getElem?_eq_getElem hn')

theorem setUnit_setUnit (f : Field) (i : Nat) (v w : UInt8) :
    (f.setUnit i v).setUnit i w = f.setUnit i w := by
  rw [setUnit_eq_withUnits (f.setUnit i v), units_setUnit, List.set_set, setUnit_eq_withUnits f i v,
    withUnits_withUnits (by rw [List.length_set, length_units]), ← setUnit_eq_withUnits]

theorem setUnit_of_unit {f : Field} {i : Nat} {unit : UInt8} (h : f.units[i]? = some unit) :
    f.setUnit i unit = f := by
  obtain ⟨hi, rfl⟩ := List.getElem?_eq_some_iff.mp h
  rw [setUnit_eq_withUnits, List.set_getElem_self, withUnits_units]

theorem size_setUnit (f : Field) (i : Nat) (v : UInt8) : (f.setUnit i v).size = f.size :=
  SameShape.size_eq (blank_setUnit f i v)

/-! ## Checked forms -/

section Checked
variable {f : Field} {i : Nat} {us : List UInt8}

theorem set_of_lt (h : i < f.size) (v : UInt8) : f.set i v = .ok (f.setUnit i v) := if_pos h

theorem set_of_le (h : f.size ≤ i) (v : UInt8) : f.set i v = .error (.indexOutOfRange i f.size) :=
  if_neg (Nat.not_lt.mpr h)

theorem write_of_le (h : us.length ≤ f.size) : f.write us = .ok (f.withUnits us) :=
  if_neg (Nat.not_lt.mpr h)

theorem write_of_lt (h : f.size < us.length) :
    f.write us = .error (.contentTooWide us.length f.size) := if_pos h

end Checked

/-! ## The child that holds it -/

section Joined
variable {tag : Tag} {grouping : Grouping}

theorem size_of_ne_bits (h : grouping ≠ .bits) (cs : List Field) :
    (group tag grouping cs).size = (cs.map size).sum := by
  cases grouping with
  | bits => exact absurd rfl h
  | compound | repeated => exact totalUnits_eq_sum cs

theorem setUnit_of_ne_bits (h : grouping ≠ .bits) (cs : List Field) (i : Nat) (v : UInt8) :
    (group tag grouping cs).setUnit i v = group tag grouping (setJoined cs i v) := by
  cases grouping with
  | bits => exact absurd rfl h
  | compound | repeated => rfl

end Joined

section Holds
variable {cs : List Field} {weight : Field → Nat}

theorem startOf_cons_succ (c : Field) (cs : List Field) (k : Nat) :
    startOf weight (c :: cs) (k + 1) = weight c + startOf weight cs k := by
  rw [startOf, startOf, List.take_succ_cons, List.map_cons, List.sum_cons]

theorem Holds.setJoined_eq {i k inner : Nat} {c : Field} (h : Holds size cs i k inner c) (v : UInt8) :
    setJoined cs i v = cs.set k (c.setUnit inner v) := by
  obtain ⟨hchild, hstart, hinner⟩ := h
  induction cs generalizing i k with
  | nil => cases hchild
  | cons d ds ih =>
    cases k with
    | zero =>
      obtain rfl : d = c := Option.some.inj hchild
      obtain rfl : i = inner := by simpa [startOf] using hstart
      rw [setJoined, if_pos hinner, List.set_cons_zero]
    | succ k =>
      rw [startOf_cons_succ] at hstart
      rw [setJoined, if_neg (by omega), List.set_cons_succ, ih (i := i - d.size) hchild (by omega)]

/-- To replace one of the joined bits is to write the child that holds it. -/
theorem Holds.withBits_set {n k inner : Nat} {c : Field} (h : Holds width cs n k inner c) (b : Bool) :
    withBits cs ((joinedBits cs).set n b) =
      cs.set k (c.withUnits (Bits.toUnits c.unitBits (c.bits.set inner b))) := by
  obtain ⟨hchild, hstart, hinner⟩ := h
  induction cs generalizing n k with
  | nil => cases hchild
  | cons d ds ih =>
    have hlength : d.bits.length = d.size * d.unitBits := length_bits d
    cases k with
    | zero =>
      obtain rfl : d = c := Option.some.inj hchild
      obtain rfl : n = inner := by simpa [startOf] using hstart
      have hset : (d.bits.set n b).length = d.size * d.unitBits := by rw [List.length_set, hlength]
      rw [joinedBits_cons, List.set_append_left _ _ (by rwa [length_bits]), withBits, List.take_left' hset,
        List.drop_left' hset, withBits_joinedBits, List.set_cons_zero]
    | succ k =>
      rw [startOf_cons_succ] at hstart
      have hn : d.bits.length ≤ n := by
        rw [length_bits]
        omega
      rw [joinedBits_cons, List.set_append_right _ _ hn, withBits, List.take_left' hlength,
        List.drop_left' hlength, bits, withUnits_toUnits_ofUnits, withUnits_units, List.set_cons_succ,
        ← bits, length_bits, ih (n := n - d.width) hchild (by omega)]

end Holds

end Field
end ArtifactLayout
