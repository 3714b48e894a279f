import ArtifactLayout.Proofs.Guarded.Writing

/-! # Numbers and units

The units of a number are its digits in base 2 or 256, and a field holds the number that its units are
the digits of. Written and read, both are words of 64 bits: a number that is laid into a longer field has
zeros there, and of a longer field the low bits are read.
-/

namespace ArtifactLayout
set_option autoImplicit false

namespace Field

/-! ## Digits -/

/-- Units of a field, or those meant for one, from the low end of the number on. -/
def lowFirst (order : ByteOrder) (width : Nat) (units : List UInt8) : List UInt8 :=
  if width = 8 ∧ order = .little then units else units.reverse

/-- The number whose digits are some units, the lowest first. -/
def valueOf (width : Nat) (units : List UInt8) : Nat :=
  Nat.ofDigits (2 ^ width) (units.map UInt8.toNat)

section Digits
variable {order : ByteOrder} {width : Nat} {us vs : List UInt8}

@[simp] theorem length_lowFirst : (lowFirst order width us).length = us.length := by
  rw [lowFirst]
  split
  · rfl
  · exact List.length_reverse

@[simp] theorem mem_lowFirst {unit : UInt8} : unit ∈ lowFirst order width us ↔ unit ∈ us := by
  rw [lowFirst]
  split
  · exact Iff.rfl
  · exact List.mem_reverse

theorem lowFirst_injective (h : lowFirst order width us = lowFirst order width vs) : us = vs := by
  unfold lowFirst at h
  split at h
  · exact h
  · exact List.reverse_injective h

theorem valueOf_cons (width : Nat) (unit : UInt8) (us : List UInt8) :
    valueOf width (unit :: us) = unit.toNat + 2 ^ width * valueOf width us := by
  rw [valueOf, List.map_cons, Nat.ofDigits_cons, ← valueOf]

theorem lt_of_mem_map (h : ∀ unit ∈ us, unit.toNat < 2 ^ width) :
    ∀ digit ∈ us.map UInt8.toNat, digit < 2 ^ width := by
  intro digit hdigit
  obtain ⟨unit, hunit, rfl⟩ := List.mem_map.mp hdigit
  exact h unit hunit

theorem valueOf_lt (hpos : 0 < width) (h : ∀ unit ∈ us, unit.toNat < 2 ^ width) :
    valueOf width us < 2 ^ (us.length * width) := by
  have hbase : 1 < 2 ^ width := Nat.one_lt_two_pow (by omega)
  have hlt := Nat.ofDigits_lt_base_pow_length hbase (lt_of_mem_map h)
  rwa [List.length_map, ← Nat.pow_mul, Nat.mul_comm] at hlt

/-- Digits are determined by their number and by what it comes to. -/
theorem eq_of_valueOf_eq (hpos : 0 < width) (hlength : us.length = vs.length)
    (hus : ∀ unit ∈ us, unit.toNat < 2 ^ width) (hvs : ∀ unit ∈ vs, unit.toNat < 2 ^ width)
    (h : valueOf width us = valueOf width vs) : us = vs := by
  have hbase : 1 < 2 ^ width := Nat.one_lt_two_pow (by omega)
  have hdigits := Nat.ofDigits_inj_of_len_eq hbase (by rwa [List.length_map, List.length_map])
    (lt_of_mem_map hus) (lt_of_mem_map hvs) h
  exact List.map_injective_iff.mpr (fun _ _ => UInt8.toNat_inj.mp) hdigits

/-- The lowest digits of a number are what it leaves when divided by a power of the base. -/
theorem ofDigits_range (b n size : Nat) :
    Nat.ofDigits b ((List.range size).map fun k => n / b ^ k % b) = n % b ^ size := by
  induction size with
  | zero => rw [Nat.pow_zero, Nat.mod_one]; rfl
  | succ size ih =>
    rw [List.range_succ, List.map_append, Nat.ofDigits_append, ih, List.length_map,
      List.length_range, List.map_singleton, Nat.ofDigits_singleton, Nat.mod_pow_succ]

end Digits

/-! ## Units of a number -/

theorem toNat_toUInt8 (b : Bool) : b.toUInt8.toNat = b.toNat := by cases b <;> rfl

theorem toNat_byteOf (value : UInt64) (k : Nat) :
    (byteOf value k).toNat = value.toNat / (2 ^ 8) ^ k % 2 ^ 8 := by
  rw [byteOf, UInt8.toNat_ofNat', Nat.shiftRight_eq_div_pow, ← Nat.pow_mul]

theorem reverse_map_range {α : Type} (n : Nat) (unit : Nat → α) :
    ((List.range n).map fun i => unit (n - 1 - i)).reverse = (List.range n).map unit := by
  refine List.ext_getElem (by simp) fun i hi _ => ?_
  have hsize : i < n := by simpa using hi
  have hindex : n - 1 - (n - 1 - i) = i := by omega
  simp [List.getElem_reverse, hindex]

/-- The units of a number are its lowest digits. -/
theorem lowFirst_numberUnits (order : ByteOrder) (value : UInt64) {width : Nat}
    (hwidth : width = 1 ∨ width = 8) (size : Nat) :
    (lowFirst order width (numberUnits order value width size)).map UInt8.toNat =
      (List.range size).map fun k => value.toNat / (2 ^ width) ^ k % 2 ^ width := by
  rcases hwidth with rfl | rfl
  · have hbit : ∀ k, (value.toNat.testBit k).toUInt8.toNat = value.toNat / (2 ^ 1) ^ k % 2 ^ 1 := by
      intro k
      rw [toNat_toUInt8, Nat.toNat_testBit, Nat.pow_one]
    have hunits : numberUnits order value 1 size =
        (List.range size).map fun i => (value.toNat.testBit (size - 1 - i)).toUInt8 := if_pos rfl
    rw [hunits, lowFirst, if_neg (by omega),
      reverse_map_range size fun k => (value.toNat.testBit k).toUInt8, List.map_map]
    exact List.map_congr_left fun k _ => hbit k
  · cases order with
    | big =>
      rw [numberUnits, if_neg (by decide), lowFirst, if_neg (by simp),
        reverse_map_range size (byteOf value), List.map_map]
      exact List.map_congr_left fun k _ => toNat_byteOf value k
    | little =>
      rw [numberUnits, if_neg (by decide), lowFirst, if_pos ⟨rfl, rfl⟩, List.map_map]
      exact List.map_congr_left fun k _ => toNat_byteOf value k

section Units
variable {order : ByteOrder} {value : UInt64} {width size : Nat}

theorem valueOf_numberUnits (hwidth : width = 1 ∨ width = 8) :
    valueOf width (lowFirst order width (numberUnits order value width size)) =
      value.toNat % 2 ^ (size * width) := by
  rw [valueOf, lowFirst_numberUnits order value hwidth, ofDigits_range, ← Nat.pow_mul, Nat.mul_comm]

theorem lt_of_mem_numberUnits (hwidth : width = 1 ∨ width = 8) :
    ∀ unit ∈ lowFirst order width (numberUnits order value width size),
      unit.toNat < 2 ^ width := by
  intro unit hunit
  have hdigit := List.mem_map_of_mem (f := UInt8.toNat) hunit
  rw [lowFirst_numberUnits order value hwidth] at hdigit
  obtain ⟨k, -, hk⟩ := List.mem_map.mp hdigit
  rw [← hk]
  exact Nat.mod_lt _ (Nat.two_pow_pos width)

/-- A number has no digits beyond its 64 bits. -/
theorem lowFirst_numberUnits_of_le (hwidth : width = 1 ∨ width = 8) {k : Nat} (hk : k < size)
    (hbeyond : 64 ≤ k * width) :
    (lowFirst order width (numberUnits order value width size))[k]? = some 0 := by
  have hzero : value.toNat / (2 ^ width) ^ k = 0 := by
    refine Nat.div_eq_of_lt (Nat.lt_of_lt_of_le value.toNat_lt ?_)
    rw [← Nat.pow_mul, Nat.mul_comm]
    exact Nat.pow_le_pow_right (by decide) hbeyond
  have hdigit := congrArg (·[k]?) (lowFirst_numberUnits order value hwidth size)
  simp only [List.getElem?_map, List.getElem?_range hk, Option.map_some, hzero, Nat.zero_mod] at hdigit
  obtain ⟨unit, hunit, htoNat⟩ := Option.map_eq_some_iff.mp hdigit
  rw [hunit, UInt8.toNat_inj.mp (htoNat.trans UInt8.toNat_zero.symm)]

end Units

/-! ## The number of units -/

section Spelled
variable {width : Nat}

theorem spelled_concat (width : Nat) (us : List UInt8) (unit : UInt8) :
    spelled width (us ++ [unit]) =
      spelled width us <<< UInt64.ofNat width ||| unit.toUInt64 := by
  rw [spelled, List.foldl_append, ← spelled]
  rfl

/-- One more digit at the low end of a word, of which the highest may be lost. -/
theorem toNat_shifted_or (hwidth : width ≤ 8) (n : UInt64) {unit : UInt8}
    (hunit : unit.toNat < 2 ^ width) :
    (n <<< UInt64.ofNat width ||| unit.toUInt64).toNat = (unit.toNat + 2 ^ width * n.toNat) % 2 ^ 64 := by
  have hshift : (UInt64.ofNat width).toNat % 64 = width := by
    rw [UInt64.toNat_ofNat']
    omega
  have hsmall : unit.toNat % 2 ^ 64 = unit.toNat :=
    Nat.mod_eq_of_lt (Nat.lt_trans unit.toNat_lt (by decide))
  calc (n <<< UInt64.ofNat width ||| unit.toUInt64).toNat
    _ = n.toNat <<< width % 2 ^ 64 ||| unit.toNat % 2 ^ 64 := by
      rw [UInt64.toNat_or, UInt64.toNat_shiftLeft, hshift, UInt8.toNat_toUInt64, hsmall]
    _ = (n.toNat <<< width + unit.toNat) % 2 ^ 64 := by
      rw [← Nat.or_mod_two_pow, Nat.shiftLeft_add_eq_or_of_lt hunit]
    _ = (unit.toNat + 2 ^ width * n.toNat) % 2 ^ 64 := by
      rw [Nat.shiftLeft_eq, Nat.add_comm, Nat.mul_comm]

theorem toNat_spelled_reverse (hwidth : width ≤ 8) {us : List UInt8}
    (h : ∀ unit ∈ us, unit.toNat < 2 ^ width) :
    (spelled width us.reverse).toNat = valueOf width us % 2 ^ 64 := by
  induction us with
  | nil => rfl
  | cons unit us ih =>
    rw [List.reverse_cons, spelled_concat, toNat_shifted_or hwidth _ (h unit List.mem_cons_self),
      ih fun v hv => h v (List.mem_cons_of_mem unit hv), valueOf_cons, Nat.add_mod, Nat.mul_mod_mod,
      ← Nat.add_mod]

end Spelled

section Held
variable {f : Field}

theorem toNat_lt_of_mem_units {unit : UInt8} (h : unit ∈ f.units) : unit.toNat < 2 ^ f.unitBits := by
  rcases f with ⟨tag, content⟩ | ⟨tag, grouping, children⟩
  · cases content with
    | block content | ranged low high content => exact unit.toNat_lt
    | bitfield content =>
      have hbit : ∀ b : Bool, b.toUInt8.toNat < 2 ^ 1 := by decide
      obtain ⟨b, -, rfl⟩ := List.mem_map.mp h
      exact hbit b
  · exact unit.toNat_lt

theorem toNumber_eq (order : ByteOrder) (f : Field) :
    f.toNumber order = spelled f.unitBits (lowFirst order f.unitBits f.units).reverse := by
  rw [toNumber, lowFirst]
  split
  · rfl
  · rw [List.reverse_reverse]

/-- The number of a field is what its units come to as digits, modulo 2^64. -/
theorem toNat_toNumber (order : ByteOrder) (f : Field) :
    (f.toNumber order).toNat = valueOf f.unitBits (lowFirst order f.unitBits f.units) % 2 ^ 64 := by
  rw [toNumber_eq, toNat_spelled_reverse f.unitBits_le]
  exact fun unit hunit => toNat_lt_of_mem_units (mem_lowFirst.mp hunit)

/-- A field that its number has room for is what the number is laid into units as. -/
theorem unitsOfNumber_toNumber (order : ByteOrder) (h : f.size * f.unitBits ≤ 64) :
    unitsOfNumber order (f.toNumber order) f = f.units := by
  have hdigits : ∀ unit ∈ lowFirst order f.unitBits f.units, unit.toNat < 2 ^ f.unitBits :=
    fun unit hunit => toNat_lt_of_mem_units (mem_lowFirst.mp hunit)
  have hlt := valueOf_lt f.unitBits_pos hdigits
  rw [length_lowFirst, length_units] at hlt
  have hword := Nat.lt_of_lt_of_le hlt (Nat.pow_le_pow_right (by decide) h)
  refine lowFirst_injective (eq_of_valueOf_eq f.unitBits_pos ?_
    (lt_of_mem_numberUnits f.unitBits_eq_one_or_eight) hdigits ?_)
  · rw [length_lowFirst, length_lowFirst, length_units]
    exact length_numberUnits _ _ _ _
  · rw [unitsOfNumber, valueOf_numberUnits f.unitBits_eq_one_or_eight, toNat_toNumber,
      Nat.mod_eq_of_lt hword, Nat.mod_eq_of_lt hlt]

end Held

/-! ## There and back -/

theorem mod_two_pow_min (n a b : Nat) : n % 2 ^ a % 2 ^ b = n % 2 ^ min b a := by
  rcases Nat.le_total a b with h | h
  · have hlt : n % 2 ^ a < 2 ^ b :=
      Nat.lt_of_lt_of_le (Nat.mod_lt n (Nat.two_pow_pos a)) (Nat.pow_le_pow_right (by decide) h)
    rw [Nat.min_eq_right h, Nat.mod_eq_of_lt hlt]
  · rw [Nat.min_eq_left h, Nat.mod_mod_of_dvd n (Nat.pow_dvd_pow 2 h)]

theorem units_withUnits_numberUnits (tag : Tag) (content : Leaf) (order : ByteOrder) (value : UInt64) :
    ((leaf tag content).withUnits (unitsOfNumber order value (leaf tag content))).units =
      unitsOfNumber order value (leaf tag content) := by
  have hlength : (unitsOfNumber order value (leaf tag content)).length = content.size :=
    length_numberUnits _ _ _ _
  have hkept : (unitsOfNumber order value (leaf tag content)).map content.kept =
      unitsOfNumber order value (leaf tag content) := content.map_kept_numberUnits order value _
  rw [withUnits, units, content.units_withUnits (Nat.le_of_eq hlength), hkept, hlength,
    ← content.length_units, List.drop_length, List.append_nil]

/-- A number laid into the units of a leaf and read back is the number modulo what 64 bits or the leaf
have room for, and behind its 64 bits there are zeros. The other way round a leaf of at most 64 bits is
read and laid out again as it was, and of a longer one the number modulo 2^64 is read, high end first or,
for bytes only, low end first. -/
theorem number_survives (tag : Tag) (content : Leaf) (order : ByteOrder) (value : UInt64)
    (past : Guarded.Past) (pasts : Nat → Guarded.Past) :
    let f := leaf tag content
    let us := unitsOfNumber order value f
    (Guarded.numberUnits? order value f.unitBits f.size = some us ∧ us.length = f.size) ∧
    (∃ g, f.write us = .ok g ∧ Guarded.writeUnits pasts us f = some (.ok ⟨⟩, g) ∧ g.units = us ∧
      Guarded.readNumber past order g f = some (.ok (g.toNumber order), f) ∧
      (g.toNumber order).toNat = value.toNat % 2 ^ min 64 (f.size * f.unitBits)) ∧
    (∀ k < f.size, 64 ≤ k * f.unitBits → (lowFirst order f.unitBits us)[k]? = some 0) ∧
    (f.size * f.unitBits ≤ 64 → unitsOfNumber order (f.toNumber order) f = f.units) ∧
    Guarded.readNumber past order f f = some (.ok (f.toNumber order), f) ∧
    (f.toNumber order).toNat = valueOf f.unitBits (lowFirst order f.unitBits f.units) % 2 ^ 64 := by
  intro f us
  have hwidth := f.unitBits_eq_one_or_eight
  have hlength : us.length = f.size := length_numberUnits _ _ _ _
  have hle : us.length ≤ f.size := Nat.le_of_eq hlength
  have hunits : (f.withUnits us).units = us := units_withUnits_numberUnits tag content order value
  have hvalue : valueOf f.unitBits (lowFirst order f.unitBits us) =
      value.toNat % 2 ^ (f.size * f.unitBits) := valueOf_numberUnits hwidth
  refine ⟨⟨numberUnits?_eq order value _ _, hlength⟩, ⟨f.withUnits us, write_of_le hle,
    writeUnits_of_le pasts hle, hunits, readNumber_eq past order _ f, ?_⟩, fun k hk hbeyond => ?_,
    unitsOfNumber_toNumber order, readNumber_eq past order f f, toNat_toNumber order f⟩
  · rw [toNat_toNumber, hunits, unitBits_withUnits, hvalue, mod_two_pow_min]
  · exact lowFirst_numberUnits_of_le hwidth hk hbeyond

/-- Three bits have room for a number modulo 8, whatever the byte order, and the ninth byte for none of
its bits. -/
theorem number_survives_sample :
    (∃ g, (leaf .none (.bitfield #[true, false, true])).write [1, 1, 0] = .ok g ∧
      (g.toNumber .little).toNat = 6) ∧
    unitsOfNumber .little 5 (leaf .none (.bitfield #[true, false, true])) = [1, 0, 1] ∧
    (lowFirst .big 8 (unitsOfNumber .big 7 (leaf .none (.block #[0, 0, 0, 0, 0, 0, 0, 0, 1]))))[8]? =
      some 0 := by
  obtain ⟨-, ⟨g, hwrite, -, -, -, hnumber⟩, -, hback, -⟩ := number_survives .none
    (.bitfield #[true, false, true]) .little 22 (fun _ => []) fun _ _ => []
  obtain ⟨-, -, hzero, -, -⟩ := number_survives .none (.block #[0, 0, 0, 0, 0, 0, 0, 0, 1]) .big 7
    (fun _ => []) fun _ _ => []
  exact ⟨⟨g, hwrite, hnumber⟩, hback (by decide), hzero 8 (by decide) (by decide)⟩

end Field
end ArtifactLayout
