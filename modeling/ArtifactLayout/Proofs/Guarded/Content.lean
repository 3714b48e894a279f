import ArtifactLayout.Field.Number
import ArtifactLayout.Proofs.Field.Update
import ArtifactLayout.Proofs.Guarded.Units

/-! # Guarded content

The content of a field read unit by unit and packed into bytes, numbers laid into units, and leaves
written from their first unit on. Every index, slice, difference and shift of these is guarded.
-/

namespace ArtifactLayout
set_option autoImplicit false

open ArtifactLayout.Field

/-! ## Reading -/

namespace Guarded
variable {σ : Type}

def readUnits (past : Past) (f : Field) : Guarded σ (List UInt8) :=
  (List.range f.size).mapM fun i => readUnit (fun place => past (i :: place)) f i

/-- Puts bits one after the other into bytes that are zero from the first of their places on. -/
def packOnto? (bytes : List UInt8) (i : Nat) : List UInt8 → Option (List UInt8)
  | [] => some bytes
  | unit :: units => do
    let byte ← bytes[i / 8]?
    let shift ← sub? 7 (i % 8)
    packOnto? (bytes.set (i / 8) (byte ||| (unit &&& 1) <<< UInt8.ofNat shift)) (i + 1) units

def readBytes (past : Past) (f : Field) : Guarded σ (List UInt8) := do
  let units ← readUnits past f
  if f.unitBits = 8 then return units
  else within (packOnto? (List.replicate ((units.length + 7) / 8) 0) 0 units)

def readNumber (past : Past) (order : ByteOrder) (f : Field) : Guarded σ UInt64 := do
  let units ← readUnits past f
  let shift ← within (below? f.unitBits 64)
  return spelled shift (if f.unitBits = 8 ∧ order = .little then units.reverse else units)

end Guarded

open Guarded

section Read
variable {σ : Type}

theorem readUnits_eq (past : Past) (f : Field) (s : σ) :
    readUnits past f s = some (.ok f.units, s) := by
  have hread : ∀ i ∈ List.range f.size,
      (readUnit (fun place => past (i :: place)) f i : Guarded σ UInt8) s =
        some (.ok (f.units.getD i 0), s) := by
    intro i hi
    obtain ⟨unit, hunit, hget⟩ := get_of_lt (List.mem_range.mp hi)
    rw [readUnit_safe f _ i s, Attempt.check_apply, hget, List.getD_eq_getElem?_getD, ← unit?_eq,
      hunit, Option.getD_some]
  have hunits : (List.range f.size).map (fun i => f.units.getD i 0) = f.units := by
    refine List.ext_getElem (by rw [List.length_map, List.length_range, length_units]) ?_
    intro i hi hi'
    rw [List.getElem_map, List.getElem_range, List.getD_eq_getElem?_getD,
      List.getElem?_eq_getElem hi', Option.getD_some]
  rw [readUnits, mapM_of_ok hread, hunits]

/-- The lowest bit of a unit, moved to a place. -/
theorem testBit_lowest_shifted (unit : UInt8) {k : Nat} (hk : k < 8) (i : Nat) :
    ((unit &&& 1) <<< UInt8.ofNat (7 - k)).toNat.testBit i =
      (decide (i = 7 - k) && unit.toNat.testBit 0) := by
  have hshift : (UInt8.ofNat (7 - k)).toNat % 8 = 7 - k := by
    rw [UInt8.toNat_ofNat']
    omega
  have hone : ∀ j, (1 : UInt8).toNat.testBit j = decide (j = 0) := by
    intro j
    cases j with
    | zero => rfl
    | succ j =>
      rw [Nat.testBit_succ]
      exact Nat.zero_testBit j
  rw [UInt8.toNat_shiftLeft, hshift, UInt8.toNat_and, Nat.testBit_mod_two_pow, Nat.testBit_shiftLeft,
    Nat.testBit_and, hone]
  by_cases hi : i = 7 - k
  · subst hi
    rw [Nat.sub_self]
    simp
    omega
  · by_cases hle : 7 - k ≤ i
    · have hne : ¬ i - (7 - k) = 0 := by omega
      simp [hi, hne]
    · simp [hi, hle]

/-- A byte takes a bit in at a place where it is zero. -/
theorem toByte_or {bit bit' : Nat → Bool} {k : Nat} (hk : k < 8) {unit : UInt8} (hzero : bit k = false)
    (hunit : bit' k = unit.toNat.testBit 0) (h : ∀ i, i ≠ k → bit' i = bit i) :
    Bits.toByte bit ||| (unit &&& 1) <<< UInt8.ofNat (7 - k) = Bits.toByte bit' := by
  refine UInt8.toNat_inj.mp (Nat.eq_of_testBit_eq fun i => ?_)
  rw [UInt8.toNat_or, Nat.testBit_or, testBit_lowest_shifted unit hk]
  by_cases hi : i < 8
  · obtain ⟨j, hj, rfl⟩ : ∃ j < 8, i = 7 - j := ⟨7 - i, by omega, by omega⟩
    rw [Bits.testBit_toByte bit hj, Bits.testBit_toByte bit' hj]
    by_cases hjk : j = k
    · subst hjk
      simp [hzero, hunit]
    · have hne : ¬ 7 - j = 7 - k := by omega
      simp [h j hjk, hne]
  · have hbyte : ∀ byte : UInt8, byte.toNat.testBit i = false := by
      intro byte
      refine Nat.testBit_lt_two_pow (Nat.lt_of_lt_of_le byte.toNat_lt ?_)
      exact Nat.pow_le_pow_right (by decide) (Nat.le_of_not_lt hi)
    have hne : ¬ i = 7 - k := by omega
    simp [hbyte, hne]

theorem getD_append_cons_of_ne {α : Type} {done rest : List α} {a b d : α} {n : Nat}
    (h : n ≠ done.length) : (done ++ a :: rest).getD n d = (done ++ b :: rest).getD n d := by
  rw [List.getD_eq_getElem?_getD, List.getD_eq_getElem?_getD]
  by_cases hn : n < done.length
  · rw [List.getElem?_append_left hn, List.getElem?_append_left hn]
  · obtain ⟨m, hm⟩ : ∃ m, n - done.length = m + 1 := ⟨n - done.length - 1, by omega⟩
    rw [List.getElem?_append_right (by omega), List.getElem?_append_right (by omega), hm,
      List.getElem?_cons_succ, List.getElem?_cons_succ]

theorem set_pack {done rest : List Bool} {byte unit : UInt8}
    (hbyte : (Bits.pack (done ++ false :: rest))[done.length / 8]? = some byte) :
    (Bits.pack (done ++ false :: rest)).set (done.length / 8)
        (byte ||| (unit &&& 1) <<< UInt8.ofNat (7 - done.length % 8)) =
      Bits.pack (done ++ unit.toNat.testBit 0 :: rest) := by
  refine List.ext_getElem? fun j => ?_
  have hlength : (done ++ false :: rest).length = (done ++ unit.toNat.testBit 0 :: rest).length := by
    simp
  rw [Bits.getElem?_pack] at hbyte
  rw [List.getElem?_set, Bits.getElem?_pack, Bits.getElem?_pack, hlength]
  rw [hlength] at hbyte
  by_cases hj : done.length / 8 = j
  · subst hj
    split at hbyte
    · rename_i hlt
      obtain rfl := Option.some.inj hbyte
      rw [if_pos rfl, if_pos (by rw [Bits.length_pack, hlength]; exact hlt), if_pos hlt]
      refine congrArg some (toByte_or (Nat.mod_lt _ (by decide)) ?_ ?_ fun i hi => ?_)
      · rw [Nat.div_add_mod]
        simp
      · rw [Nat.div_add_mod]
        simp
      · exact getD_append_cons_of_ne (by omega)
    · cases hbyte
  · rw [if_neg hj]
    split
    · refine congrArg some (Bits.toByte_congr fun i hi => ?_)
      exact getD_append_cons_of_ne (by omega)
    · rfl

theorem packOnto?_eq (units : List UInt8) (done : List Bool) :
    packOnto? (Bits.pack (done ++ List.replicate units.length false)) done.length units =
      some (Bits.pack (done ++ Bits.ofUnits 1 units)) := by
  induction units generalizing done with
  | nil => rfl
  | cons unit units ih =>
    have hbyte := Bits.getElem?_pack (done ++ false :: List.replicate units.length false)
      (done.length / 8)
    rw [if_pos (by simp; omega)] at hbyte
    have hshift := sub?_of_le (Nat.le_of_lt_succ (Nat.mod_lt done.length (by decide : 8 > 0)))
    have hrest := ih (done ++ [unit.toNat.testBit 0])
    rw [List.length_append, List.append_assoc, List.append_assoc] at hrest
    rw [List.length_cons, List.replicate_succ, packOnto?, hbyte]
    simp only [Option.bind_eq_bind, Option.bind_some, hshift]
    rw [set_pack hbyte]
    exact hrest

theorem pack_replicate_false (n : Nat) :
    Bits.pack (List.replicate n false) = List.replicate ((n + 7) / 8) 0 := by
  refine List.ext_getElem? fun j => ?_
  rw [Bits.getElem?_pack, List.getElem?_replicate, List.length_replicate]
  split
  · refine congrArg some ?_
    have hzero : Bits.toByte (fun _ => false) = 0 := by decide
    rw [← hzero]
    refine Bits.toByte_congr fun i _ => ?_
    rw [List.getD_eq_getElem?_getD, List.getElem?_replicate]
    split <;> rfl
  · rfl

theorem readBytes_eq (past : Past) (f : Field) (s : σ) :
    readBytes past f s = some (.ok f.toBytes, s) := by
  rw [readBytes, bind_of_ok (readUnits_eq past f s), toBytes]
  split
  · rfl
  · have hzero : List.replicate ((f.units.length + 7) / 8) (0 : UInt8) =
        Bits.pack ([] ++ List.replicate f.units.length false) := by
      rw [List.nil_append, pack_replicate_false]
    rw [hzero]
    exact within_of_some (packOnto?_eq f.units []) s

theorem readNumber_eq (past : Past) (order : ByteOrder) (f : Field) (s : σ) :
    readNumber past order f s = some (.ok (f.toNumber order), s) := by
  have hshift := below?_of_lt (Nat.lt_of_le_of_lt f.unitBits_le (by decide : 8 < 64))
  rw [readNumber, bind_of_ok (readUnits_eq past f s), bind_of_ok (within_of_some hshift s), toNumber]
  split <;> rfl

end Read

/-! ## Numbers -/

namespace Guarded

/-- A run of items written over a part of a list that is as long. -/
def copyInto? {α : Type} (items : List α) (start stop : Nat) (new : List α) : Option (List α) :=
  if start ≤ stop ∧ stop ≤ items.length ∧ new.length = stop - start then
    some (items.take start ++ (new ++ items.drop stop))
  else none

/-- The bit of a number that a unit of `size` bits holds. -/
def numberBit? (value : UInt64) (size i : Nat) : Option UInt8 := do
  let top ← sub? size 1
  let shift ← sub? top i
  if 64 ≤ shift then return 0
  else
    let shift ← below? shift 64
    return (value >>> UInt64.ofNat shift &&& 1).toUInt8

def numberUnits? (order : ByteOrder) (value : UInt64) (width size : Nat) : Option (List UInt8) :=
  if width = 1 then (List.range size).mapM (numberBit? value size)
  else
    let zeros := List.replicate size 0
    match order with
    | .big => do
      let start ← sub? size (min size 8)
      let first ← sub? 8 (min size 8)
      let low ← slice? ((List.range 8).map fun k => byteOf value (7 - k)) first 8
      copyInto? zeros start size low
    | .little => do
      let low ← slice? ((List.range 8).map (byteOf value)) 0 (min size 8)
      copyInto? zeros 0 (min size 8) low

end Guarded

theorem byteOf_eq_zero (value : UInt64) {k : Nat} (h : 8 ≤ k) : byteOf value k = 0 := by
  have hzero : value.toNat >>> (8 * k) = 0 := by
    rw [Nat.shiftRight_eq_div_pow]
    refine Nat.div_eq_of_lt (Nat.lt_of_lt_of_le value.toNat_lt ?_)
    exact Nat.pow_le_pow_right (by decide) (by omega)
  rw [byteOf, hzero]
  rfl

theorem lowestBit_shifted (value : UInt64) {shift : Nat} (h : shift < 64) :
    (value >>> UInt64.ofNat shift &&& 1).toUInt8 = (value.toNat.testBit shift).toUInt8 := by
  have hshift : (UInt64.ofNat shift).toNat % 64 = shift := by
    rw [UInt64.toNat_ofNat']
    omega
  have hbit : (value >>> UInt64.ofNat shift &&& 1).toNat = (value.toNat.testBit shift).toNat := by
    rw [UInt64.toNat_and, UInt64.toNat_shiftRight, hshift, Nat.shiftRight_eq_div_pow,
      Nat.toNat_testBit]
    exact Nat.and_one_is_mod _
  refine UInt8.toNat_inj.mp ?_
  rw [UInt64.toNat_toUInt8, hbit]
  cases value.toNat.testBit shift <;> rfl

theorem numberBit?_eq (value : UInt64) {size i : Nat} (hi : i < size) :
    numberBit? value size i = some (value.toNat.testBit (size - 1 - i)).toUInt8 := by
  have htop : i ≤ size - 1 := by omega
  rw [numberBit?]
  simp only [sub?_of_le (by omega : 1 ≤ size), sub?_of_le htop, Option.bind_eq_bind, Option.bind_some]
  by_cases hshift : 64 ≤ size - 1 - i
  · have hbit : value.toNat.testBit (size - 1 - i) = false := by
      refine Nat.testBit_lt_two_pow (Nat.lt_of_lt_of_le value.toNat_lt ?_)
      exact Nat.pow_le_pow_right (by decide) hshift
    rw [if_pos hshift, hbit]
    rfl
  · have hlt := Nat.lt_of_not_le hshift
    rw [if_neg hshift, below?_of_lt hlt, Option.bind_some, lowestBit_shifted value hlt]
    rfl

theorem mapM_eq_some_map {α β : Type} {items : List α} {f : α → Option β} {g : α → β}
    (h : ∀ a ∈ items, f a = some (g a)) : items.mapM f = some (items.map g) := by
  induction items with
  | nil => rfl
  | cons a items ih =>
    rw [List.mapM_cons, h a List.mem_cons_self, ih fun b hb => h b (List.mem_cons_of_mem a hb)]
    rfl

/-- A run written over zeros, by what stands at each place. -/
theorem copyInto?_zeros {size start stop : Nat} {new : List UInt8} {unit : Nat → UInt8}
    (h : start ≤ stop) (hstop : stop ≤ size) (hlength : new.length = stop - start)
    (hin : ∀ k < stop - start, new[k]? = some (unit (start + k)))
    (hout : ∀ i, i < start ∨ stop ≤ i ∧ i < size → unit i = 0) :
    copyInto? (List.replicate size 0) start stop new = some ((List.range size).map unit) := by
  have hzeros : (List.replicate size (0 : UInt8)).length = size := List.length_replicate
  have htake : ((List.replicate size (0 : UInt8)).take start).length = start := by
    rw [List.length_take, hzeros]
    omega
  rw [copyInto?, if_pos ⟨h, hzeros.symm ▸ hstop, hlength⟩]
  refine congrArg some (List.ext_getElem? fun i => ?_)
  rw [List.getElem?_map]
  by_cases hstart : i < start
  · rw [List.getElem?_append_left (htake.symm ▸ hstart), List.getElem?_take_of_lt hstart,
      List.getElem?_replicate_of_lt (by omega), List.getElem?_range (by omega), Option.map_some,
      hout i (.inl hstart)]
  rw [List.getElem?_append_right (by omega), htake]
  by_cases hend : i < stop
  · rw [List.getElem?_append_left (by omega), hin _ (by omega), List.getElem?_range (by omega),
      Option.map_some, Nat.add_sub_cancel' (Nat.le_of_not_lt hstart)]
  rw [List.getElem?_append_right (by omega), List.getElem?_drop, List.getElem?_replicate, hlength]
  by_cases hsize : i < size
  · rw [if_pos (by omega), List.getElem?_range hsize, Option.map_some,
      hout i (.inr ⟨Nat.le_of_not_lt hend, hsize⟩)]
  · rw [if_neg (by omega), List.getElem?_eq_none (by rw [List.length_range]; omega), Option.map_none]

theorem numberUnits?_eq (order : ByteOrder) (value : UInt64) (width size : Nat) :
    numberUnits? order value width size = some (numberUnits order value width size) := by
  have hmin : min size 8 ≤ size := Nat.min_le_left _ _
  have hmin8 : min size 8 ≤ 8 := Nat.min_le_right _ _
  have hbytes : ∀ byte : Nat → UInt8, ((List.range 8).map byte).length = 8 := fun byte => by
    rw [List.length_map, List.length_range]
  unfold numberUnits? numberUnits
  by_cases hwidth : width = 1
  · rw [if_pos hwidth, if_pos hwidth]
    exact mapM_eq_some_map fun i hi => numberBit?_eq value (List.mem_range.mp hi)
  · rw [if_neg hwidth, if_neg hwidth]
    cases order with
    | big =>
      dsimp only
      simp only [Option.bind_eq_bind]
      rw [sub?_of_le hmin, Option.bind_some, sub?_of_le hmin8, Option.bind_some,
        slice?_of_le (Nat.sub_le _ _) (Nat.le_of_eq (hbytes _).symm), Option.bind_some]
      refine copyInto?_zeros (Nat.sub_le _ _) (Nat.le_refl size) ?_ ?_ fun i hi => ?_
      · rw [List.length_drop, List.length_take, hbytes]
        omega
      · intro k hk
        rw [List.getElem?_drop, List.getElem?_take_of_lt (by omega), List.getElem?_map,
          List.getElem?_range (by omega), Option.map_some]
        exact congrArg (fun n => some (byteOf value n)) (by omega)
      · exact byteOf_eq_zero value (by omega)
    | little =>
      dsimp only
      simp only [Option.bind_eq_bind]
      rw [slice?_of_le (Nat.zero_le _) ((hbytes _).symm ▸ hmin8), Option.bind_some]
      refine copyInto?_zeros (Nat.zero_le _) hmin ?_ ?_ fun i hi => ?_
      · rw [List.length_drop, List.length_take, hbytes]
        omega
      · intro k hk
        rw [List.getElem?_drop, Nat.zero_add, List.getElem?_take_of_lt (by omega), List.getElem?_map,
          List.getElem?_range (by omega), Option.map_some]
      · exact byteOf_eq_zero value (by omega)

/-! ## Writing -/

namespace Guarded
variable {σ : Type}

def setUnit (content : Leaf) (i : Nat) (v : UInt8) : Guarded σ Leaf :=
  if i < content.size then do
    let _ ← within (content? content i)
    return content.setUnit i v
  else throw (.indexOutOfRange i content.size)

def writeFrom (content : Leaf) (i : Nat) : List UInt8 → Guarded σ Leaf
  | [] => return content
  | v :: vs => do writeFrom (← setUnit content i v) (i + 1) vs

/-- Writes units into a leaf. A pass writes nothing else, so that writing a group has no place here. -/
def write (f : Field) (units : List UInt8) : Guarded σ Field :=
  if f.size < units.length then throw (.contentTooWide units.length f.size)
  else
    match f with
    | .leaf tag content => do return .leaf tag (← writeFrom content 0 units)
    | .group _ _ _ => within none

end Guarded

namespace Leaf

/-- Writes units from an index on, as far as they and the leaf reach. -/
def withUnitsFrom : Leaf → Nat → List UInt8 → Leaf
  | block content, i, us => block (splice content.toList i us).toArray
  | ranged low high content, i, us => ranged low high (splice content.toList i us).toArray
  | bitfield content, i, us =>
    bitfield (splice content.toList i (us.map (·.toNat.testBit 0))).toArray

theorem withUnitsFrom_zero (l : Leaf) (us : List UInt8) : l.withUnitsFrom 0 us = l.withUnits us := by
  cases l <;> rfl

end Leaf

theorem splice_nil {α : Type} (items : List α) (i : Nat) : splice items i [] = items := by
  simp [splice]

theorem splice_set {α : Type} {items : List α} {i : Nat} (h : i < items.length) (a : α)
    (new : List α) :
    splice (items.set i a) (i + 1) new = splice items i (a :: new) := by
  have htake : (items.set i a).take (i + 1) = items.take i ++ [a] := by
    rw [List.take_add_one, List.take_set_of_le (Nat.le_refl i), List.getElem?_set_self h]
    rfl
  have hrest : items.length - i = items.length - (i + 1) + 1 := by omega
  rw [splice, splice, htake, List.drop_set_of_lt (by omega), List.length_set, hrest,
    List.take_succ_cons, List.length_cons, Nat.add_right_comm i 1 new.length, List.append_assoc,
    List.singleton_append, List.cons_append, Nat.add_assoc]

namespace Leaf

theorem withUnitsFrom_nil (l : Leaf) (i : Nat) : l.withUnitsFrom i [] = l := by
  cases l <;> simp [withUnitsFrom, splice_nil]

theorem size_setUnit (l : Leaf) (i : Nat) (v : UInt8) : (l.setUnit i v).size = l.size := by
  cases l <;> simp [setUnit, size]

theorem withUnitsFrom_setUnit {l : Leaf} {i : Nat} (h : i < l.size) (v : UInt8) (vs : List UInt8) :
    (l.setUnit i v).withUnitsFrom (i + 1) vs = l.withUnitsFrom i (v :: vs) := by
  cases l with
  | block content => simp only [setUnit, withUnitsFrom, Array.toList_setIfInBounds, splice_set h]
  | ranged low high content =>
    simp only [setUnit, withUnitsFrom, Array.toList_setIfInBounds, splice_set h]
  | bitfield content =>
    simp only [setUnit, withUnitsFrom, Array.toList_setIfInBounds, splice_set h, List.map_cons]

end Leaf

section Write
variable {σ : Type}

theorem setUnit_eq {content : Leaf} {i : Nat} (h : i < content.size) (v : UInt8) (s : σ) :
    Guarded.setUnit content i v s = some (.ok (content.setUnit i v), s) := by
  obtain ⟨unit, hunit, -⟩ := get_of_lt (f := .leaf .none content) h
  rw [Guarded.setUnit, if_pos h, bind_of_ok (within_of_some ((content?_eq h).trans hunit) s)]
  rfl

theorem writeFrom_eq {content : Leaf} {i : Nat} {units : List UInt8}
    (h : i + units.length ≤ content.size) (s : σ) :
    writeFrom content i units s = some (.ok (content.withUnitsFrom i units), s) := by
  induction units generalizing content i with
  | nil =>
    rw [content.withUnitsFrom_nil]
    rfl
  | cons v vs ih =>
    rw [List.length_cons] at h
    have hi : i < content.size := by omega
    rw [writeFrom, bind_of_ok (setUnit_eq hi v s), ih (by rw [Leaf.size_setUnit]; omega),
      Leaf.withUnitsFrom_setUnit hi]

theorem write_safe (tag : Tag) (content : Leaf) (units : List UInt8) (s : σ) :
    Safe (Guarded.write (.leaf tag content) units)
      (Attempt.check ((Field.leaf tag content).write units)) s := by
  unfold Guarded.write Field.write
  by_cases hlt : (Field.leaf tag content).size < units.length
  · rw [if_pos hlt, if_pos hlt]
    rfl
  · have hfits : 0 + units.length ≤ content.size := by
      rw [Nat.zero_add]
      exact Nat.le_of_not_lt hlt
    rw [if_neg hlt, if_neg hlt]
    refine Safe.of_bind (writeFrom_eq hfits s) ?_
    rw [Leaf.withUnitsFrom_zero]
    rfl

end Write
end ArtifactLayout
