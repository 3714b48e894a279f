import ArtifactLayout.Field.Basic

/-! # Units and bits

A field has as many units as its size says. Its bits are those of its units one after the other, and
packing bits into bytes keeps them in order and adds zeros up to a whole byte.
-/

namespace ArtifactLayout
set_option autoImplicit false

theorem length_ofUnits (width : Nat) (units : List UInt8) :
    (Bits.ofUnits width units).length = width * units.length := by
  induction units with
  | nil => rfl
  | cons unit units ih =>
    rw [Bits.ofUnits, List.flatMap_cons, List.length_append, Bits.length_ofUnit, List.length_cons,
      Nat.mul_succ, Nat.add_comm]
    exact congrArg (· + width) ih

namespace Bits

/-! ## Bits of bytes -/

theorem ofUnits_append (width : Nat) (us vs : List UInt8) :
    ofUnits width (us ++ vs) = ofUnits width us ++ ofUnits width vs := List.flatMap_append

/-- The number whose binary digits are given by their places, the highest at place 0. -/
def spell (bit : Nat → Bool) (n : Nat) : Nat :=
  (List.range n).foldl (fun n i => 2 * n + (bit i).toNat) 0

theorem spell_succ (bit : Nat → Bool) (n : Nat) :
    spell bit (n + 1) = 2 * spell bit n + (bit n).toNat := by
  rw [spell, List.range_succ, List.foldl_append]
  rfl

theorem testBit_spell (bit : Nat → Bool) {n i : Nat} (h : i < n) :
    (spell bit n).testBit (n - 1 - i) = bit i := by
  induction n with
  | zero => exact absurd h (Nat.not_lt_zero i)
  | succ n ih =>
    rw [spell_succ]
    rcases Nat.lt_or_eq_of_le (Nat.lt_succ_iff.mp h) with hi | rfl
    · have hbit := (bit n).toNat_le
      rw [show n + 1 - 1 - i = (n - 1 - i) + 1 by omega, Nat.testBit_succ,
        show (2 * spell bit n + (bit n).toNat) / 2 = spell bit n by omega, ih hi]
    · rw [show i + 1 - 1 - i = 0 by omega, Nat.testBit_zero]
      cases bit i with
      | false => exact decide_eq_false (by rw [Bool.toNat_false]; omega)
      | true => exact decide_eq_true (by rw [Bool.toNat_true]; omega)

theorem testBit_toByte (bit : Nat → Bool) {i : Nat} (h : i < 8) :
    (toByte bit).toNat.testBit (7 - i) = bit i := by
  have hplace : 7 - i < 8 := by omega
  rw [toByte, ← spell, UInt8.toNat_ofNat', Nat.testBit_mod_two_pow, testBit_spell bit h,
    decide_eq_true hplace, Bool.true_and]

theorem toByte_congr {bit bit' : Nat → Bool} (h : ∀ i < 8, bit i = bit' i) : toByte bit = toByte bit' := by
  have hspell : ∀ n ≤ 8, spell bit n = spell bit' n := by
    intro n
    induction n with
    | zero => exact fun _ => rfl
    | succ n ih => exact fun hn => by rw [spell_succ, spell_succ, ih (by omega), h n hn]
  exact congrArg UInt8.ofNat (hspell 8 (Nat.le_refl 8))

theorem getElem?_ofUnits {width : Nat} (hwidth : 0 < width) (units : List UInt8) (n : Nat) :
    (ofUnits width units)[n]? =
      units[n / width]?.map fun unit => unit.toNat.testBit (width - 1 - n % width) := by
  induction units generalizing n with
  | nil => rfl
  | cons unit units ih =>
    rw [ofUnits, List.flatMap_cons]
    by_cases hn : n < width
    · rw [List.getElem?_append_left (by simpa using hn), Nat.div_eq_of_lt hn, Nat.mod_eq_of_lt hn]
      simp [ofUnit, hn]
    · obtain ⟨m, rfl⟩ : ∃ m, n = m + width := ⟨n - width, by omega⟩
      rw [List.getElem?_append_right (by simp), length_ofUnit, Nat.add_sub_cancel,
        Nat.add_div_right m hwidth, Nat.add_mod_right, List.getElem?_cons_succ]
      exact ih m

theorem getElem?_pack (bits : List Bool) (i : Nat) :
    (pack bits)[i]? =
      if i < (bits.length + 7) / 8 then some (toByte fun j => bits.getD (8 * i + j) false)
      else none := by
  rw [pack, List.getElem?_map]
  split
  · rename_i hi
    rw [List.getElem?_range (by simpa using hi)]
    simp
  · rename_i hi
    rw [List.getElem?_eq_none (by simpa using Nat.le_of_not_lt hi)]
    rfl

/-- Packed bits are the bits themselves and zeros up to a whole byte. -/
theorem ofUnits_pack (bits : List Bool) :
    ofUnits 8 (pack bits) =
      bits ++ List.replicate (8 * ((bits.length + 7) / 8) - bits.length) false := by
  have h8 : 0 < 8 := by decide
  refine List.ext_getElem? fun n => ?_
  rw [getElem?_ofUnits h8, getElem?_pack]
  split
  · rename_i hn
    rw [Option.map_some, testBit_toByte _ (Nat.mod_lt n h8), Nat.div_add_mod,
      List.getD_eq_getElem?_getD]
    by_cases hbit : n < bits.length
    · rw [List.getElem?_append_left hbit, List.getElem?_eq_getElem hbit]
      rfl
    · rw [List.getElem?_append_right (by omega), List.getElem?_replicate_of_lt (by omega),
        List.getElem?_eq_none (by omega)]
      rfl
  · rename_i hn
    rw [List.getElem?_eq_none (by simp; omega)]
    rfl

end Bits

namespace Field

mutual

theorem length_units : ∀ f : Field, f.units.length = f.size
  | leaf _ content => by cases content <;> simp [units, Leaf.units, size, Leaf.size]
  | group _ .bits children => by rw [units, Bits.length_pack, length_joinedBits children, size]
  | group _ .compound children => by
      rw [units, length_joinedUnits children, size] <;> simp
  | group _ .repeated children => by
      rw [units, length_joinedUnits children, size] <;> simp

theorem length_joinedUnits : ∀ cs : List Field, (joinedUnits cs).length = totalUnits cs
  | [] => rfl
  | c :: cs => by
      rw [joinedUnits, List.length_append, length_units c, length_joinedUnits cs, totalUnits]

theorem length_joinedBits : ∀ cs : List Field, (joinedBits cs).length = totalBits cs
  | [] => rfl
  | c :: cs => by
      rw [joinedBits, List.length_append, length_ofUnits, length_units c, length_joinedBits cs,
        totalBits, Nat.mul_comm]

end

end Field
end ArtifactLayout
