import ArtifactLayout.Proofs.Field.Access

/-! # Packing bits

The units of a bit group are the bits of its children one after the other, highest bit first, and zeros
up to a whole byte. Bytes that are written into one fall apart the same way: every child is written with
the bits that lie where its own bits are, whatever its width and wherever the bytes break.
-/

namespace ArtifactLayout
set_option autoImplicit false

namespace Bits

theorem ofUnits_replicate (width : Nat) {unit : UInt8} {b : Bool}
    (h : ofUnit width unit = List.replicate width b) (n : Nat) :
    ofUnits width (List.replicate n unit) = List.replicate (n * width) b := by
  induction n with
  | zero => rw [Nat.zero_mul]; rfl
  | succ n ih =>
    rw [List.replicate_succ, ofUnits, List.flatMap_cons, h, Nat.succ_mul, Nat.add_comm,
      List.replicate_add]
    exact congrArg _ ih

theorem zipWith_and_replicate_true {bits : List Bool} {n : Nat} (h : bits.length = n) :
    List.zipWith and bits (List.replicate n true) = bits := by
  induction bits generalizing n with
  | nil => rfl
  | cons b bits ih =>
    subst h
    rw [List.length_cons, List.replicate_succ, List.zipWith_cons_cons, ih rfl, Bool.and_true]

end Bits

namespace Field

/-! ## Where counts cannot pass a word -/

theorem size_bits (tag : Tag) (cs : List Field) :
    (group tag .bits cs).size = (totalBits cs + 7) / 8 := rfl

theorem width_group (tag : Tag) (grouping : Grouping) (cs : List Field) :
    (group tag grouping cs).width = 8 * (group tag grouping cs).size := Nat.mul_comm _ _

theorem width_le_totalBits {cs : List Field} {c : Field} (hc : c ∈ cs) : c.width ≤ totalBits cs := by
  rw [totalBits_eq_sum]
  exact List.le_sum_of_mem (List.mem_map_of_mem hc)

theorem size_le_totalUnits {cs : List Field} {c : Field} (hc : c ∈ cs) : c.size ≤ totalUnits cs := by
  rw [totalUnits_eq_sum]
  exact List.le_sum_of_mem (List.mem_map_of_mem hc)

theorem width_le_of_mem {f c : Field} (hc : c ∈ f.children) : c.width ≤ f.width := by
  rcases f with ⟨tag, content⟩ | ⟨tag, grouping, cs⟩
  · cases hc
  cases grouping with
  | bits =>
    have hbits : c.width ≤ totalBits cs := width_le_totalBits hc
    rw [width_group, size_bits]
    omega
  | compound | repeated => exact Nat.mul_le_mul (size_le_totalUnits hc) c.unitBits_le

theorem countFits_of_width {f : Field} (h : f.width ≤ maxWord) : f.CountFits := by
  rcases f with ⟨tag, content⟩ | ⟨tag, grouping, cs⟩
  · trivial
  rw [width_group] at h
  cases grouping with
  | bits =>
    have hbits : totalBits cs ≤ maxWord := by
      rw [size_bits] at h
      omega
    exact hbits
  | compound | repeated =>
    have hunits : 8 * totalUnits cs ≤ maxWord := h
    exact Nat.le_trans (Nat.le_mul_of_pos_left _ (Nat.succ_pos 7)) hunits

/-- If the bits of a field fit a word, then so does what any container in it counts. -/
theorem everywhere_countFits_of_width {f : Field} (h : f.width ≤ maxWord) : f.Everywhere CountFits := by
  intro path g hg
  induction path generalizing f with
  | nil =>
    obtain rfl : f = g := Option.some.inj hg
    exact countFits_of_width h
  | cons i path ih =>
    obtain ⟨c, hc, hat⟩ := at?_cons_eq_some hg
    exact ih (Nat.le_trans (width_le_of_mem (List.mem_of_getElem? hc)) h) hat

/-- The bits of a bit group may even fill a word. -/
theorem countFits_of_totalBits {tag : Tag} {cs : List Field} (h : totalBits cs ≤ maxWord) :
    (group tag .bits cs).Everywhere CountFits := by
  refine everywhere_group h fun c hc => ?_
  exact everywhere_countFits_of_width (Nat.le_trans (width_le_totalBits hc) h)

/-! ## The bits of one child -/

section Child
variable {c : Field} {cs : List Field} {bs : List Bool}

/-- A leaf has room for all its bits. -/
theorem bits_full_leaf (tag : Tag) (content : Leaf) :
    (leaf tag content).full.bits = List.replicate (leaf tag content).width true := by
  have hkept : Bits.ofUnit content.unitBits (content.kept 255) =
      List.replicate content.unitBits true := by
    cases content with
    | block content | ranged low high content =>
      have hbyte : Bits.ofUnit 8 255 = List.replicate 8 true := by decide
      exact hbyte
    | bitfield content =>
      have hbit : Bits.ofUnit 1 1 = List.replicate 1 true := by decide
      exact hbit
  rw [bits, unitBits_full, full, units, Leaf.units_full]
  exact Bits.ofUnits_replicate _ hkept content.size

/-- Every child is written with the bits that lie where its own are. -/
theorem getElem?_withBits (cs : List Field) (bs : List Bool) (k : Nat) :
    (withBits cs bs)[k]? = cs[k]?.map fun c =>
      c.withUnits (Bits.toUnits c.unitBits ((bs.drop (startOf width cs k)).take c.width)) := by
  induction cs generalizing bs k with
  | nil => rfl
  | cons c cs ih =>
    rw [withBits]
    cases k with
    | zero => rfl
    | succ k =>
      rw [List.getElem?_cons_succ, List.getElem?_cons_succ, ih, startOf_cons_succ, List.drop_drop]
      rfl

theorem length_withBits (cs : List Field) (bs : List Bool) : (withBits cs bs).length = cs.length := by
  have h := congrArg List.length (blanks_withBits cs bs)
  rwa [blanks_eq_map, blanks_eq_map, List.length_map, List.length_map] at h

/-- The bits of a child lie within those of all. -/
theorem startOf_add_width_le {k : Nat} (hc : cs[k]? = some c) :
    startOf width cs k + c.width ≤ totalBits cs := by
  have hsplit := totalBits_split hc
  rw [totalBits_eq_sum (cs.take k)] at hsplit
  rw [startOf]
  omega

theorem length_bits_of_child (h : bs.length = totalBits cs) {k : Nat} (hc : cs[k]? = some c) :
    ((bs.drop (startOf width cs k)).take c.width).length = c.width := by
  have hle := startOf_add_width_le hc
  rw [List.length_take, List.length_drop]
  omega

end Child

/-! ## Runs of leaves -/

/-- A field that holds its content itself. -/
def IsLeaf (f : Field) : Prop := ∃ tag content, f = leaf tag content

section Leaves
variable {cs : List Field} {bs : List Bool}

theorem joinedBits_fulls_of_leaves (h : ∀ c ∈ cs, c.IsLeaf) :
    joinedBits (fulls cs) = List.replicate (totalBits cs) true := by
  induction cs with
  | nil => rfl
  | cons c cs ih =>
    obtain ⟨tag, content, rfl⟩ := h c List.mem_cons_self
    have hrest := ih fun d hd => h d (List.mem_cons_of_mem _ hd)
    rw [fulls, joinedBits_cons, bits_full_leaf, hrest, totalBits, List.replicate_add]
    rfl

theorem joinedBits_withBits_of_leaves (h : ∀ c ∈ cs, c.IsLeaf) (hbs : bs.length = totalBits cs) :
    joinedBits (withBits cs bs) = bs := by
  rw [joinedBits_withBits cs hbs, joinedBits_fulls_of_leaves h,
    Bits.zipWith_and_replicate_true hbs]

theorem bits_of_written_leaf (h : ∀ c ∈ cs, c.IsLeaf) (hbs : bs.length = totalBits cs) {k : Nat}
    {c d : Field} (hc : cs[k]? = some c) (hd : (withBits cs bs)[k]? = some d) :
    d.bits = (bs.drop (startOf width cs k)).take c.width := by
  have hlength := length_bits_of_child hbs hc
  obtain ⟨tag, content, hleaf⟩ := h c (List.mem_of_getElem? hc)
  have hfull : c.full.bits = List.replicate c.width true := hleaf ▸ bits_full_leaf tag content
  rw [getElem?_withBits, hc, Option.map_some] at hd
  rw [← Option.some.inj hd, bits_withUnits_of_kept hlength (units_withUnits_full c), hfull,
    Bits.zipWith_and_replicate_true hlength]

end Leaves

/-! ## Bit groups -/

section Group
variable (tag : Tag) {cs : List Field}

theorem ofUnits_units_bits (cs : List Field) :
    Bits.ofUnits 8 (group tag .bits cs).units = cs.flatMap bits ++
      List.replicate (8 * (group tag .bits cs).size - totalBits cs) false := by
  rw [units, Bits.ofUnits_pack, length_joinedBits, joinedBits_eq_flatMap, size_bits]

theorem withUnits_bits {us : List UInt8} (h : us.length = (group tag .bits cs).size) :
    (group tag .bits cs).withUnits us =
      group tag .bits (withBits cs ((Bits.ofUnits 8 us).take (totalBits cs))) := by
  rw [withUnits, splice_joinedBits h]

/-- A bit group counts the bits of its children and has a unit for every eight of them, begun or full.
Its units are those bits packed, with zeros behind the last of them. If the children are leaves, then
units that are written full give each of them the bits that lie where its own are, and are read back
up to the bits behind the last child, which are zero. -/
theorem bits_packed (h : totalBits cs ≤ maxWord) :
    let f := group tag .bits cs
    (countedBits 0 cs = totalBits cs ∧ totalBits cs = (cs.map fun c => c.size * c.unitBits).sum) ∧
    (f.countedSize = f.size ∧ f.size = (totalBits cs + 7) / 8) ∧
    (∀ (past : Guarded.Past), ∃ us, Guarded.readUnits past f f = some (.ok us, f) ∧
      Bits.ofUnits 8 us =
        cs.flatMap bits ++ List.replicate (8 * f.size - totalBits cs) false) ∧
    ((∀ c ∈ cs, c.IsLeaf) → ∀ (pasts : Nat → Guarded.Past) (us : List UInt8), us.length = f.size →
      ∃ ds, f.write us = .ok (group tag .bits ds) ∧
        Guarded.writeUnits pasts us f = some (.ok ⟨⟩, group tag .bits ds) ∧
        ds.length = cs.length ∧
        (∀ k c d, cs[k]? = some c → ds[k]? = some d → d.SameShape c ∧
          d.bits = ((Bits.ofUnits 8 us).drop (startOf width cs k)).take c.width) ∧
        ∀ (past : Guarded.Past), ∃ vs, Guarded.readUnits past (group tag .bits ds) f = some (.ok vs, f) ∧
          vs.length = us.length ∧
          Bits.ofUnits 8 vs = (Bits.ofUnits 8 us).take (totalBits cs) ++
            List.replicate (8 * f.size - totalBits cs) false) := by
  intro f
  have hfits : f.Everywhere CountFits := countFits_of_totalBits h
  have hcounted : countedBits 0 cs = 0 + totalBits cs :=
    countedBits_eq (fun c hc => hfits.of_mem hc) (by rwa [Nat.zero_add])
  refine ⟨⟨hcounted.trans (Nat.zero_add _), totalBits_eq_sum cs⟩, ⟨countedSize_eq hfits, rfl⟩,
    fun past => ⟨f.units, readUnits_eq past f f, ofUnits_units_bits tag cs⟩, ?_⟩
  intro hleaves pasts us hus
  have hbits := length_take_ofUnits hus
  have hwritten : f.write us =
      .ok (group tag .bits (withBits cs ((Bits.ofUnits 8 us).take (totalBits cs)))) := by
    rw [write_of_le (Nat.le_of_eq hus), withUnits_bits tag hus]
  refine ⟨_, hwritten, ?_, length_withBits cs _, fun k c d hc hd => ⟨?_, ?_⟩, fun past => ?_⟩
  · rw [writeUnits_of_le pasts (Nat.le_of_eq hus), withUnits_bits tag hus]
  · rw [getElem?_withBits, hc, Option.map_some] at hd
    exact Option.some.inj hd ▸ blank_withUnits c _
  · -- the bits of a child end where those of all children end, so none of them is cut off
    have hle := startOf_add_width_le hc
    rw [bits_of_written_leaf hleaves hbits hc hd, List.drop_take, List.take_take,
      Nat.min_eq_left (by omega)]
  · have hunits := ofUnits_units_bits tag (withBits cs ((Bits.ofUnits 8 us).take (totalBits cs)))
    rw [← joinedBits_eq_flatMap, joinedBits_withBits_of_leaves hleaves hbits, size_bits,
      totalBits_withBits] at hunits
    refine ⟨_, readUnits_eq past _ f, ?_, hunits⟩
    rw [length_units, size_bits, totalBits_withBits]
    exact hus.symm

/-- Bits and bytes in turn, with a byte across two units. -/
def sampleRow : List Field := [
  .leaf .none (.bitfield #[true, false, true]),
  .leaf .none (.block #[]),
  .leaf .none (.block #[0xa5]),
  .leaf .none (.bitfield #[false, true])]

/-- The hypotheses can be met. The byte takes five bits of the first unit and three of the second, of
whose last three bits nothing is left. -/
theorem bits_packed_sample :
    totalBits sampleRow ≤ maxWord ∧ (∀ c ∈ sampleRow, c.IsLeaf) ∧
    (group .none .bits sampleRow).size = 2 ∧
    ∃ ds, (group .none .bits sampleRow).write [0xab, 0xcd] = .ok (group .none .bits ds) ∧
      (∀ d, ds[2]? = some d → d.bits = [false, true, false, true, true, true, true, false]) ∧
      Guarded.readUnits (fun _ => [1]) (group .none .bits ds) (group .none .bits sampleRow) =
        some (.ok [0xab, 0xc8], group .none .bits sampleRow) := by
  have hfits : totalBits sampleRow ≤ maxWord := by decide
  have hleaves : ∀ c ∈ sampleRow, c.IsLeaf := by
    simp only [sampleRow, List.forall_mem_cons]
    exact ⟨⟨_, _, rfl⟩, ⟨_, _, rfl⟩, ⟨_, _, rfl⟩, ⟨_, _, rfl⟩, fun _ h => absurd h List.not_mem_nil⟩
  obtain ⟨-, -, -, hleaf⟩ := bits_packed .none hfits
  obtain ⟨ds, hwrite, -, -, hchildren, hread⟩ := hleaf hleaves (fun _ _ => [1]) [0xab, 0xcd] (by decide)
  obtain ⟨vs, hvs, -, hback⟩ := hread fun _ => [1]
  have hpacked : (Bits.ofUnits 8 [0xab, 0xcd]).take (totalBits sampleRow) ++
      List.replicate (8 * (group .none .bits sampleRow).size - totalBits sampleRow) false =
        Bits.ofUnits 8 [0xab, 0xc8] := by decide
  obtain rfl : vs = [0xab, 0xc8] := Bits.ofUnits_injective (hback.trans hpacked)
  refine ⟨hfits, hleaves, by decide, ds, hwrite, fun d hd => ?_, hvs⟩
  exact (hchildren 2 _ d rfl hd).2

end Group
end Field
end ArtifactLayout
