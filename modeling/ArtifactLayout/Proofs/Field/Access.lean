import ArtifactLayout.Corpus.Generator
import ArtifactLayout.Proofs.Field.Addressing
import ArtifactLayout.Proofs.Guarded.Writing

/-! # Access to units

What reading, replacing and writing units give on any tree, done at once or step by step. Single units
are read and replaced as by a lens, up to the bits that a field has no room for. An index has a unit iff
it is less than the size, a fault names the field that was asked and not one below it, and a step that
fails leaves the field as it was.
-/

namespace ArtifactLayout
set_option autoImplicit false

namespace Field

/-! ## Units that are read -/

section Read
variable {f g : Field} {i : Nat} {unit : UInt8}

theorem get_of_unit (h : f.units[i]? = some unit) : f.get i = .ok unit := by
  rw [get, unit?_eq, h]

theorem unit_of_get (h : f.get i = .ok unit) : f.units[i]? = some unit := by
  rw [get, unit?_eq] at h
  cases hunit : f.units[i]? with
  | none =>
    rw [hunit] at h
    cases h
  | some v =>
    rw [hunit] at h
    exact congrArg some (Except.ok.inj h)

theorem get_congr (hunit : g.units[i]? = f.units[i]?) (hsize : g.size = f.size) :
    g.get i = f.get i := by
  rw [get, get, unit?_eq, unit?_eq, hunit, hsize]

theorem length_toBytes (f : Field) :
    f.toBytes.length = if f.unitBits = 8 then f.size else (f.size + 7) / 8 := by
  rw [toBytes]
  split
  · exact length_units f
  · rw [Bits.length_pack, length_ofUnits, length_units, Nat.one_mul]

/-- What is written replaces the first units, as far as the field has room for their bits. -/
theorem getElem?_units_withUnits (f : Field) {us : List UInt8} (h : us.length ≤ f.size) (i : Nat) :
    (f.withUnits us).units[i]? =
      if i < us.length then us[i]?.map (· &&& f.mask i) else f.units[i]? := by
  have hlength : (splice f.units 0 us).length = f.size := by rw [length_splice, length_units]
  rw [← withUnits_splice_units, units_withUnits_full f hlength, List.getElem?_zipWith,
    getElem?_splice, length_units]
  by_cases hi : i < us.length
  · rw [if_pos hi, if_pos (by omega), getElem?_full (by omega), Nat.sub_zero, List.getElem?_eq_getElem hi]
    rfl
  · rw [if_neg hi, if_neg (by omega)]
    cases hunit : f.units[i]? with
    | none => rfl
    | some unit =>
      obtain ⟨hlt, -⟩ := List.getElem?_eq_some_iff.mp hunit
      rw [getElem?_full (by rwa [← length_units])]
      exact congrArg some (unit_and_mask hunit)

end Read

/-! ## One unit as a lens -/

section Lens
variable {f g : Field} {i j : Nat}

theorem get_setUnit_self (h : i < f.size) (v : UInt8) :
    (f.setUnit i v).get i = .ok (v &&& f.mask i) := by
  refine get_of_unit ?_
  rw [units_setUnit, List.getElem?_set_self (by rwa [length_units])]

theorem get_setUnit_of_ne (h : j ≠ i) (v : UInt8) : (f.setUnit i v).get j = f.get j := by
  refine get_congr ?_ (size_setUnit f i v)
  rw [units_setUnit, List.getElem?_set_ne h.symm]

/-- On every tree the units are read and replaced as by a lens, up to the bits that the field has no room
for: which these are in a unit depends on the shape of the tree alone. It is the same whether a unit of a
bit group is replaced at once or bit by bit, and whatever was looked up before. -/
theorem unit_lens (f : Field) {i : Nat} (h : i < f.size) (v w : UInt8) (past : Guarded.Past) :
    (∀ g : Field, g.SameShape f → g.mask i = f.mask i) ∧
    ∃ g, f.set i v = .ok g ∧ Guarded.replaceUnit past i v f = some (.ok ⟨⟩, g) ∧ g.SameShape f ∧
      g.get i = .ok (v &&& f.mask i) ∧
      (∀ j, j ≠ i → g.get j = f.get j) ∧
      g.set i w = f.set i w ∧
      ∀ unit, f.get i = .ok unit → f.set i unit = .ok f := by
  refine ⟨fun g hg => congrFun hg.mask_eq i, f.setUnit i v, set_of_lt h v, replaceUnit_of_lt past h v,
    blank_setUnit f i v, get_setUnit_self h v, fun j hj => get_setUnit_of_ne hj v, ?_, ?_⟩
  · rw [set_of_lt (by rwa [size_setUnit]), set_of_lt h, setUnit_setUnit]
  · intro unit hunit
    rw [set_of_lt h, setUnit_of_unit (unit_of_get hunit)]

/-- A tree of all six kinds, in which bytes lie across the units of bit groups. -/
def sampleMixed : Field :=
  .group .none .bits [
    .leaf .none (.bitfield #[true, false, true]),
    .leaf .none (.block #[]),
    .group .none .compound [
      .leaf .none (.bitfield #[true]),
      .leaf .none (.ranged 1 2 #[0xa5])],
    .group .none .repeated [
      .group .none .bits [.leaf .none (.bitfield #[true, true])]],
    .leaf .none (.block #[0x3c])]

/-- The second unit has room for a bit of the compound's bitfield and for five of its byte, while its
first two bits are those of a unit that the bitfield has no room for. -/
theorem unit_lens_sample :
    1 < sampleMixed.size ∧ ∃ g, sampleMixed.set 1 0xff = .ok g ∧ g.get 1 = .ok 0x3f ∧
      g.get 0 = sampleMixed.get 0 ∧ g.get 2 = sampleMixed.get 2 ∧
      g.set 1 0 = sampleMixed.set 1 0 := by
  have hi : 1 < sampleMixed.size := by decide
  have hmask : 0xff &&& sampleMixed.mask 1 = 0x3f := by decide
  obtain ⟨-, g, hset, -, -, hself, hothers, hagain, -⟩ := unit_lens sampleMixed hi 0xff 0 fun _ => [3]
  exact ⟨hi, g, hset, hmask ▸ hself, hothers 0 (by decide), hothers 2 (by decide), hagain⟩

end Lens

/-! ## Places counted in words -/

/-- The size of a field and the places of its children are counted truly. -/
structure CountedTruly (f : Field) : Prop where
  size_eq : f.countedSize = f.size
  units_eq : ∀ tag grouping cs, f = group tag grouping cs → grouping ≠ .bits →
    ∀ k, countedUnits 0 (cs.take k) = startOf size cs k
  bits_eq : ∀ tag cs, f = group tag .bits cs →
    ∀ k, countedBits 0 (cs.take k) = startOf width cs k

theorem startOf_le_sum (weight : Field → Nat) (cs : List Field) (k : Nat) :
    startOf weight cs k ≤ (cs.map weight).sum := by
  have hmono : startOf weight cs k ≤ startOf weight cs (k + cs.length) :=
    startOf_mono (Nat.le_add_right k _)
  rwa [startOf_of_length_le (Nat.le_add_left cs.length k)] at hmono

theorem countedTruly_of_fits {f : Field} (h : f.Everywhere CountFits) : f.CountedTruly where
  size_eq := countedSize_eq h
  units_eq := by
    rintro tag grouping cs rfl hgrouping k
    have hfits : totalUnits cs ≤ maxWord := by
      cases grouping with
      | bits => exact absurd rfl hgrouping
      | compound | repeated => exact h [] _ rfl
    have htotal : totalUnits (cs.take k) = startOf size cs k := totalUnits_eq_sum (cs.take k)
    have hle := startOf_le_sum size cs k
    have hall : ∀ c ∈ cs.take k, c.Everywhere CountFits :=
      fun c hc => h.of_mem (List.mem_of_mem_take hc)
    rw [← totalUnits_eq_sum] at hle
    rw [countedUnits_eq hall (by omega), htotal, Nat.zero_add]
  bits_eq := by
    rintro tag cs rfl k
    have hfits : totalBits cs ≤ maxWord := h [] _ rfl
    have htotal : totalBits (cs.take k) = startOf width cs k := totalBits_eq_sum (cs.take k)
    have hle := startOf_le_sum width cs k
    have hall : ∀ c ∈ cs.take k, c.Everywhere CountFits :=
      fun c hc => h.of_mem (List.mem_of_mem_take hc)
    rw [← totalBits_eq_sum] at hle
    rw [countedBits_eq hall (by omega), htotal, Nat.zero_add]

/-! ## Total access -/

/-- What accesses to a field give, at once and step by step, whatever was looked up before. -/
structure TotalAccess (f : Field) : Prop where
  get_ok : ∀ i < f.size, ∃ unit, f.get i = .ok unit
  /-- The fault names the size of the field that was asked, however deep the descent. -/
  get_error : ∀ i, f.size ≤ i → f.get i = .error (.indexOutOfRange i f.size)
  read : ∀ {σ : Type} (past : Guarded.Past) (i : Nat) (s : σ),
    Guarded.readUnit past f i s = some (f.get i, s)
  set_ok : ∀ (past : Guarded.Past) (v : UInt8), ∀ i < f.size, ∃ g, f.set i v = .ok g ∧
    Guarded.replaceUnit past i v f = some (.ok ⟨⟩, g)
  set_error : ∀ (past : Guarded.Past) (v : UInt8) (i : Nat), f.size ≤ i →
    f.set i v = .error (.indexOutOfRange i f.size) ∧
    Guarded.replaceUnit past i v f = some (.error (.indexOutOfRange i f.size), f)
  units : ∀ {σ : Type} (past : Guarded.Past) (s : σ), ∃ us,
    Guarded.readUnits past f s = some (.ok us, s) ∧ us = f.units ∧ us.length = f.size
  bytes : ∀ {σ : Type} (past : Guarded.Past) (s : σ), ∃ bs,
    Guarded.readBytes past f s = some (.ok bs, s) ∧ bs = f.toBytes ∧
    bs.length = if f.unitBits = 8 then f.size else (f.size + 7) / 8
  /-- Too many units are refused before one of them is written. -/
  write_error : ∀ (pasts : Nat → Guarded.Past) (us : List UInt8), f.size < us.length →
    f.write us = .error (.contentTooWide us.length f.size) ∧
    Guarded.writeUnits pasts us f = some (.error (.contentTooWide us.length f.size), f)
  write_ok : ∀ (pasts : Nat → Guarded.Past) (us : List UInt8), us.length ≤ f.size → ∃ g,
    f.write us = .ok g ∧ Guarded.writeUnits pasts us f = some (.ok ⟨⟩, g) ∧ g.SameShape f ∧
    (∀ i unit, us[i]? = some unit → g.get i = .ok (unit &&& f.mask i)) ∧
    ∀ i, us.length ≤ i → g.get i = f.get i

theorem totalAccess (f : Field) : f.TotalAccess where
  get_ok i hi := by
    obtain ⟨unit, -, hget⟩ := get_of_lt hi
    exact ⟨unit, hget⟩
  get_error i hi := get_of_le hi
  read past i s := readUnit_safe f past i s
  set_ok past v i hi := ⟨f.setUnit i v, set_of_lt hi v, replaceUnit_of_lt past hi v⟩
  set_error past v i hi := ⟨set_of_le hi v, replaceUnit_of_le past hi v⟩
  units past s := ⟨f.units, readUnits_eq past f s, rfl, length_units f⟩
  bytes past s := ⟨f.toBytes, readBytes_eq past f s, rfl, length_toBytes f⟩
  write_error pasts us hlt := ⟨write_of_lt hlt, writeUnits_of_lt pasts hlt⟩
  write_ok pasts us hle := by
    have hshape : (f.withUnits us).SameShape f := blank_withUnits f us
    refine ⟨f.withUnits us, write_of_le hle, writeUnits_of_le pasts hle, hshape,
      fun i unit hunit => ?_, fun i hi => ?_⟩
    · obtain ⟨hi, -⟩ := List.getElem?_eq_some_iff.mp hunit
      refine get_of_unit ?_
      rw [getElem?_units_withUnits f hle, if_pos hi, hunit, Option.map_some]
    · refine get_congr ?_ hshape.size_eq
      rw [getElem?_units_withUnits f hle, if_neg (Nat.not_lt.mpr hi)]

end Field

namespace Guarded
variable {σ : Type} [RandomSource σ]

/-- The next artifact, its bytes read unit by unit. A fault of the reading is an outcome of its own. -/
def nextArtifact (past : Past) (g : Generator σ) :
    Option (Except (Exhausted ⊕ Fault) (List UInt8) × Generator σ) :=
  match g.next with
  | (.error e, g) => some (.error (.inl e), g)
  | (.ok root, g) => (readBytes past root g).map fun (result, g) => (result.mapError .inr, g)

theorem nextArtifact_eq (past : Past) (g : Generator σ) :
    nextArtifact past g = some (g.nextArtifact.1.mapError .inl, g.nextArtifact.2) := by
  rw [nextArtifact, Generator.nextArtifact]
  rcases g.next with ⟨e | root, after⟩
  · rfl
  · dsimp only
    rw [readBytes_eq, Option.map_some]
    rfl

end Guarded

namespace Field

/-- On every tree in which no count passes a word, sizes and places are counted truly, an access succeeds
iff it stays within the size of the field that is asked, and one that fails changes nothing. So the
artifact of a pass that succeeded is always read, and what its reading could fail with is no outcome. -/
theorem access_total {σ : Type} [RandomSource σ] {f : Field} (h : f.Everywhere CountFits) :
    f.Everywhere CountedTruly ∧ f.TotalAccess ∧
    ∀ (past : Guarded.Past) (g : Generator σ),
      Guarded.nextArtifact past g = some (g.nextArtifact.1.mapError .inl, g.nextArtifact.2) :=
  ⟨fun _ _ hg => countedTruly_of_fits (h.below hg), f.totalAccess, Guarded.nextArtifact_eq⟩

/-- The hypothesis can be met. Asking for one unit more than there are, and writing one more, fail with
what the tree was and leave it. -/
theorem access_total_sample :
    sampleMixed.Everywhere CountFits ∧ sampleMixed.countedSize = sampleMixed.size ∧
    sampleMixed.size = 5 ∧
    sampleMixed.get 5 = .error (.indexOutOfRange 5 5) ∧
    Guarded.replaceUnit (fun _ => [3]) 5 1 sampleMixed =
      some (.error (.indexOutOfRange 5 5), sampleMixed) ∧
    Guarded.writeUnits (fun _ _ => [3]) [1, 2, 3, 4, 5, 6] sampleMixed =
      some (.error (.contentTooWide 6 5), sampleMixed) ∧
    ∃ g, Guarded.writeUnits (fun _ _ => [3]) [1, 0xff] sampleMixed = some (.ok ⟨⟩, g) ∧
      g.get 1 = .ok 0x3f ∧ g.get 4 = sampleMixed.get 4 := by
  have hfits : sampleMixed.Everywhere CountFits := countFits_of_leafUnits (by decide)
  have hsize : sampleMixed.size = 5 := by decide
  have hmask : 0xff &&& sampleMixed.mask 1 = 0x3f := by decide
  obtain ⟨hcounted, haccess, -⟩ := access_total (σ := ChaCha8) hfits
  have hget := haccess.get_error 5 (by decide)
  have hset := (haccess.set_error (fun _ => [3]) 1 5 (by decide)).2
  have hrefused := (haccess.write_error (fun _ _ => [3]) [1, 2, 3, 4, 5, 6] (by decide)).2
  obtain ⟨g, -, hwritten, -, hfirst, hrest⟩ :=
    haccess.write_ok (fun _ _ => [3]) [1, 0xff] (by decide)
  rw [hsize] at hget hset hrefused
  exact ⟨hfits, (hcounted [] _ rfl).size_eq, hsize, hget, hset, hrefused, g, hwritten,
    hmask ▸ hfirst 1 0xff rfl, hrest 4 (by decide)⟩

end Field
end ArtifactLayout
