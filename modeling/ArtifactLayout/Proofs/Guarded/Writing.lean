import ArtifactLayout.Proofs.Field.Writing
import ArtifactLayout.Proofs.Guarded.Content

/-! # Guarded writing

A unit is replaced in its place: a container finds the child that holds it as for reading, and a unit of
a bit group is replaced bit by bit, the unit of the child that holds a bit being read, changed and
replaced each time. A field is written by replacing its first units one after the other. What is done
before a step that fails stays done, so that nothing here undoes half a change.
-/

namespace ArtifactLayout
set_option autoImplicit false

open ArtifactLayout.Field

/-- A change that may be refused, as a step on the field that it changes. -/
def Attempt.change (edit : Field → Except Fault Field) : Attempt Field PUnit := fun f =>
  match edit f with
  | .ok g => (.ok ⟨⟩, g)
  | .error fault => (.error fault, f)

/-- A unit with one of its bits, counted from the lowest, replaced. -/
def Bits.replace (unit : UInt8) (shift : Nat) (value : Bool) : UInt8 :=
  if value then unit ||| 1 <<< UInt8.ofNat shift else unit &&& ~~~(1 <<< UInt8.ofNat shift)

namespace Guarded

/-! ## Steps on a part of a tree -/

/-- A step on the child with an index. -/
def onChild {α : Type} (k : Nat) (step : Guarded Field α) : Guarded (List Field) α := fun cs =>
  cs[k]?.bind fun c => (step c).map fun (result, d) => (result, cs.set k d)

/-- A step on the children of a group. -/
def onChildren {α : Type} (step : Guarded (List Field) α) : Guarded Field α
  | .leaf _ _ => none
  | .group tag grouping cs => (step cs).map fun (result, ds) => (result, .group tag grouping ds)

/-! ## Replacing a unit -/

/-- How a unit of a field is replaced, given its index and the new one. -/
abbrev Setter := Nat → UInt8 → Guarded Field PUnit

def replaceContent : Setter := fun i v => do
  match ← attempt get with
  | .leaf tag content =>
    let content ← setUnit content i v
    attempt (set (Field.leaf tag content))
  | .group _ _ _ => within none

/-- A unit of some children that are addressed one after the other. -/
def replaceJoined (earlier : List Nat) (setters : List Setter) (i : Nat) (v : UInt8) :
    Guarded (List Field) PUnit := do
  let children ← attempt get
  let run ← within (after earlier (Run.ofList children))
  let (found, _) ← within (locate i run)
  let (child, inner) ← attempt (Attempt.check found)
  let setter ← within setters[child]?
  onChild child (setter inner v)

/-- A bit of some children that are addressed bit by bit. -/
def replaceBit (past : Past) (setters : List Setter) (bit : Nat) (value : Bool) :
    Guarded (List Field) PUnit := do
  let children ← attempt get
  let (child, inner) ← within (place? (startsFrom width 0 children).toArray bit)
  let field ← within children[child]?
  let setter ← within setters[child]?
  let index ← within (if field.unitBits = 0 then none else some (inner / field.unitBits))
  let top ← within (sub? field.unitBits 1)
  let shift ← within (sub? top (inner % field.unitBits))
  let shift ← within (below? shift 8)
  let unit ← readUnit past field index
  onChild child (setter index (Bits.replace unit shift value))

/-- Bits from one on, as far as the children have them. What was looked up before may be different for
each bit. -/
def replaceBits (pasts : Nat → Past) (setters : Nat → List Setter) (bit : Nat) :
    List Bool → Guarded (List Field) PUnit
  | [] => return ⟨⟩
  | value :: values => do
    let children ← attempt get
    if bit < totalBits children then replaceBit (pasts bit) (setters bit) bit value
    replaceBits pasts setters (bit + 1) values

/-- A byte of some children that are addressed bit by bit. -/
def replaceByte (pasts : Nat → Past) (setters : Nat → List Setter) (i : Nat) (v : UInt8) :
    Guarded (List Field) PUnit := do
  let children ← attempt get
  if i < (totalBits children + 7) / 8 then replaceBits pasts setters (8 * i) (Bits.ofUnit 8 v)
  else throw (.indexOutOfRange i ((totalBits children + 7) / 8))

mutual

/-- How units are replaced in a field that was made like a given one; the field itself is the state, as
its content changes between the bits of a unit. -/
def setter (past : Past) : Field → Setter
  | .leaf _ _, i, v => replaceContent i v
  | .group _ .bits children, i, v =>
    onChildren (replaceByte (fun bit place => past (2 * bit :: place))
      (fun bit => setters (fun place => past ((2 * bit + 1) :: place)) 0 children) i v)
  | .group _ .compound children, i, v =>
    onChildren (replaceJoined (past []) (setters past 0 children) i v)
  | .group _ .repeated children, i, v =>
    onChildren (replaceJoined (past []) (setters past 0 children) i v)

/-- How units are replaced in each of some children, the first of which has an index. -/
def setters (past : Past) (index : Nat) : List Field → List Setter
  | [] => []
  | c :: cs => setter (fun place => past (index :: place)) c :: setters past (index + 1) cs

end

def replaceUnit (past : Past) (i : Nat) (v : UInt8) : Guarded Field PUnit := fun f =>
  setter past f i v f

/-! ## Writing units -/

def replaceUnits (pasts : Nat → Past) (i : Nat) : List UInt8 → Guarded Field PUnit
  | [] => return ⟨⟩
  | v :: vs => do
    replaceUnit (pasts i) i v
    replaceUnits pasts (i + 1) vs

/-- Writes units into any field, from the first one on. -/
def writeUnits (pasts : Nat → Past) (units : List UInt8) : Guarded Field PUnit := do
  let f ← attempt get
  if f.size < units.length then throw (.contentTooWide units.length f.size)
  else replaceUnits pasts 0 units

end Guarded

open Guarded

/-! ## One bit of a unit -/

namespace Bits

theorem testBit_replace (unit : UInt8) {shift i : Nat} (hshift : shift < 8) (hi : i < 8) (value : Bool) :
    (replace unit shift value).toNat.testBit i =
      if i = shift then value else unit.toNat.testBit i := by
  have hplace : ((1 : UInt8) <<< UInt8.ofNat shift).toNat.testBit i = decide (i = shift) := by
    have hplaces : ∀ k j : Fin 8,
        ((1 : UInt8) <<< UInt8.ofNat k.val).toNat.testBit j.val = decide (j.val = k.val) := by decide
    exact hplaces ⟨shift, hshift⟩ ⟨i, hi⟩
  have hother : (~~~((1 : UInt8) <<< UInt8.ofNat shift)).toNat.testBit i = !decide (i = shift) := by
    rw [← hplace, ← UInt8.toNat_toBitVec, ← UInt8.toNat_toBitVec, BitVec.testBit_toNat,
      BitVec.testBit_toNat, UInt8.toBitVec_not, BitVec.getLsbD_not, decide_eq_true hi, Bool.true_and]
  cases value with
  | false =>
    rw [replace, if_neg Bool.false_ne_true, UInt8.toNat_and, Nat.testBit_and, hother]
    split <;> simp_all
  | true =>
    rw [replace, if_pos rfl, UInt8.toNat_or, Nat.testBit_or, hplace]
    split <;> simp_all

/-- To replace a bit among the bits of units is to replace it in the unit that holds it. -/
theorem ofUnits_set {width : Nat} (hpos : 0 < width) (hle : width ≤ 8) {units : List UInt8} {n : Nat}
    {unit : UInt8} (h : units[n / width]? = some unit) (value : Bool) :
    (ofUnits width units).set n value =
      ofUnits width (units.set (n / width) (replace unit (width - 1 - n % width) value)) := by
  have hn := Nat.mod_lt n hpos
  obtain ⟨hunit, -⟩ := List.getElem?_eq_some_iff.mp h
  refine List.ext_getElem? fun m => ?_
  have hm := Nat.mod_lt m hpos
  have hplace := testBit_replace unit (show width - 1 - n % width < 8 by omega)
    (show width - 1 - m % width < 8 by omega) value
  rw [getElem?_ofUnits hpos, List.getElem?_set, List.getElem?_set, getElem?_ofUnits hpos]
  by_cases hsame : n / width = m / width
  · rw [if_pos hsame, if_pos hunit, Option.map_some, hplace]
    by_cases hbit : n % width = m % width
    · have hmn : n = m := by rw [← Nat.div_add_mod n width, hsame, hbit, Nat.div_add_mod]
      have hlength : n < width * units.length := by
        rwa [Nat.mul_comm, ← Nat.div_lt_iff_lt_mul hpos]
      rw [if_pos hmn, if_pos (by rwa [length_ofUnits]), if_pos (by omega)]
    · have hmn : n ≠ m := fun h => hbit (h ▸ rfl)
      rw [if_neg hmn, if_neg (by omega), ← hsame, h, Option.map_some]
  · have hne : n ≠ m := fun h => hsame (h ▸ rfl)
    rw [if_neg hsame, if_neg hne]

end Bits

section Replace
variable {cs ds : List Field} {rs : List Setter}

/-- Setters that replace the units of some children, whatever their content. -/
def SettersOf (rs : List Setter) (cs : List Field) : Prop :=
  ∀ (k : Nat) (c : Field), cs[k]? = some c → ∃ setter : Setter, rs[k]? = some setter ∧
    ∀ i v d, d.SameShape c → Safe (setter i v) (Attempt.change (·.set i v)) d

theorem onChild_eq {k : Nat} {c d : Field} (hc : cs[k]? = some c) {step : Guarded Field PUnit}
    (h : step c = some (.ok ⟨⟩, d)) : onChild k step cs = some (.ok ⟨⟩, cs.set k d) := by
  rw [onChild, hc, Option.bind_some, h, Option.map_some]

theorem change_set_of_lt {f : Field} {i : Nat} (h : i < f.size) (v : UInt8) :
    Attempt.change (·.set i v) f = (.ok ⟨⟩, f.setUnit i v) := by
  rw [Attempt.change, set_of_lt h]

theorem change_set_of_le {f : Field} {i : Nat} (h : f.size ≤ i) (v : UInt8) :
    Attempt.change (·.set i v) f = (.error (.indexOutOfRange i f.size), f) := by
  rw [Attempt.change, set_of_le h]

theorem SettersOf.of_blanks (h : SettersOf rs cs) (hds : blanks ds = blanks cs) : SettersOf rs ds := by
  intro k d hd
  obtain ⟨c, hc, hshape⟩ := getElem?_of_blanks hds hd
  obtain ⟨setter, hsetter, hsafe⟩ := h k c hc
  exact ⟨setter, hsetter, fun i v e he => hsafe i v e (he.trans hshape)⟩

theorem replaceContent_safe (tag : Tag) (content : Leaf) (i : Nat) (v : UInt8) :
    Safe (replaceContent i v) (Attempt.change (·.set i v)) (.leaf tag content) := by
  rw [Safe, replaceContent, get_bind]
  dsimp only
  by_cases hi : i < content.size
  · rw [bind_of_ok (setUnit_eq hi v _), change_set_of_lt hi]
    rfl
  · have hle := Nat.le_of_not_lt hi
    rw [Guarded.setUnit, if_neg hi, change_set_of_le hle]
    rfl

theorem replaceJoined_safe (h : SettersOf rs ds) (earlier : List Nat) (tag : Tag) {grouping : Grouping}
    (hgrouping : grouping ≠ .bits) (i : Nat) (v : UInt8) :
    Safe (onChildren (replaceJoined earlier rs i v)) (Attempt.change (·.set i v))
      (.group tag grouping ds) := by
  have hsize : (Field.group tag grouping ds).size = (ds.map size).sum := size_of_ne_bits hgrouping ds
  obtain ⟨run, hrun, hover⟩ := (Run.over_ofList ds).after earlier
  obtain ⟨hlocate, -, hfound, hmissed⟩ := hover.locate i
  rw [Safe, onChildren, replaceJoined, get_bind, bind_of_ok (within_of_some hrun ds),
    bind_of_ok (within_of_some hlocate ds)]
  generalize run.locate i = result at hfound hmissed
  obtain ⟨found, run'⟩ := result
  dsimp only at hfound hmissed ⊢
  by_cases hi : i < (ds.map size).sum
  · obtain ⟨k, inner, d, hholds, rfl⟩ := hfound hi
    obtain ⟨setter, hsetter, hsafe⟩ := h k d hholds.child
    have hstep := hsafe inner v d (.refl d)
    rw [Safe, change_set_of_lt hholds.inner_lt] at hstep
    have hok : (attempt (Attempt.check (.ok (k, inner))) : Guarded (List Field) (Nat × Nat)) ds =
        some (.ok (k, inner), ds) := rfl
    rw [bind_of_ok hok]
    dsimp only
    rw [bind_of_ok (within_of_some hsetter ds), onChild_eq hholds.child hstep,
      change_set_of_lt (hsize ▸ hi), setUnit_of_ne_bits hgrouping, hholds.setJoined_eq]
    rfl
  · have hle := Nat.le_of_not_lt hi
    rw [hmissed hle, change_set_of_le (hsize ▸ hle), hsize]
    rfl

theorem replaceBit_eq (h : SettersOf rs ds) (past : Past) {bit : Nat} (hbit : bit < totalBits ds)
    (value : Bool) :
    replaceBit past rs bit value ds = some (.ok ⟨⟩, withBits ds ((joinedBits ds).set bit value)) := by
  obtain ⟨k, inner, d, hholds, -, hplace⟩ := place?_startsFrom (totalBits_eq_sum ds ▸ hbit)
  obtain ⟨setter, hsetter, hsafe⟩ := h k d hholds.child
  have hpos := d.unitBits_pos
  have hle := d.unitBits_le
  have hmod := Nat.mod_lt inner hpos
  have hindex : inner / d.unitBits < d.size :=
    Nat.div_lt_of_lt_mul (Nat.mul_comm _ _ ▸ hholds.inner_lt)
  obtain ⟨unit, hunit, hread⟩ := get_of_lt hindex
  have hreadUnit : readUnit past d (inner / d.unitBits) ds = some (.ok unit, ds) := by
    rw [readUnit_safe d past _ ds, Attempt.check_apply, hread]
  have hstep := hsafe (inner / d.unitBits)
    (Bits.replace unit (d.unitBits - 1 - inner % d.unitBits) value) d (.refl d)
  rw [Safe, change_set_of_lt hindex, setUnit_eq_withUnits, ← withUnits_toUnits_ofUnits,
    ← Bits.ofUnits_set hpos hle (unit?_eq d _ ▸ hunit) value] at hstep
  rw [replaceBit, get_bind, bind_of_ok (within_of_some hplace ds)]
  dsimp only
  rw [bind_of_ok (within_of_some hholds.child ds), bind_of_ok (within_of_some hsetter ds),
    if_neg (Nat.ne_of_gt hpos), bind_of_ok (within_of_some rfl ds),
    bind_of_ok (within_of_some (sub?_of_le hpos) ds),
    bind_of_ok (within_of_some (sub?_of_le (by omega)) ds),
    bind_of_ok (within_of_some (below?_of_lt (by omega)) ds), bind_of_ok hreadUnit,
    onChild_eq hholds.child hstep, hholds.withBits_set, bits]

theorem replaceBits_eq {rs : Nat → List Setter} (h : ∀ bit, SettersOf (rs bit) cs)
    (pasts : Nat → Past) {bits : List Bool} (hbits : bits.length = totalBits cs) (bit : Nat)
    (values : List Bool) :
    replaceBits pasts rs bit values (withBits cs bits) =
      some (.ok ⟨⟩, withBits cs (splice bits bit values)) := by
  -- the bits dealt out so far are those that the state holds, as far as they are kept
  induction values generalizing bits bit with
  | nil =>
    rw [splice_nil]
    rfl
  | cons value values ih =>
    rw [replaceBits, get_bind, totalBits_withBits]
    by_cases hbit : bit < totalBits cs
    · have hstep := replaceBit_eq ((h bit).of_blanks (blanks_withBits cs bits)) (pasts bit)
        (by rwa [totalBits_withBits]) value
      rw [withBits_set hbits] at hstep
      rw [if_pos hbit, bind_of_ok hstep]
      dsimp only
      rw [ih (by rwa [List.length_set]), splice_set (by rwa [hbits])]
    · have hpast : splice bits (bit + 1) values = splice bits bit (value :: values) := by
        refine List.ext_getElem? fun n => ?_
        rw [getElem?_splice, getElem?_splice, if_neg (by omega), if_neg (by omega)]
      rw [if_neg hbit]
      dsimp only
      rw [ih hbits, hpast]

theorem replaceByte_safe {rs : Nat → List Setter} (h : ∀ bit, SettersOf (rs bit) ds)
    (pasts : Nat → Past) (tag : Tag) (i : Nat) (v : UInt8) :
    Safe (onChildren (replaceByte pasts rs i v)) (Attempt.change (·.set i v)) (.group tag .bits ds) := by
  rw [Safe, onChildren, replaceByte, get_bind]
  by_cases hi : i < (totalBits ds + 7) / 8
  · have hrun := replaceBits_eq h pasts (length_joinedBits ds) (8 * i) (Bits.ofUnit 8 v)
    rw [withBits_joinedBits] at hrun
    rw [if_pos hi, hrun, change_set_of_lt (f := .group tag .bits ds) hi]
    rfl
  · have hle := Nat.le_of_not_lt hi
    rw [if_neg hi, change_set_of_le (f := .group tag .bits ds) hle]
    rfl

mutual

theorem setter_safe : ∀ (f : Field) (past : Past) (i : Nat) (v : UInt8) (g : Field),
    g.SameShape f → Safe (setter past f i v) (Attempt.change (·.set i v)) g
  | .leaf tag content, past, i, v, g, s => by
      obtain ⟨tag', content', rfl⟩ := s.exists_leaf
      exact replaceContent_safe tag' content' i v
  | .group tag .bits children, past, i, v, g, s => by
      obtain ⟨tag', ds, rfl, hds⟩ := s.exists_group
      exact replaceByte_safe (fun bit => (setters_of children _ 0).of_blanks hds) _ tag' i v
  | .group tag .compound children, past, i, v, g, s => by
      obtain ⟨tag', ds, rfl, hds⟩ := s.exists_group
      exact replaceJoined_safe ((setters_of children past 0).of_blanks hds) _ tag' (by decide) i v
  | .group tag .repeated children, past, i, v, g, s => by
      obtain ⟨tag', ds, rfl, hds⟩ := s.exists_group
      exact replaceJoined_safe ((setters_of children past 0).of_blanks hds) _ tag' (by decide) i v

theorem setters_of : ∀ (cs : List Field) (past : Past) (index : Nat),
    SettersOf (setters past index cs) cs
  | [], past, index => fun k c hc => by cases hc
  | d :: ds, past, index => by
      intro k c hc
      rw [setters]
      cases k with
      | zero =>
        obtain rfl : d = c := Option.some.inj hc
        exact ⟨_, rfl, setter_safe d _⟩
      | succ k => exact setters_of ds past (index + 1) k c hc

end

theorem replaceUnit_safe (past : Past) (f : Field) (i : Nat) (v : UInt8) :
    Safe (replaceUnit past i v) (Attempt.change (·.set i v)) f :=
  setter_safe f past i v f (.refl f)

end Replace

/-! ## Runs of units -/

section Write
variable {f : Field} {i : Nat} {v : UInt8}

theorem replaceUnit_of_lt (past : Past) (h : i < f.size) (v : UInt8) :
    replaceUnit past i v f = some (.ok ⟨⟩, f.setUnit i v) := by
  rw [replaceUnit_safe, change_set_of_lt h]

theorem replaceUnit_of_le (past : Past) (h : f.size ≤ i) (v : UInt8) :
    replaceUnit past i v f = some (.error (.indexOutOfRange i f.size), f) := by
  rw [replaceUnit_safe, change_set_of_le h]

/-- What one replaced unit leaves behind the rest is what all of them leave. -/
theorem withUnits_splice_setUnit (h : i < f.size) (v : UInt8) (vs : List UInt8) :
    (f.setUnit i v).withUnits (splice (f.setUnit i v).units (i + 1) vs) =
      f.withUnits (splice f.units i (v :: vs)) := by
  have hi : i < f.units.length := by rwa [length_units]
  have hkept : (splice f.units i ((v &&& f.mask i) :: vs)) =
      (splice f.units i (v :: vs)).set i (v &&& f.mask i) := by
    refine List.ext_getElem? fun n => ?_
    simp only [getElem?_splice, List.getElem?_set, length_splice, List.length_cons]
    grind
  have hset : (splice f.units i (v :: vs)).set i v = splice f.units i (v :: vs) := by
    refine List.ext_getElem? fun n => ?_
    simp only [getElem?_splice, List.getElem?_set, length_splice, List.length_cons]
    grind
  have hlength : (splice f.units i (v :: vs)).length = f.size := by rw [length_splice, length_units]
  have hshape : (f.setUnit i v).SameShape f := blank_setUnit f i v
  rw [hshape.withUnits_eq (by rw [length_splice, length_units, hshape.size_eq]), units_setUnit,
    splice_set hi, hkept, withUnits_set_mask hlength, hset]

theorem replaceUnits_eq (pasts : Nat → Past) {vs : List UInt8} (h : i + vs.length ≤ f.size) :
    replaceUnits pasts i vs f = some (.ok ⟨⟩, f.withUnits (splice f.units i vs)) := by
  -- the units written so far are in the state, and the rest is written over it
  induction vs generalizing f i with
  | nil =>
    rw [splice_nil, withUnits_units]
    rfl
  | cons v vs ih =>
    have hi : i < f.size := by
      rw [List.length_cons] at h
      omega
    have hrest : i + 1 + vs.length ≤ (f.setUnit i v).size := by
      rw [size_setUnit]
      rw [List.length_cons] at h
      omega
    rw [replaceUnits, bind_of_ok (replaceUnit_of_lt (pasts i) hi v), ih hrest,
      withUnits_splice_setUnit hi]

/-- Units that are written one by one, each over what the ones before left, are written at once. -/
theorem writeUnits_safe (pasts : Nat → Past) (us : List UInt8) (f : Field) :
    Safe (writeUnits pasts us) (Attempt.change (·.write us)) f := by
  rw [Safe, writeUnits, get_bind, Attempt.change]
  by_cases hlt : f.size < us.length
  · rw [if_pos hlt, write_of_lt hlt]
    rfl
  · have hfits : 0 + us.length ≤ f.size := by omega
    rw [if_neg hlt, write_of_le (Nat.le_of_not_lt hlt), replaceUnits_eq pasts hfits,
      withUnits_splice_units]

theorem writeUnits_of_le (pasts : Nat → Past) {us : List UInt8} (h : us.length ≤ f.size) :
    writeUnits pasts us f = some (.ok ⟨⟩, f.withUnits us) := by
  rw [writeUnits_safe, Attempt.change, write_of_le h]

theorem writeUnits_of_lt (pasts : Nat → Past) {us : List UInt8} (h : f.size < us.length) :
    writeUnits pasts us f = some (.error (.contentTooWide us.length f.size), f) := by
  rw [writeUnits_safe, Attempt.change, write_of_lt h]

end Write
end ArtifactLayout
