import Mathlib
import ArtifactLayout.Field.Run
import ArtifactLayout.Proofs.Field.Placement

/-! # Looking a unit up

A container finds the child that holds a unit, or a bit, in a table of the places where its children
start: it is the last child that starts no later. Children of size zero share their start with the next
one and come before it, so they are never found. What is found in this way is what a descent through
the children finds.
-/

namespace ArtifactLayout
set_option autoImplicit false

namespace Field

/-! ## Units by index -/

theorem unitBits_pos (f : Field) : 0 < f.unitBits := by
  cases f with
  | leaf tag content => cases content <;> exact Nat.succ_pos _
  | group tag grouping children => exact Nat.succ_pos _

theorem unit?_leaf (content : Leaf) (i : Nat) : content.unit? i = content.units[i]? := by
  cases content <;> simp [Leaf.unit?, Leaf.units]

mutual

theorem unit?_eq : ∀ (f : Field) (i : Nat), f.unit? i = f.units[i]?
  | leaf tag content, i => unit?_leaf content i
  | group tag .compound children, i => joinedUnit?_eq children i
  | group tag .repeated children, i => joinedUnit?_eq children i
  | group tag .bits children, i => by
      have hbit : (fun j => (joinedBit? children (8 * i + j)).getD false) =
          fun j => (joinedBits children).getD (8 * i + j) false := by
        funext j
        rw [joinedBit?_eq children, List.getD_eq_getElem?_getD]
      rw [unit?, units, Bits.getElem?_pack, length_joinedBits, hbit]
      by_cases h : 8 * i < totalBits children
      · rw [if_pos h, if_pos (by omega)]
      · rw [if_neg h, if_neg (by omega)]

theorem joinedUnit?_eq : ∀ (cs : List Field) (i : Nat), joinedUnit? cs i = (joinedUnits cs)[i]?
  | [], _ => rfl
  | c :: cs, i => by
      rw [joinedUnit?, joinedUnits]
      by_cases h : i < c.size
      · rw [if_pos h, unit?_eq c, List.getElem?_append_left (by rwa [length_units])]
      · rw [if_neg h, joinedUnit?_eq cs, List.getElem?_append_right (by rw [length_units]; omega),
          length_units]

theorem joinedBit?_eq : ∀ (cs : List Field) (i : Nat), joinedBit? cs i = (joinedBits cs)[i]?
  | [], _ => rfl
  | c :: cs, i => by
      have hlength : (Bits.ofUnits c.unitBits c.units).length = c.size * c.unitBits := by
        rw [length_ofUnits, length_units, Nat.mul_comm]
      rw [joinedBit?, joinedBits]
      by_cases h : i < c.size * c.unitBits
      · rw [if_pos h, unit?_eq c, List.getElem?_append_left (by rwa [hlength]),
          Bits.getElem?_ofUnits c.unitBits_pos]
      · rw [if_neg h, joinedBit?_eq cs, List.getElem?_append_right (by rw [hlength]; omega), hlength]

end

theorem get_of_lt {f : Field} {i : Nat} (h : i < f.size) : ∃ unit, f.unit? i = some unit ∧
    f.get i = .ok unit := by
  have hi : i < f.units.length := by rwa [length_units]
  have hunit : f.unit? i = some f.units[i] := by rw [unit?_eq, List.getElem?_eq_getElem hi]
  exact ⟨_, hunit, by rw [get, hunit]⟩

theorem get_of_le {f : Field} {i : Nat} (h : f.size ≤ i) :
    f.get i = .error (.indexOutOfRange i f.size) := by
  rw [get, unit?_eq, List.getElem?_eq_none (by rwa [length_units])]

/-! ## Tables of starts -/

/-- The place where a child starts: all that the children before it take up. -/
def startOf (weight : Field → Nat) (cs : List Field) (k : Nat) : Nat := ((cs.take k).map weight).sum

/-- The places where children start that take up so much each, the first of them at `start`. -/
def startsFrom (weight : Field → Nat) (start : Nat) : List Field → List Nat
  | [] => []
  | c :: cs => start :: startsFrom weight (start + weight c) cs

variable {weight : Field → Nat} {start : Nat} {cs : List Field}

@[simp] theorem length_startsFrom : (startsFrom weight start cs).length = cs.length := by
  induction cs generalizing start with
  | nil => rfl
  | cons c cs ih => rw [startsFrom, List.length_cons, List.length_cons, ih]

theorem getElem?_startsFrom {k : Nat} (h : k < cs.length) :
    (startsFrom weight start cs)[k]? = some (start + startOf weight cs k) := by
  induction cs generalizing start k with
  | nil => cases h
  | cons c cs ih =>
    cases k with
    | zero => rfl
    | succ k =>
      rw [startsFrom, List.getElem?_cons_succ, ih (Nat.lt_of_succ_lt_succ h), startOf, startOf,
        List.take_succ_cons, List.map_cons, List.sum_cons, Nat.add_assoc]

theorem startsFrom_append (as bs : List Field) :
    startsFrom weight start (as ++ bs) =
      startsFrom weight start as ++ startsFrom weight (start + (as.map weight).sum) bs := by
  induction as generalizing start with
  | nil => rfl
  | cons a as ih =>
    rw [List.cons_append, startsFrom, ih, startsFrom, List.map_cons, List.sum_cons, Nat.add_assoc,
      List.cons_append]

variable (weight) in
theorem startOf_succ {k : Nat} {c : Field} (h : cs[k]? = some c) :
    startOf weight cs (k + 1) = startOf weight cs k + weight c := by
  rw [startOf, startOf, List.take_add_one, h, List.map_append, List.sum_append]
  rfl

theorem startOf_of_length_le {k : Nat} (h : cs.length ≤ k) :
    startOf weight cs k = (cs.map weight).sum := by
  rw [startOf, List.take_of_length_le h]

theorem pairwise_startsFrom : (startsFrom weight start cs).Pairwise (· ≤ ·) := by
  have hge : ∀ (cs : List Field) (start : Nat), ∀ s ∈ startsFrom weight start cs, start ≤ s := by
    intro cs
    induction cs with
    | nil => exact fun _ _ h => absurd h List.not_mem_nil
    | cons c cs ih =>
      intro start s hs
      rcases List.mem_cons.mp hs with rfl | hs
      · exact Nat.le_refl _
      · exact Nat.le_trans (Nat.le_add_right _ _) (ih _ s hs)
  induction cs generalizing start with
  | nil => exact .nil
  | cons c cs ih =>
    refine List.pairwise_cons.mpr ⟨fun s hs => ?_, ih⟩
    exact Nat.le_trans (Nat.le_add_right _ _) (hge cs _ s hs)

/-- A child that holds a place, and how far into it the place lies. -/
structure Holds (weight : Field → Nat) (cs : List Field) (i k inner : Nat) (c : Field) : Prop where
  child : cs[k]? = some c
  start : i = startOf weight cs k + inner
  inner_lt : inner < weight c

theorem Holds.lt_sum {i k inner : Nat} {c : Field} (h : Holds weight cs i k inner c) :
    i < (cs.map weight).sum := by
  have hsplit := congrArg (List.map weight) (List.take_append_drop (k + 1) cs)
  have hsum := congrArg List.sum hsplit
  rw [List.map_append, List.sum_append] at hsum
  have hnext := startOf_succ weight h.child
  have hstart := h.start
  have hinner := h.inner_lt
  rw [startOf] at hnext
  omega

/-- The last child that starts no later than a place below the total holds the place. -/
theorem bisect_startsFrom {i : Nat} (hi : i < (cs.map weight).sum) :
    ∃ k inner c, Holds weight cs i k inner c ∧
      bisect (fun start => decide (start ≤ i)) (startsFrom weight 0 cs).toArray = k + 1 := by
  have hsorted : (startsFrom weight 0 cs).toArray.toList.Pairwise
      fun a b => decide (b ≤ i) = true → decide (a ≤ i) = true :=
    pairwise_startsFrom.imp fun hab hb => decide_eq_true (Nat.le_trans hab (of_decide_eq_true hb))
  have hle := bisect_le_size (fun start => decide (start ≤ i)) (startsFrom weight 0 cs).toArray
  have hborder : ∀ k, k < cs.length → (startOf weight cs k ≤ i ↔
      k < bisect (fun start => decide (start ≤ i)) (startsFrom weight 0 cs).toArray) := by
    intro k hk
    have hstart : (startsFrom weight 0 cs).toArray[k]? = some (startOf weight cs k) := by
      rw [List.getElem?_toArray, getElem?_startsFrom hk, Nat.zero_add]
    exact (decide_eq_true_iff).symm.trans (test_iff_lt_bisect hsorted hstart)
  generalize bisect (fun start => decide (start ≤ i)) (startsFrom weight 0 cs).toArray = border
    at hle hborder
  rw [List.size_toArray, length_startsFrom] at hle
  -- there is a child, as the total is not zero, and the first one starts at zero
  have hpos : 0 < cs.length := by
    rcases cs with _ | ⟨c, cs⟩
    · cases hi
    · exact Nat.succ_pos _
  have hfirst : 0 < border := (hborder 0 hpos).mp (Nat.zero_le _)
  obtain ⟨k, rfl⟩ : ∃ k, border = k + 1 := ⟨border - 1, by omega⟩
  have hk : k < cs.length := hle
  have hc := List.getElem?_eq_getElem hk
  have hstart := (hborder k hk).mpr (Nat.lt_succ_self k)
  have hnext := startOf_succ weight hc
  have hstop : i < startOf weight cs (k + 1) := by
    by_cases hlast : k + 1 < cs.length
    · have hbeyond := mt (hborder (k + 1) hlast).mp (Nat.lt_irrefl _)
      omega
    · rwa [startOf_of_length_le (by omega)]
  exact ⟨k, i - startOf weight cs k, cs[k], ⟨hc, by omega, by omega⟩, rfl⟩

/-! ## Descents -/

theorem totalUnits_eq_sum (cs : List Field) : totalUnits cs = (cs.map size).sum := by
  induction cs with
  | nil => rfl
  | cons c cs ih => rw [totalUnits, List.map_cons, List.sum_cons, ih]

theorem totalBits_eq_sum (cs : List Field) : totalBits cs = (cs.map width).sum := by
  induction cs with
  | nil => rfl
  | cons c cs ih => rw [totalBits, List.map_cons, List.sum_cons, ih, width]

theorem Holds.joinedUnit?_eq {i k inner : Nat} {c : Field} (h : Holds size cs i k inner c) :
    joinedUnit? cs i = c.unit? inner := by
  have hlength : (joinedUnits (cs.take k)).length = startOf size cs k := by
    rw [length_joinedUnits, totalUnits_eq_sum, startOf]
  have hsplit := congrArg joinedUnits (eq_take_append_of_getElem? h.child)
  rw [joinedUnits_eq_flatMap (cs.take k ++ c :: cs.drop (k + 1)), List.flatMap_append,
    List.flatMap_cons, ← joinedUnits_eq_flatMap] at hsplit
  have hinner := h.inner_lt
  rw [Field.joinedUnit?_eq, hsplit, h.start, ← hlength, List.getElem?_append_right (by omega),
    Nat.add_sub_cancel_left, List.getElem?_append_left (by rwa [length_units]), unit?_eq]

theorem Holds.joinedBit?_eq {i k inner : Nat} {c : Field} (h : Holds width cs i k inner c) :
    joinedBit? cs i = c.bits[inner]? := by
  have hlength : (joinedBits (cs.take k)).length = startOf width cs k := by
    rw [length_joinedBits, totalBits_eq_sum, startOf]
  have hinner := h.inner_lt
  rw [Field.joinedBit?_eq, joinedBits_split h.child, h.start, ← hlength,
    List.getElem?_append_right (by omega), Nat.add_sub_cancel_left,
    List.getElem?_append_left (by rwa [length_bits])]

end Field
end ArtifactLayout
