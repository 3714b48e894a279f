import ArtifactLayout.Search

/-! # What bisection finds

If whatever passes the test stands in front of whatever fails it, bisection finds the border: an item
passes iff its index lies below the result.
-/

namespace ArtifactLayout
set_option autoImplicit false

variable {α : Type}

theorem pairwise_getElem? {R : α → α → Prop} {xs : List α} (h : xs.Pairwise R) {i j : Nat} {a b : α}
    (hij : i < j) (ha : xs[i]? = some a) (hb : xs[j]? = some b) : R a b := by
  obtain ⟨hi, rfl⟩ := List.getElem?_eq_some_iff.mp ha
  obtain ⟨hj, rfl⟩ := List.getElem?_eq_some_iff.mp hb
  exact List.pairwise_iff_getElem.mp h i j hi hj hij

/-- The border between what passes and what fails lies between two indices. -/
structure Border (test : α → Bool) (items : Array α) (low high : Nat) : Prop where
  le : low ≤ high
  le_size : high ≤ items.size
  below : ∀ i a, items[i]? = some a → i < low → test a = true
  above : ∀ i a, items[i]? = some a → high ≤ i → ¬ test a = true

namespace Border
variable {test : α → Bool} {items : Array α} {low high : Nat}

theorem raise (sorted : items.toList.Pairwise fun a b => test b = true → test a = true)
    (h : Border test items low high) {middle : Nat} {item : α} (hlt : middle < high)
    (hitem : items[middle]? = some item) (ht : test item = true) :
    Border test items (middle + 1) high := by
  refine ⟨hlt, h.le_size, fun i a ha hi => ?_, h.above⟩
  rcases Nat.lt_or_eq_of_le (Nat.lt_succ_iff.mp hi) with hi | rfl
  · exact pairwise_getElem? sorted hi (by simpa using ha) (by simpa using hitem) ht
  · rw [hitem] at ha
    exact Option.some.inj ha ▸ ht

theorem lower (sorted : items.toList.Pairwise fun a b => test b = true → test a = true)
    (h : Border test items low high) {middle : Nat} {item : α} (hle : low ≤ middle)
    (hlt : middle < high) (hitem : items[middle]? = some item) (ht : ¬ test item = true) :
    Border test items low middle := by
  refine ⟨hle, Nat.le_trans (Nat.le_of_lt hlt) h.le_size, h.below, fun i a ha hi hta => ht ?_⟩
  rcases Nat.lt_or_eq_of_le hi with hi | rfl
  · exact pairwise_getElem? sorted hi (by simpa using hitem) (by simpa using ha) hta
  · rw [hitem] at ha
    exact Option.some.inj ha ▸ hta

theorem test_iff (h : Border test items low low) {i : Nat} {a : α} (ha : items[i]? = some a) :
    test a = true ↔ i < low := by
  constructor
  · intro ht
    exact Nat.lt_of_not_le fun hi => h.above i a ha hi ht
  · exact h.below i a ha

end Border

variable {test : α → Bool} {items : Array α}

theorem border_bisectFrom (sorted : items.toList.Pairwise fun a b => test b = true → test a = true)
    (steps : Nat) {low high : Nat} (hsteps : high - low ≤ steps) (h : Border test items low high) :
    Border test items (bisectFrom test items steps low high)
      (bisectFrom test items steps low high) := by
  induction steps generalizing low high with
  | zero =>
    have hle := h.le
    obtain rfl : low = high := by omega
    exact h
  | succ steps ih =>
    have hle := h.le
    rw [bisectFrom]
    split
    · have hsize := h.le_size
      have hmid : (low + high) / 2 < items.size := by omega
      have hitem : items[(low + high) / 2]? = some items[(low + high) / 2] :=
        Array.getElem?_eq_getElem hmid
      simp only [hitem]
      split
      · rename_i ht
        exact ih (by omega) (h.raise sorted (by omega) hitem ht)
      · rename_i ht
        exact ih (by omega) (h.lower sorted (by omega) (by omega) hitem ht)
    · obtain rfl : low = high := by omega
      exact h

theorem border_bisect (sorted : items.toList.Pairwise fun a b => test b = true → test a = true) :
    Border test items (bisect test items) (bisect test items) := by
  refine border_bisectFrom sorted items.size (by omega) ⟨Nat.zero_le _, Nat.le_refl _, ?_, ?_⟩
  · exact fun i a _ hi => absurd hi (Nat.not_lt_zero i)
  · intro i a ha hi
    have := (Array.getElem?_eq_some_iff.mp ha).1
    omega

/-- The items that pass are those in front of the result. -/
theorem test_iff_lt_bisect (sorted : items.toList.Pairwise fun a b => test b = true → test a = true)
    {i : Nat} {a : α} (ha : items[i]? = some a) : test a = true ↔ i < bisect test items :=
  (border_bisect sorted).test_iff ha

theorem bisectFrom_le_size (test : α → Bool) (items : Array α) (steps : Nat) {low high : Nat}
    (hlow : low ≤ items.size) (hhigh : high ≤ items.size) :
    bisectFrom test items steps low high ≤ items.size := by
  induction steps generalizing low high with
  | zero => exact hlow
  | succ steps ih =>
    rw [bisectFrom]
    split
    · dsimp only
      split
      · split
        · exact ih (by omega) hhigh
        · exact ih hlow (by omega)
      · exact ih hlow (by omega)
    · exact hlow

/-- The result is an index or the size, whether or not the items are in order. -/
theorem bisect_le_size (test : α → Bool) (items : Array α) : bisect test items ≤ items.size :=
  bisectFrom_le_size test items items.size (Nat.zero_le _) (Nat.le_refl _)

end ArtifactLayout
