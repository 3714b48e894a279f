import ArtifactLayout.Proofs.Search
import ArtifactLayout.Scope

/-! # The nearest binding

Paths are compared with an origin by the length of the beginning they share with it. Among bindings in
the order of their paths, the search for the nearest one finds what a plain scan finds: a binding that
shares as much of the origin as any, and the last of those. The scan is `lastBest`; the search relies
on two facts about the order: a path between two that begin alike begins like them, and cutting paths
to one length keeps their order.
-/

namespace ArtifactLayout
set_option autoImplicit false

/-! ## Shared beginnings -/

theorem sharedLength_le_right : ∀ p o : List Nat, sharedLength p o ≤ o.length
  | [], o => by simp [sharedLength]
  | x :: p, [] => by simp [sharedLength]
  | x :: p, y :: o => by
      have := sharedLength_le_right p o
      rw [sharedLength, List.length_cons]
      split <;> omega

theorem take_sharedLength : ∀ p o : List Nat,
    p.take (sharedLength p o) = o.take (sharedLength p o)
  | [], o => by simp [sharedLength]
  | x :: p, [] => by simp [sharedLength]
  | x :: p, y :: o => by
      rw [sharedLength]
      split
      · rename_i h
        rw [List.take_succ_cons, List.take_succ_cons, h, take_sharedLength p o]
      · rfl

theorem le_sharedLength {n : Nat} : ∀ {p o : List Nat}, n ≤ o.length → p.take n = o.take n →
    n ≤ sharedLength p o := by
  induction n with
  | zero => exact fun _ _ => Nat.zero_le _
  | succ n ih =>
    intro p o hn h
    cases o with
    | nil => simp at hn
    | cons y o =>
      cases p with
      | nil => simp at h
      | cons x p =>
        rw [List.take_succ_cons, List.take_succ_cons, List.cons.injEq] at h
        have := ih (Nat.le_of_succ_le_succ hn) h.2
        rw [sharedLength, if_pos h.1]
        omega

/-! ## Lexicographic order -/

theorem lt_of_take_lt {n : Nat} : ∀ {p q : List Nat}, p.take n < q.take n → p < q := by
  induction n with
  | zero =>
    intro p q h
    simp at h
  | succ n ih =>
    intro p q h
    cases q with
    | nil => simp at h
    | cons y q =>
      cases p with
      | nil => exact List.nil_lt_cons _ _
      | cons x p =>
        rw [List.take_succ_cons, List.take_succ_cons, List.cons_lt_cons_iff] at h
        refine List.cons_lt_cons_iff.mpr ?_
        rcases h with h | ⟨h, h'⟩
        · exact .inl h
        · exact .inr ⟨h, ih h'⟩

theorem not_take_lt {n : Nat} {p q : List Nat} (h : ¬ q < p) : ¬ q.take n < p.take n :=
  fun hlt => h (lt_of_take_lt hlt)

/-- A path between two that begin alike begins like them. -/
theorem take_eq_of_between {n : Nat} {p q o : List Nat} (hpq : ¬ q < p) (hqo : ¬ o < q)
    (h : p.take n = o.take n) : q.take n = o.take n := by
  have h₁ : ¬ q.take n < o.take n := h ▸ not_take_lt hpq
  exact List.le_antisymm (not_take_lt hqo) h₁

/-- Nearer to the origin from below, a path shares no less with it. -/
theorem sharedLength_le_of_below {p q o : List Nat} (hpq : ¬ q < p) (hqo : ¬ o < q) :
    sharedLength p o ≤ sharedLength q o :=
  le_sharedLength (sharedLength_le_right p o) (take_eq_of_between hpq hqo (take_sharedLength p o))

/-- Nearer to the origin from above, a path shares no less with it. -/
theorem sharedLength_le_of_above {p q o : List Nat} (hpq : ¬ p < q) (hqo : ¬ q < o) :
    sharedLength p o ≤ sharedLength q o := by
  have h := take_sharedLength p o
  have hq : q.take (sharedLength p o) = p.take (sharedLength p o) :=
    take_eq_of_between hqo hpq h.symm
  exact le_sharedLength (sharedLength_le_right p o) (hq.trans h)

/-! ## The plain scan -/

variable {α β : Type}

/-- The item of the highest score, the last one of those. -/
def lastBest (score : α → Nat) : List α → Option α
  | [] => none
  | x :: xs =>
    match lastBest score xs with
    | none => some x
    | some y => if score y < score x then some x else some y

theorem lastBest_eq_none {score : α → Nat} {xs : List α} : lastBest score xs = none ↔ xs = [] := by
  cases xs with
  | nil => simp [lastBest]
  | cons x xs =>
    rw [lastBest]
    cases lastBest score xs with
    | none => simp
    | some y =>
      dsimp only
      split <;> simp

/-- Nothing before the item found has a higher score, and everything after it has a lower one. -/
theorem lastBest_eq_some {score : α → Nat} {xs : List α} {y : α} : lastBest score xs = some y ↔
    ∃ before after, xs = before ++ y :: after ∧ (∀ x ∈ before, score x ≤ score y) ∧
      ∀ x ∈ after, score x < score y := by
  induction xs generalizing y with
  | nil => simp [lastBest]
  | cons x xs ih =>
    rw [lastBest]
    constructor
    · intro h
      cases hxs : lastBest score xs with
      | none =>
        rw [hxs] at h
        obtain rfl : x = y := Option.some.inj h
        rw [lastBest_eq_none.mp hxs]
        exact ⟨[], [], rfl, by simp, by simp⟩
      | some z =>
        rw [hxs] at h
        obtain ⟨before, after, rfl, hbefore, hafter⟩ := ih.mp hxs
        dsimp only at h
        split at h
        · rename_i hlt
          obtain rfl : x = y := Option.some.inj h
          refine ⟨[], before ++ z :: after, rfl, by simp, fun w hw => ?_⟩
          rcases List.mem_append.mp hw with hw | hw
          · exact Nat.lt_of_le_of_lt (hbefore w hw) hlt
          · rcases List.mem_cons.mp hw with rfl | hw
            · exact hlt
            · exact Nat.lt_trans (hafter w hw) hlt
        · rename_i hle
          obtain rfl : z = y := Option.some.inj h
          refine ⟨x :: before, after, rfl, fun w hw => ?_, hafter⟩
          rcases List.mem_cons.mp hw with rfl | hw
          · exact Nat.le_of_not_lt hle
          · exact hbefore w hw
    · rintro ⟨before, after, hsplit, hbefore, hafter⟩
      cases before with
      | nil =>
        obtain ⟨rfl, rfl⟩ : x = y ∧ xs = after := by simpa using hsplit
        cases hxs : lastBest score xs with
        | none => rfl
        | some z =>
          obtain ⟨b, a, rfl, -, -⟩ := ih.mp hxs
          have hz : score z < score x := hafter z (by simp)
          simp [hz]
      | cons w before =>
        obtain ⟨rfl, rfl⟩ : x = w ∧ xs = before ++ y :: after := by simpa using hsplit
        have hxs := ih.mpr ⟨before, after, rfl, fun w hw => hbefore w (by simp [hw]), hafter⟩
        rw [hxs]
        exact if_neg (Nat.not_lt.mpr (hbefore x (by simp)))

theorem mem_of_lastBest {score : α → Nat} {xs : List α} {y : α} (h : lastBest score xs = some y) :
    y ∈ xs := by
  obtain ⟨before, after, rfl, -, -⟩ := lastBest_eq_some.mp h
  simp

theorem lastBest_of_getElem? {score : α → Nat} {xs : List α} {k : Nat} {y : α} (hy : xs[k]? = some y)
    (hle : ∀ x ∈ xs, score x ≤ score y)
    (hlt : ∀ i x, xs[i]? = some x → k < i → score x < score y) : lastBest score xs = some y := by
  obtain ⟨hk, rfl⟩ := List.getElem?_eq_some_iff.mp hy
  refine lastBest_eq_some.mpr ⟨xs.take k, xs.drop (k + 1), ?_, fun x hx => ?_, fun x hx => ?_⟩
  · rw [← List.drop_eq_getElem_cons hk, List.take_append_drop]
  · exact hle x (List.mem_of_mem_take hx)
  · obtain ⟨i, hi⟩ := List.mem_iff_getElem?.mp hx
    rw [List.getElem?_drop] at hi
    exact hlt _ x hi (by omega)

theorem lastBest_map (f : β → α) (score : α → Nat) (xs : List β) :
    lastBest score (xs.map f) = (lastBest (score ∘ f) xs).map f := by
  induction xs with
  | nil => rfl
  | cons x xs ih =>
    rw [List.map_cons, lastBest, lastBest, ih]
    cases lastBest (score ∘ f) xs with
    | none => rfl
    | some y =>
      simp only [Option.map_some, Function.comp_apply]
      split <;> rfl

/-! ## The search -/

section Search
variable {bindings : Array Binding} (origin : List Nat)

/-- Bindings in the order of their paths. -/
def Ordered (bindings : Array Binding) : Prop :=
  bindings.toList.Pairwise fun a b => a.path < b.path

theorem Ordered.not_lt (h : Ordered bindings) {i j : Nat} {a b : Binding} (hij : i ≤ j)
    (ha : bindings[i]? = some a) (hb : bindings[j]? = some b) : ¬ b.path < a.path := by
  rcases Nat.lt_or_eq_of_le hij with hij | rfl
  · exact List.lt_asymm (pairwise_getElem? h hij (by simpa using ha) (by simpa using hb))
  · rw [ha] at hb
    obtain rfl := Option.some.inj hb
    exact List.lt_irrefl _

theorem Ordered.place (h : Ordered bindings) : bindings.toList.Pairwise fun a b =>
    decide (b.path < origin) = true → decide (a.path < origin) = true := by
  refine h.imp fun hab hb => ?_
  simp only [decide_eq_true_eq] at hb ⊢
  exact List.lt_trans hab hb

theorem Ordered.beginning (h : Ordered bindings) (n : Nat) : bindings.toList.Pairwise fun a b =>
    decide (¬ origin.take n < b.path.take n) = true →
      decide (¬ origin.take n < a.path.take n) = true := by
  refine h.imp fun hab hb => ?_
  simp only [decide_eq_true_eq] at hb ⊢
  exact List.le_trans (not_take_lt (List.lt_asymm hab)) hb

theorem mem_extract {items : Array α} {low high : Nat} {a : α} :
    a ∈ (items.extract low high).toList ↔ ∃ j, low ≤ j ∧ j < high ∧ items[j]? = some a := by
  rw [Array.mem_toList_iff, Array.mem_iff_getElem?]
  constructor
  · rintro ⟨i, hi⟩
    rw [Array.getElem?_extract] at hi
    split at hi
    · exact ⟨low + i, by omega, by omega, hi⟩
    · simp at hi
  · rintro ⟨j, hlow, hhigh, hj⟩
    refine ⟨j - low, ?_⟩
    have hsize := (Array.getElem?_eq_some_iff.mp hj).1
    rw [Array.getElem?_extract, if_pos (by omega), show low + (j - low) = j by omega, hj]

/-- The bindings next to the place of the origin. -/
def neighbours (bindings : Array Binding) (origin : List Nat) : List Binding :=
  let place := bisect (fun b => decide (b.path < origin)) bindings
  (bindings.extract (place - 1) (place + 1)).toList

/-- One of the neighbours shares at least as much of the origin as a given binding. -/
theorem exists_neighbour (h : Ordered bindings) {b : Binding} (hb : b ∈ bindings) :
    ∃ n ∈ neighbours bindings origin, sharedLength b.path origin ≤ sharedLength n.path origin := by
  obtain ⟨i, hi⟩ := Array.mem_iff_getElem?.mp hb
  have hsize := bisect_le_size (fun b : Binding => decide (b.path < origin)) bindings
  have hisize := (Array.getElem?_eq_some_iff.mp hi).1
  have hplace := fun {j : Nat} {a : Binding} (ha : bindings[j]? = some a) =>
    test_iff_lt_bisect (h.place origin) ha
  simp only [decide_eq_true_eq] at hplace
  generalize hp : bisect (fun b : Binding => decide (b.path < origin)) bindings = place at *
  have hmem : ∀ j n, place - 1 ≤ j → j < place + 1 → bindings[j]? = some n →
      n ∈ neighbours bindings origin := by
    intro j n hlow hhigh hn
    rw [neighbours, hp]
    exact mem_extract.mpr ⟨j, hlow, hhigh, hn⟩
  by_cases hlt : i < place
  · have hn : bindings[place - 1]? = some bindings[place - 1] := Array.getElem?_eq_getElem (by omega)
    refine ⟨_, hmem _ _ (by omega) (by omega) hn, sharedLength_le_of_below ?_ ?_⟩
    · exact h.not_lt (by omega) hi hn
    · exact List.lt_asymm ((hplace hn).mpr (by omega))
  · have hn : bindings[place]? = some bindings[place] := Array.getElem?_eq_getElem (by omega)
    refine ⟨_, hmem _ _ (by omega) (by omega) hn, sharedLength_le_of_above ?_ ?_⟩
    · exact h.not_lt (by omega) hn hi
    · exact fun hlt' => absurd ((hplace hn).mp hlt') (by omega)

theorem mem_of_mem_neighbours {b : Binding} (h : b ∈ neighbours bindings origin) : b ∈ bindings := by
  obtain ⟨j, -, -, hj⟩ := mem_extract.mp h
  exact Array.mem_iff_getElem?.mpr ⟨j, hj⟩

/-- The border behind the beginnings of the origin is behind the last binding that shares most. -/
theorem getElem?_border (h : Ordered bindings) {longest : Nat} {n : Binding} (hn : n ∈ bindings)
    (hlongest : sharedLength n.path origin = longest)
    (hle : ∀ b ∈ bindings, sharedLength b.path origin ≤ longest) :
    let stop := bisect (fun b => decide (¬ origin.take longest < b.path.take longest)) bindings
    stop ≠ 0 ∧
      bindings[stop - 1]? = lastBest (fun b => sharedLength b.path origin) bindings.toList := by
  have hstop := fun {j : Nat} {a : Binding} (ha : bindings[j]? = some a) =>
    test_iff_lt_bisect (h.beginning origin longest) ha
  have hsize := bisect_le_size (fun b => decide (¬ origin.take longest < b.path.take longest)) bindings
  simp only [decide_eq_true_eq] at hstop
  dsimp only
  generalize bisect (fun b : Binding => decide (¬ origin.take longest < b.path.take longest))
    bindings = stop at *
  obtain ⟨j, hj⟩ := Array.mem_iff_getElem?.mp hn
  have htake : n.path.take longest = origin.take longest := hlongest ▸ take_sharedLength _ _
  have hjstop : j < stop := (hstop hj).mp (by rw [htake]; exact List.lt_irrefl _)
  have hlast : bindings[stop - 1]? = some bindings[stop - 1] := Array.getElem?_eq_getElem (by omega)
  refine ⟨by omega, ?_⟩
  rw [hlast]
  generalize bindings[stop - 1] = b at *
  -- the last binding in front of the border stands behind `n`, so it begins like the origin too
  have hbtake : b.path.take longest = origin.take longest := by
    refine List.le_antisymm ((hstop hlast).mpr (by omega)) ?_
    rw [← htake]
    exact not_take_lt (h.not_lt (by omega) hj hlast)
  have hbest : sharedLength b.path origin = longest := by
    refine Nat.le_antisymm (hle b (Array.mem_iff_getElem?.mpr ⟨_, hlast⟩)) ?_
    exact le_sharedLength (hlongest ▸ sharedLength_le_right _ _) hbtake
  refine (lastBest_of_getElem? (k := stop - 1) (by simpa using hlast) (fun a ha => ?_)
    fun i a ha hi => ?_).symm
  · rw [hbest]
    exact hle a (Array.mem_toList_iff.mp ha)
  · have ha : bindings[i]? = some a := by simpa using ha
    rw [hbest]
    refine Nat.lt_of_le_of_ne (hle a (Array.mem_iff_getElem?.mpr ⟨i, ha⟩)) fun hshared => ?_
    have hpass : i < stop := by
      refine (hstop ha).mp ?_
      rw [← hshared, take_sharedLength]
      exact List.lt_irrefl _
    omega

/-- The search finds what the scan finds. -/
theorem nearest?_eq_lastBest (h : Ordered bindings) : nearest? bindings origin =
    lastBest (fun b => sharedLength b.path origin) bindings.toList := by
  cases hmax : ((neighbours bindings origin).map fun b => sharedLength b.path origin).max? with
  | none =>
    rw [List.max?_eq_none_iff, List.map_eq_nil_iff] at hmax
    have hempty : bindings.toList = [] := by
      refine List.eq_nil_iff_forall_not_mem.mpr fun b hb => ?_
      obtain ⟨n, hn, -⟩ := exists_neighbour origin h (Array.mem_toList_iff.mp hb)
      simp [hmax] at hn
    obtain rfl : bindings = #[] := Array.toList_eq_nil_iff.mp hempty
    rfl
  | some longest =>
    obtain ⟨hattained, hbound⟩ := List.max?_eq_some_iff.mp hmax
    obtain ⟨n, hn, hlongest⟩ := List.mem_map.mp hattained
    -- what the neighbours share at most, no binding shares more
    have hle : ∀ b ∈ bindings, sharedLength b.path origin ≤ longest := by
      intro b hb
      obtain ⟨m, hm, hbm⟩ := exists_neighbour origin h hb
      exact Nat.le_trans hbm (hbound _ (List.mem_map.mpr ⟨m, hm, rfl⟩))
    obtain ⟨hstop, hget⟩ := getElem?_border origin h (mem_of_mem_neighbours origin hn) hlongest hle
    dsimp only [neighbours] at hmax
    rw [nearest?]
    dsimp only
    rw [hmax]
    exact (if_neg hstop).trans hget

end Search
end ArtifactLayout
