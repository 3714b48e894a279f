import ArtifactLayout.Factory.Segments
import Mathlib.Data.List.Chain

/-! # Longest runs

The runs among the segments of a list are its longest runs of items that pass the test, every one of
them and no others, and what lies between them stands alone. Joined, the segments give the list back.
-/

namespace ArtifactLayout
set_option autoImplicit false

variable {α : Type} {test : α → Bool}

/-- A list split around neighbours that pass a test, with nothing next to them that passes it too. -/
structure LongestRun (test : α → Bool) (xs before run after : List α) : Prop where
  split : xs = before ++ run ++ after
  ne_nil : run ≠ []
  passes : ∀ x ∈ run, test x = true
  left : ∀ x ∈ before.getLast?, test x = false
  right : ∀ x ∈ after.head?, test x = false

namespace Segment

def isRun : Segment α → Bool
  | single _ => false
  | run _ => true

/-- A single item fails the test; there are items in a run, and all of them pass it. -/
def Sorted (test : α → Bool) : Segment α → Prop
  | single x => test x = false
  | run xs => xs ≠ [] ∧ ∀ x ∈ xs, test x = true

/-! ## Joined segments -/

theorem flatMap_items_joinRun (x : α) (segments : List (Segment α)) :
    (joinRun x segments).flatMap items = x :: segments.flatMap items := by
  match segments with
  | [] => rfl
  | single y :: rest => rfl
  | run ys :: rest => rfl

theorem flatMap_items_ofList (xs : List α) : (ofList test xs).flatMap items = xs := by
  induction xs with
  | nil => rfl
  | cons x xs ih =>
    rw [ofList]
    split
    · rw [flatMap_items_joinRun, ih]
    · rw [List.flatMap_cons, ih]
      rfl

/-! ## What the segments are -/

theorem sorted_of_mem_joinRun {x : α} (hx : test x = true) {segments : List (Segment α)}
    (h : ∀ s ∈ segments, s.Sorted test) : ∀ s ∈ joinRun x segments, s.Sorted test := by
  have hsingle : (run [x]).Sorted test := ⟨List.cons_ne_nil x [], by simpa using hx⟩
  match segments with
  | [] => simpa [joinRun] using hsingle
  | single y :: rest => exact List.forall_mem_cons.mpr ⟨hsingle, h⟩
  | run ys :: rest =>
    obtain ⟨⟨-, hys⟩, hrest⟩ := List.forall_mem_cons.mp h
    refine List.forall_mem_cons.mpr ⟨⟨List.cons_ne_nil x ys, ?_⟩, hrest⟩
    exact List.forall_mem_cons.mpr ⟨hx, hys⟩

theorem sorted_of_mem_ofList (xs : List α) : ∀ s ∈ ofList test xs, s.Sorted test := by
  induction xs with
  | nil => exact fun s hs => absurd hs List.not_mem_nil
  | cons x xs ih =>
    rw [ofList]
    split
    · exact sorted_of_mem_joinRun ‹_› ih
    · exact List.forall_mem_cons.mpr ⟨eq_false_of_ne_true ‹_›, ih⟩

/-- No run stands next to another. -/
theorem isChain_ofList (xs : List α) :
    (ofList test xs).IsChain fun s t => s.isRun = false ∨ t.isRun = false := by
  induction xs with
  | nil => exact .nil
  | cons x xs ih =>
    rw [ofList]
    split
    · match h : ofList test xs with
      | [] => exact .singleton _
      | single y :: rest => exact .cons_cons (.inr rfl) (h ▸ ih)
      | run ys :: rest =>
        rw [h] at ih
        cases ih with
        | singleton => exact .singleton _
        | cons_cons hnext hrest => exact .cons_cons (hnext.imp_left nofun) hrest
    · match h : ofList test xs with
      | [] => exact .singleton _
      | s :: rest => exact .cons_cons (.inl rfl) (h ▸ ih)

/-! ## Cutting at an item that fails -/

theorem joinRun_append_single (x y : α) (segments rest : List (Segment α)) :
    joinRun x (segments ++ single y :: rest) = joinRun x segments ++ single y :: rest := by
  match segments with
  | [] => rfl
  | single z :: segments => rfl
  | run zs :: segments => rfl

theorem ofList_append_cons {y : α} (hy : test y = false) (xs ys : List α) :
    ofList test (xs ++ y :: ys) = ofList test xs ++ single y :: ofList test ys := by
  induction xs with
  | nil => simp [ofList, hy]
  | cons x xs ih =>
    rw [List.cons_append, ofList, ofList, ih]
    split
    · exact joinRun_append_single x y _ _
    · rfl

theorem ofList_append_right {ys : List α} (hright : ∀ y ∈ ys.head?, test y = false) (xs : List α) :
    ofList test (xs ++ ys) = ofList test xs ++ ofList test ys := by
  cases ys with
  | nil => simp [ofList]
  | cons y ys =>
    have hy : test y = false := hright y rfl
    rw [ofList_append_cons hy, ofList, if_neg (ne_true_of_eq_false hy)]

theorem ofList_append_left {xs : List α} (hleft : ∀ x ∈ xs.getLast?, test x = false) (ys : List α) :
    ofList test (xs ++ ys) = ofList test xs ++ ofList test ys := by
  rcases List.eq_nil_or_concat xs with rfl | ⟨xs, x, rfl⟩
  · rfl
  · rw [List.concat_eq_append] at hleft ⊢
    have hx : test x = false := hleft x (List.getLast?_concat ..)
    have hlast : ofList test (xs ++ [x]) = ofList test xs ++ [single x] := ofList_append_cons hx xs []
    rw [List.append_assoc, List.singleton_append, ofList_append_cons hx, hlast, List.append_assoc]
    rfl

theorem ofList_of_passes {xs : List α} (hne : xs ≠ []) (h : ∀ x ∈ xs, test x = true) :
    ofList test xs = [run xs] := by
  induction xs with
  | nil => exact absurd rfl hne
  | cons x xs ih =>
    obtain ⟨hx, hxs⟩ := List.forall_mem_cons.mp h
    rw [ofList, if_pos hx]
    cases xs with
    | nil => rfl
    | cons y ys => rw [ih (List.cons_ne_nil y ys) hxs, joinRun]

/-- Items of which none passes all stand alone. -/
theorem ofList_of_fails {xs : List α} (h : ∀ x ∈ xs, test x = false) :
    ofList test xs = xs.map single := by
  induction xs with
  | nil => rfl
  | cons x xs ih =>
    obtain ⟨hx, hxs⟩ := List.forall_mem_cons.mp h
    rw [ofList, if_neg (ne_true_of_eq_false hx), ih hxs]
    rfl

/-! ## Runs and longest runs -/

theorem ofList_of_longestRun {xs before ys after : List α} (h : LongestRun test xs before ys after) :
    ofList test xs = ofList test before ++ run ys :: ofList test after := by
  rw [h.split, List.append_assoc, ofList_append_left h.left, ofList_append_right h.right,
    ofList_of_passes h.ne_nil h.passes]
  rfl

/-- At the end of some segments of which the last is no run there is an item that fails. -/
theorem fails_of_getLast? {segments : List (Segment α)} (hsorted : ∀ s ∈ segments, s.Sorted test)
    (hlast : ∀ s ∈ segments.getLast?, s.isRun = false) :
    ∀ x ∈ (segments.flatMap items).getLast?, test x = false := by
  rcases List.eq_nil_or_concat segments with rfl | ⟨segments, s, rfl⟩
  · exact fun x hx => by cases hx
  · rw [List.concat_eq_append] at hsorted hlast ⊢
    cases s with
    | run xs => cases hlast (run xs) (List.getLast?_concat ..)
    | single y =>
      intro x hx
      rw [List.flatMap_append, List.flatMap_singleton, items, List.getLast?_concat] at hx
      obtain rfl := Option.some.inj hx
      exact hsorted (single y) (List.mem_append_right _ (List.mem_singleton_self _))

theorem fails_of_head? {segments : List (Segment α)} (hsorted : ∀ s ∈ segments, s.Sorted test)
    (hhead : ∀ s ∈ segments.head?, s.isRun = false) :
    ∀ x ∈ (segments.flatMap items).head?, test x = false := by
  intro x hx
  match segments with
  | [] => cases hx
  | run xs :: rest => cases hhead (run xs) rfl
  | single y :: rest =>
    obtain rfl := Option.some.inj hx
    exact hsorted (single y) List.mem_cons_self

theorem longestRun_of_ofList {xs ys : List α} {before after : List (Segment α)}
    (h : ofList test xs = before ++ run ys :: after) :
    LongestRun test xs (before.flatMap items) ys (after.flatMap items) := by
  have hjoined : (ofList test xs).flatMap items = xs := flatMap_items_ofList xs
  have hsorted : ∀ s ∈ ofList test xs, s.Sorted test := sorted_of_mem_ofList xs
  have hchain : (ofList test xs).IsChain fun s t => s.isRun = false ∨ t.isRun = false :=
    isChain_ofList xs
  rw [h] at hjoined hsorted hchain
  rw [List.forall_mem_append, List.forall_mem_cons] at hsorted
  obtain ⟨hbefore, ⟨hne, hpasses⟩, hafter⟩ := hsorted
  obtain ⟨-, hright, hleft⟩ := List.isChain_append.mp hchain
  refine ⟨?_, hne, hpasses, fails_of_getLast? hbefore ?_, fails_of_head? hafter ?_⟩
  · rw [← hjoined, List.flatMap_append, List.flatMap_cons, items, List.append_assoc]
  · exact fun s hs => (hleft s hs _ rfl).resolve_right nofun
  · intro s hs
    exact ((List.isChain_cons.mp hright).1 s hs).resolve_left nofun

end Segment
end ArtifactLayout
