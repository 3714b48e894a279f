import ArtifactLayout.Proofs.Attempt
import ArtifactLayout.Proofs.Search

/-! # Guarded steps

Indices, slices, differences and draws have a domain. A guarded step is written with these operations
and gives nothing when it uses one of them outside its domain. It is safe where it does what an attempt
does: there it leaves no domain, and nothing else about it is different.
-/

namespace ArtifactLayout
set_option autoImplicit false

/-- A step on a state that may end in a fault, or leave the domain of an operation. -/
abbrev Guarded (σ : Type) := ExceptT Fault (StateT σ Option)

/-! ## Operations with a domain -/

/-- A difference that is not below zero. -/
def sub? (a b : Nat) : Option Nat := if b ≤ a then some (a - b) else none

/-- A distance to shift by, which is less than the number of bits. -/
def below? (n bound : Nat) : Option Nat := if n < bound then some n else none

/-- A part of a list, from one index up to another. -/
def slice? {α : Type} (items : List α) (start stop : Nat) : Option (List α) :=
  if start ≤ stop ∧ stop ≤ items.length then some ((items.take stop).drop start) else none

/-- Bisection by a test that has a domain. -/
def bisectFrom? {α : Type} (test : α → Option Bool) (items : Array α) : Nat → Nat → Nat → Option Nat
  | 0, low, _ => some low
  | steps + 1, low, high =>
    if low < high then do
      let middle := (low + high) / 2
      if ← test (← items[middle]?) then bisectFrom? test items steps (middle + 1) high
      else bisectFrom? test items steps low middle
    else some low

def bisect? {α : Type} (test : α → Option Bool) (items : Array α) : Option Nat :=
  bisectFrom? test items items.size 0 items.size

theorem sub?_of_le {a b : Nat} (h : b ≤ a) : sub? a b = some (a - b) := if_pos h

theorem below?_of_lt {n bound : Nat} (h : n < bound) : below? n bound = some n := if_pos h

theorem slice?_of_le {α : Type} {items : List α} {start stop : Nat} (h : start ≤ stop)
    (hstop : stop ≤ items.length) : slice? items start stop = some ((items.take stop).drop start) :=
  if_pos ⟨h, hstop⟩

section Bisect
variable {α : Type} {test : α → Bool} {items : Array α}

theorem bisectFrom?_eq {test? : α → Option Bool} (h : ∀ a ∈ items, test? a = some (test a))
    (steps : Nat) (low : Nat) {high : Nat} (hhigh : high ≤ items.size) :
    bisectFrom? test? items steps low high = some (bisectFrom test items steps low high) := by
  induction steps generalizing low high with
  | zero => rfl
  | succ steps ih =>
    rw [bisectFrom?, bisectFrom]
    by_cases hlt : low < high
    · have hmiddle : (low + high) / 2 < items.size := by omega
      have hitem := Array.getElem?_eq_getElem hmiddle
      have htest := h _ (Array.getElem_mem hmiddle)
      rw [if_pos hlt, if_pos hlt]
      simp only [hitem, htest, Option.bind_eq_bind, Option.bind_some]
      split
      · exact ih _ hhigh
      · exact ih low (by omega)
    · rw [if_neg hlt, if_neg hlt]

theorem bisect?_eq {test? : α → Option Bool} (h : ∀ a ∈ items, test? a = some (test a)) :
    bisect? test? items = some (bisect test items) :=
  bisectFrom?_eq h items.size 0 (Nat.le_refl _)

end Bisect

/-! ## Guarded steps -/

namespace Guarded
variable {σ α β : Type}

/-- The result of an operation that has a domain. -/
def within (result : Option α) : Guarded σ α := fun s => result.map fun a => (.ok a, s)

/-- A step without operations that have a domain. -/
def attempt (m : Attempt σ α) : Guarded σ α := fun s => some (m s)

theorem bind_apply (t : Guarded σ α) (k : α → Guarded σ β) (s : σ) :
    (t >>= k) s = (t s).bind fun
      | (.ok a, s') => k a s'
      | (.error fault, s') => some (.error fault, s') := by
  simp only [bind, ExceptT.bind, ExceptT.mk, StateT.bind]
  rcases t s with _ | ⟨_ | a, s'⟩ <;> rfl

theorem bind_of_ok {t : Guarded σ α} {s s' : σ} {a : α} (h : t s = some (.ok a, s'))
    (k : α → Guarded σ β) : (t >>= k) s = k a s' := by
  rw [bind_apply, h]
  rfl

theorem get_bind (k : σ → Guarded σ β) (s : σ) : (attempt get >>= k) s = k s s := bind_of_ok rfl k

theorem within_of_some {result : Option α} {a : α} (h : result = some a) (s : σ) :
    (within result : Guarded σ α) s = some (.ok a, s) := by
  rw [within, h, Option.map_some]

theorem mapM_of_ok {f : α → Guarded σ β} {g : α → β} {items : List α} {s : σ}
    (h : ∀ a ∈ items, f a s = some (.ok (g a), s)) :
    (items.mapM f) s = some (.ok (items.map g), s) := by
  induction items with
  | nil => rfl
  | cons a items ih =>
    have hrest := ih fun c hc => h c (List.mem_cons_of_mem a hc)
    rw [List.mapM_cons, bind_of_ok (h a List.mem_cons_self), bind_of_ok hrest]
    rfl

end Guarded

open Guarded

/-- From a state a guarded step does what an attempt does, and so it leaves no domain. -/
def Safe {σ α : Type} (t : Guarded σ α) (m : Attempt σ α) (s : σ) : Prop := t s = some (m s)

namespace Safe
variable {σ α β : Type} {t : Guarded σ α} {m : Attempt σ α} {s s' : σ}

theorem of_attempt (m : Attempt σ α) (s : σ) : Safe (attempt m) m s := rfl

theorem pure (a : α) (s : σ) : Safe (pure a) (pure a) s := rfl

theorem throw (fault : Fault) (s : σ) : Safe (throw fault : Guarded σ α) (throw fault) s := rfl

theorem bind {k : α → Guarded σ β} {l : α → Attempt σ β} (h : Safe t m s)
    (hk : ∀ a s', m s = (.ok a, s') → Safe (k a) (l a) s') : Safe (t >>= k) (m >>= l) s := by
  rw [Safe, Guarded.bind_apply, h, Attempt.bind_apply]
  rcases hrun : m s with ⟨fault | a, s'⟩
  · rfl
  · exact hk a s' hrun

/-- A first part that gives a known result takes the state to where the rest is safe. -/
theorem of_bind {k : α → Guarded σ β} {l : Attempt σ β} {a : α} (h : t s = some (.ok a, s))
    (hk : Safe (k a) l s) : Safe (t >>= k) l s := by
  rw [Safe, Guarded.bind_of_ok h]
  exact hk

theorem of_within {k : α → Guarded σ β} {l : Attempt σ β} {result : Option α} {a : α}
    (h : result = some a) (hk : Safe (k a) l s) : Safe (within result >>= k) l s :=
  of_bind (within_of_some h s) hk

/-- An outcome that only the first part can fail on, or the rest. -/
theorem check_bind {outcome : Except Fault α} {k : α → Guarded σ β} {rest : α → Except Fault β}
    (h : Safe t (Attempt.check outcome) s)
    (hk : ∀ a, outcome = .ok a → Safe (k a) (Attempt.check (rest a)) s) :
    Safe (t >>= k) (Attempt.check (outcome >>= rest)) s := by
  rw [Safe, Guarded.bind_apply, h]
  cases outcome with
  | error fault => rfl
  | ok a => exact hk a rfl

theorem mapM {f : α → Guarded σ β} {g : α → Attempt σ β} {items : List α}
    (h : ∀ a ∈ items, ∀ s, Safe (f a) (g a) s) (s : σ) : Safe (items.mapM f) (items.mapM g) s := by
  induction items generalizing s with
  | nil => exact pure [] s
  | cons a items ih =>
    rw [List.mapM_cons, List.mapM_cons]
    refine bind (h a List.mem_cons_self s) fun b s' _ => ?_
    exact bind (ih (fun c hc => h c (List.mem_cons_of_mem a hc)) s') fun bs s'' _ => pure _ s''

end Safe
end ArtifactLayout
