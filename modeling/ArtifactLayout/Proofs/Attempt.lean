import ArtifactLayout.Attempt

/-! # Running attempts

What each way of building an attempt does to a state. An attempt is opened by these rules alone: a
sequence goes on from the state its first part left, and stops where that part failed.
-/

namespace ArtifactLayout.Attempt
set_option autoImplicit false

variable {σ α β : Type}

theorem bind_apply (m : Attempt σ α) (k : α → Attempt σ β) (s : σ) :
    (m >>= k) s = match m s with
      | (.ok a, s') => k a s'
      | (.error fault, s') => (.error fault, s') := by
  simp only [bind, ExceptT.bind, ExceptT.mk, StateT.bind]
  rcases m s with ⟨_ | a, s'⟩ <;> rfl

theorem bind_of_ok {m : Attempt σ α} {s s' : σ} {a : α} (h : m s = (.ok a, s'))
    (k : α → Attempt σ β) : (m >>= k) s = k a s' := by
  rw [bind_apply, h]

theorem bind_of_error {m : Attempt σ α} {s s' : σ} {fault : Fault} (h : m s = (.error fault, s'))
    (k : α → Attempt σ β) : (m >>= k) s = (.error fault, s') := by
  rw [bind_apply, h]

theorem of_bind_ok {m : Attempt σ α} {k : α → Attempt σ β} {s s' : σ} {b : β}
    (h : (m >>= k) s = (.ok b, s')) : ∃ a t, m s = (.ok a, t) ∧ k a t = (.ok b, s') := by
  rw [bind_apply] at h
  rcases hm : m s with ⟨_ | a, t⟩
  · rw [hm] at h
    cases h
  · rw [hm] at h
    exact ⟨a, t, rfl, h⟩

@[simp] theorem pure_apply (a : α) (s : σ) : (pure a : Attempt σ α) s = (.ok a, s) := rfl

@[simp] theorem get_apply (s : σ) : (get : Attempt σ σ) s = (.ok s, s) := rfl

@[simp] theorem check_apply (outcome : Except Fault α) (s : σ) : check outcome s = (outcome, s) := rfl

@[simp] theorem step_apply (f : σ → α × σ) (s : σ) : step f s = (.ok (f s).1, (f s).2) := rfl

/-! ## What an attempt ensures -/

/-- From states with `P` an attempt ends in states with `Q` if it succeeds, with `E` if it fails. -/
def Ensures (P : σ → Prop) (m : Attempt σ α) (Q : α → σ → Prop) (E : σ → Prop) : Prop :=
  ∀ s, P s → (∀ a t, m s = (.ok a, t) → Q a t) ∧ ∀ fault t, m s = (.error fault, t) → E t

namespace Ensures
variable {P R : σ → Prop} {Q : α → σ → Prop} {E : σ → Prop}

theorem pure {a : α} (h : ∀ s, P s → Q a s) : Ensures P (pure a) Q E := by
  intro s hs
  constructor
  · intro b t hrun
    cases hrun
    exact h s hs
  · intro fault t hrun
    cases hrun

theorem throw {fault : Fault} (h : ∀ s, P s → E s) : Ensures P (throw fault) Q E := by
  intro s hs
  constructor
  · intro b t hrun
    cases hrun
  · intro fault t hrun
    cases hrun
    exact h s hs

theorem get : Ensures P (get : Attempt σ σ) (fun a s => a = s ∧ P s) E := by
  intro s hs
  constructor
  · intro b t hrun
    cases hrun
    exact ⟨rfl, hs⟩
  · intro fault t hrun
    cases hrun

theorem modify {f : σ → σ} (h : ∀ s, P s → R (f s)) :
    Ensures P (modify f : Attempt σ PUnit) (fun _ => R) E := by
  intro s hs
  constructor
  · intro b t hrun
    cases hrun
    exact h s hs
  · intro fault t hrun
    cases hrun

theorem bind {S : α → σ → Prop} {Q : β → σ → Prop} {m : Attempt σ α} {k : α → Attempt σ β}
    (hm : Ensures P m S E) (hk : ∀ a, Ensures (S a) (k a) Q E) : Ensures P (m >>= k) Q E := by
  intro s hs
  obtain ⟨hok, herror⟩ := hm s hs
  rcases hrun : m s with ⟨fault | a, t⟩
  · rw [bind_of_error hrun]
    constructor
    · intro b u h
      cases h
    · intro fault u h
      cases h
      exact herror _ _ hrun
  · rw [bind_of_ok hrun]
    exact hk a t (hok a t hrun)

theorem mono {P' : σ → Prop} {Q' : α → σ → Prop} {m : Attempt σ α} (h : Ensures P m Q E)
    (hP : ∀ s, P' s → P s) (hQ : ∀ a s, Q a s → Q' a s) : Ensures P' m Q' E := by
  intro s hs
  obtain ⟨hok, herror⟩ := h s (hP s hs)
  exact ⟨fun a t hrun => hQ a t (hok a t hrun), herror⟩

theorem mapM {f : α → Attempt σ β} {l : List α}
    (h : ∀ a ∈ l, Ensures P (f a) (fun _ => P) E) : Ensures P (l.mapM f) (fun _ => P) E := by
  induction l with
  | nil => exact pure fun s hs => hs
  | cons a l ih =>
    rw [List.mapM_cons]
    refine bind (h a List.mem_cons_self) fun b => ?_
    refine bind (ih fun c hc => h c (List.mem_cons_of_mem a hc)) fun bs => ?_
    exact pure fun s hs => hs

end Ensures
end ArtifactLayout.Attempt
