import ArtifactLayout.Corpus.Generator

/-! # The passes of a generator

Whatever is asked of a generator, it makes passes one after the other, each from the source that the
last one left, and of these it discards the ones that fail. `Ran` says this of two generators; it holds
of one try, and is put together along the loops.
-/

namespace ArtifactLayout
set_option autoImplicit false

/-! ## Outcomes of passes -/

def treesOf (outcomes : List (Except Fault Field)) : List Field :=
  outcomes.filterMap Except.toOption

def failuresIn (outcomes : List (Except Fault Field)) : Nat :=
  outcomes.countP fun outcome => outcome.toOption.isNone

theorem treesOf_append (first second : List (Except Fault Field)) :
    treesOf (first ++ second) = treesOf first ++ treesOf second :=
  List.filterMap_append

theorem failuresIn_append (first second : List (Except Fault Field)) :
    failuresIn (first ++ second) = failuresIn first + failuresIn second :=
  List.countP_append

section Runs
variable {σ : Type} [RandomSource σ]

namespace Session

/-- The outcomes of a number of passes, one after the other. -/
def passes : Nat → Pass σ → List (Except Fault Field) × Pass σ
  | 0, pass => ([], pass)
  | n + 1, pass =>
    let (outcome, next) := generate pass
    let (rest, last) := passes n next
    (outcome :: rest, last)

theorem passes_add {m n : Nat} {a b c : Pass σ} {first second : List (Except Fault Field)}
    (h : passes m a = (first, b)) (h' : passes n b = (second, c)) :
    passes (m + n) a = (first ++ second, c) := by
  induction m generalizing a first with
  | zero =>
    obtain ⟨rfl, rfl⟩ := Prod.mk.inj h
    rw [Nat.zero_add, h']
    rfl
  | succ m ih =>
    rcases hrun : generate a with ⟨outcome, next⟩
    rcases hrest : passes m next with ⟨rest, last⟩
    rw [passes, hrun] at h
    dsimp only at h
    rw [hrest] at h
    obtain ⟨rfl, rfl⟩ := Prod.mk.inj h
    rw [Nat.succ_add, passes, hrun]
    dsimp only
    rw [ih hrest]
    rfl

end Session

namespace Generator

/-- A generator comes from another by passes with given outcomes, of which it discarded the failed
ones. -/
structure Ran (g : Generator σ) (outcomes : List (Except Fault Field)) (h : Generator σ) : Prop where
  passes_eq :
    Session.passes outcomes.length ⟨g.session, g.source⟩ = (outcomes, ⟨h.session, h.source⟩)
  settings_eq : h.settings = g.settings
  discarded_eq : h.discarded = g.discarded + failuresIn outcomes

namespace Ran
variable {g h k : Generator σ} {first second : List (Except Fault Field)}

theorem refl (g : Generator σ) : Ran g [] g := ⟨rfl, rfl, rfl⟩

theorem trans (r : Ran g first h) (r' : Ran h second k) : Ran g (first ++ second) k := by
  constructor
  · rw [List.length_append]
    exact Session.passes_add r.passes_eq r'.passes_eq
  · rw [r'.settings_eq, r.settings_eq]
  · rw [r'.discarded_eq, r.discarded_eq, failuresIn_append, Nat.add_assoc]

end Ran

/-! ## One try, one tree -/

theorem ran_of_tryNext_ok {g after : Generator σ} {root : Field} (h : g.tryNext = (.ok root, after)) :
    Ran g [.ok root] after := by
  obtain ⟨houtcome, rfl⟩ := Prod.mk.inj h
  exact ⟨by rw [← houtcome]; rfl, rfl, rfl⟩

theorem ran_of_tryNext_error {g after : Generator σ} {fault : Fault}
    (h : g.tryNext = (.error fault, after)) :
    Ran g [.error fault] { after with discarded := after.discarded + 1 } := by
  obtain ⟨houtcome, rfl⟩ := Prod.mk.inj h
  exact ⟨by rw [← houtcome]; rfl, rfl, rfl⟩

theorem ran_retry (left failures : Nat) (g : Generator σ) :
    ∃ outcomes, Ran g outcomes (retry left failures g).2 ∧
      treesOf outcomes = (retry left failures g).1.toOption.toList := by
  induction left generalizing failures g with
  | zero =>
    rw [retry]
    rcases hrun : g.tryNext with ⟨fault | root, after⟩
    · exact ⟨_, ran_of_tryNext_error hrun, rfl⟩
    · exact ⟨_, ran_of_tryNext_ok hrun, rfl⟩
  | succ left ih =>
    rw [retry]
    rcases hrun : g.tryNext with ⟨fault | root, after⟩
    · obtain ⟨outcomes, hran, htrees⟩ :=
        ih (failures + 1) { after with discarded := after.discarded + 1 }
      refine ⟨_, (ran_of_tryNext_error hrun).trans hran, ?_⟩
      rw [treesOf_append, htrees]
      rfl
    · exact ⟨_, ran_of_tryNext_ok hrun, rfl⟩

theorem ran_next (g : Generator σ) :
    ∃ outcomes, Ran g outcomes g.next.2 ∧ treesOf outcomes = g.next.1.toOption.toList :=
  ran_retry (g.limit - 1) 0 g

end Generator
end Runs
end ArtifactLayout
