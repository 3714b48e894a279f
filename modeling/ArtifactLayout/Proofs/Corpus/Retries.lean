import ArtifactLayout.Proofs.Corpus.Agreement
import ArtifactLayout.Proofs.Corpus.FixedShape

/-! # The retry loop

A call for the next tree makes passes up to the first that succeeds, but no more of them than a limit,
and then fails with the fault of the last. The passes that fail are counted twice: for the call, whose
failure tells how many there were, and over all calls, as the passes that were discarded.
-/

namespace ArtifactLayout
set_option autoImplicit false

section Retries
variable {σ : Type} [RandomSource σ]

namespace Session

theorem length_passes (n : Nat) (pass : Pass σ) : (passes n pass).1.length = n := by
  induction n generalizing pass with
  | zero => rfl
  | succ n ih => exact congrArg Nat.succ (ih _)

theorem passes_program (n : Nat) (pass : Pass σ) :
    (passes n pass).2.session.program = pass.session.program := by
  induction n generalizing pass with
  | zero => rfl
  | succ n ih => exact (ih _).trans (generate_program pass)

end Session

namespace Generator

/-- The outcomes of the next passes of a generator, whether or not it would make so many. -/
def outcomes (g : Generator σ) (n : Nat) : List (Except Fault Field) :=
  (Session.passes n ⟨g.session, g.source⟩).1

theorem length_outcomes (g : Generator σ) (n : Nat) : (g.outcomes n).length = n :=
  Session.length_passes n _

/-! ## One try -/

section Try
variable {g after : Generator σ} {fault : Fault}

/-- The generator that goes on after a failed pass. -/
def discarding (after : Generator σ) : Generator σ := { after with discarded := after.discarded + 1 }

theorem outcomes_succ {outcome : Except Fault Field} (h : g.tryNext = (outcome, after)) (n : Nat) :
    g.outcomes (n + 1) = outcome :: after.outcomes n := by
  obtain ⟨rfl, rfl⟩ := Prod.mk.inj h
  rfl

theorem discarded_discarding (h : g.tryNext = (.error fault, after)) :
    (discarding after).discarded = g.discarded + 1 := by
  obtain ⟨-, rfl⟩ := Prod.mk.inj h
  rfl

theorem retry_zero_of_error (h : g.tryNext = (.error fault, after)) (failures : Nat) :
    retry 0 failures g = (.error ⟨failures + 1, fault⟩, discarding after) := by
  rw [retry, h]
  rfl

theorem retry_succ_of_error (h : g.tryNext = (.error fault, after)) (left failures : Nat) :
    retry (left + 1) failures g = retry left (failures + 1) (discarding after) := by
  rw [retry, h]
  rfl

end Try

/-! ## One call -/

/-- The passes end with the first that succeeds, where it comes in time. -/
theorem retry_of_first_success {left j : Nat} {g : Generator σ} {root : Field}
    (hroot : (g.outcomes (left + 1))[j]? = some (.ok root))
    (hbefore : ∀ i < j, ∃ fault, (g.outcomes (left + 1))[i]? = some (.error fault)) (failures : Nat) :
    (retry left failures g).1 = .ok root ∧
      Ran g ((g.outcomes (left + 1)).take (j + 1)) (retry left failures g).2 ∧
      (retry left failures g).2.discarded = g.discarded + j := by
  -- each pass before the first success takes one from `j` and from the tries that are left
  induction j generalizing left failures g with
  | zero =>
    rcases htry : g.tryNext with ⟨fault | found, after⟩
    · rw [outcomes_succ htry] at hroot
      cases hroot
    · rw [outcomes_succ htry] at hroot ⊢
      cases hroot
      have hran := ran_of_tryNext_ok htry
      rw [retry_of_ok htry]
      exact ⟨rfl, hran, hran.discarded_eq⟩
  | succ j ih =>
    rcases htry : g.tryNext with ⟨fault | found, after⟩
    · rw [outcomes_succ htry] at hroot hbefore ⊢
      cases left with
      | zero => cases hroot
      | succ left =>
        have hbefore' : ∀ i < j, ∃ fault,
            ((discarding after).outcomes (left + 1))[i]? = some (.error fault) :=
          fun i hi => hbefore (i + 1) (Nat.succ_lt_succ hi)
        obtain ⟨hok, hran, hdiscarded⟩ := ih (g := discarding after) hroot hbefore' (failures + 1)
        rw [retry_succ_of_error htry]
        refine ⟨hok, (ran_of_tryNext_error htry).trans hran, ?_⟩
        rw [hdiscarded, discarded_discarding htry]
        omega
    · obtain ⟨fault, hfault⟩ := hbefore 0 (Nat.succ_pos j)
      rw [outcomes_succ htry] at hfault
      cases hfault

/-- Where no pass in time succeeds, all are made, and the failure is that of the last. -/
theorem retry_of_no_success {left : Nat} {g : Generator σ}
    (hnone : ∀ found, .ok found ∉ g.outcomes (left + 1)) (failures : Nat) :
    ∃ last, (g.outcomes (left + 1)).getLast? = some (.error last) ∧
      (retry left failures g).1 = .error ⟨failures + (left + 1), last⟩ ∧
      Ran g (g.outcomes (left + 1)) (retry left failures g).2 ∧
      (retry left failures g).2.discarded = g.discarded + (left + 1) := by
  induction left generalizing failures g with
  | zero =>
    rcases htry : g.tryNext with ⟨fault | found, after⟩
    · have hran := ran_of_tryNext_error htry
      rw [outcomes_succ htry, retry_zero_of_error htry]
      exact ⟨fault, rfl, rfl, hran, hran.discarded_eq⟩
    · rw [outcomes_succ htry] at hnone
      exact absurd List.mem_cons_self (hnone found)
  | succ left ih =>
    rcases htry : g.tryNext with ⟨fault | found, after⟩
    · rw [outcomes_succ htry] at hnone ⊢
      obtain ⟨last, hlast, herror, hran, hdiscarded⟩ :=
        ih (g := discarding after) (fun found h => hnone found (List.mem_cons_of_mem _ h))
          (failures + 1)
      rw [retry_succ_of_error htry]
      refine ⟨last, ?_, ?_, (ran_of_tryNext_error htry).trans hran, ?_⟩
      · rw [List.getLast?_cons]
        change some (((discarding after).outcomes (left + 1)).getLast?.getD _) = _
        rw [hlast, Option.getD_some]
      · rw [herror, show failures + 1 + (left + 1) = failures + (left + 1 + 1) by omega]
      · rw [hdiscarded, discarded_discarding htry]
        omega
    · rw [outcomes_succ htry] at hnone
      exact absurd List.mem_cons_self (hnone found)

theorem exists_first_success {outcomes : List (Except Fault Field)} {found : Field}
    (h : .ok found ∈ outcomes) :
    ∃ (j : Nat) (root : Field), outcomes[j]? = some (.ok root) ∧
      ∀ i < j, ∃ fault, outcomes[i]? = some (.error fault) := by
  induction outcomes with
  | nil => cases h
  | cons outcome rest ih =>
    cases outcome with
    | ok root =>
      refine ⟨0, root, rfl, fun i hi => ?_⟩
      exact absurd hi (Nat.not_lt_zero i)
    | error fault =>
      have hrest : .ok found ∈ rest := by simpa using h
      obtain ⟨j, root, hroot, hbefore⟩ := ih hrest
      refine ⟨j + 1, root, hroot, fun i hi => ?_⟩
      cases i with
      | zero => exact ⟨fault, rfl⟩
      | succ i => exact hbefore i (Nat.lt_of_succ_lt_succ hi)

theorem retry_failures {left failures : Nat} {g : Generator σ} {e : Exhausted}
    (h : (retry left failures g).1 = .error e) : e.failures = failures + (left + 1) := by
  by_cases hfound : ∃ found, .ok found ∈ g.outcomes (left + 1)
  · obtain ⟨found, hfound⟩ := hfound
    obtain ⟨j, root, hroot, hbefore⟩ := exists_first_success hfound
    obtain ⟨hok, -⟩ := retry_of_first_success hroot hbefore failures
    rw [h] at hok
    cases hok
  · obtain ⟨last, -, herror, -⟩ := retry_of_no_success (not_exists.mp hfound) failures
    rw [h] at herror
    cases herror
    rfl

/-! ## The limit -/

omit [RandomSource σ] in
theorem limit_pos (g : Generator σ) : 0 < g.limit := by
  unfold limit
  split <;> omega

theorem Ran.limit_eq {g after : Generator σ} {outcomes : List (Except Fault Field)}
    (h : Ran g outcomes after) : after.limit = g.limit := by
  have hprogram := Session.passes_program outcomes.length ⟨g.session, g.source⟩
  rw [h.passes_eq] at hprogram
  rw [limit, limit, hprogram, h.settings_eq]

theorem next_failures {g : Generator σ} {e : Exhausted} (h : g.next.1 = .error e) :
    e.failures = g.limit := by
  have hcount := retry_failures h
  have hpos := limit_pos g
  omega

theorem nextArtifact_failures {g : Generator σ} {e : Exhausted}
    (h : g.nextArtifact.1 = .error e) : e.failures = g.limit := by
  rw [nextArtifact] at h
  rcases hrun : g.next with ⟨e' | root, after⟩
  · rw [hrun] at h
    cases h
    apply next_failures
    rw [hrun]
  · rw [hrun] at h
    cases h

theorem yield_failures {n : Nat} {g : Generator σ} {e : Exhausted}
    (h : (yield n g).failure = some e) : e.failures = g.limit := by
  induction n generalizing g with
  | zero => cases h
  | succ n ih =>
    rcases hrun : g.nextArtifact with ⟨e' | bytes, after⟩
    · rw [yield_of_error hrun] at h
      cases h
      apply nextArtifact_failures
      rw [hrun]
    · obtain ⟨outcomes, hran, -⟩ := ran_nextArtifact g
      rw [hrun] at hran
      rw [yield_of_ok hrun] at h
      rw [ih h, hran.limit_eq]

/-! ## Many calls -/

inductive Call where
  | field
  | artifact
  | corpus

def failureOf {α : Type} : Except Exhausted α → Option Exhausted
  | .ok _ => none
  | .error e => some e

/-- The failure that a call ends with, if any, and the generator that it leaves. -/
def answer (g : Generator σ) : Call → Option Exhausted × Generator σ
  | .field => (failureOf g.next.1, g.next.2)
  | .artifact => (failureOf g.nextArtifact.1, g.nextArtifact.2)
  | .corpus => (failureOf g.corpus.1, g.corpus.2)

/-- The failures among calls made one after the other, and the generator that these leave. -/
def answers : List Call → Generator σ → List Exhausted × Generator σ
  | [], g => ([], g)
  | call :: calls, g =>
    let (failure, g) := g.answer call
    let (failures, g) := answers calls g
    (failure.toList ++ failures, g)

omit [RandomSource σ] in
theorem error_of_failureOf {α : Type} {outcome : Except Exhausted α} {e : Exhausted}
    (h : failureOf outcome = some e) : outcome = .error e := by
  cases outcome with
  | ok _ => cases h
  | error e' => exact congrArg Except.error (Option.some.inj h)

theorem answer_run (g : Generator σ) (call : Call) :
    (∃ outcomes, Ran g outcomes (g.answer call).2) ∧
      ∀ e, (g.answer call).1 = some e → e.failures = g.limit := by
  cases call with
  | field =>
    obtain ⟨outcomes, hran, -⟩ := ran_next g
    exact ⟨⟨outcomes, hran⟩, fun e he => next_failures (error_of_failureOf he)⟩
  | artifact =>
    obtain ⟨outcomes, hran, -⟩ := ran_nextArtifact g
    exact ⟨⟨outcomes, hran⟩, fun e he => nextArtifact_failures (error_of_failureOf he)⟩
  | corpus =>
    obtain ⟨outcomes, hran, -⟩ := ran_yield g.settings.count g
    rw [answer, corpus, collect_eq]
    refine ⟨⟨outcomes, hran⟩, fun e he => ?_⟩
    apply yield_failures (n := g.settings.count)
    have hcollected := error_of_failureOf he
    rw [Yield.collected] at hcollected
    cases hfailure : (g.yield g.settings.count).failure with
    | none =>
      rw [hfailure] at hcollected
      cases hcollected
    | some e' =>
      rw [hfailure] at hcollected
      cases hcollected
      rfl

theorem answers_run (calls : List Call) (g : Generator σ) :
    (∃ outcomes, Ran g outcomes (answers calls g).2) ∧
      ∀ e ∈ (answers calls g).1, e.failures = g.limit := by
  induction calls generalizing g with
  | nil =>
    refine ⟨⟨[], .refl g⟩, fun e he => ?_⟩
    cases he
  | cons call calls ih =>
    obtain ⟨⟨outcomes, hran⟩, hfailure⟩ := answer_run g call
    obtain ⟨⟨others, hrest⟩, hfailures⟩ := ih (g.answer call).2
    refine ⟨⟨outcomes ++ others, hran.trans hrest⟩, fun e he => ?_⟩
    rcases List.mem_append.mp he with he | he
    · exact hfailure e (Option.mem_toList.mp he)
    · -- the limit is the same after the call as before it
      rw [hfailures e he, hran.limit_eq]

/-- A call for the next tree makes passes up to the first that succeeds, but no more than the limit,
which is 1 for a fixed shape. If none of these succeeds, then it fails with the limit as its count of
failures and with the fault of the last pass. Whatever calls are made, the passes that were discarded
are all that failed, but each call that fails counts its own failures only. -/
theorem next_takes_first_success (g : Generator σ) :
    let limit := if g.session.program.hasFixedShape then 1 else max 1 g.settings.maxFailures
    let results := g.outcomes limit
    results.length = limit ∧
    (∀ found, .ok found ∈ results → ∃ j root, results[j]? = some (.ok root) ∧
      (∀ i < j, ∃ fault, results[i]? = some (.error fault)) ∧
      g.next.1 = .ok root ∧ Ran g (results.take (j + 1)) g.next.2 ∧
      g.next.2.discarded = g.discarded + j) ∧
    ((∀ found, .ok found ∉ results) → ∃ last, results.getLast? = some (.error last) ∧
      g.next.1 = .error ⟨limit, last⟩ ∧ Ran g results g.next.2 ∧
      g.next.2.discarded = g.discarded + limit) ∧
    ∀ calls, (∃ outcomes, Ran g outcomes (answers calls g).2 ∧
      (answers calls g).2.discarded = g.discarded + failuresIn outcomes) ∧
      ∀ e ∈ (answers calls g).1, e.failures = limit := by
  dsimp only
  rw [show (if g.session.program.hasFixedShape then 1 else max 1 g.settings.maxFailures) = g.limit
    from rfl]
  -- `retry` is told how many tries may follow the first
  have hlimit : g.limit - 1 + 1 = g.limit := by
    have hpos := limit_pos g
    omega
  refine ⟨length_outcomes g g.limit, fun found hfound => ?_, fun hnone => ?_, fun calls => ?_⟩
  · obtain ⟨j, root, hroot, hbefore⟩ := exists_first_success hfound
    refine ⟨j, root, hroot, hbefore, ?_⟩
    rw [← hlimit] at hroot hbefore ⊢
    exact retry_of_first_success hroot hbefore 0
  · rw [← hlimit] at hnone
    obtain ⟨last, hfailed⟩ := retry_of_no_success hnone 0
    rw [hlimit, Nat.zero_add] at hfailed
    exact ⟨last, hfailed⟩
  · obtain ⟨⟨outcomes, hran⟩, hfailures⟩ := answers_run calls g
    exact ⟨⟨outcomes, hran, hran.discarded_eq⟩, hfailures⟩

/-- Two tries a call, over a script whose passes fail now and then. -/
def twoTries (seed : UInt64) : Settings := { Settings.default with seed, maxFailures := 2 }

/-- The hypotheses can be met: from one seed the second pass is the first to succeed, from another both
passes fail. -/
theorem next_takes_first_success_sample :
    ∃ program, Script.parse .standard halfScript = .ok program ∧
      (∃ root, (start program (twoTries 2)).next.1 = .ok root ∧ root.toBytes = [7, 54] ∧
        (start program (twoTries 2)).next.2.discarded = 1) ∧
      ∃ last, (start program (twoTries 0)).next.1 = .error ⟨2, last⟩ ∧
        (start program (twoTries 0)).next.2.discarded = 2 := by
  have hmade : ((Script.parse .standard halfScript).toOption.map fun program =>
      let bytes := fun seed => ((start program (twoTries seed)).outcomes 2).map fun outcome =>
        outcome.toOption.map Field.toBytes
      (program.hasFixedShape, bytes 2, bytes 0)) =
        some (false, [none, some [7, 54]], [none, none]) := by
    decide +kernel
  rcases hparse : Script.parse .standard halfScript with fault | program
  · rw [hparse] at hmade
    cases hmade
  rw [hparse] at hmade
  obtain ⟨hshape, hmade⟩ := Prod.mk.inj (Option.some.inj hmade)
  obtain ⟨hmixed, hfailed⟩ := Prod.mk.inj hmade
  simp only [List.map_eq_cons_iff, List.map_eq_nil_iff] at hmixed hfailed
  have hlimit : ∀ seed, (if (start program (twoTries seed)).session.program.hasFixedShape then 1
      else max 1 (start program (twoTries seed)).settings.maxFailures) = 2 :=
    fun seed => if_neg (Bool.not_eq_true _ ▸ hshape)
  have hcall := fun seed => next_takes_first_success (start program (twoTries seed))
  simp only [hlimit] at hcall
  refine ⟨program, rfl, ?_, ?_⟩
  · obtain ⟨first, _, hresults, hnone, second, _, rfl, hbytes, rfl⟩ := hmixed
    obtain ⟨-, hfirst, -⟩ := hcall 2
    rw [hresults] at hfirst
    cases second with
    | error fault => cases hbytes
    | ok root =>
      obtain ⟨j, root', hroot, -, hnext, -, hdiscarded⟩ := hfirst root (by simp)
      rcases j with _ | _ | j
      · cases hroot
        cases hnone
      · cases hroot
        exact ⟨root, hnext, Option.some.inj hbytes, hdiscarded⟩
      · cases hroot
  · obtain ⟨first, _, hresults, hnone, second, _, rfl, hnone', rfl⟩ := hfailed
    obtain ⟨-, -, hlast, -⟩ := hcall 0
    rw [hresults] at hlast
    obtain ⟨last, -, hnext, -, hdiscarded⟩ := hlast (by
      intro found hfound
      rcases List.mem_cons.mp hfound with rfl | hfound
      · cases hnone
      · obtain rfl := List.mem_singleton.mp hfound
        cases hnone')
    exact ⟨last, hnext, hdiscarded⟩

end Generator
end Retries
end ArtifactLayout
