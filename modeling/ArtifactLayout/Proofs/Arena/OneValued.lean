import ArtifactLayout.Proofs.Arena.FixedShape

/-! # Draws that leave no choice

In an arena of a fixed shape nothing depends on what is drawn, but that does not mean that nothing is
drawn. A size between equal bounds, a number of copies between equal bounds and the only alternative of
a choice are drawn like any other, from a range of one number, and the source moves on. An allocation
leaves every source as it was exactly if it makes no draw, which is so if nothing that it lays out is of
one of these three kinds.
-/

namespace ArtifactLayout
set_option autoImplicit false

open Allocation

/-! ## Words -/

namespace ChaCha8

/-- The stream some words further on. -/
def skip : Nat → ChaCha8 → ChaCha8
  | 0, r => r
  | n + 1, r => skip n r.nextWord.2

theorem skip_add (m n : Nat) (r : ChaCha8) : skip (m + n) r = skip n (skip m r) := by
  induction m generalizing r with
  | zero => rw [Nat.zero_add, skip]
  | succ m ih => rw [Nat.succ_add, skip, ih, skip]

/-- A range draw takes two words for every try. -/
theorem offset_eq_skip (width tries : Nat) (r : ChaCha8) :
    ∃ n, (0 < tries → 0 < n) ∧ (offset width tries r).2 = r.skip (2 * n) := by
  induction tries generalizing r with
  | zero => exact ⟨0, id, rfl⟩
  | succ tries ih =>
    rw [offset]
    dsimp only
    split
    · exact ⟨1, fun _ => Nat.one_pos, rfl⟩
    · obtain ⟨n, -, hskip⟩ := ih r.nextDoubleWord.2
      refine ⟨n + 1, fun _ => Nat.succ_pos n, ?_⟩
      rw [hskip, Nat.mul_add, Nat.add_comm, skip_add]
      rfl

/-- After some range draws a stream is two words or more further on for each. -/
theorem skip_of_drawn {r r' : ChaCha8} {draws : List Draw} (h : Drawn r draws r') :
    ∃ n, 2 * draws.length ≤ n ∧ r' = r.skip n := by
  induction h with
  | nil => exact ⟨0, Nat.le_refl 0, rfl⟩
  | @cons low high r draws r' hle rest ih =>
    obtain ⟨n, hn, rfl⟩ := ih
    obtain ⟨tries, hpos, hskip⟩ := offset_eq_skip (high - low + 1) maxRefusals r
    have hfirst : (RandomSource.between low high hle r).2 = r.skip (2 * tries) := hskip
    have hpos := hpos (by decide)
    refine ⟨2 * tries + n, ?_, ?_⟩
    · rw [List.length_cons]
      omega
    · rw [hfirst, skip_add]

end ChaCha8

/-! ## Sources that are left alone -/

namespace Decl

/-- Whether something is drawn for the node itself. -/
def draws : Decl → Bool
  | ranged _ _ _ _ | choice _ _ | copies _ _ _ => true
  | block _ _ _ | auto _ _ _ | bitfield _ _ _ | compound _ _ | bits _ _ => false

end Decl

section Still
variable {σ α β : Type}

/-- An attempt that leaves the source as it is, whether or not it succeeds. -/
def Still (m : Attempt (Allocation σ) α) : Prop :=
  ∀ s, Attempt.Ensures (fun a => a.source = s) m (fun _ a => a.source = s) fun a => a.source = s

theorem Still.source_eq {m : Attempt (Allocation σ) α} (h : Still m) (a : Allocation σ) :
    (m a).2.source = a.source := by
  obtain ⟨hok, herror⟩ := h a.source a rfl
  rcases hrun : m a with ⟨fault | x, b⟩
  · exact herror fault b hrun
  · exact hok x b hrun

theorem still_charge (units : Nat) : Still (charge units : Attempt (Allocation σ) Unit) := by
  rintro s a rfl
  rw [charge]
  split
  · constructor
    · intro x b hrun
      cases hrun
    · intro fault b hrun
      cases hrun
      rfl
  · constructor
    · intro x b hrun
      cases hrun
      rfl
    · intro fault b hrun
      cases hrun

theorem still_leaf (units : Nat) (leaf : Field) :
    Still (do chargeField units; return leaf : Attempt (Allocation σ) Field) :=
  fun s => .bind (still_charge _ s) fun _ => .pure fun _ h => h

theorem still_group {child : DeclId → Attempt (Allocation σ) Field} {children : List DeclId}
    (h : ∀ c ∈ children, Still (child c)) (node : List Field → Field) :
    Still (do chargeField 0; return node (← children.mapM child)) :=
  fun s => .bind (still_charge _ s) fun _ => .bind (.mapM fun c hc => h c hc s) fun _ =>
    .pure fun _ h => h

end Still

namespace Arena
variable {arena : Arena}

/-- Nothing that is laid out for a declaration is drawn. -/
def Quiet (arena : Arena) (id : DeclId) : Prop :=
  ∀ c, Relation.ReflTransGen arena.Refers c id →
    ∀ decl, arena.decls[c]? = some decl → decl.draws = false

theorem Quiet.child {id : DeclId} (h : arena.Quiet id) {decl : Decl}
    (hdecl : arena.decls[id]? = some decl) : ∀ c ∈ arena.below decl, arena.Quiet c :=
  fun _ hc d hd => h d (hd.tail ⟨decl, hdecl, hc⟩)

theorem quiet_of_below {id : DeclId} {decl : Decl} (hdecl : arena.decls[id]? = some decl)
    (hnode : decl.draws = false) (hbelow : ∀ c ∈ arena.below decl, arena.Quiet c) : arena.Quiet id := by
  intro d hd other hother
  rcases Relation.ReflTransGen.cases_tail hd with rfl | ⟨c, hc, decl', hdecl', hmem⟩
  · obtain rfl := Option.some.inj (hdecl.symm.trans hother)
    exact hnode
  · obtain rfl := Option.some.inj (hdecl.symm.trans hdecl')
    exact hbelow c hmem d hc other hother

theorem still_allocateDecl {σ : Type} [RandomSource σ] {id : DeclId} (h : arena.Quiet id) (depth : Nat) :
    Still (arena.allocateDecl depth id : Attempt (Allocation σ) Field) := by
  induction depth generalizing id with
  | zero => exact fun s => .throw fun _ h => h
  | succ depth ih =>
    rw [allocateDecl]
    cases hdecl : arena.decls[id]? with
    | none => exact fun s => .throw fun _ h => h
    | some decl =>
      have hnode : decl.draws = false := h id .refl decl hdecl
      have hchildren := fun c hc => ih (h.child hdecl c hc)
      cases decl with
      | block filler size name => exact still_leaf size _
      | auto filler size name => exact still_leaf size _
      | bitfield filler width name => exact still_leaf width _
      | compound children name => exact still_group hchildren _
      | bits children name => exact still_group hchildren _
      | ranged | choice | copies => cases hnode

mutual

/-- What is laid out without a draw contains nothing that is drawn. -/
theorem Conforms.quiet {decl : Decl} {draws : List Draw} {f : Field} (h : arena.Conforms decl draws f)
    (hnone : draws = []) : decl.draws = false ∧ ∀ c ∈ arena.below decl, arena.Quiet c := by
  cases h with
  | block | auto | bitfield => exact ⟨rfl, List.forall_mem_nil _⟩
  | compound hall => exact ⟨rfl, hall.quiet hnone⟩
  | bits hall => exact ⟨rfl, hall.quiet hnone⟩
  | ranged | choice | copies => cases hnone

theorem ConformAll.quiet {ids : List DeclId} {draws : List Draw} {fs : List Field}
    (h : arena.ConformAll ids draws fs) (hnone : draws = []) : ∀ id ∈ ids, arena.Quiet id := by
  cases h with
  | nil => exact List.forall_mem_nil _
  | cons hdecl head tail =>
    obtain ⟨hfirst, hrest⟩ := List.append_eq_nil_iff.mp hnone
    obtain ⟨hnode, hbelow⟩ := head.quiet hfirst
    exact List.forall_mem_cons.mpr ⟨quiet_of_below hdecl hnode hbelow, tail.quiet hrest⟩

end

end Arena

/-! ## Requests -/

namespace Request
variable {arena : Arena} {request : Request}

/-- Nothing is drawn for a request. -/
def Quiet (arena : Arena) : Request → Prop
  | decl id => arena.Quiet id
  | template id _ _ => arena.templates[id]? = none
  | root fields => ∀ id ∈ fields, arena.Quiet id

theorem source_run_of_quiet {σ : Type} [RandomSource σ] (h : request.Quiet arena) (s : σ) :
    (request.run arena s).2 = s := by
  cases request with
  | decl id => exact (Arena.still_allocateDecl h Arena.maxDepth).source_eq ⟨maxUnits, s⟩
  | template id low high =>
    have hnone : arena.templates[id]? = none := h
    rw [run, Arena.allocateTemplate, hnone]
    rfl
  | root fields =>
    exact (still_group (fun id hid => Arena.still_allocateDecl (h id hid) Arena.maxDepth)
      (Field.group Tag.none .compound)).source_eq ⟨maxUnits, s⟩

theorem quiet_of_conforms {draws : List Draw} {f : Field} (h : request.Conforms arena draws f)
    (hnone : draws = []) : request.Quiet arena := by
  cases h with
  | decl hdecl h =>
    obtain ⟨hnode, hbelow⟩ := h.quiet hnone
    exact Arena.quiet_of_below hdecl hnode hbelow
  | template => cases hnone
  | root hall => exact hall.quiet hnone

/-- A source that keeps a record shows which draws have been made. -/
theorem eq_of_drawn_recorded {σ : Type} [RandomSource σ] {r r' : Recorded σ} {draws draws' : List Draw}
    (h : Drawn r draws r') (h' : Drawn r draws' r') : draws = draws' := by
  have hmap : draws.map Asked.between = draws'.map Asked.between :=
    List.append_cancel_left ((Recorded.record_of_drawn h).symm.trans (Recorded.record_of_drawn h'))
  exact List.map_injective_iff.mpr (fun _ _ => Asked.between.inj) hmap

/-- In an arena of a fixed shape a request has one outcome, and makes one list of draws on the way,
whatever the source. Every draw is from a range of one number, and a stream is two words or more further
on for each. Sources are left as they were exactly if the list is empty; it is empty if nothing that is
laid out is drawn, and if the request is granted, only then. -/
theorem fixed_shape_draws (hfixed : arena.hasFixedShape = true) (hrequest : request.Fixed) :
    ∃ (outcome : Except Fault Field) (draws : List Draw), (∀ d ∈ draws, d.low = d.high) ∧
      (∀ {σ : Type} [RandomSource σ] (s : σ),
        ∃ after, request.run arena s = (outcome, after) ∧ Drawn s draws after) ∧
      (∀ r : ChaCha8, ∃ n, 2 * draws.length ≤ n ∧ request.run arena r = (outcome, r.skip n)) ∧
      ((∀ {σ : Type} [RandomSource σ] (s : σ), (request.run arena s).2 = s) ↔ draws = []) ∧
      (request.Quiet arena → draws = []) ∧
      ∀ root, outcome = .ok root →
        request.Conforms arena draws root ∧ (draws = [] → request.Quiet arena) := by
  -- what is drawn is read off a source that keeps a record
  let reference : Recorded ChaCha8 := ⟨.ofSeed 0, []⟩
  obtain ⟨-, draws, hone, hreference, -⟩ := run_agrees hfixed hrequest reference reference
  have hrun : ∀ {σ : Type} [RandomSource σ] (s : σ), ∃ after,
      request.run arena s = ((request.run arena reference).1, after) ∧ Drawn s draws after := by
    intro σ _ s
    obtain ⟨houtcome, draws', -, hdrawn, hrecorded⟩ := run_agrees hfixed hrequest s reference
    obtain rfl := eq_of_drawn_recorded hrecorded hreference
    exact ⟨_, Prod.ext houtcome rfl, hdrawn⟩
  have hleft : (∀ {σ : Type} [RandomSource σ] (s : σ), (request.run arena s).2 = s) → draws = [] := by
    intro hsame
    rw [hsame reference] at hreference
    exact eq_of_drawn_recorded hreference .nil
  refine ⟨_, draws, hone, hrun, fun r => ?_, ⟨hleft, fun hnone σ _ s => ?_⟩, fun hquiet => ?_,
    fun root hroot => ?_⟩
  · obtain ⟨after, hafter, hdrawn⟩ := hrun r
    obtain ⟨n, hn, rfl⟩ := ChaCha8.skip_of_drawn hdrawn
    exact ⟨n, hn, hafter⟩
  · obtain ⟨after, hafter, hdrawn⟩ := hrun s
    subst hnone
    cases hdrawn
    rw [hafter]
  · exact hleft fun s => source_run_of_quiet hquiet s
  · obtain ⟨draws', hdrawn, hconform, -⟩ := run_conforms_to_draws (Prod.ext hroot rfl)
    obtain rfl := eq_of_drawn_recorded hdrawn hreference
    exact ⟨hconform, quiet_of_conforms hconform⟩

/-- Copies of a template, the only alternative of a choice and a size, one below the other. -/
def oneValuedArena : Arena where
  decls := #[.ranged 0 2 2 none, .choice [0] none, .copies 0 3 3, .block 0 1 none]
  templates := #[⟨"t", [1]⟩]
  fillers := #[.random]

theorem fixed_shape_draws_sample :
    (oneValuedArena.hasFixedShape = true ∧ (decl 2).Fixed) ∧
    ∃ (outcome : Except Fault Field) (draws : List Draw),
      draws.map (fun d => (d.low, d.high)) = [(3, 3), (0, 0), (2, 2)] ∧
      ∀ r : ChaCha8, ∃ n, 6 ≤ n ∧ (decl 2).run oneValuedArena r = (outcome, r.skip n) := by
  have hfixed : oneValuedArena.hasFixedShape = true := by decide +kernel
  have hrequest : (decl 2).Fixed := trivial
  obtain ⟨outcome, draws, -, hrun, hskip, -⟩ := fixed_shape_draws hfixed hrequest
  obtain ⟨after, hafter, hdrawn⟩ := hrun (⟨.ofSeed 1, []⟩ : Recorded ChaCha8)
  have hrecord : ((decl 2).run oneValuedArena (⟨.ofSeed 1, []⟩ : Recorded ChaCha8)).2.record =
      [.between ⟨3, 3, 3, by decide, by decide⟩, .between ⟨0, 0, 0, by decide, by decide⟩,
        .between ⟨2, 2, 2, by decide, by decide⟩] := by decide +kernel
  have hmap := Recorded.record_of_drawn hdrawn
  rw [hafter] at hrecord
  have hdraws : draws = [⟨3, 3, 3, by decide, by decide⟩, ⟨0, 0, 0, by decide, by decide⟩,
      ⟨2, 2, 2, by decide, by decide⟩] :=
    List.map_injective_iff.mpr (fun _ _ => Asked.between.inj) (hmap.symm.trans hrecord)
  refine ⟨⟨hfixed, hrequest⟩, outcome, draws, ?_, fun r => ?_⟩
  · rw [hdraws]
    rfl
  · obtain ⟨n, hn, hr⟩ := hskip r
    rw [hdraws] at hn
    exact ⟨n, hn, hr⟩

/-- A block of two bytes whose size is drawn between two and two: laying it out moves the stream on. -/
theorem fixed_shape_draws_anyway :
    ¬ ∀ (arena : Arena) (id : DeclId) (r : ChaCha8), arena.hasFixedShape = true →
      id < arena.decls.size → (arena.allocate id r).2 = r := by
  intro h
  have hsame := h ⟨#[.ranged 0 2 2 none], #[], #[.random]⟩ 0 (ChaCha8.ofSeed 1) (by decide +kernel) (by decide)
  have hmoved : (Arena.allocate ⟨#[.ranged 0 2 2 none], #[], #[.random]⟩ 0 (ChaCha8.ofSeed 1)).2 ≠
      ChaCha8.ofSeed 1 := by decide +kernel
  exact hmoved hsame

end Request
end ArtifactLayout
