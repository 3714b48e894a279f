import Mathlib.Data.Nat.Find
import Mathlib.Data.Stream.Init
import ArtifactLayout.Proofs.Arena.Draws
import ArtifactLayout.Proofs.Arena.Refusal

/-! # Cycles

Declarations that lead back to themselves. A sequence of draws leads back if a declaration is met again
inside itself while what the draws pick is laid out depth first. If every sequence does, no draws settle
a tree, and an allocation can only end by running out of its allowance.
-/

namespace ArtifactLayout
set_option autoImplicit false

/-! ## Sequences of draws -/

/-- A source on which what it is to give is written beforehand; what does not fit between the bounds of a
draw is taken modulo their range. -/
abbrev Tape := Stream' Nat

instance : RandomSource Tape where
  between low high h tape :=
    (⟨low + tape.head % (high - low + 1), by
      have := Nat.mod_lt tape.head (by omega : high - low + 1 > 0)
      omega⟩, tape.tail)
  bytes n tape := (⟨(tape.take n).map UInt8.ofNat, by simp⟩, tape.drop n)
  byte tape := (UInt8.ofNat tape.head, tape.tail)
  bit tape := (tape.head.testBit 0, tape.tail)

namespace Arena

section Walk
variable {σ : Type} [RandomSource σ]

/-- The declarations that are laid out for one when nothing limits it, and the source once its own draw
is made. -/
def next (arena : Arena) : Decl → σ → List DeclId × σ
  | .block _ _ _, s | .auto _ _ _, s | .bitfield _ _ _, s => ([], s)
  | .ranged _ low high _, s =>
    if h : low ≤ high then ([], (RandomSource.between low high h s).2) else ([], s)
  | .compound children _, s | .bits children _, s => (children, s)
  | .choice children _, s =>
    let last := children.length - 1
    let (pick, source) := RandomSource.between 0 last (Nat.zero_le last) s
    (children[pick.val]?.toList, source)
  | .copies number low high, s =>
    if h : low ≤ high then
      ((arena.templates[number]?.map Template.children).getD [],
        (RandomSource.between low high h s).2)
    else ([], s)

/-- Of what is still to be laid out, each item with the declarations that are under way around it, some
declaration is met again inside itself. -/
inductive LeadsBack (arena : Arena) : List (List DeclId × DeclId) → σ → Prop where
  | again {path id todo s} (h : id ∈ path) : LeadsBack arena ((path, id) :: todo) s
  | inside {path id decl todo s} (hdecl : arena.decls[id]? = some decl)
      (h : LeadsBack arena (((arena.next decl s).1.map fun c => (id :: path, c)) ++ todo)
        (arena.next decl s).2) :
      LeadsBack arena ((path, id) :: todo) s

end Walk

/-! ## Ends that can be reached -/

/-- Something is drawn for a declaration so that all that is laid out for it has `P`. -/
def Offers (arena : Arena) (P : DeclId → Prop) : Decl → Prop
  | .block _ _ _ | .auto _ _ _ | .bitfield _ _ _ => True
  | .ranged _ low high _ => low ≤ high
  | .compound children _ | .bits children _ => ∀ c ∈ children, P c
  | .choice children _ => ∃ c ∈ children, P c
  | .copies number low high => low ≤ high ∧
      ∃ template, arena.templates[number]? = some template ∧ ∀ c ∈ template.children, P c

theorem Offers.mono {arena : Arena} {P Q : DeclId → Prop} {decl : Decl} (h : arena.Offers P decl)
    (hPQ : ∀ c, P c → Q c) : arena.Offers Q decl := by
  cases decl with
  | block | auto | bitfield => trivial
  | ranged => exact h
  | compound children name | bits children name => exact fun c hc => hPQ c (h c hc)
  | choice children name =>
    obtain ⟨c, hc, hP⟩ := h
    exact ⟨c, hc, hPQ c hP⟩
  | copies number low high =>
    obtain ⟨hle, template, htemplate, hall⟩ := h
    exact ⟨hle, template, htemplate, fun c hc => hPQ c (hall c hc)⟩

/-- A declaration can be laid out in `n` levels. -/
def Ends (arena : Arena) : Nat → DeclId → Prop
  | 0, _ => False
  | n + 1, id => ∃ decl, arena.decls[id]? = some decl ∧ arena.Offers (arena.Ends n) decl

variable {arena : Arena}

theorem Ends.succ {n : Nat} {id : DeclId} (h : arena.Ends n id) : arena.Ends (n + 1) id := by
  induction n generalizing id with
  | zero => cases h
  | succ n ih =>
    obtain ⟨decl, hdecl, hoffers⟩ := h
    exact ⟨decl, hdecl, hoffers.mono fun c => ih⟩

theorem Ends.mono {m n : Nat} (hmn : m ≤ n) {id : DeclId} (h : arena.Ends m id) : arena.Ends n id := by
  induction hmn with
  | refl => exact h
  | step _ ih => exact ih.succ

mutual

theorem Conforms.offers : ∀ {decl : Decl} {draws : List Draw} {f : Field},
    arena.Conforms decl draws f → ∃ n, arena.Offers (arena.Ends n) decl
  | _, _, _, .block | _, _, _, .auto | _, _, _, .bitfield => ⟨0, trivial⟩
  | _, _, _, .ranged hlow hhigh => ⟨0, Nat.le_trans hlow hhigh⟩
  | _, _, _, .compound hall | _, _, _, .bits hall => hall.ends
  | _, _, _, .choice hpick _ hdecl hchild => by
      obtain ⟨n, hoffers⟩ := hchild.offers
      exact ⟨n + 1, _, List.mem_of_getElem? hpick, _, hdecl, hoffers⟩
  | _, _, _, .copies htemplate hlow hhigh hall => by
      obtain ⟨n, hends⟩ := hall.ends
      exact ⟨n, Nat.le_trans hlow hhigh, _, htemplate, hends⟩

theorem ConformAll.ends : ∀ {ids : List DeclId} {draws : List Draw} {fs : List Field},
    arena.ConformAll ids draws fs → ∃ n, ∀ id ∈ ids, arena.Ends n id
  | _, _, _, .nil => ⟨0, List.forall_mem_nil _⟩
  | _, _, _, .cons hdecl head tail => by
      obtain ⟨m, hoffers⟩ := head.offers
      obtain ⟨n, hends⟩ := tail.ends
      refine ⟨max (m + 1) n, List.forall_mem_cons.mpr ⟨?_, fun id hid => ?_⟩⟩
      · exact Ends.mono (Nat.le_max_left _ _) ⟨_, hdecl, hoffers⟩
      · exact (hends id hid).mono (Nat.le_max_right _ _)

end

/-! ## Draws that do not lead back -/

/-- Some draws lay out declarations, inside those of a path, without coming upon any that is under way: a
walk that leads back does so behind them. -/
def Escapes (arena : Arena) (path : List DeclId) (ids : List DeclId) : Prop :=
  ∃ draws : List Nat, ∀ todo (rest : Tape),
    arena.LeadsBack ((ids.map fun c => (path, c)) ++ todo) (draws ++ₛ rest) → arena.LeadsBack todo rest

theorem escapes_all {path : List DeclId} {ids : List DeclId}
    (h : ∀ id ∈ ids, arena.Escapes path [id]) : arena.Escapes path ids := by
  induction ids with
  | nil => exact ⟨[], fun todo rest hback => hback⟩
  | cons id ids ih =>
    obtain ⟨hhead, htail⟩ := List.forall_mem_cons.mp h
    obtain ⟨draws, hdraws⟩ := hhead
    obtain ⟨draws', hdraws'⟩ := ih htail
    refine ⟨draws ++ draws', fun todo rest hback => ?_⟩
    rw [Stream'.append_append_stream] at hback
    exact hdraws' _ _ (hdraws _ _ hback)

/-- What a declaration offers can be drawn. -/
theorem exists_draws_of_offers {path : List DeclId} {decl : Decl}
    (h : arena.Offers (fun c => arena.Escapes path [c]) decl) :
    ∃ draws : List Nat, ∀ todo (rest : Tape),
      arena.LeadsBack (((arena.next decl (draws ++ₛ rest)).1.map fun c => (path, c)) ++ todo)
        (arena.next decl (draws ++ₛ rest)).2 → arena.LeadsBack todo rest := by
  cases decl with
  | block | auto | bitfield => exact ⟨[], fun todo rest hback => hback⟩
  | ranged filler low high name =>
    have hle : low ≤ high := h
    refine ⟨[0], fun todo rest hback => ?_⟩
    rw [next, dif_pos hle] at hback
    exact hback
  | compound children name | bits children name => exact escapes_all h
  | choice children name =>
    obtain ⟨c, hc, draws, hdraws⟩ := h
    obtain ⟨i, hi⟩ := List.mem_iff_getElem?.mp hc
    have hlt : i < children.length := (List.getElem?_eq_some_iff.mp hi).1
    refine ⟨i :: draws, fun todo rest hback => hdraws todo rest ?_⟩
    have hpick : children[0 + i % (children.length - 1 - 0 + 1)]? = some c := by
      rw [Nat.zero_add, Nat.mod_eq_of_lt (by omega), hi]
    have hnext : arena.next (.choice children name) ((i :: draws) ++ₛ rest : Tape) =
        ([c], draws ++ₛ rest) := by
      show (children[0 + i % (children.length - 1 - 0 + 1)]?.toList, _) = _
      rw [hpick]
      rfl
    rw [hnext] at hback
    exact hback
  | copies number low high =>
    obtain ⟨hle, template, htemplate, hall⟩ := h
    obtain ⟨draws, hdraws⟩ := escapes_all hall
    refine ⟨0 :: draws, fun todo rest hback => hdraws todo rest ?_⟩
    rw [next, dif_pos hle, htemplate] at hback
    exact hback

/-- A declaration that can be laid out is laid out in the fewest levels possible by draws that come upon
no declaration which takes as many, so it is not met inside itself. -/
theorem escapes_of_ends {n : Nat} {id : DeclId} {path : List DeclId} (hends : arena.Ends n id)
    (hfewest : ∀ m < n, ¬ arena.Ends m id) (hpath : ∀ a ∈ path, ¬ arena.Ends n a) :
    arena.Escapes path [id] := by
  induction n using Nat.strong_induction_on generalizing id path with
  | h n ih =>
    cases n with
    | zero => cases hends
    | succ n =>
      obtain ⟨decl, hdecl, hoffers⟩ := hends
      have hbelow : arena.Offers (fun c => arena.Escapes (id :: path) [c]) decl := by
        refine hoffers.mono fun c hc => ?_
        have hex : ∃ m, arena.Ends m c := ⟨n, hc⟩
        classical
        have hle : Nat.find hex ≤ n := Nat.find_le hc
        refine ih (Nat.find hex) (by omega) (Nat.find_spec hex) (fun m => Nat.find_min hex) ?_
        exact List.forall_mem_cons.mpr ⟨hfewest _ (by omega),
          fun a ha hend => hpath a ha (hend.mono (by omega))⟩
      obtain ⟨draws, hdraws⟩ := exists_draws_of_offers hbelow
      refine ⟨draws, fun todo rest hback => ?_⟩
      cases hback with
      | again hmem => exact absurd ⟨decl, hdecl, hoffers⟩ (hpath id hmem)
      | inside hdecl' hback =>
        obtain rfl := Option.some.inj (hdecl.symm.trans hdecl')
        exact hdraws _ _ hback

theorem Ends.escapes {n : Nat} {id : DeclId} (h : arena.Ends n id) : arena.Escapes [] [id] := by
  classical
  have hex : ∃ m, arena.Ends m id := ⟨n, h⟩
  exact escapes_of_ends (Nat.find_spec hex) (fun m => Nat.find_min hex) (List.forall_mem_nil _)

/-! ## Draws that lead back -/

section Walk
variable {σ : Type} [RandomSource σ]

/-- What is laid out for a declaration is a plan for it. -/
theorem Proper.exists_lays_of_next (h : arena.Proper) {id : DeclId} {decl : Decl} {s t : σ}
    {plans : List Plan} (hdecl : arena.decls[id]? = some decl)
    (hall : arena.LaysAll (arena.next decl s).1 (arena.next decl s).2 plans t) :
    ∃ plan, arena.Lays id s plan t := by
  have hmem : decl ∈ arena.decls := Array.mem_of_getElem? hdecl
  cases decl with
  | block filler size name =>
    cases hall
    exact ⟨_, .block hdecl⟩
  | auto filler size name =>
    cases hall
    exact ⟨_, .auto hdecl⟩
  | bitfield filler width name =>
    cases hall
    exact ⟨_, .bitfield hdecl⟩
  | ranged filler low high name =>
    have hle := h.range_le _ _ _ _ hmem
    rw [next, dif_pos hle] at hall
    cases hall
    exact ⟨_, .ranged hdecl hle⟩
  | compound children name => exact ⟨_, .compound hdecl hall⟩
  | bits children name => exact ⟨_, .bits hdecl hall⟩
  | choice children name =>
    have hne := h.choice_ne_nil _ _ hmem
    have hpos := List.length_pos_iff.mpr hne
    obtain ⟨-, hpick⟩ := (RandomSource.between 0 (children.length - 1) (Nat.zero_le _) s).1.property
    have hchild := List.getElem?_eq_getElem (Nat.lt_of_le_pred hpos hpick)
    rw [next] at hall
    dsimp only at hall
    rw [hchild] at hall
    obtain _ | ⟨head, tail⟩ := hall
    cases tail
    exact ⟨_, .choice hdecl hne hchild head⟩
  | copies number low high =>
    have hle := h.copies_le _ _ _ hmem
    obtain ⟨template, htemplate⟩ : ∃ template, arena.templates[number]? = some template :=
      ⟨_, Array.getElem?_eq_getElem (h.template_lt _ _ _ hmem)⟩
    rw [next, dif_pos hle, htemplate] at hall
    exact ⟨_, .copies hdecl htemplate hle hall⟩

theorem mem_below_of_mem_next {decl : Decl} {s : σ} {c : DeclId}
    (h : c ∈ (arena.next decl s).1) : c ∈ arena.below decl := by
  cases decl with
  | block | auto | bitfield => exact h
  | ranged filler low high name =>
    rw [next] at h
    split at h <;> exact h
  | compound children name | bits children name => exact h
  | choice children name => exact List.mem_of_getElem? (Option.mem_toList.mp h)
  | copies number low high =>
    rw [next] at h
    split at h
    · exact h
    · exact absurd h List.not_mem_nil

/-- Declarations in turn are laid out by what is drawn for them, or what is drawn leads back. -/
def Settled (arena : Arena) (path ids : List DeclId) (s : σ) : Prop :=
  (∃ plans t, arena.LaysAll ids s plans t ∧
    ∀ todo, arena.LeadsBack todo t → arena.LeadsBack ((ids.map fun c => (path, c)) ++ todo) s) ∨
  ∀ todo, arena.LeadsBack ((ids.map fun c => (path, c)) ++ todo) s

theorem settled_all {path ids : List DeclId} (h : ∀ id ∈ ids, ∀ s : σ, arena.Settled path [id] s)
    (s : σ) : arena.Settled path ids s := by
  induction ids generalizing s with
  | nil => exact .inl ⟨[], s, .nil, fun todo hback => hback⟩
  | cons id ids ih =>
    obtain ⟨hhead, htail⟩ := List.forall_mem_cons.mp h
    rcases hhead s with ⟨plans, t, hlays, hthrough⟩ | hback
    · rcases ih htail t with ⟨plans', t', hlays', hthrough'⟩ | hback
      · obtain _ | ⟨hfirst, hnil⟩ := hlays
        cases hnil
        exact .inl ⟨_, t', .cons hfirst hlays', fun todo hback => hthrough _ (hthrough' todo hback)⟩
      · exact .inr fun todo => hthrough _ (hback todo)
    · exact .inr fun todo => hback _

/-- There are finitely many declarations, so a walk that does not end meets one inside itself. The
induction is on how many declarations are not under way. -/
theorem Proper.settled (h : arena.Proper) {path : List DeclId} {id : DeclId} (hnodup : path.Nodup)
    (hpath : ∀ a ∈ path, a < arena.decls.size) (hid : id < arena.decls.size) (s : σ) :
    arena.Settled path [id] s := by
  induction hn : arena.decls.size - path.length using Nat.strong_induction_on generalizing path id s with
  | h n ih =>
    by_cases hmem : id ∈ path
    · exact .inr fun todo => .again hmem
    · have hnodup' : (id :: path).Nodup := List.nodup_cons.mpr ⟨hmem, hnodup⟩
      have hpath' : ∀ a ∈ id :: path, a < arena.decls.size := List.forall_mem_cons.mpr ⟨hid, hpath⟩
      have hroom : (id :: path).length ≤ arena.decls.size := by
        have hsub : id :: path ⊆ List.range arena.decls.size :=
          fun a ha => List.mem_range.mpr (hpath' a ha)
        simpa using (hnodup'.subperm hsub).length_le
      rw [List.length_cons] at hroom
      have hdecl : arena.decls[id]? = some arena.decls[id] := Array.getElem?_eq_getElem hid
      have hchildren : ∀ c ∈ (arena.next arena.decls[id] s).1, c < arena.decls.size :=
        fun c hc => h.child_lt _ (Array.getElem_mem hid) c (mem_below_of_mem_next hc)
      have hbelow := settled_all (fun c hc t => ih (arena.decls.size - (id :: path).length)
        (by rw [List.length_cons]; omega) hnodup' hpath' (hchildren c hc) t rfl)
        (arena.next arena.decls[id] s).2
      rcases hbelow with ⟨plans, t, hlays, hthrough⟩ | hback
      · obtain ⟨plan, hplan⟩ := h.exists_lays_of_next hdecl hlays
        exact .inl ⟨[plan], t, .cons hplan .nil, fun todo hback => .inside hdecl (hthrough todo hback)⟩
      · exact .inr fun todo => .inside hdecl (hback todo)

end Walk

end Arena

/-! ## Requests -/

namespace Request
variable {σ : Type} [RandomSource σ] {arena : Arena} {request : Request}

/-- The declarations that are laid out for a request, and the source once its own draw is made. -/
def first (arena : Arena) : Request → σ → List DeclId × σ
  | decl id, s => ([id], s)
  | template id low high, s => arena.next (.copies id low high) s
  | root fields, s => (fields, s)

/-- What is drawn for a request leads back. -/
def LeadsBack (arena : Arena) (request : Request) (s : σ) : Prop :=
  arena.LeadsBack ((request.first arena s).1.map fun c => ([], c)) (request.first arena s).2

theorem lt_of_mem_first (h : arena.Proper) (hask : request.Admissible arena) {s : σ} {c : DeclId}
    (hc : c ∈ (request.first arena s).1) : c < arena.decls.size := by
  cases request with
  | decl id =>
    obtain rfl := List.mem_singleton.mp hc
    exact hask
  | template id low high =>
    have hbelow := Arena.mem_below_of_mem_next hc
    rw [Arena.below, Array.getElem?_eq_getElem hask.1] at hbelow
    exact h.template_child_lt _ (Array.getElem_mem hask.1) c hbelow
  | root fields => exact hask c hc

theorem exists_lays_of_first (hask : request.Admissible arena) {s t : σ} {plans : List Plan}
    (hall : arena.LaysAll (request.first arena s).1 (request.first arena s).2 plans t) :
    ∃ plan, request.Lays arena s plan t := by
  cases request with
  | decl id =>
    obtain _ | ⟨head, tail⟩ := hall
    cases tail
    exact ⟨_, .decl head⟩
  | template id low high =>
    obtain ⟨hid, hle⟩ := hask
    have htemplate : arena.templates[id]? = some arena.templates[id] := Array.getElem?_eq_getElem hid
    rw [first, Arena.next, dif_pos hle, htemplate] at hall
    exact ⟨_, .template htemplate hle hall⟩
  | root fields => exact ⟨_, .root hall⟩

/-- Draws that settle a tree can be made so that they do not lead back. -/
theorem exists_tape_of_conforms {draws : List Draw} {f : Field} (h : request.Conforms arena draws f) :
    ∃ tape : Tape, ¬ request.LeadsBack arena tape := by
  have hescapes : ∃ draws : List Nat, ∀ todo (rest : Tape),
      arena.LeadsBack (((request.first arena (draws ++ₛ rest)).1.map fun c => ([], c)) ++ todo)
        (request.first arena (draws ++ₛ rest)).2 → arena.LeadsBack todo rest := by
    cases h with
    | decl hdecl h =>
      obtain ⟨n, hoffers⟩ := h.offers
      have hends : arena.Ends (n + 1) _ := ⟨_, hdecl, hoffers⟩
      exact hends.escapes
    | template htemplate hlow hhigh hall =>
      obtain ⟨n, hends⟩ := hall.ends
      exact Arena.exists_draws_of_offers
        ⟨Nat.le_trans hlow hhigh, _, htemplate, fun c hc => (hends c hc).escapes⟩
    | root hall =>
      obtain ⟨n, hends⟩ := hall.ends
      exact Arena.escapes_all fun c hc => (hends c hc).escapes
  obtain ⟨draws, hdraws⟩ := hescapes
  refine ⟨draws ++ₛ Stream'.const 0, fun hback => ?_⟩
  have hnil := hdraws [] (Stream'.const 0)
  rw [List.append_nil] at hnil
  cases hnil hback

/-- Every sequence of draws leads back exactly if no draws settle a tree. -/
theorem leadsBack_iff (h : arena.Proper) (hask : request.Admissible arena) :
    (∀ tape : Tape, request.LeadsBack arena tape) ↔
      ∀ draws root, ¬ request.Conforms arena draws root := by
  constructor
  · intro hback draws root hconform
    obtain ⟨tape, hescape⟩ := exists_tape_of_conforms hconform
    exact hescape (hback tape)
  · intro hnone tape
    have hsettled : arena.Settled [] (request.first arena tape).1 (request.first arena tape).2 :=
      Arena.settled_all (fun c hc t =>
        h.settled List.nodup_nil (List.forall_mem_nil _) (lt_of_mem_first h hask hc) t) _
    rcases hsettled with ⟨plans, t, hlays, -⟩ | hback
    · obtain ⟨plan, hplan⟩ := exists_lays_of_first hask hlays
      obtain ⟨draws, -, hconform⟩ := conforms_of_lays hplan
      exact absurd hconform (hnone draws _)
    · rw [LeadsBack, ← List.append_nil (List.map _ _)]
      exact hback []

/-- Allocation ends in every arena and with every source, cycles or not. If everything is in order but
every sequence of draws leads back, it ends by being too large. -/
theorem run_halts (arena : Arena) (request : Request) (s : σ) :
    (∃ calls, request.Halts arena s calls) ∧
      (arena.Proper → request.Admissible arena → (∀ tape : Tape, request.LeadsBack arena tape) →
        ∃ units, (request.run arena s).1 = .error (.tooLarge units)) := by
  refine ⟨exists_halts arena request s, fun hproper hask hback => ?_⟩
  rcases granted_or_tooLarge hproper hask s with ⟨root, hroot⟩ | hrefused
  · obtain ⟨draws, -, hconform, -⟩ := run_conforms_to_draws (Prod.ext hroot rfl)
    exact absurd hconform ((leadsBack_iff hproper hask).mp hback draws root)
  · exact hrefused

/-- A choice between itself and no copies of a template of itself. -/
def cyclicArena : Arena where
  decls := #[.choice [0, 1] none, .copies 0 0 0]
  templates := #[⟨"t", [0]⟩]
  fillers := #[]

theorem cyclicArena_proper : cyclicArena.Proper where
  child_lt := by decide
  template_lt := by simp +contextual [cyclicArena]
  template_child_lt := by decide
  range_le := by simp [cyclicArena]
  copies_le := by simp +contextual [cyclicArena]
  choice_ne_nil := by simp +contextual [cyclicArena]

theorem leadsBack_cyclicArena (tape : Tape) : (decl 0).LeadsBack cyclicArena tape := by
  have hchoice : cyclicArena.decls[0]? = some (.choice [0, 1] none) := rfl
  have hcopies : cyclicArena.decls[1]? = some (.copies 0 0 0) := rfl
  refine .inside hchoice ?_
  show cyclicArena.LeadsBack ((([0, 1] : List DeclId)[0 + tape.head % 2]?.toList.map fun c => ([0], c)) ++ [])
    tape.tail
  rcases Nat.mod_two_eq_zero_or_one tape.head with hpick | hpick
  · rw [hpick]
    exact .again (List.mem_singleton_self 0)
  · rw [hpick]
    -- the template is laid out once although it is copied zero times
    refine .inside hcopies ?_
    exact .again (by decide)

theorem run_halts_cyclicArena :
    cyclicArena.Proper ∧ (decl 0).Admissible cyclicArena ∧
      (∀ tape : Tape, (decl 0).LeadsBack cyclicArena tape) ∧
      (∃ calls, (decl 0).Halts cyclicArena (ChaCha8.ofSeed 7) calls) ∧
      ∃ units, ((decl 0).run cyclicArena (ChaCha8.ofSeed 7)).1 = .error (.tooLarge units) := by
  obtain ⟨hhalts, hrefused⟩ := run_halts cyclicArena (decl 0) (ChaCha8.ofSeed 7)
  have hask : (decl 0).Admissible cyclicArena := by
    show 0 < 2
    decide
  exact ⟨cyclicArena_proper, hask, leadsBack_cyclicArena, hhalts,
    hrefused cyclicArena_proper hask leadsBack_cyclicArena⟩

end Request
end ArtifactLayout
