import ArtifactLayout.Proofs.Arena.Budget

/-! # The draws of an allocation

The range draws that an allocation makes, as a list, and the tree that such a list determines.
`Arena.Conforms` says which draws a declaration asks for and what is laid out once they are made; it
knows nothing of the allowance or of the source. An allocation that succeeds has made the draws of the
list and no others, and its tree is the only one that goes with the numbers drawn.
-/

namespace ArtifactLayout
set_option autoImplicit false

/-- A number drawn between two bounds. -/
structure Draw where
  low : Nat
  high : Nat
  value : Nat
  low_le : low ≤ value
  le_high : value ≤ high
  deriving DecidableEq, Repr

namespace Draw

variable {σ : Type} [RandomSource σ]

/-- The draw that a source makes between two bounds. -/
def of (low high : Nat) (h : low ≤ high) (s : σ) : Draw where
  low := low
  high := high
  value := (RandomSource.between low high h s).1.val
  low_le := (RandomSource.between low high h s).1.property.1
  le_high := (RandomSource.between low high h s).1.property.2

end Draw

/-- A source makes some range draws in turn and nothing else; the sources may be any, also ones that
keep a record of all that is asked of them. -/
inductive Drawn {σ : Type} [RandomSource σ] : σ → List Draw → σ → Prop where
  | nil {s} : Drawn s [] s
  | cons {low high s draws s'} (h : low ≤ high)
      (rest : Drawn (RandomSource.between low high h s).2 draws s') :
      Drawn s (Draw.of low high h s :: draws) s'

theorem Drawn.append {σ : Type} [RandomSource σ] {s t s' : σ} {first second : List Draw}
    (h : Drawn s first t) (h' : Drawn t second s') : Drawn s (first ++ second) s' := by
  induction h with
  | nil => exact h'
  | cons hle rest ih => exact .cons hle (ih h')

/-! ## Keeping a record -/

/-- What a source can be asked for. -/
inductive Asked where
  | between (d : Draw)
  | bytes (n : Nat)
  | byte
  | bit
  deriving DecidableEq, Repr

/-- A source and a record of all that was asked of it. -/
structure Recorded (σ : Type) where
  source : σ
  record : List Asked

namespace Recorded
variable {σ : Type} [RandomSource σ]

instance : RandomSource (Recorded σ) where
  between low high h r :=
    ((RandomSource.between low high h r.source).1,
      ⟨(RandomSource.between low high h r.source).2,
        r.record ++ [.between (Draw.of low high h r.source)]⟩)
  bytes n r :=
    ((RandomSource.bytes n r.source).1, ⟨(RandomSource.bytes n r.source).2, r.record ++ [.bytes n]⟩)
  byte r := ((RandomSource.byte r.source).1, ⟨(RandomSource.byte r.source).2, r.record ++ [.byte]⟩)
  bit r := ((RandomSource.bit r.source).1, ⟨(RandomSource.bit r.source).2, r.record ++ [.bit]⟩)

/-- The record of some draws in turn is the list of them. -/
theorem record_of_drawn {r r' : Recorded σ} {draws : List Draw} (h : Drawn r draws r') :
    r'.record = r.record ++ draws.map Asked.between := by
  induction h with
  | nil => exact (List.append_nil _).symm
  | @cons low high r draws r' hle rest ih =>
    have hfirst : (RandomSource.between low high hle r).2.record =
        r.record ++ [.between (Draw.of low high hle r)] := rfl
    rw [ih, hfirst, List.map_cons, List.append_assoc, List.singleton_append]

end Recorded

/-! ## What draws determine -/

namespace Arena

mutual

/-- The draws that a declaration asks for, depth first in the order of the declarations, and the tree
that is laid out for it when they are made. -/
inductive Conforms (arena : Arena) : Decl → List Draw → Field → Prop where
  | block {filler size name} :
      Conforms arena (.block filler size name) []
        (.leaf ⟨name, some filler⟩ (.block (Array.replicate size 0)))
  | auto {filler size name} :
      Conforms arena (.auto filler size name) []
        (.leaf ⟨name, some filler⟩ (.block (Array.replicate size 0)))
  | bitfield {filler width name} :
      Conforms arena (.bitfield filler width name) []
        (.leaf ⟨name, some filler⟩ (.bitfield (Array.replicate width false)))
  /-- One draw between the bounds, for the size. -/
  | ranged {filler low high name size} (hlow : low ≤ size) (hhigh : size ≤ high) :
      Conforms arena (.ranged filler low high name) [⟨low, high, size, hlow, hhigh⟩]
        (.leaf ⟨name, some filler⟩ (.ranged low high (Array.replicate size 0)))
  | compound {children name draws fields} (hall : ConformAll arena children draws fields) :
      Conforms arena (.compound children name) draws (.group ⟨name, none⟩ .compound fields)
  /-- One draw among the alternatives, then the draws of the one that is picked. -/
  | choice {children name pick child decl draws field} (hpick : children[pick]? = some child)
      (hhigh : pick ≤ children.length - 1) (hdecl : arena.decls[child]? = some decl)
      (hchild : Conforms arena decl draws field) :
      Conforms arena (.choice children name)
        (⟨0, children.length - 1, pick, Nat.zero_le pick, hhigh⟩ :: draws)
        (.group ⟨name, none⟩ .compound [field])
  | bits {children name draws fields} (hall : ConformAll arena children draws fields) :
      Conforms arena (.bits children name) draws (.group ⟨name, none⟩ .bits fields)
  /-- One draw for the number of copies, then the draws of one prototype however many there are. -/
  | copies {number template low high count draws fields}
      (htemplate : arena.templates[number]? = some template) (hlow : low ≤ count)
      (hhigh : count ≤ high) (hall : ConformAll arena template.children draws fields) :
      Conforms arena (.copies number low high) (⟨low, high, count, hlow, hhigh⟩ :: draws)
        (.group Tag.none .repeated (List.replicate count (.group Tag.none .compound fields)))

inductive ConformAll (arena : Arena) : List DeclId → List Draw → List Field → Prop where
  | nil : ConformAll arena [] [] []
  | cons {id decl ids draws draws' field fields} (hdecl : arena.decls[id]? = some decl)
      (head : Conforms arena decl draws field) (tail : ConformAll arena ids draws' fields) :
      ConformAll arena (id :: ids) (draws ++ draws') (field :: fields)

end

/-! ## The numbers drawn settle the rest -/

section Unique
variable {arena : Arena}

/- Lists of draws that begin alike need not be equally long, so the numbers that follow the draws of a
declaration take part in the induction. -/
mutual

theorem Conforms.unique {rest rest' : List Nat} : ∀ {decl : Decl} {draws draws' : List Draw} {f g : Field},
    arena.Conforms decl draws f → arena.Conforms decl draws' g →
    draws.map Draw.value ++ rest = draws'.map Draw.value ++ rest' →
    draws = draws' ∧ f = g ∧ rest = rest'
  | _, _, _, _, _, .block, .block, hvalues => ⟨rfl, rfl, hvalues⟩
  | _, _, _, _, _, .auto, .auto, hvalues => ⟨rfl, rfl, hvalues⟩
  | _, _, _, _, _, .bitfield, .bitfield, hvalues => ⟨rfl, rfl, hvalues⟩
  | _, _, _, _, _, .ranged _ _, .ranged _ _, hvalues => by
      obtain ⟨rfl, rfl⟩ := List.cons.inj hvalues
      exact ⟨rfl, rfl, rfl⟩
  | _, _, _, _, _, .compound hall, .compound hall', hvalues => by
      obtain ⟨rfl, rfl, rfl⟩ := hall.unique hall' hvalues
      exact ⟨rfl, rfl, rfl⟩
  | _, _, _, _, _, .choice hpick _ hdecl hchild, .choice hpick' _ hdecl' hchild', hvalues => by
      obtain ⟨rfl, hrest⟩ := List.cons.inj hvalues
      obtain rfl := Option.some.inj (hpick.symm.trans hpick')
      obtain rfl := Option.some.inj (hdecl.symm.trans hdecl')
      obtain ⟨rfl, rfl, rfl⟩ := hchild.unique hchild' hrest
      exact ⟨rfl, rfl, rfl⟩
  | _, _, _, _, _, .bits hall, .bits hall', hvalues => by
      obtain ⟨rfl, rfl, rfl⟩ := hall.unique hall' hvalues
      exact ⟨rfl, rfl, rfl⟩
  | _, _, _, _, _, .copies htemplate _ _ hall, .copies htemplate' _ _ hall', hvalues => by
      obtain ⟨rfl, hrest⟩ := List.cons.inj hvalues
      obtain rfl := Option.some.inj (htemplate.symm.trans htemplate')
      obtain ⟨rfl, rfl, rfl⟩ := hall.unique hall' hrest
      exact ⟨rfl, rfl, rfl⟩

theorem ConformAll.unique {rest rest' : List Nat} : ∀ {ids : List DeclId} {draws draws' : List Draw}
    {fs gs : List Field}, arena.ConformAll ids draws fs → arena.ConformAll ids draws' gs →
    draws.map Draw.value ++ rest = draws'.map Draw.value ++ rest' →
    draws = draws' ∧ fs = gs ∧ rest = rest'
  | _, _, _, _, _, .nil, .nil, hvalues => ⟨rfl, rfl, hvalues⟩
  | _, _, _, _, _, .cons hdecl head tail, .cons hdecl' head' tail', hvalues => by
      obtain rfl := Option.some.inj (hdecl.symm.trans hdecl')
      rw [List.map_append, List.map_append, List.append_assoc, List.append_assoc] at hvalues
      obtain ⟨rfl, rfl, htail⟩ := head.unique head' hvalues
      obtain ⟨rfl, rfl, rfl⟩ := tail.unique tail' htail
      exact ⟨rfl, rfl, rfl⟩

end

end Unique

/-! ## What is drawn -/

section Lays
variable {σ : Type} [RandomSource σ] {arena : Arena}

mutual

/-- The plan that is drawn for a declaration conforms to the draws that were made for it. -/
theorem conforms_of_lays {id : DeclId} {s s' : σ} {plan : Plan} (h : arena.Lays id s plan s') :
    ∃ decl draws, arena.decls[id]? = some decl ∧ Drawn s draws s' ∧
      arena.Conforms decl draws plan.field := by
  cases h with
  | block hdecl => exact ⟨_, [], hdecl, .nil, .block⟩
  | auto hdecl => exact ⟨_, [], hdecl, .nil, .auto⟩
  | bitfield hdecl => exact ⟨_, [], hdecl, .nil, .bitfield⟩
  | ranged hdecl hle => exact ⟨_, _, hdecl, .cons hle .nil, .ranged _ _⟩
  | compound hdecl hall =>
    obtain ⟨draws, hdrawn, hconform⟩ := conformAll_of_laysAll hall
    exact ⟨_, draws, hdecl, hdrawn, .compound hconform⟩
  | choice hdecl hne hpick hchild =>
    obtain ⟨decl, draws, hchild, hdrawn, hconform⟩ := conforms_of_lays hchild
    exact ⟨_, _, hdecl, .cons (Nat.zero_le _) hdrawn, .choice hpick _ hchild hconform⟩
  | bits hdecl hall =>
    obtain ⟨draws, hdrawn, hconform⟩ := conformAll_of_laysAll hall
    exact ⟨_, draws, hdecl, hdrawn, .bits hconform⟩
  | copies hdecl htemplate hle hall =>
    obtain ⟨draws, hdrawn, hconform⟩ := conformAll_of_laysAll hall
    exact ⟨_, _, hdecl, .cons hle hdrawn, .copies htemplate _ _ hconform⟩

theorem conformAll_of_laysAll {ids : List DeclId} {s s' : σ} {plans : List Plan}
    (h : arena.LaysAll ids s plans s') :
    ∃ draws, Drawn s draws s' ∧ arena.ConformAll ids draws (Plan.fields plans) := by
  cases h with
  | nil => exact ⟨[], .nil, .nil⟩
  | cons head tail =>
    obtain ⟨decl, draws, hdecl, hdrawn, hconform⟩ := conforms_of_lays head
    obtain ⟨draws', hdrawn', hconform'⟩ := conformAll_of_laysAll tail
    exact ⟨draws ++ draws', hdrawn.append hdrawn', .cons hdecl hconform hconform'⟩

end

end Lays
end Arena

/-! ## Requests -/

namespace Request
variable {σ : Type} [RandomSource σ] {arena : Arena}

/-- The draws that a request asks for, and the tree that is laid out when they are made. -/
inductive Conforms (arena : Arena) : Request → List Draw → Field → Prop where
  | decl {id decl draws f} (hdecl : arena.decls[id]? = some decl)
      (h : arena.Conforms decl draws f) : Conforms arena (.decl id) draws f
  | template {id template low high count draws fields}
      (htemplate : arena.templates[id]? = some template) (hlow : low ≤ count) (hhigh : count ≤ high)
      (hall : arena.ConformAll template.children draws fields) :
      Conforms arena (.template id low high) (⟨low, high, count, hlow, hhigh⟩ :: draws)
        (.group Tag.none .repeated (List.replicate count (.group Tag.none .compound fields)))
  | root {ids draws fields} (hall : arena.ConformAll ids draws fields) :
      Conforms arena (.root ids) draws (.group Tag.none .compound fields)

theorem conforms_of_lays {request : Request} {s s' : σ} {plan : Plan}
    (h : request.Lays arena s plan s') :
    ∃ draws, Drawn s draws s' ∧ request.Conforms arena draws plan.field := by
  cases h with
  | decl h =>
    obtain ⟨decl, draws, hdecl, hdrawn, hconform⟩ := Arena.conforms_of_lays h
    exact ⟨draws, hdrawn, .decl hdecl hconform⟩
  | template htemplate hle hall =>
    obtain ⟨draws, hdrawn, hconform⟩ := Arena.conformAll_of_laysAll hall
    exact ⟨_, .cons hle hdrawn, .template htemplate _ _ hconform⟩
  | root hall =>
    obtain ⟨draws, hdrawn, hconform⟩ := Arena.conformAll_of_laysAll hall
    exact ⟨draws, hdrawn, .root hconform⟩

theorem Conforms.unique {request : Request} {draws draws' : List Draw} {f g : Field}
    (h : request.Conforms arena draws f) (h' : request.Conforms arena draws' g)
    (hvalues : draws.map Draw.value = draws'.map Draw.value) : draws = draws' ∧ f = g := by
  have hvalues : draws.map Draw.value ++ [] = draws'.map Draw.value ++ [] := by rw [hvalues]
  cases h with
  | decl hdecl h =>
    cases h' with | decl hdecl' h' =>
    obtain rfl := Option.some.inj (hdecl.symm.trans hdecl')
    obtain ⟨rfl, rfl, -⟩ := h.unique h' hvalues
    exact ⟨rfl, rfl⟩
  | template htemplate hlow hhigh hall =>
    cases h' with | template htemplate' hlow' hhigh' hall' =>
    obtain ⟨rfl, hrest⟩ := List.cons.inj hvalues
    obtain rfl := Option.some.inj (htemplate.symm.trans htemplate')
    obtain ⟨rfl, rfl, -⟩ := hall.unique hall' hrest
    exact ⟨rfl, rfl⟩
  | root hall =>
    cases h' with | root hall' =>
    obtain ⟨rfl, rfl, -⟩ := hall.unique hall' hvalues
    exact ⟨rfl, rfl⟩

/-- A source that keeps a record shows, after a request that was granted, the draws that go with the
tree and nothing else. -/
theorem record_of_run_ok {request : Request} {s : σ} {after : Recorded σ} {root : Field}
    (h : request.run arena (⟨s, []⟩ : Recorded σ) = (.ok root, after)) :
    ∃ draws, after.record = draws.map Asked.between ∧ request.Conforms arena draws root := by
  obtain ⟨plan, hplan, rfl⟩ := lays_of_run_ok h
  obtain ⟨draws, hdrawn, hconform⟩ := conforms_of_lays hplan
  exact ⟨draws, Recorded.record_of_drawn hdrawn, hconform⟩

/-- A request that is granted has made the range draws that it asks for, one after the other, and no
others. Its tree is the one that goes with them: no other draws and no other tree of the request go
with the same numbers. -/
theorem run_conforms_to_draws {request : Request} {s s' : σ} {root : Field}
    (h : request.run arena s = (.ok root, s')) :
    ∃ draws, Drawn s draws s' ∧ request.Conforms arena draws root ∧
      ∀ draws' other, request.Conforms arena draws' other →
        draws'.map Draw.value = draws.map Draw.value → draws' = draws ∧ other = root := by
  obtain ⟨plan, hplan, rfl⟩ := lays_of_run_ok h
  obtain ⟨draws, hdrawn, hconform⟩ := conforms_of_lays hplan
  exact ⟨draws, hdrawn, hconform, fun draws' other hother hvalues => hother.unique hconform hvalues⟩

/-- The hypothesis can be met: three bytes are drawn, one copy, and the only alternative. -/
theorem run_conforms_to_draws_sample :
    ∃ tree s', (root [3, 1, 2]).run sampleArena (ChaCha8.ofSeed 7) = (.ok tree, s') ∧
      tree.visits.map (fun v => v.field.size) = [9, 3, 3, 3, 3, 3, 3] ∧
      ∃ draws, Drawn (ChaCha8.ofSeed 7) draws s' ∧
        (root [3, 1, 2]).Conforms sampleArena draws tree ∧
        ∀ draws' other, (root [3, 1, 2]).Conforms sampleArena draws' other →
          draws'.map Draw.value = draws.map Draw.value → draws' = draws ∧ other = tree := by
  have hsizes : ((root [3, 1, 2]).run sampleArena (ChaCha8.ofSeed 7)).1.toOption.map
      (fun tree => tree.visits.map fun v => v.field.size) = some [9, 3, 3, 3, 3, 3, 3] := by
    decide +kernel
  rcases hrun : (root [3, 1, 2]).run sampleArena (ChaCha8.ofSeed 7) with ⟨fault | tree, s'⟩
  · rw [hrun] at hsizes
    cases hsizes
  · rw [hrun] at hsizes
    exact ⟨tree, s', rfl, Option.some.inj hsizes, run_conforms_to_draws hrun⟩

end Request
end ArtifactLayout
