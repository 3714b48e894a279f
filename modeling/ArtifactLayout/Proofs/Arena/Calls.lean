import ArtifactLayout.Proofs.Arena.Budget

/-! # The calls of an allocation

To lay out a node is to enter it, which checks it, draws for it and pays for it, then to lay out the
declarations below it in turn, and to close it. `Arena.Traced` is this recursion without any bound,
together with the calls that it makes. As every call is paid for before it makes others, the recursion
ends in every arena, also where declarations lead back to themselves, and the bounded recursion of
`Arena.allocateDecl` gives its outcome.
-/

namespace ArtifactLayout
set_option autoImplicit false

open Allocation

/-! ## Entering a node -/

/-- A node that has been paid for: the declarations to be laid out for it, the price of closing it at
the allowance that they leave, and the field that is made of theirs. -/
structure Opened where
  children : List DeclId
  price : Nat → Nat
  node : List Field → Field

namespace Opened
variable {σ : Type}

/-- A node that costs nothing beyond what has been paid. -/
def free (children : List DeclId) (node : List Field → Field) : Opened := ⟨children, fun _ => 0, node⟩

def close (opened : Opened) (fields : List Field) : Attempt (Allocation σ) Field := do
  let left := (← get).remaining
  charge (opened.price left)
  return opened.node fields

/-- Goes on from a node that was entered, given how declarations are laid out. -/
def run (child : DeclId → Attempt (Allocation σ) Field) (opened : Opened) :
    Attempt (Allocation σ) Field := do
  opened.close (← opened.children.mapM child)

end Opened

section Enter
variable {σ : Type} [RandomSource σ]

/-- The copies and their prototype are paid for on entering, the other copies on closing. -/
def Template.enter (template : Template) (low high : Nat) : Attempt (Allocation σ) Opened := do
  if h : low ≤ high then
    let copies ← draw low high h
    chargeField 0
    let before := (← get).remaining
    chargeField 0
    return {
      children := template.children
      price := fun left => saturate ((before - left) * (copies.val - 1))
      node := fun fields => .group Tag.none .repeated
        (List.replicate copies.val (.group Tag.none .compound fields)) }
  else throw (.invalidBounds low high)

def Arena.enterTemplate (arena : Arena) (id : TemplateId) (low high : Nat) :
    Attempt (Allocation σ) Opened :=
  match arena.templates[id]? with
  | none => throw (.missingTemplate id)
  | some template => template.enter low high

def Decl.enter (arena : Arena) : Decl → Attempt (Allocation σ) Opened
  | .block filler size name | .auto filler size name => do
    chargeField size
    return .free [] fun _ => .leaf ⟨name, some filler⟩ (.block (Array.replicate size 0))
  | .bitfield filler width name => do
    chargeField width
    return .free [] fun _ => .leaf ⟨name, some filler⟩ (.bitfield (Array.replicate width false))
  | .ranged filler low high name => do
    if h : low ≤ high then
      let size ← draw low high h
      chargeField size.val
      return .free [] fun _ =>
        .leaf ⟨name, some filler⟩ (.ranged low high (Array.replicate size.val 0))
    else throw (.invalidBounds low high)
  | .compound children name => do
    chargeField 0
    return .free children (.group ⟨name, none⟩ .compound)
  | .choice children name => do
    if children ≠ [] then
      chargeField 0
      let last := children.length - 1
      let pick ← draw 0 last (Nat.zero_le last)
      return .free children[pick.val]?.toList (.group ⟨name, none⟩ .compound)
    else throw .noAlternatives
  | .bits children name => do
    chargeField 0
    return .free children (.group ⟨name, none⟩ .bits)
  | .copies template low high => arena.enterTemplate template low high

def Arena.enterDecl (arena : Arena) (id : DeclId) : Attempt (Allocation σ) Opened :=
  match arena.decls[id]? with
  | none => throw (.missingDecl id)
  | some decl => decl.enter arena

def Request.enter (arena : Arena) : Request → Attempt (Allocation σ) Opened
  | .decl id => arena.enterDecl id
  | .template id low high => arena.enterTemplate id low high
  | .root fields => do
    chargeField 0
    return .free fields (.group Tag.none .compound)

end Enter

/-! ## One level of the recursion -/

section Level
variable {σ : Type}

theorem charge_zero (s : Allocation σ) : charge 0 s = (.ok (), s) := if_neg (Nat.not_lt_zero _)

theorem Opened.run_free (child : DeclId → Attempt (Allocation σ) Field) (children : List DeclId)
    (node : List Field → Field) :
    (Opened.free children node).run child = do return node (← children.mapM child) := by
  have hclose (fields : List Field) :
      (Opened.free children node).close fields = (pure (node fields) : Attempt (Allocation σ) Field) := by
    funext s
    rw [close, Attempt.bind_of_ok (Attempt.get_apply s)]
    exact Attempt.bind_of_ok (charge_zero s) _
  rw [run, free] at *
  exact congrArg _ (funext hclose)

variable [RandomSource σ] {arena : Arena}

theorem instantiate_eq (child : DeclId → Attempt (Allocation σ) Field) (template : Template)
    (low high : Nat) :
    template.instantiate child low high = template.enter low high >>= Opened.run child := by
  rw [Template.instantiate, Template.enter]
  split
  · simp [Opened.run, Opened.close]
  · rfl

theorem allocateDecl_succ (depth : Nat) (id : DeclId) :
    (arena.allocateDecl (depth + 1) id : Attempt (Allocation σ) Field) =
      (Request.decl id).enter arena >>= Opened.run (arena.allocateDecl depth) := by
  rw [Arena.allocateDecl, Request.enter, Arena.enterDecl]
  cases arena.decls[id]? with
  | none => rfl
  | some decl =>
    cases decl with
    | block | auto | bitfield | compound | bits => simp [Decl.enter, Opened.run_free]
    | ranged filler low high name =>
      dsimp only [Decl.enter]
      split
      · simp [Opened.run_free]
      · rfl
    | choice children name =>
      dsimp only [Decl.enter]
      split
      case isTrue hne =>
        have hpick (pick : {n : Nat // 0 ≤ n ∧ n ≤ children.length - 1}) :
            pick.val < children.length :=
          Nat.lt_of_le_pred (List.length_pos_iff.mpr hne) pick.property.2
        simp [Opened.run_free, hpick]
      case isFalse => rfl
    | copies number low high =>
      dsimp only [Decl.enter, Arena.enterTemplate]
      cases arena.templates[number]? with
      | none => rfl
      | some template => exact instantiate_eq _ template low high

end Level
/-! ## What entering a node costs -/

section Pays
variable {σ α β : Type} {n n' r : Nat}

/-- Where an attempt succeeds, it takes `n` at least from the allowance. -/
def Pays (n : Nat) (m : Attempt (Allocation σ) α) : Prop :=
  ∀ s a t, m s = (.ok a, t) → t.remaining + n ≤ s.remaining

namespace Pays
variable {m : Attempt (Allocation σ) α} {k : α → Attempt (Allocation σ) β}

theorem pure (a : α) : Pays 0 (pure a : Attempt (Allocation σ) α) := by
  intro s b t h
  cases h
  exact Nat.le_refl _

theorem throw (fault : Fault) : Pays n (throw fault : Attempt (Allocation σ) α) := by
  intro s b t h
  cases h

theorem get : Pays 0 (get : Attempt (Allocation σ) (Allocation σ)) := by
  intro s b t h
  cases h
  exact Nat.le_refl _

theorem weaken (h : Pays n m) (hle : r ≤ n) : Pays r m := by
  intro s a t hrun
  exact Nat.le_trans (Nat.add_le_add_left hle _) (h s a t hrun)

theorem bind (hm : Pays n m) (hk : ∀ a, Pays n' (k a)) : Pays (n + n') (m >>= k) := by
  intro s b u h
  obtain ⟨a, t, hfirst, hsecond⟩ := Attempt.of_bind_ok h
  have hfirst := hm s a t hfirst
  have hsecond := hk a t b u hsecond
  omega

theorem bind_free (hm : Pays 0 m) (hk : ∀ a, Pays n (k a)) : Pays n (m >>= k) :=
  (hm.bind hk).weaken (Nat.le_of_eq (Nat.zero_add n).symm)

theorem charge (units : Nat) : Pays units (Allocation.charge units : Attempt (Allocation σ) Unit) := by
  intro s a t h
  rw [Allocation.charge] at h
  split at h
  · cases h
  · cases h
    exact Nat.le_of_eq (Nat.sub_add_cancel (by omega))

theorem chargeField (units : Nat) :
    Pays nodeWeight (Allocation.chargeField units : Attempt (Allocation σ) Unit) := by
  have hweight : nodeWeight ≤ saturate (units + nodeWeight) :=
    Nat.le_min.mpr ⟨Nat.le_add_left _ _, by decide⟩
  intro s a t h
  exact Nat.le_trans (Nat.add_le_add_left hweight _) (charge _ s a t h)

theorem draw [RandomSource σ] {low high : Nat} (h : low ≤ high) :
    Pays 0 (Allocation.draw low high h : Attempt (Allocation σ) _) := by
  intro s a t hrun
  cases hrun
  exact Nat.le_refl _

theorem opened (units : Nat) (opened : Opened) :
    Pays nodeWeight (do Allocation.chargeField units; return opened : Attempt (Allocation σ) Opened) :=
  (chargeField units).bind fun _ => .pure opened

theorem close (opened : Opened) (fields : List Field) :
    Pays 0 (opened.close fields : Attempt (Allocation σ) Field) :=
  get.bind_free fun _ => ((charge _).bind fun _ => pure _).weaken (Nat.zero_le _)

end Pays

variable [RandomSource σ]

theorem Template.pays_enter (template : Template) (low high : Nat) :
    Pays nodeWeight (template.enter low high : Attempt (Allocation σ) Opened) := by
  rw [enter]
  split
  · refine (Pays.draw _).bind_free fun copies => ?_
    exact ((Pays.chargeField 0).bind fun _ => Pays.get.bind_free fun _ => .opened 0 _).weaken
      (Nat.le_add_left _ _)
  · exact .throw _

theorem Arena.pays_enterTemplate (arena : Arena) (id : TemplateId) (low high : Nat) :
    Pays nodeWeight (arena.enterTemplate id low high : Attempt (Allocation σ) Opened) := by
  rw [enterTemplate]
  split
  · exact .throw _
  · exact Template.pays_enter _ low high

theorem Decl.pays_enter (arena : Arena) (decl : Decl) :
    Pays nodeWeight (decl.enter arena : Attempt (Allocation σ) Opened) := by
  cases decl with
  | block filler size name => exact .opened size _
  | auto filler size name => exact .opened size _
  | bitfield filler width name => exact .opened width _
  | ranged filler low high name =>
    rw [enter]
    split
    · exact (Pays.draw _).bind_free fun size => .opened size.val _
    · exact .throw _
  | compound children name => exact .opened 0 _
  | choice children name =>
    rw [enter]
    split
    · exact (Pays.chargeField 0).bind fun _ => (Pays.draw _).bind_free fun pick => .pure _
    · exact .throw _
  | bits children name => exact .opened 0 _
  | copies number low high => exact arena.pays_enterTemplate number low high

/-- Whatever is called, it pays before it calls anything itself. -/
theorem Request.pays_enter (arena : Arena) (request : Request) :
    Pays nodeWeight (request.enter arena : Attempt (Allocation σ) Opened) := by
  cases request with
  | decl id =>
    rw [enter, Arena.enterDecl]
    split
    · exact .throw _
    · exact Decl.pays_enter arena _
  | template id low high => exact arena.pays_enterTemplate id low high
  | root fields => exact .opened 0 _

end Pays

/-! ## The recursion and its calls -/

/-- A call, the allowance when it is made, and what it leaves of it when it has paid, before anything is
laid out below it; nothing if it does not get that far. -/
structure Arena.Call where
  node : Request
  before : Nat
  left : Option Nat

namespace Arena
variable {σ : Type} [RandomSource σ]

mutual

/-- What is called to lay out a node, in the order of the calls, and how that ends. -/
inductive Traced (arena : Arena) :
    Request → Allocation σ → List Call → Except Fault Field → Allocation σ → Prop where
  | refused {node s fault t} (henter : node.enter arena s = (.error fault, t)) :
      Traced arena node s [⟨node, s.remaining, none⟩] (.error fault) t
  | broken {node s opened t calls fault u} (henter : node.enter arena s = (.ok opened, t))
      (hall : TracedAll arena opened.children t calls (.error fault) u) :
      Traced arena node s (⟨node, s.remaining, some t.remaining⟩ :: calls) (.error fault) u
  | closed {node s opened t calls fields u outcome v} (henter : node.enter arena s = (.ok opened, t))
      (hall : TracedAll arena opened.children t calls (.ok fields) u)
      (hclose : opened.close fields u = (outcome, v)) :
      Traced arena node s (⟨node, s.remaining, some t.remaining⟩ :: calls) outcome v

/-- The same for declarations that are laid out in turn. -/
inductive TracedAll (arena : Arena) :
    List DeclId → Allocation σ → List Call → Except Fault (List Field) → Allocation σ → Prop where
  | nil {s} : TracedAll arena [] s [] (.ok []) s
  | failed {id ids s calls fault t} (head : Traced arena (.decl id) s calls (.error fault) t) :
      TracedAll arena (id :: ids) s calls (.error fault) t
  | stopped {id ids s calls field t calls' fault u}
      (head : Traced arena (.decl id) s calls (.ok field) t)
      (tail : TracedAll arena ids t calls' (.error fault) u) :
      TracedAll arena (id :: ids) s (calls ++ calls') (.error fault) u
  | cons {id ids s calls field t calls' fields u}
      (head : Traced arena (.decl id) s calls (.ok field) t)
      (tail : TracedAll arena ids t calls' (.ok fields) u) :
      TracedAll arena (id :: ids) s (calls ++ calls') (.ok (field :: fields)) u

end

variable {arena : Arena}

/-! ### What is left -/

/- The outcome is given by an equation, so that the recursion can go through calls that fail. -/
mutual

/-- A node that is laid out has taken `nodeWeight` at least, and all calls it led to have paid. -/
theorem Traced.leaves : ∀ {node : Request} {s t : Allocation σ} {calls : List Call}
    {outcome : Except Fault Field}, arena.Traced node s calls outcome t →
    ∀ {field : Field}, outcome = .ok field →
    t.remaining + nodeWeight ≤ s.remaining ∧
      ∀ call ∈ calls, ∃ left, call.left = some left ∧ t.remaining ≤ left
  | _, _, _, _, _, .refused _ | _, _, _, _, _, .broken _ _ => by
      intro hok
      cases hok
  | node, _, _, _, _, .closed henter hall hclose => by
      rintro rfl
      have hpays := node.pays_enter arena _ _ _ henter
      have hcloses := Pays.close _ _ _ _ _ hclose
      obtain ⟨hle, hcalls⟩ := hall.leaves rfl
      refine ⟨by omega, List.forall_mem_cons.mpr ⟨⟨_, rfl, by omega⟩, fun call hcall => ?_⟩⟩
      obtain ⟨left, hleft, hmore⟩ := hcalls call hcall
      exact ⟨left, hleft, by omega⟩

theorem TracedAll.leaves : ∀ {ids : List DeclId} {s t : Allocation σ} {calls : List Call}
    {outcome : Except Fault (List Field)}, arena.TracedAll ids s calls outcome t →
    ∀ {fields : List Field}, outcome = .ok fields →
    t.remaining ≤ s.remaining ∧
      ∀ call ∈ calls, ∃ left, call.left = some left ∧ t.remaining ≤ left
  | _, _, _, _, _, .nil => fun _ => ⟨Nat.le_refl _, List.forall_mem_nil _⟩
  | _, _, _, _, _, .failed _ | _, _, _, _, _, .stopped _ _ => by
      intro hok
      cases hok
  | _, _, _, _, _, .cons head tail => by
      intro _
      obtain ⟨hhead, hcalls⟩ := head.leaves rfl
      obtain ⟨htail, hcalls'⟩ := tail.leaves rfl
      refine ⟨by omega, List.forall_mem_append.mpr ⟨fun call hcall => ?_, hcalls'⟩⟩
      obtain ⟨left, hleft, hmore⟩ := hcalls call hcall
      exact ⟨left, hleft, by omega⟩

end

/-! ### The recursion ends -/

theorem exists_tracedAll {limit : Nat}
    (h : ∀ id (s : Allocation σ), s.remaining < limit →
      ∃ calls outcome t, arena.Traced (.decl id) s calls outcome t)
    (ids : List DeclId) (s : Allocation σ) (hs : s.remaining < limit) :
    ∃ calls outcome t, arena.TracedAll ids s calls outcome t := by
  induction ids generalizing s with
  | nil => exact ⟨_, _, _, .nil⟩
  | cons id ids ih =>
    obtain ⟨calls, outcome, t, head⟩ := h id s hs
    cases outcome with
    | error fault => exact ⟨_, _, _, .failed head⟩
    | ok field =>
      obtain ⟨hpaid, -⟩ := head.leaves rfl
      obtain ⟨calls', outcome, u, tail⟩ := ih t (by omega)
      cases outcome with
      | error fault => exact ⟨_, _, _, .stopped head tail⟩
      | ok fields => exact ⟨_, _, _, .cons head tail⟩

/-- The recursion ends in every arena, whatever its declarations refer to. The induction is on the
allowance, of which a node has spent `nodeWeight` when it calls the nodes below. -/
theorem exists_traced (arena : Arena) (node : Request) (s : Allocation σ) :
    ∃ calls outcome t, arena.Traced node s calls outcome t := by
  induction hn : s.remaining using Nat.strong_induction_on generalizing node s with
  | h n ih =>
    rcases henter : node.enter arena s with ⟨fault | opened, t⟩
    · exact ⟨_, _, _, .refused henter⟩
    · have hpays := node.pays_enter arena _ _ _ henter
      have hweight : 0 < nodeWeight := by decide
      obtain ⟨calls, outcome, u, hall⟩ := exists_tracedAll
        (fun id s hs => ih s.remaining hs (.decl id) s rfl) opened.children t (by omega : t.remaining < n)
      cases outcome with
      | error fault => exact ⟨_, _, _, .broken henter hall⟩
      | ok fields => exact ⟨_, _, _, .closed henter hall rfl⟩

/-! ### The bounded recursion -/

/- Depth and allowance vary together: what is left below a node pays for one level less. -/
mutual

/-- As many levels as the allowance can pay for are enough. -/
theorem Traced.run_eq : ∀ {node : Request} {s t : Allocation σ} {calls : List Call}
    {outcome : Except Fault Field}, arena.Traced node s calls outcome t → ∀ {depth : Nat},
    s.remaining < nodeWeight * (depth + 1) →
    (node.enter arena >>= Opened.run (arena.allocateDecl depth)) s = (outcome, t)
  | _, _, _, _, _, .refused henter, _, _ => Attempt.bind_of_error henter _
  | node, _, _, _, _, .broken henter hall, depth, hdepth => by
      have hpays := node.pays_enter arena _ _ _ henter
      rw [Nat.mul_succ] at hdepth
      rw [Attempt.bind_of_ok henter]
      exact Attempt.bind_of_error (hall.mapM_eq (by omega)) _
  | node, _, _, _, _, .closed henter hall hclose, depth, hdepth => by
      have hpays := node.pays_enter arena _ _ _ henter
      rw [Nat.mul_succ] at hdepth
      rw [Attempt.bind_of_ok henter, Opened.run, Attempt.bind_of_ok (hall.mapM_eq (by omega)), hclose]

theorem TracedAll.mapM_eq : ∀ {ids : List DeclId} {s t : Allocation σ} {calls : List Call}
    {outcome : Except Fault (List Field)}, arena.TracedAll ids s calls outcome t → ∀ {depth : Nat},
    s.remaining < nodeWeight * depth → ids.mapM (arena.allocateDecl depth) s = (outcome, t)
  | _, _, _, _, _, .nil, _, _ => rfl
  | _, _, _, _, _, .failed head, depth + 1, hdepth => by
      rw [List.mapM_cons, allocateDecl_succ]
      exact Attempt.bind_of_error (head.run_eq hdepth) _
  | _, _, _, _, _, .stopped head tail, depth + 1, hdepth => by
      obtain ⟨hpaid, -⟩ := head.leaves rfl
      rw [List.mapM_cons, allocateDecl_succ, Attempt.bind_of_ok (head.run_eq hdepth)]
      exact Attempt.bind_of_error (tail.mapM_eq (by omega)) _
  | _, _, _, _, _, .cons head tail, depth + 1, hdepth => by
      obtain ⟨hpaid, -⟩ := head.leaves rfl
      rw [List.mapM_cons, allocateDecl_succ, Attempt.bind_of_ok (head.run_eq hdepth),
        Attempt.bind_of_ok (tail.mapM_eq (by omega))]
      rfl

end

theorem Traced.agree {node : Request} {s t t' : Allocation σ} {calls calls' : List Call}
    {outcome outcome' : Except Fault Field} (h : arena.Traced node s calls outcome t)
    (h' : arena.Traced node s calls' outcome' t') : outcome = outcome' ∧ t = t' := by
  have hdepth : s.remaining < nodeWeight * (s.remaining + 1) :=
    Nat.lt_of_lt_of_le (Nat.lt_succ_self _) (Nat.le_mul_of_pos_left _ (by decide))
  exact Prod.mk.inj ((h.run_eq hdepth).symm.trans (h'.run_eq hdepth))

mutual

/-- The calls that a node leads to are determined by the node, the allowance and the source. -/
theorem Traced.calls_eq : ∀ {node : Request} {s t t' : Allocation σ} {calls calls' : List Call}
    {outcome outcome' : Except Fault Field}, arena.Traced node s calls outcome t →
    arena.Traced node s calls' outcome' t' → calls = calls'
  | _, _, _, _, _, _, _, _, .refused henter, h' => by
      cases h' with
      | refused henter' => rfl
      | broken henter' hall' | closed henter' hall' hclose' =>
        rw [henter] at henter'
        cases henter'
  | _, _, _, _, _, _, _, _, .broken henter hall, h' | _, _, _, _, _, _, _, _, .closed henter hall _, h' => by
      cases h' with
      | refused henter' =>
        rw [henter] at henter'
        cases henter'
      | broken henter' hall' | closed henter' hall' hclose' =>
        rw [henter] at henter'
        cases henter'
        rw [hall.calls_eq hall']

theorem TracedAll.calls_eq : ∀ {ids : List DeclId} {s t t' : Allocation σ} {calls calls' : List Call}
    {outcome outcome' : Except Fault (List Field)}, arena.TracedAll ids s calls outcome t →
    arena.TracedAll ids s calls' outcome' t' → calls = calls'
  | _, _, _, _, _, _, _, _, .nil, h' => by
      cases h'
      rfl
  | _, _, _, _, _, _, _, _, .failed head, h' => by
      cases h' with
      | failed head' => exact head.calls_eq head'
      | stopped head' tail' | cons head' tail' => cases (head.agree head').1
  | _, _, _, _, _, _, _, _, .stopped head tail, h' | _, _, _, _, _, _, _, _, .cons head tail, h' => by
      cases h' with
      | failed head' => cases (head.agree head').1
      | stopped head' tail' | cons head' tail' =>
        obtain ⟨-, rfl⟩ := head.agree head'
        rw [head.calls_eq head', tail.calls_eq tail']

end

end Arena

/-! ## How the allowance is spent -/

/-- Calls under an allowance: each pays `nodeWeight` at least, and finds no more than any call before it
has left, whether that is still under way or done. -/
structure Spends (allowance : Nat) (calls : List Arena.Call) : Prop where
  before_le : ∀ call ∈ calls, call.before ≤ allowance
  pays : ∀ call ∈ calls, ∀ left, call.left = some left → left + nodeWeight ≤ call.before
  descends : calls.Pairwise fun call later => ∃ left, call.left = some left ∧ later.before ≤ left

namespace Spends
variable {allowance left : Nat} {calls calls' : List Arena.Call}

theorem cons {call : Arena.Call} (hbefore : call.before ≤ allowance) (hleft : call.left = some left)
    (hpays : left + nodeWeight ≤ call.before) (h : Spends left calls) :
    Spends allowance (call :: calls) where
  before_le := by
    refine List.forall_mem_cons.mpr ⟨hbefore, fun later hlater => ?_⟩
    have hlater := h.before_le later hlater
    omega
  pays := by
    refine List.forall_mem_cons.mpr ⟨fun other hother => ?_, h.pays⟩
    obtain rfl := Option.some.inj (hleft.symm.trans hother)
    exact hpays
  descends := List.pairwise_cons.mpr
    ⟨fun later hlater => ⟨left, hleft, h.before_le later hlater⟩, h.descends⟩

theorem append (h : Spends allowance calls) (hle : left ≤ allowance)
    (hcalls : ∀ call ∈ calls, ∃ rest, call.left = some rest ∧ left ≤ rest) (h' : Spends left calls') :
    Spends allowance (calls ++ calls') where
  before_le := List.forall_mem_append.mpr
    ⟨h.before_le, fun later hlater => Nat.le_trans (h'.before_le later hlater) hle⟩
  pays := List.forall_mem_append.mpr ⟨h.pays, h'.pays⟩
  descends := by
    refine List.pairwise_append.mpr ⟨h.descends, h'.descends, fun call hcall later hlater => ?_⟩
    obtain ⟨rest, hrest, hle⟩ := hcalls call hcall
    exact ⟨rest, hrest, Nat.le_trans (h'.before_le later hlater) hle⟩

/-- What is left after a call goes to those that follow it. -/
theorem tail {call : Arena.Call} (h : Spends allowance (call :: calls)) (hleft : call.left = some left) :
    Spends left calls where
  before_le later hlater := by
    obtain ⟨rest, hrest, hle⟩ := (List.pairwise_cons.mp h.descends).1 later hlater
    obtain rfl := Option.some.inj (hleft.symm.trans hrest)
    exact hle
  pays later hlater := h.pays later (List.mem_cons_of_mem _ hlater)
  descends := (List.pairwise_cons.mp h.descends).2

/-- A call that does not pay is the last one. -/
theorem eq_nil_of_unpaid {call : Arena.Call} (h : Spends allowance (call :: calls))
    (hleft : call.left = none) : calls = [] := by
  cases calls with
  | nil => rfl
  | cons later calls =>
    obtain ⟨rest, hrest, -⟩ := (List.pairwise_cons.mp h.descends).1 later List.mem_cons_self
    rw [hleft] at hrest
    cases hrest

/-- As each call that pays takes `nodeWeight` at least, the allowance bounds how many there are. -/
theorem countP_le (h : Spends allowance calls) :
    nodeWeight * calls.countP (·.left.isSome) ≤ allowance := by
  induction calls generalizing allowance with
  | nil => exact Nat.zero_le _
  | cons call calls ih =>
    have hbefore := h.before_le call List.mem_cons_self
    cases hleft : call.left with
    | none =>
      rw [h.eq_nil_of_unpaid hleft, List.countP_cons_of_neg (by simp [hleft])]
      exact Nat.zero_le _
    | some left =>
      have hpays := h.pays call List.mem_cons_self left hleft
      have hrest := ih (h.tail hleft)
      rw [List.countP_cons_of_pos (by simp [hleft]), Nat.mul_succ]
      omega

end Spends

namespace Arena
variable {σ : Type} [RandomSource σ] {arena : Arena}

mutual

theorem Traced.spends : ∀ {node : Request} {s t : Allocation σ} {calls : List Call}
    {outcome : Except Fault Field}, arena.Traced node s calls outcome t → Spends s.remaining calls
  | _, _, _, _, _, .refused henter => ⟨by simp, by simp, List.pairwise_singleton _ _⟩
  | node, _, _, _, _, .broken henter hall | node, _, _, _, _, .closed henter hall _ =>
      hall.spends.cons (Nat.le_refl _) rfl (node.pays_enter arena _ _ _ henter)

theorem TracedAll.spends : ∀ {ids : List DeclId} {s t : Allocation σ} {calls : List Call}
    {outcome : Except Fault (List Field)}, arena.TracedAll ids s calls outcome t →
    Spends s.remaining calls
  | _, _, _, _, _, .nil => ⟨List.forall_mem_nil _, List.forall_mem_nil _, .nil⟩
  | _, _, _, _, _, .failed head => head.spends
  | _, _, _, _, _, .stopped head tail | _, _, _, _, _, .cons head tail => by
      obtain ⟨hpaid, hcalls⟩ := head.leaves rfl
      exact head.spends.append (by omega) hcalls tail.spends

end

end Arena

/-! ## Requests -/

namespace Request
variable {σ : Type} [RandomSource σ] {arena : Arena}

/-- A request is its own node, with levels enough below it. -/
theorem exists_run_eq (arena : Arena) (request : Request) :
    ∃ depth, maxUnits < nodeWeight * (depth + 1) ∧
      ∀ s : σ, request.run arena s =
        Arena.withAllowance (request.enter arena >>= Opened.run (arena.allocateDecl depth)) s := by
  have hmore : maxUnits < nodeWeight * (Arena.maxDepth + 1) := by decide
  cases request with
  | decl id =>
    refine ⟨maxUnits / nodeWeight, maxUnits_lt_maxDepth, fun s => ?_⟩
    rw [run, Arena.allocate, Arena.maxDepth, allocateDecl_succ]
  | template id low high =>
    refine ⟨Arena.maxDepth, hmore, fun s => ?_⟩
    rw [run, Arena.allocateTemplate, enter, Arena.enterTemplate]
    cases arena.templates[id]? with
    | none => rfl
    | some template => simp only [instantiate_eq]
  | root fields =>
    refine ⟨Arena.maxDepth, hmore, fun s => ?_⟩
    rw [run, Arena.allocateRoot, enter]
    simp [Opened.run_free]

/-- The calls of a request: the recursion without bound ends in what the request gives, each call pays
before it makes others and finds less than any before it has found, and no more of them pay than
`maxUnits` allow. -/
structure Halts (arena : Arena) (request : Request) (s : σ) (calls : List Arena.Call) : Prop where
  ends : ∃ left, arena.Traced request ⟨maxUnits, s⟩ calls (request.run arena s).1
    ⟨left, (request.run arena s).2⟩
  unique : ∀ others outcome t, arena.Traced request ⟨maxUnits, s⟩ others outcome t → others = calls
  spends : Spends maxUnits calls
  count : calls.countP (·.left.isSome) ≤ maxUnits / nodeWeight

theorem exists_halts (arena : Arena) (request : Request) (s : σ) :
    ∃ calls, request.Halts arena s calls := by
  obtain ⟨calls, outcome, ⟨left, source⟩, htraced⟩ := arena.exists_traced request ⟨maxUnits, s⟩
  obtain ⟨depth, hdepth, hrun⟩ := exists_run_eq (σ := σ) arena request
  have hends : request.run arena s = (outcome, source) := by
    rw [hrun, Arena.withAllowance, htraced.run_eq hdepth]
  refine ⟨calls, ⟨left, ?_⟩, fun others outcome' t h => h.calls_eq htraced, htraced.spends, ?_⟩
  · rw [hends]
    exact htraced
  · rw [Nat.le_div_iff_mul_le (by decide), Nat.mul_comm]
    exact htraced.spends.countP_le

end Request
end ArtifactLayout
