import Mathlib.Logic.Relation
import ArtifactLayout.Proofs.Arena.Budget
import ArtifactLayout.Proofs.Factory.Stock

/-! # How a factory grows

Every operation of a factory is a series of four changes: a table of names changes, a filler is added,
a declaration is added that fits what is there, or a template is added. Nothing that is there is ever
changed or taken away. Whatever the four changes keep holds after any operation.
-/

namespace ArtifactLayout
set_option autoImplicit false

/-! ## Segments -/

namespace Segment
variable {α : Type} {test : α → Bool}

theorem mem_of_mem_joinRun {x : α} {segments : List (Segment α)} {segment : Segment α}
    (h : segment ∈ joinRun x segments) :
    segment ∈ segments ∨ segment = run [x] ∨ ∃ items, run items ∈ segments ∧ segment = run (x :: items) := by
  cases segments with
  | nil => exact .inr (.inl (by simpa [joinRun] using h))
  | cons first rest =>
    cases first with
    | single y =>
      rcases List.mem_cons.mp h with h | h
      · exact .inr (.inl h)
      · exact .inl h
    | run items =>
      rcases List.mem_cons.mp h with h | h
      · exact .inr (.inr ⟨items, List.mem_cons_self, h⟩)
      · exact .inl (List.mem_cons_of_mem _ h)

/-- What stands alone fails the test. -/
theorem single_mem_ofList {xs : List α} {x : α} (h : single x ∈ ofList test xs) :
    x ∈ xs ∧ test x = false := by
  induction xs with
  | nil => cases h
  | cons y ys ih =>
    rw [ofList] at h
    split at h
    · rcases mem_of_mem_joinRun h with h | h | ⟨items, -, h⟩
      · exact ⟨List.mem_cons_of_mem y (ih h).1, (ih h).2⟩
      · cases h
      · cases h
    · rename_i htest
      rcases List.mem_cons.mp h with h | h
      · obtain rfl : x = y := by injection h
        exact ⟨List.mem_cons_self, by simpa using htest⟩
      · exact ⟨List.mem_cons_of_mem y (ih h).1, (ih h).2⟩

theorem mem_of_run_mem_ofList {xs items : List α} (h : run items ∈ ofList test xs) :
    ∀ x ∈ items, x ∈ xs := by
  induction xs generalizing items with
  | nil => cases h
  | cons y ys ih =>
    intro x hx
    rw [ofList] at h
    split at h
    · rcases mem_of_mem_joinRun h with h | h | ⟨rest, hrest, h⟩
      · exact List.mem_cons_of_mem y (ih h x hx)
      · obtain rfl : items = [y] := by injection h
        obtain rfl := List.mem_singleton.mp hx
        exact List.mem_cons_self
      · obtain rfl : items = y :: rest := by injection h
        rcases List.mem_cons.mp hx with rfl | hx
        · exact List.mem_cons_self
        · exact List.mem_cons_of_mem y (ih hrest x hx)
    · rcases List.mem_cons.mp h with h | h
      · cases h
      · exact List.mem_cons_of_mem y (ih h x hx)

end Segment

/-- The declaration with a number is there, and is not a bitfield. -/
def Arena.IsByte (arena : Arena) (id : DeclId) : Prop :=
  ∃ decl, arena.decls[id]? = some decl ∧ decl.isBitfield = false

theorem Arena.IsByte.lt {arena : Arena} {id : DeclId} (h : arena.IsByte id) :
    id < arena.decls.size := by
  obtain ⟨decl, hdecl, -⟩ := h
  exact (Array.getElem?_eq_some_iff.mp hdecl).1

namespace Factory
open Attempt

/-! ## Changes -/

/-- What a declaration that is added asks for. That the children of a bit group are there is asked
for only if `strict` holds, since a factory does not look at them. -/
def Fits (strict : Prop) (f : Factory) : Decl → Prop
  | .block _ _ _ | .auto _ _ _ | .bitfield _ _ _ => True
  | .ranged _ low high _ => low ≤ high
  | .compound children _ => ∀ c ∈ children, f.arena.IsByte c
  | .choice children _ => children ≠ [] ∧ ∀ c ∈ children, f.arena.IsByte c
  | .bits children _ => strict → ∀ c ∈ children, c < f.arena.decls.size
  | .copies template low high => low ≤ high ∧ ∃ name, (name, template) ∈ f.templates

inductive Change (strict : Prop) : Factory → Factory → Prop where
  | tables {f g} (harena : g.arena = f.arena) (htemplates : g.templates = f.templates) :
      Change strict f g
  | filler {f} (filler : Filler) :
      Change strict f { f with arena.fillers := f.arena.fillers.push filler }
  | decl {f decl} (h : f.Fits strict decl) :
      Change strict f { f with arena.decls := f.arena.decls.push decl }
  | template {f name children} (h : ∀ c ∈ children, f.arena.IsByte c) :
      Change strict f { f with
        arena.templates := f.arena.templates.push ⟨name, children⟩
        templates := (name, f.arena.templates.size) :: f.templates }

/-- One factory becomes another by some changes. -/
abbrev Leads (strict : Prop) : Factory → Factory → Prop := Relation.ReflTransGen (Change strict)

variable {strict : Prop} {f g : Factory}

theorem getElem?_push_of_some {α : Type} {items : Array α} {i : Nat} {a : α} (h : items[i]? = some a)
    (b : α) : (items.push b)[i]? = some a := by
  have hi := (Array.getElem?_eq_some_iff.mp h).1
  rw [Array.getElem?_push_lt hi, ← Array.getElem?_eq_getElem hi, h]

/-- What is there stays. -/
structure Within (f g : Factory) : Prop where
  decl : ∀ (id : DeclId) (decl : Decl), f.arena.decls[id]? = some decl →
    g.arena.decls[id]? = some decl
  template : ∀ (id : TemplateId) (template : Template), f.arena.templates[id]? = some template →
    g.arena.templates[id]? = some template
  entry : ∀ entry ∈ f.templates, entry ∈ g.templates
  fillers_le : f.arena.fillers.size ≤ g.arena.fillers.size

namespace Within
variable {h : Factory}

theorem refl (f : Factory) : Within f f :=
  ⟨fun _ _ h => h, fun _ _ h => h, fun _ h => h, Nat.le_refl _⟩

theorem trans (w : Within f g) (w' : Within g h) : Within f h :=
  ⟨fun id decl hd => w'.decl id decl (w.decl id decl hd),
    fun id template ht => w'.template id template (w.template id template ht),
    fun entry he => w'.entry entry (w.entry entry he), Nat.le_trans w.fillers_le w'.fillers_le⟩

theorem decls_le (w : Within f g) : f.arena.decls.size ≤ g.arena.decls.size := by
  by_contra hlt
  have hlast := w.decl g.arena.decls.size _ (Array.getElem?_eq_getElem (Nat.lt_of_not_le hlt))
  rw [Array.getElem?_eq_none (Nat.le_refl _)] at hlast
  cases hlast

theorem isByte (w : Within f g) {id : DeclId} (h : f.arena.IsByte id) : g.arena.IsByte id := by
  obtain ⟨decl, hdecl, hbyte⟩ := h
  exact ⟨decl, w.decl id decl hdecl, hbyte⟩

theorem fits (w : Within f g) {decl : Decl} (h : f.Fits strict decl) : g.Fits strict decl := by
  cases decl with
  | block filler size name => trivial
  | auto filler size name => trivial
  | bitfield filler width name => trivial
  | ranged filler low high name => exact h
  | compound children name => exact fun c hc => w.isByte (h c hc)
  | choice children name => exact ⟨h.1, fun c hc => w.isByte (h.2 c hc)⟩
  | bits children name => exact fun hs c hc => Nat.lt_of_lt_of_le (h hs c hc) w.decls_le
  | copies template low high =>
    obtain ⟨hle, name, hentry⟩ := h
    exact ⟨hle, name, w.entry _ hentry⟩

end Within

theorem Change.within (h : Change strict f g) : Within f g := by
  cases h with
  | tables harena htemplates =>
    refine ⟨fun _ _ h => ?_, fun _ _ h => ?_, fun _ h => ?_, ?_⟩
    · rwa [harena]
    · rwa [harena]
    · rwa [htemplates]
    · rw [harena]
  | filler filler => exact ⟨fun _ _ h => h, fun _ _ h => h, fun _ h => h, by simp⟩
  | decl _ =>
    exact ⟨fun _ _ h => getElem?_push_of_some h _, fun _ _ h => h, fun _ h => h, Nat.le_refl _⟩
  | template _ =>
    exact ⟨fun _ _ h => h, fun _ _ h => getElem?_push_of_some h _,
      fun _ h => List.mem_cons_of_mem _ h, Nat.le_refl _⟩

theorem Leads.within (h : Leads strict f g) : Within f g := by
  induction h with
  | refl => exact .refl f
  | tail _ hchange ih => exact ih.trans hchange.within

/-! ## What changes keep -/

/-- A factory whose declarations and templates fit what is there. -/
structure Sound (strict : Prop) (f : Factory) : Prop where
  fits : ∀ decl ∈ f.arena.decls, f.Fits strict decl
  entry_lt : ∀ entry ∈ f.templates, entry.2 < f.arena.templates.size
  template_byte : ∀ template ∈ f.arena.templates, ∀ c ∈ template.children, f.arena.IsByte c
  /-- What a declaration lays out was declared before it. -/
  below_lt : strict → ∀ (id : DeclId) (decl : Decl), f.arena.decls[id]? = some decl →
    ∀ c ∈ f.arena.below decl, c < id

/-- What a declaration that fits lays out is there. -/
theorem Sound.below_lt_size (h : Sound strict f) (hs : strict) {decl : Decl}
    (hfits : f.Fits strict decl) : ∀ c ∈ f.arena.below decl, c < f.arena.decls.size := by
  intro c hc
  cases decl with
  | block | auto | bitfield | ranged => cases hc
  | compound children name => exact (hfits c hc).lt
  | choice children name => exact (hfits.2 c hc).lt
  | bits children name => exact hfits hs c hc
  | copies number low high =>
    obtain ⟨-, name, hentry⟩ := hfits
    have hnumber := h.entry_lt _ hentry
    rw [Arena.below, Array.getElem?_eq_getElem hnumber] at hc
    exact (h.template_byte _ (Array.getElem_mem hnumber) c hc).lt

/-- Later templates are not those that a declaration refers to. -/
theorem Sound.below_eq (h : Sound strict f) (w : Within f g) {decl : Decl}
    (hfits : f.Fits strict decl) : g.arena.below decl = f.arena.below decl := by
  cases decl with
  | copies number low high =>
    obtain ⟨-, name, hentry⟩ := hfits
    have hnumber := Array.getElem?_eq_getElem (h.entry_lt _ hentry)
    rw [Arena.below, Arena.below, hnumber, w.template _ _ hnumber]
  | block | auto | bitfield | ranged | compound | choice | bits => rfl

theorem Sound.change (h : Sound strict f) (hchange : Change strict f g) : Sound strict g := by
  have w := hchange.within
  have hbelow : strict → ∀ (id : DeclId) (decl : Decl), f.arena.decls[id]? = some decl →
      ∀ c ∈ g.arena.below decl, c < id := by
    intro hs id decl hdecl c hc
    rw [h.below_eq w (h.fits decl (Array.mem_of_getElem? hdecl))] at hc
    exact h.below_lt hs id decl hdecl c hc
  cases hchange with
  | tables harena htemplates =>
    refine ⟨fun decl hdecl => ?_, ?_, ?_, ?_⟩
    · rw [harena] at hdecl
      exact w.fits (h.fits decl hdecl)
    · rw [harena, htemplates]
      exact h.entry_lt
    · intro template htemplate c hc
      rw [harena] at htemplate
      exact w.isByte (h.template_byte template htemplate c hc)
    · intro hs id decl hdecl
      exact hbelow hs id decl (harena ▸ hdecl)
  | filler filler =>
    exact ⟨fun decl hdecl => w.fits (h.fits decl hdecl), h.entry_lt,
      fun template htemplate c hc => w.isByte (h.template_byte template htemplate c hc), hbelow⟩
  | @decl added hadded =>
    refine ⟨fun decl hdecl => ?_, h.entry_lt,
      fun template htemplate c hc => w.isByte (h.template_byte template htemplate c hc), ?_⟩
    · rcases Array.mem_push.mp hdecl with hdecl | rfl
      · exact w.fits (h.fits decl hdecl)
      · exact w.fits hadded
    · intro hs id decl hdecl c hc
      dsimp only at hdecl
      rw [Array.getElem?_push] at hdecl
      split at hdecl
      · rename_i hid
        obtain rfl := Option.some.inj hdecl
        rw [hid]
        exact h.below_lt_size hs hadded c (h.below_eq w hadded ▸ hc)
      · exact hbelow hs id decl hdecl c hc
  | @template name children hchildren =>
    refine ⟨fun decl hdecl => w.fits (h.fits decl hdecl), ?_, ?_, hbelow⟩
    · intro entry hentry
      rw [Array.size_push]
      rcases List.mem_cons.mp hentry with rfl | hentry
      · exact Nat.lt_succ_self _
      · exact Nat.lt_succ_of_lt (h.entry_lt entry hentry)
    · intro template htemplate c hc
      rcases Array.mem_push.mp htemplate with htemplate | rfl
      · exact w.isByte (h.template_byte template htemplate c hc)
      · exact w.isByte (hchildren c hc)

theorem Sound.leads (h : Sound strict f) (hleads : Leads strict f g) : Sound strict g := by
  induction hleads with
  | refl => exact h
  | tail _ hchange ih => exact ih.change hchange

theorem sound_ofRegistry (registry : Registry) : Sound strict (ofRegistry registry) := by
  constructor
  · exact fun decl hdecl => absurd hdecl (Array.not_mem_empty decl)
  · exact fun entry hentry => absurd hentry List.not_mem_nil
  · exact fun template htemplate => absurd htemplate (Array.not_mem_empty template)
  · exact fun _ id decl hdecl => absurd (Array.mem_of_getElem? hdecl) (Array.not_mem_empty decl)

end Factory
end ArtifactLayout
